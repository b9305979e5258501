import AvroSchemata.Json
import AvroSchemata.Shape
import AvroSchemata.TypePath
set_option autoImplicit false

/-!
Schemas, and their text as JSON. A record has ordered fields, and the type of a field is either the
full name of a type that is defined elsewhere or a schema of its own. In the text it is a string in
either case, so that each level of nesting escapes the quotation marks of the level below.
-/

namespace AvroSchemata

mutual

/-- A schema. A union has the names of its branches, and `none` for null. -/
inductive Schema where
  | primitive (p : Primitive)
  | reference (name : String) (space? : Option String)
  | fixed (name : String) (size : Nat)
  | enumeration (name space : String) (symbols : List String)
  | record (name : String) (space? : Option String) (fields : Fields)
  | union (branches : List (Option String))
  deriving DecidableEq, Repr

inductive Fields where
  | nil
  | named (name type : String) (rest : Fields)
  | inline (name : String) (schema : Schema) (rest : Fields)
  deriving DecidableEq, Repr

end

def Fields.size : Fields → Nat
  | .nil => 0
  | .named _ _ rest | .inline _ _ rest => rest.size + 1

def Fields.names : Fields → List String
  | .nil => []
  | .named name _ rest | .inline name _ rest => name :: rest.names

namespace Schema

def referenceTo (f : FullName) : Schema := .reference f.name f.space?

def recordOf (f : FullName) (fields : Fields) : Schema := .record f.name f.space? fields

/-- An enumeration keeps its namespace, be it empty or not. -/
def enumerationOf (f : FullName) (symbols : List String) : Schema :=
  .enumeration f.name f.space symbols

def nullable (type : String) : Schema := .union [some type, none]

end Schema

def spaceMember : Option String → List (String × Json)
  | none => []
  | some space => [("namespace", .str space)]

def fieldJson (name type : String) : Json := .obj [("name", .str name), ("type", .str type)]

def branchJson : Option String → Json
  | none => .null
  | some name => .str name

mutual

def Schema.toJson : Schema → Json
  | .primitive p => .obj [("type", .str p.name)]
  | .reference name space? => .obj (("type", .str name) :: spaceMember space?)
  | .fixed name size => .obj [("type", .str "fixed"), ("size", .num size), ("name", .str name)]
  | .enumeration name space symbols =>
    .obj [("type", .str "enum"), ("name", .str name), ("namespace", .str space),
      ("symbols", .arr (symbols.map .str))]
  | .record name space? fields =>
    .obj (("type", .str "record") :: ("name", .str name) :: spaceMember space? ++
      [("fields", .arr fields.toJson)])
  | .union branches => .arr (branches.map branchJson)

def Fields.toJson : Fields → List Json
  | .nil => []
  | .named name type rest => fieldJson name type :: rest.toJson
  | .inline name schema rest => fieldJson name (schema.toJson.text .compact) :: rest.toJson

end

def Schema.text (layout : Json.Layout) (s : Schema) : String := s.toJson.text layout

end AvroSchemata
