import AvroSchemata.Schema.Basic
set_option autoImplicit false

namespace AvroSchemata

inductive Part where
  | primitive (p : Primitive)
  | reference (name : String) (space? : Option String)
  | fixed (name : String) (size : Nat)
  | enumeration (name space : String) (symbols : List String)
  | record (name : String) (space? : Option String) (fieldCount : Nat)
  | union (branches : List (Option String))
  | named (field type : String)
  | inline (field : String)
  deriving DecidableEq, Repr

structure Entry where
  depth : Nat
  part : Part
  deriving DecidableEq, Repr

mutual

def Schema.outline (depth : Nat) : Schema → List Entry
  | .primitive p => [⟨depth, .primitive p⟩]
  | .reference name space? => [⟨depth, .reference name space?⟩]
  | .fixed name size => [⟨depth, .fixed name size⟩]
  | .enumeration name space symbols => [⟨depth, .enumeration name space symbols⟩]
  | .record name space? fields => ⟨depth, .record name space? fields.size⟩ :: fields.outline depth
  | .union branches => [⟨depth, .union branches⟩]

def Fields.outline (depth : Nat) : Fields → List Entry
  | .nil => []
  | .named name type rest => ⟨depth, .named name type⟩ :: rest.outline depth
  | .inline name schema rest =>
    ⟨depth, .inline name⟩ :: schema.outline (depth + 1) ++ rest.outline depth

end

theorem Schema.outline_add (extra depth : Nat) (s : Schema) :
    s.outline (depth + extra) = (s.outline depth).map fun e => ⟨e.depth + extra, e.part⟩ := by
  induction s using Schema.rec
    (motive_2 := fun fs => ∀ depth, fs.outline (depth + extra) =
      (fs.outline depth).map fun e => ⟨e.depth + extra, e.part⟩) generalizing depth with
  | record _ _ _ ih => simp [outline, ih]
  | named _ _ _ ih => simp [Fields.outline, ih]
  | inline _ _ _ ih₁ ih₂ =>
    simp only [Fields.outline, Nat.add_right_comm _ extra 1, ih₁, ih₂, List.map_cons,
      List.map_append, List.cons_append]
  | _ => rfl

def Schema.definedName? : Schema → Option String
  | .fixed name _ => some name
  | .enumeration name space _ => some (FullName.mk space name).text
  | .record name space? _ => some (FullName.mk (space?.getD "") name).text
  | .primitive _ | .reference _ _ | .union _ => none

mutual

def Schema.definitions : Schema → List Schema
  | .fixed name size => [.fixed name size]
  | .enumeration name space symbols => [.enumeration name space symbols]
  | .record name space? fields => .record name space? fields :: fields.definitions
  | .primitive _ | .reference _ _ | .union _ => []

def Fields.definitions : Fields → List Schema
  | .nil => []
  | .named _ _ rest => rest.definitions
  | .inline _ schema rest => schema.definitions ++ rest.definitions

end

/-- The full names that a schema defines, with repetitions. -/
def Schema.definedNames (s : Schema) : List String := s.definitions.filterMap Schema.definedName?

/-- What a field says of its type: a full name, or else a schema that defines none. -/
inductive FieldForm where
  | byName (fullName : String)
  | inFull (schema : Schema)
  deriving DecidableEq, Repr

/-- A definition that stands in place says no more than its name. -/
def Schema.form (s : Schema) : FieldForm :=
  match s.definedName? with
  | some name => .byName name
  | none => .inFull s

def Fields.forms : Fields → List (String × FieldForm)
  | .nil => []
  | .named name type rest => (name, .byName type) :: rest.forms
  | .inline name schema rest => (name, schema.form) :: rest.forms

theorem Schema.definedName?_recordOf (f : FullName) (fields : Fields) :
    (Schema.recordOf f fields).definedName? = some f.text := by
  obtain ⟨space, name⟩ := f
  by_cases h : space = "" <;> simp [recordOf, definedName?, FullName.space?, h]

theorem Schema.definedName?_enumerationOf (f : FullName) (symbols : List String) :
    (Schema.enumerationOf f symbols).definedName? = some f.text := rfl

end AvroSchemata
