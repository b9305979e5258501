import AvroSchemata.TypePath
set_option autoImplicit false

/-!
The shape of a type: what it is declared as, its kind and its members. Shapes speak about other
types by a type of their names alone, so that a type may be a part of itself.
-/

namespace AvroSchemata

inductive Primitive where
  | string | long | int | float | double | bytes | boolean | null
  deriving DecidableEq, Repr

def Primitive.name : Primitive → String
  | .string => "string"
  | .long => "long"
  | .int => "int"
  | .float => "float"
  | .double => "double"
  | .bytes => "bytes"
  | .boolean => "boolean"
  | .null => "null"

def Primitive.all : List Primitive := [.string, .long, .int, .float, .double, .bytes, .boolean, .null]

def Primitive.ofName? (name : String) : Option Primitive := Primitive.all.find? (·.name == name)

theorem Primitive.ofName?_name (p : Primitive) : Primitive.ofName? p.name = some p := by
  cases p <;> decide

theorem Primitive.name_injective {p q : Primitive} (h : p.name = q.name) : p = q := by
  have hp := Primitive.ofName?_name p
  rw [h, Primitive.ofName?_name q] at hp
  exact (Option.some.inj hp).symm

/-- Value types that are written as a fixed number of bytes. A duration is known, but has no
such form. -/
inductive Logical where
  | guid | decimal | timestamp | duration
  deriving DecidableEq, Repr

def Logical.alias? : Logical → Option String
  | .guid => some "guid"
  | .decimal => some "decimal"
  | .timestamp => some "utcdatetime"
  | .duration => none

def Logical.size? : Logical → Option Nat
  | .guid => some 16
  | .decimal => some 16
  | .timestamp => some 8
  | .duration => none

inductive Kind (τ : Type) where
  | primitive (p : Primitive)
  | logical (l : Logical)
  | optional (item : τ)
  | enumeration (symbols : List String)
  | sequence (item : τ)
  | map (key value : τ)
  | record
  deriving DecidableEq, Repr

variable {τ σ : Type}

/-- Whether a schema of this kind has a name that later occurrences can use in its place. -/
def Kind.isNamed : Kind τ → Bool
  | .logical _ | .enumeration _ | .record => true
  | .primitive _ | .optional _ | .sequence _ | .map _ _ => false

def Kind.isRecord : Kind τ → Bool
  | .record => true
  | .primitive _ | .logical _ | .enumeration _ | .optional _ | .sequence _ | .map _ _ => false

theorem Kind.isRecord_eq_true_iff {k : Kind τ} : k.isRecord = true ↔ k = .record := by
  cases k <;> simp [isRecord]

def Kind.arguments : Kind τ → List τ
  | .optional item | .sequence item => [item]
  | .map key value => [key, value]
  | .primitive _ | .logical _ | .enumeration _ | .record => []

def Kind.mapTypes (f : τ → σ) : Kind τ → Kind σ
  | .primitive p => .primitive p
  | .logical l => .logical l
  | .optional item => .optional (f item)
  | .enumeration symbols => .enumeration symbols
  | .sequence item => .sequence (f item)
  | .map key value => .map (f key) (f value)
  | .record => .record

@[simp] theorem Kind.isNamed_mapTypes (f : τ → σ) (k : Kind τ) :
    (k.mapTypes f).isNamed = k.isNamed := by cases k <;> rfl

@[simp] theorem Kind.arguments_mapTypes (f : τ → σ) (k : Kind τ) :
    (k.mapTypes f).arguments = k.arguments.map f := by cases k <;> rfl

structure Member (τ : Type) where
  name : String
  type : τ
  deriving DecidableEq, Repr

/-- What a type looks like from outside. Members count for records only, and any kind may be
given some. -/
structure Shape (τ : Type) where
  declared : FullName
  kind : Kind τ
  members : List (Member τ) := []
  deriving DecidableEq, Repr

namespace Shape

def primitive (p : Primitive) : Shape τ := ⟨⟨"", p.name⟩, .primitive p, []⟩

def logical (l : Logical) (declared : FullName) : Shape τ := ⟨declared, .logical l, []⟩

def optional (item : τ) : Shape τ := ⟨⟨"core.option", "Option"⟩, .optional item, []⟩

def enumeration (declared : FullName) (symbols : List String) : Shape τ :=
  ⟨declared, .enumeration symbols, []⟩

def sequence (declared : FullName) (item : τ) : Shape τ := ⟨declared, .sequence item, []⟩

def map (declared : FullName) (key value : τ) : Shape τ := ⟨declared, .map key value, []⟩

def record (declared : FullName) : Shape τ := ⟨declared, .record, []⟩

def withMember (s : Shape τ) (name : String) (type : τ) : Shape τ :=
  ⟨s.declared, s.kind, s.members ++ [⟨name, type⟩]⟩

def alias? (s : Shape τ) : Option String :=
  match s.kind with
  | .primitive p => some p.name
  | .logical l => l.alias?
  | _ => none

/-- The name by which schemas know the type. An alias stands in no namespace. -/
def resolved (s : Shape τ) : FullName :=
  match s.alias? with
  | some name => ⟨"", name⟩
  | none => s.declared

def fullName (s : Shape τ) : String := s.resolved.text

theorem resolved_of_alias? {s : Shape τ} {name : String} (h : s.alias? = some name) :
    s.resolved = ⟨"", name⟩ := by simp [resolved, h]

@[simp] theorem resolved_withMember (s : Shape τ) (name : String) (type : τ) :
    (s.withMember name type).resolved = s.resolved := rfl

def mapTypes (f : τ → σ) (s : Shape τ) : Shape σ :=
  ⟨s.declared, s.kind.mapTypes f, s.members.map fun m => ⟨m.name, f m.type⟩⟩

@[simp] theorem alias?_mapTypes (f : τ → σ) (s : Shape τ) : (s.mapTypes f).alias? = s.alias? := by
  obtain ⟨_, kind, _⟩ := s
  cases kind <;> rfl

@[simp] theorem resolved_mapTypes (f : τ → σ) (s : Shape τ) :
    (s.mapTypes f).resolved = s.resolved := by
  rw [resolved, alias?_mapTypes]
  rfl

@[simp] theorem fullName_mapTypes (f : τ → σ) (s : Shape τ) :
    (s.mapTypes f).fullName = s.fullName := by simp [fullName]

end Shape

end AvroSchemata
