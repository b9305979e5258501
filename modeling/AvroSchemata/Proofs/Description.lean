import Mathlib.Data.List.Forall2
import AvroSchemata.Schema.Outline
import AvroSchemata.Shape
set_option autoImplicit false

namespace AvroSchemata

variable {τ : Type} {shapes : τ → Shape τ} {t : τ}

/-- What a field has to say of its type: the name if there is one, else the schema in full. -/
inductive Mentions (shapes : τ → Shape τ) (t : τ) : FieldForm → Prop where
  | name (named : (shapes t).kind.isNamed = true) : Mentions shapes t (.byName (shapes t).fullName)
  | primitive {p : Primitive} (kind : (shapes t).kind = .primitive p) :
      Mentions shapes t (.inFull (.primitive p))
  | optional {item : τ} (kind : (shapes t).kind = .optional item) :
      Mentions shapes t (.inFull (.union [some (shapes item).fullName, none]))

def Fields.Agree (shapes : τ → Shape τ) (fields : Fields) (members : List (Member τ)) : Prop :=
  List.Forall₂ (fun field m => field.1 = m.name ∧ Mentions shapes m.type field.2)
    fields.forms members

/-- A schema that says in full what the shape of a type says. -/
inductive Describes (shapes : τ → Shape τ) (t : τ) : Schema → Prop where
  | primitive {p : Primitive} (kind : (shapes t).kind = .primitive p) :
      Describes shapes t (.primitive p)
  | optional {item : τ} (kind : (shapes t).kind = .optional item) :
      Describes shapes t (.union [some (shapes item).fullName, none])
  | logical {l : Logical} {name : String} {size : Nat} (kind : (shapes t).kind = .logical l)
      (short : l.alias? = some name) (bytes : l.size? = some size) :
      Describes shapes t (.fixed name size)
  | enumeration {symbols : List String} (kind : (shapes t).kind = .enumeration symbols) :
      Describes shapes t (.enumerationOf (shapes t).resolved symbols)
  | record {fields : Fields} (kind : (shapes t).kind = .record)
      (agree : fields.Agree shapes (shapes t).members) :
      Describes shapes t (.recordOf (shapes t).resolved fields)

@[simp] theorem Fields.map_fst_forms (fields : Fields) :
    fields.forms.map Prod.fst = fields.names := by
  induction fields using Fields.rec (motive_1 := fun _ => True) with
  | nil => rfl
  | named _ _ _ ih => simp [forms, names, ih]
  | inline _ _ _ _ ih => simp [forms, names, ih]
  | _ => trivial

theorem Fields.Agree.names_eq {fields : Fields} {members : List (Member τ)}
    (h : fields.Agree shapes members) : fields.names = members.map Member.name := by
  rw [← map_fst_forms]
  unfold Fields.Agree at h
  generalize fields.forms = forms at h
  induction h with
  | nil => rfl
  | cons hm _ ih => simp [hm.1, ih]

theorem Shape.fullName_logical {l : Logical} {name : String} (kind : (shapes t).kind = .logical l)
    (short : l.alias? = some name) : (shapes t).fullName = name := by
  have ha : (shapes t).alias? = some name := by simp [alias?, kind, short]
  rw [fullName, resolved_of_alias? ha]
  rfl

theorem Describes.definedName?_eq {s : Schema} (h : Describes shapes t s)
    (named : (shapes t).kind.isNamed = true) : s.definedName? = some (shapes t).fullName := by
  cases h with
  | primitive kind => simp [kind, Kind.isNamed] at named
  | optional kind => simp [kind, Kind.isNamed] at named
  | logical kind short => simp [Schema.definedName?, Shape.fullName_logical kind short]
  | enumeration => exact Schema.definedName?_enumerationOf _ _
  | record => exact Schema.definedName?_recordOf _ _

theorem Describes.mentions {s : Schema} (h : Describes shapes t s) : Mentions shapes t s.form := by
  have byName (named : (shapes t).kind.isNamed = true) : Mentions shapes t s.form := by
    rw [Schema.form, h.definedName?_eq named]
    exact .name named
  cases h with
  | primitive kind => exact .primitive kind
  | optional kind => exact .optional kind
  | logical kind => exact byName (by rw [kind]; rfl)
  | enumeration kind => exact byName (by rw [kind]; rfl)
  | record kind => exact byName (by rw [kind]; rfl)

theorem Describes.ne_reference {s : Schema} (h : Describes shapes t s) (name : String)
    (space? : Option String) : s ≠ .reference name space? := by
  intro he
  subst he
  cases h

end AvroSchemata
