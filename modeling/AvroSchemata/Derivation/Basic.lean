import AvroSchemata.Derivation.Outcome
import AvroSchemata.Schema.Basic
import AvroSchemata.Shape
set_option autoImplicit false

/-!
The derivation of a schema from the shapes of types. It goes depth first through the members of
records in order. A named type that has been met is written by its name, and a record counts as
met before its members do, so that types which are parts of themselves have finite schemas.
-/

namespace AvroSchemata

variable {τ : Type}

def Shape.literal? (s : Shape τ) : Option Schema :=
  match s.kind with
  | .primitive p => some (.primitive p)
  | _ => none

def Logical.schema (l : Logical) (fullName : String) : Except Failure Schema :=
  match l.alias?, l.size? with
  | some name, some size => .ok (.fixed name size)
  | _, _ => .error (.unsupported fullName)

/-- The schema of an optional type names the type inside and does not look into it. -/
def Shape.nullable (inside : Shape τ) : Schema := .nullable inside.fullName

/-- The schema of a type by itself; a record is left without fields. -/
def Shape.outerSchema (shapes : τ → Shape τ) (s : Shape τ) : Except Failure Schema :=
  match s.kind with
  | .primitive p => .ok (.primitive p)
  | .logical l => l.schema s.fullName
  | .optional item => .ok (shapes item).nullable
  | .enumeration symbols => .ok (.enumerationOf s.resolved symbols)
  | .sequence _ => .error (.unimplemented .sequence s.fullName)
  | .map _ _ => .error (.unimplemented .map s.fullName)
  | .record => .ok (.recordOf s.resolved .nil)

/-- A type that has been met and that has a name to write in its place. -/
def Known (shapes : τ → Shape τ) (seen : Visited τ) (t : τ) : Prop :=
  (shapes t).kind.isNamed = true ∧ t ∈ seen

variable [DecidableEq τ]

instance (shapes : τ → Shape τ) (seen : Visited τ) (t : τ) : Decidable (Known shapes seen t) :=
  inferInstanceAs (Decidable (_ ∧ _))

def fieldsOf (shapes : τ → Shape τ) (schemaOf : τ → Visited τ → Outcome τ Schema) :
    List (Member τ) → Visited τ → Outcome τ Fields
  | [], seen => ⟨.ok .nil, seen⟩
  | m :: ms, seen =>
    if Known shapes seen m.type then
      (fieldsOf shapes schemaOf ms seen).map (.named m.name (shapes m.type).fullName)
    else
      (schemaOf m.type seen).andThen fun schema seen =>
        (fieldsOf shapes schemaOf ms seen).map (.inline m.name schema)

theorem fieldsOf_known {shapes : τ → Shape τ} {schemaOf : τ → Visited τ → Outcome τ Schema}
    {m : Member τ} {ms : List (Member τ)} {seen : Visited τ} (h : Known shapes seen m.type) :
    fieldsOf shapes schemaOf (m :: ms) seen =
      (fieldsOf shapes schemaOf ms seen).map (.named m.name (shapes m.type).fullName) := if_pos h

theorem fieldsOf_inline {shapes : τ → Shape τ} {schemaOf : τ → Visited τ → Outcome τ Schema}
    {m : Member τ} {ms : List (Member τ)} {seen : Visited τ} (h : ¬ Known shapes seen m.type) :
    fieldsOf shapes schemaOf (m :: ms) seen =
      (schemaOf m.type seen).andThen fun schema seen =>
        (fieldsOf shapes schemaOf ms seen).map (.inline m.name schema) := if_neg h

/-- The schema of a type that lies `limit - room` levels deep. -/
def derive (shapes : τ → Shape τ) (limit : Nat) : (room : Nat) → τ → Visited τ → Outcome τ Schema
  | room, t, seen =>
    match (shapes t).literal? with
    | some schema => ⟨.ok schema, seen.insert t⟩
    | none =>
      if Known shapes seen t then ⟨.ok (.referenceTo (shapes t).resolved), seen⟩
      else
        match room with
        | 0 => ⟨.error (.tooDeep limit (shapes t).fullName), seen⟩
        | room + 1 =>
          if (shapes t).kind.isRecord then
            (fieldsOf shapes (derive shapes limit room) (shapes t).members (seen.insert t)).map
              (.recordOf (shapes t).resolved)
          else
            match (shapes t).outerSchema shapes with
            | .ok schema => ⟨.ok schema, seen.insert t⟩
            | .error e => ⟨.error e, seen⟩

section Cases

variable {shapes : τ → Shape τ} {limit room : Nat} {t : τ} {seen : Visited τ}

theorem derive_of_literal {schema : Schema} (h : (shapes t).literal? = some schema) :
    derive shapes limit room t seen = ⟨.ok schema, seen.insert t⟩ := by
  unfold derive
  rw [h]

theorem derive_of_known (h : Known shapes seen t) :
    derive shapes limit room t seen = ⟨.ok (.referenceTo (shapes t).resolved), seen⟩ := by
  have hl : (shapes t).literal? = none := by
    unfold Shape.literal?
    split
    · next hk => simp [Known, hk, Kind.isNamed] at h
    · rfl
  unfold derive
  rw [hl]
  exact if_pos h

theorem derive_zero (hl : (shapes t).literal? = none) (hk : ¬ Known shapes seen t) :
    derive shapes limit 0 t seen = ⟨.error (.tooDeep limit (shapes t).fullName), seen⟩ := by
  unfold derive
  rw [hl]
  exact if_neg hk

theorem derive_record (hr : (shapes t).kind = .record) (hs : t ∉ seen) :
    derive shapes limit (room + 1) t seen =
      (fieldsOf shapes (derive shapes limit room) (shapes t).members (seen.insert t)).map
        (.recordOf (shapes t).resolved) := by
  have hl : (shapes t).literal? = none := by simp [Shape.literal?, hr]
  have hk : ¬ Known shapes seen t := fun h => hs h.2
  rw [derive, hl]
  simp [hk, hr, Kind.isRecord]

theorem derive_outer (hl : (shapes t).literal? = none) (hr : (shapes t).kind ≠ .record)
    (hk : ¬ Known shapes seen t) :
    derive shapes limit (room + 1) t seen =
      match (shapes t).outerSchema shapes with
      | .ok schema => ⟨.ok schema, seen.insert t⟩
      | .error e => ⟨.error e, seen⟩ := by
  have hr : (shapes t).kind.isRecord = false := by
    rwa [← Bool.not_eq_true, Kind.isRecord_eq_true_iff]
  rw [derive, hl]
  simp [hk, hr]

end Cases

/-- How deep types other than primitives may lie, and how schemas are written. -/
structure Settings where
  maxDepth : Nat := 512
  layout : Json.Layout := .compact
  deriving DecidableEq, Repr

namespace Settings

def render (settings : Settings) (schema : Schema) : String := schema.text settings.layout

/-- The schema of a type, where the types in `seen` have been met before. -/
def schemaIn (settings : Settings) (shapes : τ → Shape τ) (t : τ) (seen : Visited τ) :
    Outcome τ Schema :=
  derive shapes settings.maxDepth settings.maxDepth t seen

def textIn (settings : Settings) (shapes : τ → Shape τ) (t : τ) (seen : Visited τ) :
    Outcome τ String :=
  (settings.schemaIn shapes t seen).map settings.render

def schema (settings : Settings) (shapes : τ → Shape τ) (t : τ) : Except Failure Schema :=
  (settings.schemaIn shapes t .empty).result

def text (settings : Settings) (shapes : τ → Shape τ) (t : τ) : Except Failure String :=
  (settings.textIn shapes t .empty).result

theorem text_eq_map_render (settings : Settings) (shapes : τ → Shape τ) (t : τ) :
    settings.text shapes t = (settings.schema shapes t).map settings.render := rfl

end Settings

end AvroSchemata
