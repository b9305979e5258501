import Mathlib.Data.Set.Insert
import AvroSchemata.Derivation.Run
import AvroSchemata.Proofs.Rules
import AvroSchemata.Schema.Outline
set_option autoImplicit false

namespace AvroSchemata

variable {τ : Type}

/-- What stands in the place of a type, if these types come before it. -/
inductive Placement.Fits (shapes : τ → Shape τ) (met : Set τ) : Placement τ → Prop where
  | name {t : τ} (named : (shapes t).kind.isNamed = true) (old : t ∈ met) :
      Placement.Fits shapes met ⟨t, .name (shapes t).fullName⟩
  | full {t : τ} {s : Schema} (new : (shapes t).kind.isNamed = true → t ∉ met)
      (full : Describes shapes t s) : Placement.Fits shapes met ⟨t, .schema s⟩

section Fits

variable {shapes : τ → Shape τ} {met : Set τ} {p : Placement τ}

theorem Placement.Fits.named_iff (h : p.Fits shapes met)
    (named : (shapes p.type).kind.isNamed = true) :
    p.written = .name (shapes p.type).fullName ↔ p.type ∈ met := by
  cases h with
  | name _ old => simp [old]
  | full new => simp [new named]

theorem Placement.Fits.defined (h : p.Fits shapes met) (new : p.type ∉ met) :
    ∃ d, p.written = .schema d ∧ Describes shapes p.type d := by
  cases h with
  | name _ old => exact absurd old new
  | full _ full => exact ⟨_, rfl, full⟩

theorem Placement.Fits.in_full (h : p.Fits shapes met)
    (unnamed : (shapes p.type).kind.isNamed = false) :
    ∃ d, p.written = .schema d ∧ Describes shapes p.type d := by
  cases h with
  | name named => simp [named] at unnamed
  | full _ full => exact ⟨_, rfl, full⟩

theorem Placement.Fits.fields (h : p.Fits shapes met) {name : String} {space? : Option String}
    {fields : Fields} (hw : p.written = .schema (.record name space? fields)) :
    (shapes p.type).kind = .record ∧
      fields.names = (shapes p.type).members.map Member.name := by
  cases h with
  | name => simp at hw
  | full _ full =>
    cases hw
    cases full with
    | record kind agree => exact ⟨kind, agree.names_eq⟩

end Fits

def placed (ps : List (Placement τ)) : Set τ := {t | ∃ p ∈ ps, p.type = t}

def FitInOrder (shapes : τ → Shape τ) : Set τ → List (Placement τ) → Prop
  | _, [] => True
  | met, p :: ps => p.Fits shapes met ∧ FitInOrder shapes (insert p.type met) ps

section Lists

variable {shapes : τ → Shape τ} {met : Set τ}

@[simp] theorem placed_nil : placed ([] : List (Placement τ)) = ∅ := by simp [placed]

@[simp] theorem placed_cons (p : Placement τ) (ps : List (Placement τ)) :
    placed (p :: ps) = insert p.type (placed ps) := by
  ext t
  simp [placed, eq_comm]

@[simp] theorem placed_append (ps qs : List (Placement τ)) :
    placed (ps ++ qs) = placed ps ∪ placed qs := by
  induction ps with
  | nil => simp
  | cons p ps ih => simp [ih, Set.insert_union]

theorem fitInOrder_append {ps qs : List (Placement τ)} :
    FitInOrder shapes met (ps ++ qs) ↔
      FitInOrder shapes met ps ∧ FitInOrder shapes (met ∪ placed ps) qs := by
  induction ps generalizing met with
  | nil => simp [FitInOrder]
  | cons p ps ih =>
    have hs : insert p.type met ∪ placed ps = met ∪ placed (p :: ps) := by
      rw [placed_cons, Set.insert_union, Set.union_insert]
    rw [List.cons_append, FitInOrder, ih, hs, FitInOrder, and_assoc]

theorem FitInOrder.fits {before after : List (Placement τ)} {p : Placement τ}
    (h : FitInOrder shapes met (before ++ p :: after)) : p.Fits shapes (met ∪ placed before) :=
  (fitInOrder_append.1 h).2.1

theorem FitInOrder.fits_of_mem {ps : List (Placement τ)} {p : Placement τ}
    (h : FitInOrder shapes met ps) (hp : p ∈ ps) : ∃ met', p.Fits shapes met' := by
  obtain ⟨before, after, rfl⟩ := List.append_of_mem hp
  exact ⟨_, h.fits⟩

end Lists

def Visited.types (seen : Visited τ) : Set τ := {t | t ∈ seen}

@[simp] theorem Visited.mem_types {seen : Visited τ} {t : τ} : t ∈ seen.types ↔ t ∈ seen := .rfl

@[simp] theorem Visited.types_insert [DecidableEq τ] (seen : Visited τ) (t : τ) :
    (seen.insert t).types = Insert.insert t seen.types := by
  ext u
  simp

theorem Describes.placements_eq {shapes : τ → Shape τ} {t : τ} {s : Schema}
    (full : Describes shapes t s) (leaf : (shapes t).kind ≠ .record) :
    s.placements shapes t = [⟨t, .schema s⟩] := by
  cases full with
  | record kind => exact absurd kind leaf
  | _ => rfl

theorem Schema.placements_recordOf (shapes : τ → Shape τ) (t : τ) (f : FullName)
    (fields : Fields) : (Schema.recordOf f fields).placements shapes t =
      ⟨t, .schema (.recordOf f fields)⟩ :: fields.placements shapes (shapes t).members := rfl

theorem Describes.fits {shapes : τ → Shape τ} {seen : Visited τ} {t : τ} {s : Schema}
    (full : Describes shapes t s) (new : ¬ Known shapes seen t) :
    Placement.Fits shapes seen.types ⟨t, .schema s⟩ :=
  .full (fun named old => new ⟨named, old⟩) full

/-- Definitions and names in the schema of a type are placed by first occurrence, after the types
that had been met before. -/
structure PlacedByFirstOccurrence (shapes : τ → Shape τ) (seen : Visited τ) (t : τ) (s : Schema) :
    Prop where
  reference_iff : (∃ name space?, s = .reference name space?) ↔ Known shapes seen t
  reference : Known shapes seen t → s = .referenceTo (shapes t).resolved
  named_iff : ∀ before p after, s.placements shapes t = before ++ p :: after → before ≠ [] →
    (shapes p.type).kind.isNamed = true →
      (p.written = .name (shapes p.type).fullName ↔
        p.type ∈ seen ∨ ∃ q ∈ before, q.type = p.type)
  defined : ∀ before p after, s.placements shapes t = before ++ p :: after → before ≠ [] →
    ¬ (p.type ∈ seen ∨ ∃ q ∈ before, q.type = p.type) →
      ∃ d, p.written = .schema d ∧ Describes shapes p.type d
  in_full : ∀ p ∈ s.placements shapes t, (shapes p.type).kind.isNamed = false →
    ∃ d, p.written = .schema d ∧ Describes shapes p.type d
  no_reference_below : ∀ e ∈ (s.outline 0).tail, ∀ name space?, e.part ≠ .reference name space?
  fields : ∀ p ∈ s.placements shapes t, ∀ name space? fields,
    p.written = .schema (.record name space? fields) →
      (shapes p.type).kind = .record ∧ fields.names = (shapes p.type).members.map Member.name

theorem placedByFirstOccurrence_of_known {shapes : τ → Shape τ} {seen : Visited τ} {t : τ}
    (known : Known shapes seen t) :
    PlacedByFirstOccurrence shapes seen t (.referenceTo (shapes t).resolved) where
  reference_iff := ⟨fun _ => known, fun _ => ⟨_, _, rfl⟩⟩
  reference _ := rfl
  named_iff before p after hs hb := by
    obtain ⟨q, before, rfl⟩ := List.exists_cons_of_ne_nil hb
    simp [Schema.placements, Schema.referenceTo] at hs
  defined before p after hs hb := by
    obtain ⟨q, before, rfl⟩ := List.exists_cons_of_ne_nil hb
    simp [Schema.placements, Schema.referenceTo] at hs
  in_full p hp unnamed := by
    simp only [Schema.placements, Schema.referenceTo, List.mem_singleton] at hp
    simp [hp, known.1] at unnamed
  no_reference_below := by simp [Schema.outline, Schema.referenceTo]
  fields p hp name space? fields hw := by
    simp only [Schema.placements, Schema.referenceTo, List.mem_singleton] at hp
    simp [hp] at hw

variable [DecidableEq τ] {shapes : τ → Shape τ}

mutual

theorem Derives.fitInOrder {room : Nat} {t : τ} {seen seen' : Visited τ} {s : Schema} :
    Derives shapes room t seen s seen' → ¬ Known shapes seen t →
      FitInOrder shapes seen.types (s.placements shapes t) ∧
        seen'.types = seen.types ∪ placed (s.placements shapes t)
  | .primitive kind, new => by
    have full : Describes shapes t _ := .primitive kind
    rw [full.placements_eq (by simp [kind])]
    exact ⟨⟨full.fits new, trivial⟩, by simp⟩
  | .known known, new => absurd known new
  | .leaf _ leaf full, new => by
    rw [full.placements_eq leaf]
    exact ⟨⟨full.fits new, trivial⟩, by simp⟩
  | .record kind _ inside, new => by
    obtain ⟨fit, met⟩ := inside.fitInOrder
    rw [Visited.types_insert] at fit met
    rw [Schema.placements_recordOf]
    refine ⟨⟨(Describes.record kind inside.agree).fits new, fit⟩, ?_⟩
    rw [met, placed_cons, Set.insert_union, Set.union_insert]

theorem DerivesFields.fitInOrder {room : Nat} {ms : List (Member τ)} {seen seen' : Visited τ}
    {fields : Fields} : DerivesFields shapes room ms seen fields seen' →
      FitInOrder shapes seen.types (fields.placements shapes ms) ∧
        seen'.types = seen.types ∪ placed (fields.placements shapes ms)
  | .nil => by simp [Fields.placements, FitInOrder]
  | .named (m := m) known after => by
    obtain ⟨fit, met⟩ := after.fitInOrder
    -- the place of a name adds no type to those before it
    have old : insert m.type seen.types = seen.types := Set.insert_eq_of_mem known.2
    refine ⟨⟨.name known.1 known.2, ?_⟩, ?_⟩
    · rwa [old]
    · rw [met, Fields.placements, placed_cons, Set.union_insert, ← Set.insert_union, old]
  | .inline new first after => by
    obtain ⟨fit, met⟩ := first.fitInOrder new
    obtain ⟨fit', met'⟩ := after.fitInOrder
    rw [met] at fit' met'
    rw [Fields.placements]
    exact ⟨fitInOrder_append.2 ⟨fit, fit'⟩, by rw [met', placed_append, Set.union_assoc]⟩

end

mutual

theorem Derives.ne_reference {room : Nat} {t : τ} {seen seen' : Visited τ} {s : Schema} :
    Derives shapes room t seen s seen' → ¬ Known shapes seen t →
      ∀ depth, ∀ e ∈ s.outline depth, ∀ name space?, e.part ≠ .reference name space?
  | .primitive _, _ => by simp [Schema.outline]
  | .known known, new => absurd known new
  | .leaf _ leaf full, _ => by
    cases full with
    | record kind => exact absurd kind leaf
    | _ => simp [Schema.outline, Schema.enumerationOf]
  | .record _ _ inside, _ => by
    intro depth e he
    rw [Schema.recordOf, Schema.outline] at he
    obtain rfl | he := List.mem_cons.1 he
    · simp
    · exact inside.ne_reference depth e he

theorem DerivesFields.ne_reference {room : Nat} {ms : List (Member τ)} {seen seen' : Visited τ}
    {fields : Fields} : DerivesFields shapes room ms seen fields seen' →
      ∀ depth, ∀ e ∈ fields.outline depth, ∀ name space?, e.part ≠ .reference name space?
  | .nil => by simp [Fields.outline]
  | .named _ after => by
    intro depth e he
    rw [Fields.outline] at he
    obtain rfl | he := List.mem_cons.1 he
    · simp
    · exact after.ne_reference depth e he
  | .inline new first after => by
    intro depth e he
    rw [Fields.outline, List.cons_append] at he
    obtain rfl | he := List.mem_cons.1 he
    · simp
    obtain he | he := List.mem_append.1 he
    · exact first.ne_reference new (depth + 1) e he
    · exact after.ne_reference depth e he

end

theorem Derives.placedByFirstOccurrence {room : Nat} {t : τ} {seen seen' : Visited τ} {s : Schema}
    (h : Derives shapes room t seen s seen') : PlacedByFirstOccurrence shapes seen t s := by
  by_cases known : Known shapes seen t
  · rw [h.eq_reference known]
    exact placedByFirstOccurrence_of_known known
  have fit := (h.fitInOrder known).1
  have met_iff (before : List (Placement τ)) (u : τ) :
      u ∈ seen.types ∪ placed before ↔ u ∈ seen ∨ ∃ q ∈ before, q.type = u := .rfl
  refine ⟨⟨?_, fun h => absurd h known⟩, fun h => absurd h known, ?_, ?_, ?_, ?_, ?_⟩
  · intro he
    obtain ⟨name, space?, he⟩ := he
    exact absurd he ((h.describes known).ne_reference name space?)
  · intro before p after hs _ named
    rw [hs] at fit
    rw [fit.fits.named_iff named, met_iff]
  · intro before p after hs _ new
    rw [hs] at fit
    exact fit.fits.defined (by rwa [met_iff])
  · intro p hp unnamed
    obtain ⟨met, hf⟩ := fit.fits_of_mem hp
    exact hf.in_full unnamed
  · intro e he
    exact h.ne_reference known 0 e (List.mem_of_mem_tail he)
  · intro p hp name space? fields hw
    obtain ⟨met, hf⟩ := fit.fits_of_mem hp
    exact hf.fields hw

/-- Whatever comes out of a derivation is placed by first occurrence, from any set of types that
had been met before and for any limit. -/
theorem derive_placedByFirstOccurrence (shapes : τ → Shape τ) (limit : Nat) (t : τ)
    (seen : Visited τ) {s : Schema} (h : (derive shapes limit limit t seen).result = .ok s) :
    PlacedByFirstOccurrence shapes seen t s :=
  (derives_of_result h).placedByFirstOccurrence

theorem derive_placedByFirstOccurrence_club :
    (derive club 3 3 0 (.ofList [7, 4])).result =
      .ok (clubTeam.prune club (.ofList [7, 4]) 0) ∧
    PlacedByFirstOccurrence club (.ofList [7, 4]) 0 (clubTeam.prune club (.ofList [7, 4]) 0) := by
  have h : (derive club 3 3 0 (.ofList [7, 4])).result =
      .ok (clubTeam.prune club (.ofList [7, 4]) 0) := by decide
  exact ⟨h, derive_placedByFirstOccurrence club 3 0 (.ofList [7, 4]) h⟩

end AvroSchemata
