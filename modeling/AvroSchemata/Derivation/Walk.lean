import Mathlib.Logic.Relation
import AvroSchemata.Derivation.Basic
set_option autoImplicit false

/-!
Where a derivation goes: the types that it has to look at, the order in which it comes upon them
whatever becomes of them, and the steps that it takes until there are none left or it fails.
-/

namespace AvroSchemata

variable {τ : Type}

def Opens (shapes : τ → Shape τ) (seen : Visited τ) (t u : τ) : Prop :=
  (shapes t).kind = .record ∧ t ∉ seen ∧ ∃ m ∈ (shapes t).members, m.type = u

/-- The types that a type leads to, itself among them. -/
def Reaches (shapes : τ → Shape τ) (seen : Visited τ) : τ → τ → Prop :=
  Relation.ReflTransGen (Opens shapes seen)

theorem Opens.mono {shapes : τ → Shape τ} {seen seen' : Visited τ} (h : ∀ t ∈ seen, t ∈ seen')
    {t u : τ} (o : Opens shapes seen' t u) : Opens shapes seen t u :=
  ⟨o.1, fun ht => o.2.1 (h t ht), o.2.2⟩

theorem Reaches.mono {shapes : τ → Shape τ} {seen seen' : Visited τ}
    (h : ∀ t ∈ seen, t ∈ seen') {t u : τ} (r : Reaches shapes seen' t u) :
    Reaches shapes seen t u :=
  Relation.ReflTransGen.mono (fun _ _ => Opens.mono h) _ _ r

/-- A type that the walk comes upon, with the levels that are left below it. It is known if it has
a name and has been met. -/
structure Occurrence (τ : Type) where
  type : τ
  room : Nat
  known : Bool
  deriving DecidableEq, Repr

def walkMembers (walkFrom : τ → List τ → List (Occurrence τ)) :
    List (Member τ) → List τ → List (Occurrence τ)
  | [], _ => []
  | m :: ms, met =>
    walkFrom m.type met ++
      walkMembers walkFrom ms (met ++ (walkFrom m.type met).map Occurrence.type)

variable [DecidableEq τ]

/-- The occurrences from a type on, from the top down, after those of the types in `met`. Records
that are not known lead to their members, as long as there are levels left. -/
def walk (shapes : τ → Shape τ) : (room : Nat) → τ → (met : List τ) → List (Occurrence τ)
  | room, t, met =>
    if (shapes t).kind.isNamed = true ∧ t ∈ met then [⟨t, room, true⟩]
    else
      ⟨t, room, false⟩ ::
        match room, (shapes t).kind with
        | room + 1, .record => walkMembers (walk shapes room) (shapes t).members (met ++ [t])
        | _, _ => []

section Cases

variable {shapes : τ → Shape τ} {room : Nat} {t : τ} {met : List τ}

theorem walk_of_known (named : (shapes t).kind.isNamed = true) (old : t ∈ met) :
    walk shapes room t met = [⟨t, room, true⟩] := by
  unfold walk
  exact if_pos ⟨named, old⟩

theorem walk_zero (new : ¬ ((shapes t).kind.isNamed = true ∧ t ∈ met)) :
    walk shapes 0 t met = [⟨t, 0, false⟩] := by
  unfold walk
  exact if_neg new

theorem walk_of_leaf (new : ¬ ((shapes t).kind.isNamed = true ∧ t ∈ met))
    (leaf : (shapes t).kind ≠ .record) : walk shapes room t met = [⟨t, room, false⟩] := by
  unfold walk
  rw [if_neg new]
  split
  · next hk => exact absurd hk leaf
  · rfl

theorem walk_record (kind : (shapes t).kind = .record) (new : t ∉ met) :
    walk shapes (room + 1) t met = ⟨t, room + 1, false⟩ ::
      walkMembers (walk shapes room) (shapes t).members (met ++ [t]) := by
  unfold walk
  rw [if_neg fun h => new h.2, kind]

end Cases

/-- Why a type has no schema where the walk comes upon it, if it has none. That it lies too deep
goes before what it is. -/
def Occurrence.failure? (shapes : τ → Shape τ) (limit : Nat) (o : Occurrence τ) : Option Failure :=
  if o.known then none
  else
    match o.room, (shapes o.type).kind with
    | _, .primitive _ => none
    | 0, _ => some (.tooDeep limit (shapes o.type).fullName)
    | _ + 1, .sequence _ => some (.unimplemented .sequence (shapes o.type).fullName)
    | _ + 1, .map _ _ => some (.unimplemented .map (shapes o.type).fullName)
    | _ + 1, .logical .duration => some (.unsupported (shapes o.type).fullName)
    | _ + 1, _ => none

/-- The steps for the members of a record, each with those that come up below it. Nothing comes
up below a type that is written by its name, and a failure is the last step. -/
def memberSteps (shapes : τ → Shape τ) (schemaOf : τ → Visited τ → Outcome τ Schema)
    (stepsOf : τ → Visited τ → Nat) : List (Member τ) → Visited τ → Nat
  | [], _ => 0
  | m :: ms, seen =>
    if Known shapes seen m.type then 1 + memberSteps shapes schemaOf stepsOf ms seen
    else
      match (schemaOf m.type seen).result with
      | .ok _ =>
        1 + stepsOf m.type seen +
          memberSteps shapes schemaOf stepsOf ms (schemaOf m.type seen).seen
      | .error _ => 1 + stepsOf m.type seen

def steps (shapes : τ → Shape τ) (limit : Nat) : (room : Nat) → τ → Visited τ → Nat
  | 0, _, _ => 0
  | room + 1, t, seen =>
    if (shapes t).kind = .record ∧ t ∉ seen then
      memberSteps shapes (derive shapes limit room) (steps shapes limit room) (shapes t).members
        (seen.insert t)
    else 0

section Cases

variable {shapes : τ → Shape τ} {limit room : Nat} {t : τ} {seen : Visited τ}

theorem steps_record (kind : (shapes t).kind = .record) (new : t ∉ seen) :
    steps shapes limit (room + 1) t seen =
      memberSteps shapes (derive shapes limit room) (steps shapes limit room) (shapes t).members
        (seen.insert t) := if_pos ⟨kind, new⟩

theorem steps_leaf (leaf : ¬ ((shapes t).kind = .record ∧ t ∉ seen)) :
    steps shapes limit room t seen = 0 := by
  cases room with
  | zero => rfl
  | succ room => exact if_neg leaf

end Cases

end AvroSchemata
