import Mathlib.Logic.Function.Basic
import AvroSchemata.Derivation.Walk
import AvroSchemata.Proofs.Rules
import AvroSchemata.Proofs.Simulation
set_option autoImplicit false

namespace AvroSchemata

variable {τ : Type}

/-- Kinds with the same to say in a schema. What a sequence or a map holds is not said. -/
inductive Kind.Agrees : Kind τ → Kind τ → Prop where
  | primitive (p : Primitive) : Kind.Agrees (.primitive p) (.primitive p)
  | logical (l : Logical) : Kind.Agrees (.logical l) (.logical l)
  | optional (item : τ) : Kind.Agrees (.optional item) (.optional item)
  | enumeration (symbols : List String) :
      Kind.Agrees (.enumeration symbols) (.enumeration symbols)
  | sequence (item item' : τ) : Kind.Agrees (.sequence item) (.sequence item')
  | map (key value key' value' : τ) : Kind.Agrees (.map key value) (.map key' value')
  | record : Kind.Agrees .record .record

/-- Shapes with the same to say in a schema. The declared name may differ behind an alias, and the
members of what is no record. -/
structure Shape.Agrees (s s' : Shape τ) : Prop where
  kind : s.kind.Agrees s'.kind
  resolved : s'.resolved = s.resolved
  members : s.kind = .record → s'.members = s.members

/-- Other values for what is not said: a declared name, more members, and types to hold. -/
structure Disguise (τ : Type) where
  declared : FullName
  more : List (Member τ)
  item : τ
  key : τ
  value : τ

def Kind.disguise (d : Disguise τ) : Kind τ → Kind τ
  | .sequence _ => .sequence d.item
  | .map _ _ => .map d.key d.value
  | .primitive p => .primitive p
  | .logical l => .logical l
  | .optional item => .optional item
  | .enumeration symbols => .enumeration symbols
  | .record => .record

def Shape.disguise (d : Disguise τ) (s : Shape τ) : Shape τ :=
  ⟨if s.alias?.isSome then d.declared else s.declared, s.kind.disguise d,
    if s.kind.isRecord then s.members else s.members ++ d.more⟩

section Agrees

variable {shapes shapes' : τ → Shape τ} {s s' : Shape τ} {k k' : Kind τ}

theorem Kind.Agrees.refl (k : Kind τ) : k.Agrees k := by
  cases k <;> constructor

theorem Kind.Agrees.disguise (d : Disguise τ) (k : Kind τ) : k.Agrees (k.disguise d) := by
  cases k <;> constructor

theorem Kind.Agrees.isNamed_eq (h : k.Agrees k') : k'.isNamed = k.isNamed := by
  cases h <;> rfl

theorem Kind.Agrees.eq_record_iff (h : k.Agrees k') : k' = .record ↔ k = .record := by
  cases h <;> simp

theorem Shape.Agrees.refl (s : Shape τ) : s.Agrees s := ⟨.refl s.kind, rfl, fun _ => rfl⟩

theorem Shape.alias?_disguise (d : Disguise τ) (s : Shape τ) :
    (s.disguise d).alias? = s.alias? := by
  obtain ⟨_, kind, _⟩ := s
  cases kind <;> rfl

theorem Shape.resolved_disguise (d : Disguise τ) (s : Shape τ) :
    (s.disguise d).resolved = s.resolved := by
  rw [resolved, alias?_disguise, resolved]
  cases short : s.alias? with
  | some name => rfl
  | none => simp [disguise, short]

theorem Shape.Agrees.disguise (d : Disguise τ) (s : Shape τ) : s.Agrees (s.disguise d) :=
  ⟨.disguise d s.kind, s.resolved_disguise d, fun hr => by simp [Shape.disguise, hr, Kind.isRecord]⟩

theorem Shape.Agrees.fullName_eq (h : s.Agrees s') : s'.fullName = s.fullName :=
  congrArg FullName.text h.resolved

theorem Shape.Agrees.literal?_eq (h : s.Agrees s') : s'.literal? = s.literal? := by
  obtain ⟨_, k, _⟩ := s
  obtain ⟨_, k', _⟩ := s'
  have kind : k.Agrees k' := h.kind
  cases kind <;> rfl

theorem Shape.Agrees.outerSchema_eq (h : s.Agrees s')
    (inside : ∀ item, s.kind = .optional item →
      (shapes' item).fullName = (shapes item).fullName) :
    s'.outerSchema shapes' = s.outerSchema shapes := by
  have fullName := h.fullName_eq
  have resolved := h.resolved
  obtain ⟨_, k, _⟩ := s
  obtain ⟨_, k', _⟩ := s'
  have kind : k.Agrees k' := h.kind
  cases kind with
  | optional item => simp only [outerSchema, nullable, inside item rfl]
  | _ => simp only [outerSchema, fullName, resolved]

theorem Shape.Agrees.readsAlike {t : τ} (h : (shapes t).Agrees (shapes' t))
    (inside : ∀ item, (shapes t).kind = .optional item →
      (shapes' item).fullName = (shapes item).fullName) : ReadsAlike shapes shapes' id t where
  literal := h.literal?_eq
  named := h.kind.isNamed_eq
  resolved := h.resolved
  record := h.kind.eq_record_iff
  members := fun hr => by simp [h.members hr]
  outer := h.outerSchema_eq inside

end Agrees

variable [DecidableEq τ] {shapes shapes' : τ → Shape τ}

/-- Tables that agree on the types that one type leads to, and on the names of those inside optional
ones, are the same for a derivation. -/
theorem simulation_of_agrees {t : τ}
    (agree : ∀ u, Reaches shapes .empty t u → (shapes u).Agrees (shapes' u))
    (inside : ∀ u, Reaches shapes .empty t u → ∀ item, (shapes u).kind = .optional item →
      (shapes' item).fullName = (shapes item).fullName) :
    Simulation shapes shapes' id (Reaches shapes .empty t) Eq where
  alike := fun u r => (agree u r).readsAlike (inside u r)
  closed := fun u r kind m hm => r.tail ⟨kind, Visited.not_mem_empty u, m, hm, rfl⟩
  mem_iff := by
    rintro seen _ u rfl _ _
    rfl
  insert := by
    rintro seen _ u rfl _
    rfl

namespace Settings

theorem textIn_eq_of_agrees_reached {t : τ}
    (agree : ∀ u, Reaches shapes .empty t u → (shapes u).Agrees (shapes' u))
    (inside : ∀ u, Reaches shapes .empty t u → ∀ item, (shapes u).kind = .optional item →
      (shapes' item).fullName = (shapes item).fullName) (settings : Settings)
    (seen : Visited τ) : settings.textIn shapes' t seen = settings.textIn shapes t seen := by
  have alike := (simulation_of_agrees agree inside).derive settings.maxDepth settings.maxDepth
    (.refl) (Eq.refl seen)
  exact (alike.map settings.render).eq

/-- Tables that agree on all types have the same texts and failures, with the same types met after
each of them, for any type, settings and set of types met before. So the declared names behind
aliases, members of what is no record, and what sequences and maps hold do not matter. It is enough
that they agree on the types that a type leads to through the members of records, and that those
inside optional types keep their full names. -/
theorem textIn_eq_of_agrees (shapes : τ → Shape τ) :
    (∀ shapes' : τ → Shape τ, (∀ u, (shapes u).Agrees (shapes' u)) →
      ∀ (settings : Settings) (t : τ) (seen : Visited τ),
        settings.textIn shapes' t seen = settings.textIn shapes t seen) ∧
    (∀ (d : τ → Disguise τ) (settings : Settings) (t : τ) (seen : Visited τ),
      settings.textIn (fun u => (shapes u).disguise (d u)) t seen =
        settings.textIn shapes t seen) ∧
    (∀ (shapes' : τ → Shape τ) (t : τ),
      (∀ u, Reaches shapes .empty t u → (shapes u).Agrees (shapes' u)) →
      (∀ u, Reaches shapes .empty t u → ∀ item, (shapes u).kind = .optional item →
        (shapes' item).fullName = (shapes item).fullName) →
      ∀ (settings : Settings) (seen : Visited τ),
        settings.textIn shapes' t seen = settings.textIn shapes t seen) := by
  have everywhere (shapes' : τ → Shape τ) (agree : ∀ u, (shapes u).Agrees (shapes' u))
      (settings : Settings) (t : τ) (seen : Visited τ) :
      settings.textIn shapes' t seen = settings.textIn shapes t seen :=
    textIn_eq_of_agrees_reached (fun u _ => agree u) (fun _ _ item _ => (agree item).fullName_eq)
      settings seen
  refine ⟨everywhere, fun d => ?_, fun shapes' t agree inside settings seen => ?_⟩
  · exact everywhere _ fun u => .disguise (d u) (shapes u)
  · exact textIn_eq_of_agrees_reached agree inside settings seen

theorem textIn_eq_of_agrees_club :
    let renamed := Function.update club 2 ⟨⟨"db", "Key"⟩, .logical .guid, [⟨"team", 0⟩]⟩
    let replaced := Function.update club 6 ⟨⟨"alloc.vec", "Vec"⟩, .record, [⟨"first", 0⟩]⟩
    (∀ u, (club u).Agrees (renamed u)) ∧ textIn {} renamed 0 .empty = textIn {} club 0 .empty ∧
    ¬ (club 6).Agrees (replaced 6) ∧
    (∀ u, Reaches club .empty 0 u → (club u).Agrees (replaced u)) ∧
    (∀ u, Reaches club .empty 0 u → ∀ item, (club u).kind = .optional item →
      (replaced item).fullName = (club item).fullName) ∧
    textIn {} replaced 0 .empty = textIn {} club 0 .empty := by
  intro renamed replaced
  have agree : ∀ u, (club u).Agrees (renamed u) := by
    intro u
    by_cases hu : u = 2
    · subst hu
      exact ⟨.logical .guid, rfl, fun hr => by cases hr⟩
    · rw [show renamed u = club u from Function.update_of_ne hu _ _]
      exact .refl _
  have apart : ∀ u, Reaches club .empty 0 u → u ≠ 6 := by
    intro u r
    induction r with
    | refl => decide
    | tail _ o =>
      obtain ⟨-, -, m, hm, rfl⟩ := o
      have types : ∀ t, ∀ m ∈ (club t).members, m.type ≠ 6 := by decide
      exact types _ m hm
  have agree' : ∀ u, Reaches club .empty 0 u → (club u).Agrees (replaced u) := by
    intro u r
    rw [show replaced u = club u from Function.update_of_ne (apart u r) _ _]
    exact .refl _
  have names : ∀ item, (replaced item).fullName = (club item).fullName := by
    intro item
    by_cases hi : item = 6
    · subst hi
      rfl
    · rw [show replaced item = club item from Function.update_of_ne hi _ _]
  obtain ⟨everywhere, -, reached⟩ := textIn_eq_of_agrees club
  refine ⟨agree, everywhere renamed agree {} 0 .empty, fun h => ?_, agree',
    fun _ _ item _ => names item, reached replaced 0 agree' (fun _ _ item _ => names item) {} .empty⟩
  cases h.kind

end Settings

end AvroSchemata
