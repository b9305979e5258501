import AvroSchemata.Derivation.Basic
set_option autoImplicit false

/-!
Simulation: a derivation reads little of a shape, and of a type no more than whether it has been
met. Tables that agree in this under a map of types have the same schemas and the same failures.
-/

namespace AvroSchemata

variable {τ σ ρ α β : Type}

structure Outcome.Alike (Same : Visited τ → Visited σ → Prop) (o : Outcome τ α)
    (o' : Outcome σ α) : Prop where
  result : o'.result = o.result
  seen : Same o.seen o'.seen

section Alike

variable {Same : Visited τ → Visited σ → Prop} {o : Outcome τ α} {o' : Outcome σ α}

theorem Outcome.Alike.map (h : o.Alike Same o') (g : α → β) : (o.map g).Alike Same (o'.map g) :=
  ⟨congrArg (Except.map g) h.result, h.seen⟩

theorem Outcome.Alike.andThen (h : o.Alike Same o') {next : α → Visited τ → Outcome τ β}
    {next' : α → Visited σ → Outcome σ β}
    (hn : ∀ a seen seen', Same seen seen' → (next a seen).Alike Same (next' a seen')) :
    (o.andThen next).Alike Same (o'.andThen next') := by
  unfold Outcome.andThen
  rw [h.result]
  cases o.result with
  | ok a => exact hn a _ _ h.seen
  | error e => exact ⟨rfl, h.seen⟩

end Alike

theorem Outcome.Alike.eq {o o' : Outcome τ α} (h : o.Alike Eq o') : o' = o := by
  obtain ⟨result, seen⟩ := o
  obtain ⟨result', seen'⟩ := o'
  cases h.result
  cases h.seen
  rfl

/-- What a derivation reads of a shape is the same for a type and the type that stands for it. -/
structure ReadsAlike (shapes : τ → Shape τ) (shapes' : σ → Shape σ) (f : τ → σ) (t : τ) :
    Prop where
  literal : (shapes' (f t)).literal? = (shapes t).literal?
  named : (shapes' (f t)).kind.isNamed = (shapes t).kind.isNamed
  resolved : (shapes' (f t)).resolved = (shapes t).resolved
  record : (shapes' (f t)).kind = .record ↔ (shapes t).kind = .record
  members : (shapes t).kind = .record →
    (shapes' (f t)).members = (shapes t).members.map fun m => ⟨m.name, f m.type⟩
  outer : (shapes' (f t)).outerSchema shapes' = (shapes t).outerSchema shapes

theorem ReadsAlike.fullName {shapes : τ → Shape τ} {shapes' : σ → Shape σ} {f : τ → σ} {t : τ}
    (h : ReadsAlike shapes shapes' f t) : (shapes' (f t)).fullName = (shapes t).fullName :=
  congrArg FullName.text h.resolved

section MapTypes

theorem Kind.mapTypes_mapTypes (f : τ → σ) (g : σ → ρ) (k : Kind τ) :
    (k.mapTypes f).mapTypes g = k.mapTypes fun t => g (f t) := by cases k <;> rfl

theorem Shape.kind_mapTypes (f : τ → σ) (s : Shape τ) :
    (s.mapTypes f).kind = s.kind.mapTypes f := rfl

theorem Shape.mapTypes_mapTypes (f : τ → σ) (g : σ → ρ) (s : Shape τ) :
    (s.mapTypes f).mapTypes g = s.mapTypes fun t => g (f t) := by
  simp [mapTypes, Kind.mapTypes_mapTypes]

theorem Kind.mapTypes_eq_record_iff {f : τ → σ} {k : Kind τ} :
    k.mapTypes f = .record ↔ k = .record := by cases k <;> simp [mapTypes]

/-- A table under a map of types is read as the table itself. An optional type is written by the
name of the type inside, so that one has to be mapped too. -/
theorem readsAlike_of_mapTypes {shapes : τ → Shape τ} {shapes' : σ → Shape σ} {f : τ → σ} {t : τ}
    (ht : shapes' (f t) = (shapes t).mapTypes f)
    (inside : ∀ u ∈ (shapes t).kind.arguments, shapes' (f u) = (shapes u).mapTypes f) :
    ReadsAlike shapes shapes' f t where
  literal := by
    rw [ht, Shape.literal?, Shape.literal?, Shape.kind_mapTypes]
    cases (shapes t).kind <;> rfl
  named := by rw [ht, Shape.kind_mapTypes, Kind.isNamed_mapTypes]
  resolved := by rw [ht, Shape.resolved_mapTypes]
  record := by rw [ht, Shape.kind_mapTypes, Kind.mapTypes_eq_record_iff]
  members := fun _ => by rw [ht]; rfl
  outer := by
    unfold Shape.outerSchema
    rw [ht, Shape.kind_mapTypes, Shape.fullName_mapTypes, Shape.resolved_mapTypes]
    cases kind : (shapes t).kind with
    | optional item =>
      have hi : shapes' (f item) = (shapes item).mapTypes f :=
        inside item (by simp [kind, Kind.arguments])
      simp [Kind.mapTypes, Shape.nullable, hi]
    | _ => rfl

end MapTypes

/-- The types of one table, as far as they are in `within`, have others that stand for them. Sets
that are the same agree on the types with names, and stay the same. -/
structure Simulation [DecidableEq τ] [DecidableEq σ] (shapes : τ → Shape τ)
    (shapes' : σ → Shape σ) (f : τ → σ) (within : τ → Prop)
    (Same : Visited τ → Visited σ → Prop) : Prop where
  alike : ∀ t, within t → ReadsAlike shapes shapes' f t
  closed : ∀ t, within t → (shapes t).kind = .record → ∀ m ∈ (shapes t).members, within m.type
  mem_iff : ∀ seen seen' t, Same seen seen' → within t → (shapes t).kind.isNamed = true →
    (f t ∈ seen' ↔ t ∈ seen)
  insert : ∀ seen seen' t, Same seen seen' → within t → Same (seen.insert t) (seen'.insert (f t))

namespace Simulation

variable [DecidableEq τ] [DecidableEq σ] {shapes : τ → Shape τ} {shapes' : σ → Shape σ}
  {f : τ → σ} {within : τ → Prop} {Same : Visited τ → Visited σ → Prop}
  {seen : Visited τ} {seen' : Visited σ} {t : τ}

theorem known_iff (h : Simulation shapes shapes' f within Same) (same : Same seen seen')
    (ht : within t) : Known shapes' seen' (f t) ↔ Known shapes seen t := by
  unfold Known
  rw [(h.alike t ht).named]
  exact and_congr_right fun named => h.mem_iff seen seen' t same ht named

theorem fieldsOf (h : Simulation shapes shapes' f within Same)
    {schemaOf : τ → Visited τ → Outcome τ Schema} {schemaOf' : σ → Visited σ → Outcome σ Schema}
    (inner : ∀ t seen seen', within t → Same seen seen' →
      (schemaOf t seen).Alike Same (schemaOf' (f t) seen'))
    (ms : List (Member τ)) (hms : ∀ m ∈ ms, within m.type) (same : Same seen seen') :
    (fieldsOf shapes schemaOf ms seen).Alike Same
      (fieldsOf shapes' schemaOf' (ms.map fun m => ⟨m.name, f m.type⟩) seen') := by
  induction ms generalizing seen seen' with
  | nil => exact ⟨rfl, same⟩
  | cons m ms ih =>
    obtain ⟨hm, hms⟩ := List.forall_mem_cons.1 hms
    rw [List.map_cons]
    by_cases known : Known shapes seen m.type
    · have known' : Known shapes' seen' (f m.type) := (h.known_iff same hm).2 known
      rw [fieldsOf_known known, fieldsOf_known known', (h.alike _ hm).fullName]
      exact (ih hms same).map _
    · have known' : ¬ Known shapes' seen' (f m.type) := mt (h.known_iff same hm).1 known
      rw [fieldsOf_inline known, fieldsOf_inline known']
      exact (inner m.type seen seen' hm same).andThen fun s _ _ same => (ih hms same).map _

theorem derive_of_short (h : Simulation shapes shapes' f within Same) (limit room : Nat)
    (ht : within t) (same : Same seen seen')
    (short : (∃ s, (shapes t).literal? = some s) ∨ Known shapes seen t) :
    (derive shapes limit room t seen).Alike Same (derive shapes' limit room (f t) seen') := by
  have alike := h.alike t ht
  obtain ⟨s, literal⟩ | known := short
  · rw [derive_of_literal literal, derive_of_literal (alike.literal.trans literal)]
    exact ⟨rfl, h.insert seen seen' t same ht⟩
  · rw [derive_of_known known, derive_of_known ((h.known_iff same ht).2 known), alike.resolved]
    exact ⟨rfl, same⟩

theorem derive (h : Simulation shapes shapes' f within Same) (limit : Nat) :
    ∀ (room : Nat) {t : τ} {seen : Visited τ} {seen' : Visited σ}, within t → Same seen seen' →
      (derive shapes limit room t seen).Alike Same (derive shapes' limit room (f t) seen') := by
  intro room t seen seen' ht same
  by_cases short : (∃ s, (shapes t).literal? = some s) ∨ Known shapes seen t
  · exact h.derive_of_short limit room ht same short
  obtain ⟨full, known⟩ := not_or.1 short
  have alike := h.alike t ht
  have insert := h.insert seen seen' t same ht
  have literal : (shapes t).literal? = none :=
    Option.eq_none_iff_forall_ne_some.2 (not_exists.1 full)
  have literal' : (shapes' (f t)).literal? = none := alike.literal.trans literal
  have known' : ¬ Known shapes' seen' (f t) := mt (h.known_iff same ht).1 known
  cases room with
  | zero =>
    rw [derive_zero literal known, derive_zero literal' known', alike.fullName]
    exact ⟨rfl, same⟩
  | succ room =>
    by_cases kind : (shapes t).kind = .record
    · have kind' : (shapes' (f t)).kind = .record := alike.record.2 kind
      have new : t ∉ seen := fun hs => known ⟨by rw [kind]; rfl, hs⟩
      have new' : f t ∉ seen' := fun hs => known' ⟨by rw [kind']; rfl, hs⟩
      rw [derive_record kind new, derive_record kind' new', alike.members kind, alike.resolved]
      exact (h.fieldsOf (fun _ _ _ => h.derive limit room) _ (h.closed t ht kind) insert).map _
    · have kind' : (shapes' (f t)).kind ≠ .record := mt alike.record.1 kind
      rw [derive_outer literal kind known, derive_outer literal' kind' known', alike.outer]
      cases (shapes t).outerSchema shapes with
      | ok s => exact ⟨rfl, insert⟩
      | error e => exact ⟨rfl, same⟩

theorem text (h : Simulation shapes shapes' f within Same) (settings : Settings) (ht : within t)
    (fresh : Same .empty .empty) : settings.text shapes' (f t) = settings.text shapes t :=
  ((h.derive settings.maxDepth settings.maxDepth ht fresh).map settings.render).result

end Simulation

end AvroSchemata
