import Mathlib.Algebra.Order.BigOperators.Group.Finset
import AvroSchemata.Derivation.Walk
import AvroSchemata.Proofs.Reachability
set_option autoImplicit false

/-!
Derivations end, whatever the limit. Each record is opened once, so that the steps are no more
than the members of the records that have not been met. The limit is reached only along as many
different records that lie one inside the other, and never by going round in a cycle.
-/

namespace AvroSchemata

variable {τ : Type}

/-- A way down from a type to the last one, through records that have not been met: each leads to
the type of one of its members. No type comes twice, and none would be written by its name. -/
structure Descent (shapes : τ → Shape τ) (seen : Visited τ) (t last : τ) (chain : List τ) :
    Prop where
  head : chain.head? = some t
  last : chain.getLast? = some last
  opens : chain.IsChain (Opens shapes seen)
  nodup : chain.Nodup
  unknown : ∀ u ∈ chain, ¬ Known shapes seen u

section Descent

variable {shapes : τ → Shape τ} {seen seen' : Visited τ} {t u last : τ} {chain : List τ}

theorem Descent.single (unknown : ¬ Known shapes seen t) : Descent shapes seen t t [t] :=
  ⟨rfl, rfl, .singleton t, List.nodup_singleton t, by simpa using unknown⟩

theorem Descent.anti (h : ∀ t ∈ seen, t ∈ seen') (d : Descent shapes seen' t last chain) :
    Descent shapes seen t last chain :=
  ⟨d.head, d.last, d.opens.imp fun _ _ => Opens.mono h, d.nodup,
    fun u hu known => d.unknown u hu ⟨known.1, h u known.2⟩⟩

/-- A record is met before its members, so that no way down from them comes back to it. -/
theorem Descent.cons [DecidableEq τ] (o : Opens shapes seen t u)
    (d : Descent shapes (seen.insert t) u last chain) :
    Descent shapes seen t last (t :: chain) := by
  have met : Known shapes (seen.insert t) t :=
    ⟨by rw [o.1]; rfl, Visited.mem_insert_self seen t⟩
  have fresh : t ∉ chain := fun ht => d.unknown t ht met
  have d := d.anti fun v => Visited.mem_insert_of_mem
  obtain ⟨rest, rfl⟩ : ∃ rest, chain = u :: rest := List.head?_eq_some_iff.1 d.head
  refine ⟨rfl, by rw [List.getLast?_cons_cons]; exact d.last, d.opens.cons_cons o,
    List.nodup_cons.2 ⟨fresh, d.nodup⟩, fun v hv => ?_⟩
  obtain rfl | hv := List.mem_cons.1 hv
  · exact Known.not_of_not_mem o.2.1
  · exact d.unknown v hv

theorem mem_newRecords_of_isChain {rest : List τ} (h : (t :: rest).IsChain (Opens shapes seen)) :
    ∀ v ∈ (t :: rest).dropLast, v ∈ newRecords shapes seen t := by
  induction rest generalizing t with
  | nil => simp
  | cons u rest ih =>
    obtain ⟨o, h⟩ := List.isChain_cons_cons.1 h
    intro v hv
    obtain rfl | hv := List.mem_cons.1 hv
    · exact ⟨.refl, o.1, o.2.1⟩
    · obtain ⟨r, kind, new⟩ := ih h v hv
      exact ⟨.head o r, kind, new⟩

theorem Descent.length_le_encard (d : Descent shapes seen t last chain) :
    (chain.length - 1 : Nat) ≤ (newRecords shapes seen t).encard := by
  classical
  obtain ⟨rest, rfl⟩ : ∃ rest, chain = t :: rest := List.head?_eq_some_iff.1 d.head
  have hsub : ((t :: rest).dropLast.toFinset : Set τ) ⊆ newRecords shapes seen t :=
    fun v hv => mem_newRecords_of_isChain d.opens v (List.mem_toFinset.1 hv)
  have nodup : (t :: rest).dropLast.Nodup := d.nodup.sublist (List.dropLast_sublist _)
  calc ((t :: rest).length - 1 : ℕ∞)
    _ = (t :: rest).dropLast.toFinset.card := by
      rw [List.toFinset_card_of_nodup nodup, List.length_dropLast]; rfl
    _ = ((t :: rest).dropLast.toFinset : Set τ).encard :=
      (Set.encard_coe_eq_coe_finsetCard _).symm
    _ ≤ (newRecords shapes seen t).encard := Set.encard_le_encard hsub

end Descent

/-- A type for which so many levels are not enough: the last on a way down that takes them all. -/
structure TooDeep (shapes : τ → Shape τ) (seen : Visited τ) (levels : Nat) (t : τ)
    (type : String) (last : τ) (chain : List τ) : Prop where
  descent : Descent shapes seen t last chain
  length : chain.length = levels + 1
  kind : ∀ p, (shapes last).kind ≠ .primitive p
  named : type = (shapes last).fullName

variable [DecidableEq τ] {shapes : τ → Shape τ}

mutual

theorem Fails.tooDeep_at {limit room l : Nat} {t : τ} {seen seen' : Visited τ} {e : Failure}
    {type : String} : Fails shapes limit room t seen e seen' → e = .tooDeep l type →
      l = limit ∧ ∃ last chain, TooDeep shapes seen room t type last chain
  | .tooDeep new kind, he => by
    cases he
    exact ⟨rfl, t, [t], .single new, rfl, kind, rfl⟩
  | .sequence _, he => by cases he
  | .map _, he => by cases he
  | .duration .., he => by cases he
  | .record kind new inside, he => by
    obtain ⟨m, hm, hl, last, chain, deep⟩ := inside.tooDeep_at he
    have o : Opens shapes seen t m.type := ⟨kind, new, m, hm, rfl⟩
    exact ⟨hl, last, t :: chain, deep.descent.cons o, by rw [List.length_cons, deep.length],
      deep.kind, deep.named⟩

theorem FailsFields.tooDeep_at {limit room l : Nat} {ms : List (Member τ)}
    {seen seen' : Visited τ} {e : Failure} {type : String} :
    FailsFields shapes limit room ms seen e seen' → e = .tooDeep l type →
      ∃ m ∈ ms, l = limit ∧ ∃ last chain, TooDeep shapes seen room m.type type last chain
  | .here _ first, he => ⟨_, List.mem_cons_self, first.tooDeep_at he⟩
  | .named _ after, he => by
    obtain ⟨m, hm, deep⟩ := after.tooDeep_at he
    exact ⟨m, List.mem_cons_of_mem _ hm, deep⟩
  | .inline _ first after, he => by
    -- what is new after the members before was new at the start as well
    obtain ⟨m, hm, hl, last, chain, deep⟩ := after.tooDeep_at he
    exact ⟨m, List.mem_cons_of_mem _ hm, hl, last, chain, deep.descent.anti first.grows.mem,
      deep.length, deep.kind, deep.named⟩

end

theorem Fails.ne_tooDeep {limit room : Nat} {t : τ} {seen seen' : Visited τ} {e : Failure}
    (h : Fails shapes limit room t seen e seen')
    (levels : (newRecords shapes seen t).encard < room) (type : String) :
    e ≠ .tooDeep limit type := by
  rintro rfl
  obtain ⟨-, last, chain, deep⟩ := h.tooDeep_at rfl
  have le := deep.descent.length_le_encard
  rw [deep.length] at le
  exact absurd levels (not_lt_of_ge le)

theorem mem_seen_derive {limit room : Nat} {t u : τ} {seen : Visited τ} (hu : u ∈ seen) :
    u ∈ (derive shapes limit room t seen).seen := by
  obtain ⟨s, seen', h⟩ | ⟨e, seen', h⟩ := derives_or_fails shapes limit room t seen
  · rw [h.derive_eq]
    exact h.grows.mem u hu
  · rw [h.derive_eq]
    exact h.grows.mem u hu

section Steps

variable [Fintype τ] {limit room : Nat} {t : τ} {seen seen' : Visited τ}

def pendingMembers (shapes : τ → Shape τ) (seen : Visited τ) : Nat :=
  ∑ u with (shapes u).kind = .record ∧ u ∉ seen, (shapes u).members.length

theorem pendingMembers_anti (h : ∀ t ∈ seen, t ∈ seen') :
    pendingMembers shapes seen' ≤ pendingMembers shapes seen := by
  refine Finset.sum_le_sum_of_subset fun u hu => ?_
  simp only [Finset.mem_filter_univ] at hu ⊢
  exact ⟨hu.1, fun hs => hu.2 (h u hs)⟩

theorem pendingMembers_insert (kind : (shapes t).kind = .record) (new : t ∉ seen) :
    pendingMembers shapes (seen.insert t) + (shapes t).members.length =
      pendingMembers shapes seen := by
  have ht : t ∈ Finset.univ.filter fun u => (shapes u).kind = .record ∧ u ∉ seen := by
    simp [kind, new]
  rw [pendingMembers, pendingMembers, ← Finset.sum_erase_add _ _ ht]
  congr 2
  ext u
  simp only [Finset.mem_filter_univ, Finset.mem_erase, Visited.mem_insert, not_or]
  exact and_left_comm

variable {schemaOf : τ → Visited τ → Outcome τ Schema} {stepsOf : τ → Visited τ → Nat}

theorem memberSteps_add_pendingMembers_le
    (opened : ∀ t seen,
      stepsOf t seen + pendingMembers shapes (schemaOf t seen).seen ≤ pendingMembers shapes seen)
    (ms : List (Member τ)) (seen : Visited τ) :
    memberSteps shapes schemaOf stepsOf ms seen +
        pendingMembers shapes (fieldsOf shapes schemaOf ms seen).seen ≤
      ms.length + pendingMembers shapes seen := by
  induction ms generalizing seen with
  | nil => simp [memberSteps, fieldsOf]
  | cons m ms ih =>
    by_cases known : Known shapes seen m.type
    · have rest := ih seen
      rw [fieldsOf_known known, memberSteps, if_pos known, Outcome.seen_map, List.length_cons]
      omega
    · have first := opened m.type seen
      rw [fieldsOf_inline known, memberSteps, if_neg known, Outcome.andThen, List.length_cons]
      cases (schemaOf m.type seen).result with
      | ok s =>
        have rest := ih (schemaOf m.type seen).seen
        simp only [Outcome.seen_map]
        omega
      | error e =>
        simp only
        omega

/-- Each member that a derivation comes to is one of a record that it opens. -/
theorem steps_add_pendingMembers_le (limit room : Nat) (t : τ) (seen : Visited τ) :
    steps shapes limit room t seen +
        pendingMembers shapes (derive shapes limit room t seen).seen ≤
      pendingMembers shapes seen := by
  induction room generalizing t seen with
  | zero =>
    rw [steps, Nat.zero_add]
    exact pendingMembers_anti fun u => mem_seen_derive
  | succ room ih =>
    by_cases h : (shapes t).kind = .record ∧ t ∉ seen
    · obtain ⟨kind, new⟩ := h
      have inside := memberSteps_add_pendingMembers_le ih (shapes t).members (seen.insert t)
      have opened := pendingMembers_insert kind new
      rw [steps_record kind new, derive_record kind new, Outcome.seen_map]
      omega
    · rw [steps_leaf h, Nat.zero_add]
      exact pendingMembers_anti fun u => mem_seen_derive

end Steps

theorem encard_setOf_lt {n limit : Nat} (p : Fin n → Prop) (h : n < limit) :
    {t | p t}.encard < (limit : ℕ∞) := by
  refine (Set.encard_le_encard (Set.subset_univ _)).trans_lt ?_
  rw [Set.encard_univ, ENat.card_eq_coe_fintype_card, Fintype.card_fin]
  exact Nat.cast_lt.2 h

namespace Settings

theorem textIn_error_iff {settings : Settings} {t : τ} {seen : Visited τ} {e : Failure} :
    (settings.textIn shapes t seen).result = .error e ↔
      (settings.schemaIn shapes t seen).result = .error e := by
  unfold textIn Outcome.map
  cases (settings.schemaIn shapes t seen).result <;> simp [Except.map]

/-- A derivation ends after no more steps than there are members of records that have not been met,
whatever the limit. If it fails for the limit, then at the end of a way down: through as many
different records that have not been met as the limit allows levels, to a type that is no
primitive. So with fewer such records than levels it never does. -/
theorem textIn_terminates [Fintype τ] (settings : Settings) (shapes : τ → Shape τ) (t : τ)
    (seen : Visited τ) :
    let limit := settings.maxDepth
    let result := (settings.textIn shapes t seen).result
    steps shapes limit limit t seen ≤
        ∑ u with (shapes u).kind = .record ∧ u ∉ seen, (shapes u).members.length ∧
      (∀ l type, result = .error (.tooDeep l type) → l = limit ∧
        ∃ last chain, Descent shapes seen t last chain ∧ chain.length = limit + 1 ∧
          (∀ p, (shapes last).kind ≠ .primitive p) ∧ type = (shapes last).fullName) ∧
      ((newRecords shapes seen t).encard < limit →
        ∀ l type, result ≠ .error (.tooDeep l type)) := by
  intro limit result
  have failed {l : Nat} {type : String} (h : result = .error (.tooDeep l type)) :
      Fails shapes limit limit t seen (.tooDeep l type) (settings.textIn shapes t seen).seen :=
    fails_of_result (textIn_error_iff.1 h)
  refine ⟨?_, fun l type h => ?_, fun levels l type h => ?_⟩
  · exact (Nat.le_add_right _ _).trans (steps_add_pendingMembers_le limit limit t seen)
  · obtain ⟨hl, last, chain, deep⟩ := (failed h).tooDeep_at rfl
    exact ⟨hl, last, chain, deep.descent, deep.length, deep.kind, deep.named⟩
  · obtain ⟨rfl, -⟩ := (failed h).tooDeep_at rfl
    exact (failed h).ne_tooDeep levels type rfl

theorem textIn_terminates_club :
    let settings : Settings := { maxDepth := 2 }
    (settings.textIn club 0 .empty).result = .error (.tooDeep 2 "guid") ∧
      (∃ last chain, Descent club .empty 0 last chain ∧ chain.length = 3 ∧
        (∀ p, (club last).kind ≠ .primitive p) ∧ "guid" = (club last).fullName) ∧
      (newRecords club .empty 0).encard < (512 : Nat) ∧
      ∀ l type, (textIn {} club 0 .empty).result ≠ .error (.tooDeep l type) := by
  intro settings
  have failed : (settings.textIn club 0 .empty).result = .error (.tooDeep 2 "guid") := rfl
  have levels : (newRecords club .empty 0).encard < (512 : Nat) := encard_setOf_lt _ (by decide)
  exact ⟨failed, ((textIn_terminates settings club 0 .empty).2.1 2 "guid" failed).2, levels,
    (textIn_terminates {} club 0 .empty).2.2 levels⟩

end Settings

end AvroSchemata
