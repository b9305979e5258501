import Mathlib.Data.List.Perm.Basic
import AvroSchemata.Proofs.Runs
set_option autoImplicit false

namespace AvroSchemata

variable {τ : Type} [DecidableEq τ] {shapes : τ → Shape τ}

theorem Derives.settled_or_reaches {room : Nat} {t u v : τ} {seen seen' : Visited τ} {s : Schema}
    (h : Derives shapes room t seen s seen') (r : Reaches shapes seen u v) :
    Settled shapes seen seen' v ∨ Reaches shapes seen' u v := by
  induction r with
  | refl => exact .inr .refl
  | @tail w v _ o ih =>
    obtain ⟨kind, new, m, hm, rfl⟩ := o
    by_cases met : w ∈ seen'
    · exact .inl (h.settled_members met new kind m hm)
    · obtain settled | r := ih
      · exact absurd settled.mem met
      · exact .inr (r.tail ⟨kind, met, m, hm, rfl⟩)

variable {calls : List (Call τ)} {seen seen' : Visited τ} {results : List (Except Failure Schema)}

/-- Nothing that a call reaches from the start is missed, and nothing on the way is blocked. -/
theorem Runs.settled_of_reaches (h : Runs shapes calls seen results seen') (fine : Fine results)
    {call : Call τ} (hc : call ∈ calls) {u : τ} (r : Reaches shapes seen call.type u) :
    Settled shapes seen seen' u := by
  induction h with
  | nil => cases hc
  | schema first after ih =>
    have grows := after.grows
    obtain rfl | hc := List.mem_cons.1 hc
    · exact (first.settled_of_reaches r).within (.refl shapes _) grows
    · obtain settled | r := first.settled_or_reaches r
      · exact settled.within (.refl shapes _) grows
      · exact (ih fine.tail hc r).within first.grows (.refl shapes _)
  | failure => exact absurd List.mem_cons_self (fine.error_not_mem _)

theorem Runs.reaches (h : Runs shapes calls seen results seen') (fine : Fine results) {u : τ}
    (hu : u ∈ seen') : u ∈ seen ∨ ∃ call ∈ calls, Reaches shapes seen call.type u := by
  induction h with
  | nil => exact .inl hu
  | @schema call calls seen seen₁ _ _ _ first after ih =>
    obtain hu | ⟨call', hc, r⟩ := ih fine.tail hu
    · obtain hu | r := first.reaches hu
      · exact .inl hu
      · exact .inr ⟨call, List.mem_cons_self, r⟩
    · exact .inr ⟨call', List.mem_cons_of_mem call hc, r.mono first.grows.mem⟩
  | failure => exact absurd List.mem_cons_self (fine.error_not_mem _)

theorem Runs.mem_iff (h : Runs shapes calls seen results seen') (fine : Fine results) {u : τ} :
    u ∈ seen' ↔ u ∈ seen ∨ ∃ call ∈ calls, Reaches shapes seen call.type u := by
  refine ⟨h.reaches fine, fun hu => ?_⟩
  obtain hu | ⟨call, hc, r⟩ := hu
  · exact h.grows.mem u hu
  · exact (h.settled_of_reaches fine hc r).mem

theorem Runs.newlyNamed (h : Runs shapes calls seen results seen') (fine : Fine results) :
    NewlyNamed shapes seen seen' (definedBy shapes calls results) := by
  induction h with
  | nil => exact .nil shapes _
  | schema first after ih =>
    exact first.newlyNamed.1.append (ih fine.tail) first.grows (after.grows)
  | failure => exact absurd List.mem_cons_self (fine.error_not_mem _)

theorem exists_runs_fine (calls : List (Call τ)) (seen : Visited τ)
    (levels : ∀ call ∈ calls, {t | (shapes t).kind = .record}.encard < call.limit)
    (unblocked : ∀ call ∈ calls, ∀ u, Reaches shapes seen call.type u → ¬ Blocked shapes seen u) :
    ∃ results seen', Runs shapes calls seen results seen' ∧ Fine results := by
  induction calls generalizing seen with
  | nil => exact ⟨_, _, .nil, .nil⟩
  | cons call calls ih =>
    have hsub : newRecords shapes seen call.type ⊆ {t | (shapes t).kind = .record} :=
      fun u hu => hu.2.1
    have hlt := (Set.encard_le_encard hsub).trans_lt (levels call List.mem_cons_self)
    obtain ⟨s, seen₁, first⟩ := exists_derives (unblocked call List.mem_cons_self) hlt
    have later : ∀ c ∈ calls, ∀ u, Reaches shapes seen₁ c.type u → ¬ Blocked shapes seen₁ u :=
      fun c hc u r b => unblocked c (List.mem_cons_of_mem _ hc) u (r.mono first.grows.mem)
        (b.anti first.grows.mem)
    obtain ⟨results, seen', after, fine⟩ :=
      ih seen₁ (fun c hc => levels c (List.mem_cons_of_mem _ hc)) later
    exact ⟨_, _, .schema first after, fine.cons s⟩

/-- With levels for all records, a run has no failures if and only if none of its calls reaches a
type without a schema. -/
theorem fine_run_iff (levels : ∀ call ∈ calls, {t | (shapes t).kind = .record}.encard < call.limit) :
    Fine (run shapes calls seen).1 ↔
      ∀ call ∈ calls, ∀ u, Reaches shapes seen call.type u → ¬ Blocked shapes seen u := by
  constructor
  · intro fine call hc u r
    exact ((runs_run shapes calls seen).settled_of_reaches fine hc r).not_blocked
  · intro unblocked
    obtain ⟨results, seen', h, fine⟩ := exists_runs_fine calls seen levels unblocked
    rwa [h.run_eq]

/-- With levels for all records, the same calls in any order have schemas for all or not for all.
If they have, they meet the same types, and define the same types with a name, each of them once:
those of the types met that had not been met before. -/
theorem run_perm (shapes : τ → Shape τ) (seen : Visited τ) {calls calls' : List (Call τ)}
    (perm : calls.Perm calls')
    (levels : ∀ call ∈ calls, {t | (shapes t).kind = .record}.encard < call.limit) :
    let r := run shapes calls seen
    let r' := run shapes calls' seen
    (Fine r.1 ↔ Fine r'.1) ∧
    (Fine r.1 →
      (∀ t, t ∈ r.2 ↔ t ∈ r'.2) ∧
      (definedBy shapes calls r.1).Perm (definedBy shapes calls' r'.1) ∧
      NewlyNamed shapes seen r.2 (definedBy shapes calls r.1) ∧
      NewlyNamed shapes seen r'.2 (definedBy shapes calls' r'.1)) := by
  intro r r'
  have levels' : ∀ call ∈ calls', {t | (shapes t).kind = .record}.encard < call.limit :=
    fun call hc => levels call (perm.mem_iff.2 hc)
  have fine_iff : Fine r.1 ↔ Fine r'.1 := by
    rw [fine_run_iff levels, fine_run_iff levels']
    simp only [perm.mem_iff]
  refine ⟨fine_iff, fun fine => ?_⟩
  have fine' := fine_iff.1 fine
  have h : Runs shapes calls seen r.1 r.2 := runs_run shapes calls seen
  have h' : Runs shapes calls' seen r'.1 r'.2 := runs_run shapes calls' seen
  have met (t : τ) : t ∈ r.2 ↔ t ∈ r'.2 := by
    rw [h.mem_iff fine, h'.mem_iff fine']
    simp only [perm.mem_iff]
  have new := h.newlyNamed fine
  have new' := h'.newlyNamed fine'
  refine ⟨met, (List.perm_ext_iff_of_nodup new.nodup new'.nodup).2 fun t => ?_, new, new'⟩
  rw [new.mem_iff, new'.mem_iff, met t]

theorem run_perm_club :
    let calls : List (Call (Fin 8)) := [⟨7, 512⟩, ⟨0, 512⟩, ⟨1, 512⟩]
    let calls' : List (Call (Fin 8)) := [⟨0, 512⟩, ⟨1, 512⟩, ⟨7, 512⟩]
    calls.Perm calls' ∧
    (∀ call ∈ calls, {t | (club t).kind = .record}.encard < call.limit) ∧
    Fine (run club calls (.ofList [3])).1 ∧
    (definedBy club calls (run club calls (.ofList [3])).1).Perm
      (definedBy club calls' (run club calls' (.ofList [3])).1) := by
  intro calls calls'
  have perm : calls.Perm calls' := by decide
  have limit : ∀ call ∈ calls, call.limit = 512 := by decide
  have levels : ∀ call ∈ calls, {t | (club t).kind = .record}.encard < call.limit := by
    intro call hc
    refine (Set.encard_le_encard (Set.subset_univ _)).trans_lt ?_
    rw [Set.encard_univ, ENat.card_eq_coe_fintype_card, Fintype.card_fin, limit call hc]
    decide
  have fine : Fine (run club calls (.ofList [3])).1 := by decide
  exact ⟨perm, levels, fine, ((run_perm club (.ofList [3]) perm levels).2 fine).2.1⟩

end AvroSchemata
