import AvroSchemata.Proofs.Definitions
import AvroSchemata.Proofs.Reachability
set_option autoImplicit false

namespace AvroSchemata

variable {τ : Type} [DecidableEq τ]

inductive Runs (shapes : τ → Shape τ) :
    List (Call τ) → Visited τ → List (Except Failure Schema) → Visited τ → Prop where
  | nil {seen : Visited τ} : Runs shapes [] seen [] seen
  | schema {call : Call τ} {calls : List (Call τ)} {seen seen₁ seen' : Visited τ} {s : Schema}
      {results : List (Except Failure Schema)}
      (first : Derives shapes call.limit call.type seen s seen₁)
      (after : Runs shapes calls seen₁ results seen') :
      Runs shapes (call :: calls) seen (.ok s :: results) seen'
  | failure {call : Call τ} {calls : List (Call τ)} {seen seen₁ seen' : Visited τ} {e : Failure}
      {results : List (Except Failure Schema)}
      (first : Fails shapes call.limit call.limit call.type seen e seen₁)
      (after : Runs shapes calls seen₁ results seen') :
      Runs shapes (call :: calls) seen (.error e :: results) seen'

variable {shapes : τ → Shape τ} {t : τ} {calls : List (Call τ)} {seen seen' : Visited τ}
  {results : List (Except Failure Schema)}

theorem Runs.run_eq (h : Runs shapes calls seen results seen') :
    run shapes calls seen = (results, seen') := by
  induction h with
  | nil => rfl
  | schema first _ ih => simp only [run, first.derive_eq, ih]
  | failure first _ ih => simp only [run, first.derive_eq, ih]

theorem exists_runs (shapes : τ → Shape τ) (calls : List (Call τ)) (seen : Visited τ) :
    ∃ results seen', Runs shapes calls seen results seen' := by
  induction calls generalizing seen with
  | nil => exact ⟨_, _, .nil⟩
  | cons call calls ih =>
    obtain ⟨s, seen₁, h⟩ | ⟨e, seen₁, h⟩ :=
      derives_or_fails shapes call.limit call.limit call.type seen
    · obtain ⟨results, seen', h'⟩ := ih seen₁
      exact ⟨_, _, .schema h h'⟩
    · obtain ⟨results, seen', h'⟩ := ih seen₁
      exact ⟨_, _, .failure h h'⟩

theorem runs_run (shapes : τ → Shape τ) (calls : List (Call τ)) (seen : Visited τ) :
    Runs shapes calls seen (run shapes calls seen).1 (run shapes calls seen).2 := by
  obtain ⟨results, seen', h⟩ := exists_runs shapes calls seen
  rwa [h.run_eq]

theorem Runs.grows (h : Runs shapes calls seen results seen') : Grows shapes seen seen' := by
  induction h with
  | nil => exact .refl shapes _
  | schema first _ ih => exact first.grows.trans ih
  | failure first _ ih => exact first.grows.trans ih

theorem Runs.mem_definedBy (h : Runs shapes calls seen results seen')
    (ht : t ∈ definedBy shapes calls results) :
    (shapes t).kind.isNamed = true ∧ t ∈ seen' ∧ t ∉ seen := by
  induction h with
  | nil => cases ht
  | schema first after ih =>
    obtain ht | ht := List.mem_append.1 ht
    · obtain ⟨named, met, new⟩ := (first.newlyNamed.1.mem_iff t).1 ht
      exact ⟨named, after.grows.mem t met, new⟩
    · obtain ⟨named, met, new⟩ := ih ht
      exact ⟨named, met, fun hs => new (first.grows.mem t hs)⟩
  | failure first _ ih =>
    obtain ⟨named, met, new⟩ := ih ht
    exact ⟨named, met, fun hs => new (first.grows.mem t hs)⟩

end AvroSchemata
