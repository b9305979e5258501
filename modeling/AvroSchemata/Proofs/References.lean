import AvroSchemata.Proofs.Runs
set_option autoImplicit false

/-!
What references stand for. All that a run has met under a name has either been defined by one of
its schemas or been left behind by one of its failures, and never both. So a reference stands for
an earlier definition unless a failure had met its type before, and then it stands for none.
-/

namespace AvroSchemata

variable {τ : Type}

section Places

variable {shapes : τ → Shape τ} {met : Set τ} {p : Placement τ} {ps : List (Placement τ)} {t : τ}

theorem Placement.Fits.isDefinition_iff (h : p.Fits shapes met) :
    p.isDefinition = true ↔ (shapes p.type).kind.isNamed = true ∧ p.type ∉ met := by
  cases h with
  | name _ old => simp [isDefinition, old]
  | full new full =>
    rw [full.isDefinition_eq]
    exact ⟨fun named => ⟨named, new named⟩, And.left⟩

theorem Placement.Fits.of_isReference (h : p.Fits shapes met) (ref : p.isReference = true) :
    (shapes p.type).kind.isNamed = true ∧ p.type ∈ met ∧
      p.written = .name (shapes p.type).fullName := by
  cases h with
  | name named old => exact ⟨named, old, rfl⟩
  | full _ full => cases full <;> simp [isReference, Schema.enumerationOf, Schema.recordOf] at ref

theorem FitInOrder.mem_definedIn_iff (h : FitInOrder shapes met ps)
    (named : (shapes t).kind.isNamed = true) : t ∈ definedIn ps ↔ t ∈ placed ps ∧ t ∉ met := by
  induction ps generalizing met with
  | nil => simp
  | cons p ps ih =>
    obtain ⟨fits, rest⟩ := h
    have tail := ih rest
    rw [Set.mem_insert_iff] at tail
    rw [definedIn_cons, placed_cons, Set.mem_insert_iff]
    by_cases hd : p.isDefinition = true
    · have new : t = p.type → t ∉ met := fun he => he ▸ (fits.isDefinition_iff.1 hd).2
      rw [if_pos hd, List.mem_cons]
      tauto
    · have old : t = p.type → t ∈ met := by
        intro he
        subst he
        exact not_not.1 fun new => hd (fits.isDefinition_iff.2 ⟨named, new⟩)
      rw [if_neg hd]
      tauto

end Places

variable [DecidableEq τ] {shapes : τ → Shape τ} {t : τ} {calls : List (Call τ)}
  {seen seen' : Visited τ} {results : List (Except Failure Schema)}

theorem abandoned_cons_of_derives {call : Call τ} {s : Schema} {seen₁ : Visited τ}
    (first : Derives shapes call.limit call.type seen s seen₁) :
    Abandoned shapes t (call :: calls) seen ↔ Abandoned shapes t calls seen₁ := by
  have he : derive shapes call.limit call.limit call.type seen = ⟨.ok s, seen₁⟩ := first.derive_eq
  refine ⟨fun h => ?_, fun h => .later (by rwa [he])⟩
  cases h with
  | here fails => simp [he] at fails
  | later after => rwa [he] at after

theorem abandoned_cons_of_fails {call : Call τ} {e : Failure} {seen₁ : Visited τ}
    (first : Fails shapes call.limit call.limit call.type seen e seen₁) :
    Abandoned shapes t (call :: calls) seen ↔
      (t ∈ seen₁ ∧ t ∉ seen) ∨ Abandoned shapes t calls seen₁ := by
  have he := first.derive_eq
  constructor
  · intro h
    cases h with
    | here _ met new => exact .inl ⟨by rwa [he] at met, new⟩
    | later after => exact .inr (by rwa [he] at after)
  · intro h
    obtain ⟨met, new⟩ | h := h
    · exact .here (by rw [he]) (by rwa [he]) new
    · exact .later (by rwa [he])

theorem Runs.mem_of_abandoned (h : Runs shapes calls seen results seen')
    (left : Abandoned shapes t calls seen) : t ∈ seen' ∧ t ∉ seen := by
  induction h with
  | nil => cases left
  | schema first _ ih =>
    obtain ⟨met, new⟩ := ih ((abandoned_cons_of_derives first).1 left)
    exact ⟨met, fun hs => new (first.grows.mem t hs)⟩
  | failure first after ih =>
    obtain ⟨met, new⟩ | left := (abandoned_cons_of_fails first).1 left
    · exact ⟨after.grows.mem t met, new⟩
    · obtain ⟨met, new⟩ := ih left
      exact ⟨met, fun hs => new (first.grows.mem t hs)⟩

/-- What a run meets under a name it either defines or leaves behind. -/
theorem Runs.defined_or_abandoned (h : Runs shapes calls seen results seen')
    (named : (shapes t).kind.isNamed = true) (met : t ∈ seen') (new : t ∉ seen) :
    t ∈ definedBy shapes calls results ∨ Abandoned shapes t calls seen := by
  induction h with
  | nil => exact absurd met new
  | @schema call _ seen seen₁ _ s _ first _ ih =>
    rw [abandoned_cons_of_derives first, definedBy, List.mem_append]
    by_cases h₁ : t ∈ seen₁
    · exact .inl (.inl ((first.newlyNamed.1.mem_iff t).2 ⟨named, h₁, new⟩))
    · exact (ih met h₁).imp_left .inr
  | @failure call _ seen seen₁ _ e _ first _ ih =>
    rw [abandoned_cons_of_fails first]
    by_cases h₁ : t ∈ seen₁
    · exact .inr (.inl ⟨h₁, new⟩)
    · exact (ih met h₁).imp_right .inr

/-- And what it leaves behind it does not define later on. -/
theorem Runs.not_abandoned (h : Runs shapes calls seen results seen')
    (ht : t ∈ definedBy shapes calls results) : ¬ Abandoned shapes t calls seen := by
  induction h with
  | nil => cases ht
  | schema first after ih =>
    rw [abandoned_cons_of_derives first]
    obtain ht | ht := List.mem_append.1 ht
    · obtain ⟨_, met, _⟩ := (first.newlyNamed.1.mem_iff t).1 ht
      exact fun left => (after.mem_of_abandoned left).2 met
    · exact ih ht
  | failure first after ih =>
    rw [abandoned_cons_of_fails first]
    intro left
    obtain ⟨met, _⟩ | left := left
    · exact (after.mem_definedBy ht).2.2 met
    · exact ih ht left

theorem Runs.abandoned_exists_error (h : Runs shapes calls seen results seen')
    (left : Abandoned shapes t calls seen) : ∃ e, .error e ∈ results := by
  induction h with
  | nil => cases left
  | schema first _ ih =>
    obtain ⟨e, he⟩ := ih ((abandoned_cons_of_derives first).1 left)
    exact ⟨e, List.mem_cons_of_mem _ he⟩
  | failure => exact ⟨_, List.mem_cons_self⟩

theorem Derives.of_isReference {room : Nat} {s : Schema} {u : τ}
    {before after : List (Placement τ)} {p : Placement τ} (h : Derives shapes room u seen s seen')
    (place : s.placements shapes u = before ++ p :: after) (ref : p.isReference = true) :
    (shapes p.type).kind.isNamed = true ∧
      (p.written = .name (shapes p.type).fullName ∨
        p.written = .schema (.referenceTo (shapes p.type).resolved)) ∧
      p.type ∈ seen.types ∪ placed before ∧
      (p.type ∈ definedIn before ↔ p.type ∉ seen.types ∧ p.type ∈ placed before) := by
  by_cases known : Known shapes seen u
  · rw [h.eq_reference known] at place
    -- the reference is the only place
    cases before with
    | cons => simp [Schema.placements, Schema.referenceTo] at place
    | nil =>
      obtain ⟨rfl, -⟩ := List.cons.inj place
      exact ⟨known.1, .inr rfl, .inl known.2, by simp⟩
  · have fit := (h.fitInOrder known).1
    rw [place] at fit
    obtain ⟨named, old, written⟩ := fit.fits.of_isReference ref
    refine ⟨named, .inl written, old, ?_⟩
    rw [(fitInOrder_append.1 fit).1.mem_definedIn_iff named, and_comm]

/-- A reference in a schema that comes after a run is by the name of its type. The type has been
defined before, by the run or further up in the same schema, if and only if it has not been left
behind by a failure of the run. So it has been defined if the run had no failures. -/
theorem run_reference_defined_iff (shapes : τ → Shape τ) (earlier : List (Call τ))
    (call : Call τ) {s : Schema}
    (ok : (derive shapes call.limit call.limit call.type
      (run shapes earlier .empty).2).result = .ok s)
    {before after : List (Placement τ)} {p : Placement τ}
    (place : s.placements shapes call.type = before ++ p :: after)
    (ref : p.isReference = true) :
    let results := (run shapes earlier .empty).1
    (p.written = .name (shapes p.type).fullName ∨
      p.written = .schema (.referenceTo (shapes p.type).resolved)) ∧
    ((p.type ∈ definedBy shapes earlier results ∨ p.type ∈ definedIn before) ↔
      ¬ Abandoned shapes p.type earlier .empty) ∧
    (Fine results →
      p.type ∈ definedBy shapes earlier results ∨ p.type ∈ definedIn before) := by
  intro results
  have h : Runs shapes earlier .empty results _ := runs_run shapes earlier .empty
  obtain ⟨named, written, old, inside⟩ := (derives_of_result ok).of_isReference place ref
  have defined_iff : (p.type ∈ definedBy shapes earlier results ∨ p.type ∈ definedIn before) ↔
      ¬ Abandoned shapes p.type earlier .empty := by
    constructor
    · intro hd left
      obtain hd | hd := hd
      · exact h.not_abandoned hd left
      · exact (inside.1 hd).1 (h.mem_of_abandoned left).1
    · intro kept
      by_cases met : p.type ∈ (run shapes earlier .empty).2
      · obtain hd | left := h.defined_or_abandoned named met (Visited.not_mem_empty _)
        · exact .inl hd
        · exact absurd left kept
      · exact .inr (inside.2 ⟨met, old.resolve_left met⟩)
  refine ⟨written, defined_iff, fun fine => defined_iff.2 fun left => ?_⟩
  obtain ⟨e, he⟩ := h.abandoned_exists_error left
  exact fine.error_not_mem e he

theorem run_reference_defined_iff_journal :
    let entry : Schema := .record "Entry" (some "log") (.named "written" "utcdatetime" .nil)
    (derive journal 512 512 1 (run journal [⟨0, 512⟩] .empty).2).result = .ok entry ∧
    entry.placements journal 1 = [⟨1, .schema entry⟩] ++ [⟨3, .name "utcdatetime"⟩] ∧
    (((3 : Fin 6) ∈ definedBy journal [⟨0, 512⟩] (run journal [⟨0, 512⟩] .empty).1 ∨
        (3 : Fin 6) ∈ definedIn [⟨1, .schema entry⟩]) ↔ ¬ Abandoned journal 3 [⟨0, 512⟩] .empty) := by
  intro entry
  have ok : (derive journal 512 512 1 (run journal [⟨0, 512⟩] .empty).2).result = .ok entry := rfl
  have place : entry.placements journal 1 =
      [⟨1, .schema entry⟩] ++ [⟨3, .name "utcdatetime"⟩] := rfl
  exact ⟨ok, place, (run_reference_defined_iff journal [⟨0, 512⟩] ⟨1, 512⟩ ok place rfl).2.1⟩

theorem run_reference_dangles_journal :
    let entry : Schema := .record "Entry" (some "log") (.named "written" "utcdatetime" .nil)
    (run journal [⟨0, 512⟩, ⟨1, 512⟩] .empty).1 =
      [.error (.unsupported "core.time.Duration"), .ok entry] ∧
    entry.placements journal 1 = [⟨1, .schema entry⟩, ⟨3, .name "utcdatetime"⟩] ∧
    ¬ ((3 : Fin 6) ∈ definedBy journal [⟨0, 512⟩] (run journal [⟨0, 512⟩] .empty).1 ∨
      (3 : Fin 6) ∈ definedIn [⟨1, .schema entry⟩]) :=
  ⟨rfl, rfl, by decide⟩

end AvroSchemata
