import AvroSchemata.Proofs.Runs
set_option autoImplicit false

namespace AvroSchemata

variable {τ : Type}

/-- Why there is no schema for a type of this shape, wherever it stands. -/
inductive Shape.Refused (s : Shape τ) : Failure → Prop where
  | sequence {item : τ} (kind : s.kind = .sequence item) :
      s.Refused (.unimplemented .sequence s.fullName)
  | map {key value : τ} (kind : s.kind = .map key value) :
      s.Refused (.unimplemented .map s.fullName)
  | duration (kind : s.kind = .logical .duration) : s.Refused (.unsupported s.fullName)

section Refused

variable {shapes : τ → Shape τ} {t : τ} {seen : Visited τ} {e : Failure}

theorem Shape.Refused.blocked (h : (shapes t).Refused e) (new : t ∉ seen) :
    Blocked shapes seen t := by
  cases h with
  | sequence kind => exact .sequence kind
  | map kind => exact .map kind
  | duration kind => exact .duration kind new

theorem Shape.Refused.not_primitive (h : (shapes t).Refused e) (p : Primitive) :
    (shapes t).kind ≠ .primitive p := by
  cases h with
  | sequence kind => simp [kind]
  | map kind => simp [kind]
  | duration kind => simp [kind]

variable [DecidableEq τ]

theorem Shape.Refused.fails (h : (shapes t).Refused e) (new : t ∉ seen) (limit room : Nat) :
    Fails shapes limit (room + 1) t seen e seen := by
  cases h with
  | sequence kind => exact .sequence kind
  | map kind => exact .map kind
  | duration kind => exact .duration kind new

theorem Runs.not_mem_of_refused {calls : List (Call τ)} {seen' : Visited τ}
    {results : List (Except Failure Schema)} (h : Runs shapes calls seen results seen')
    (refused : (shapes t).Refused e) (new : t ∉ seen) : t ∉ seen' :=
  fun met => h.grows.not_blocked t met new (refused.blocked new)

end Refused

variable [DecidableEq τ]

/-- A run from the start never meets a type without a schema, whatever its calls and limits and
whichever of them fail. Such a type then fails for its own reason, and nothing is met by that; it
has no text with any settings, let alone a reference. A duration does have a name, and would be
referred to if it were met. -/
theorem Settings.run_never_meets_refused (shapes : τ → Shape τ) (calls : List (Call τ)) {t : τ}
    {e : Failure} (refused : (shapes t).Refused e) :
    let seen := (run shapes calls .empty).2
    t ∉ seen ∧
    (∀ settings : Settings, 0 < settings.maxDepth →
      settings.textIn shapes t seen = ⟨.error e, seen⟩) ∧
    (∀ (settings : Settings) (text : String),
      (settings.textIn shapes t seen).result ≠ .ok text) ∧
    ((shapes t).kind = .logical .duration → ∀ (settings : Settings) (met : Visited τ), t ∈ met →
      settings.schemaIn shapes t met = ⟨.ok (.referenceTo (shapes t).resolved), met⟩) := by
  intro seen
  have new : t ∉ seen :=
    (runs_run shapes calls .empty).not_mem_of_refused refused (Visited.not_mem_empty t)
  have fails : ∀ settings : Settings, 0 < settings.maxDepth →
      settings.textIn shapes t seen = ⟨.error e, seen⟩ := by
    intro settings levels
    obtain ⟨room, deep⟩ := Nat.exists_eq_add_one.2 levels
    rw [textIn, schemaIn, deep, (refused.fails new (room + 1) room).derive_eq, Outcome.map_error]
  refine ⟨new, fails, fun settings text => ?_, fun kind settings met old => ?_⟩
  · obtain flat | levels := Nat.eq_zero_or_pos settings.maxDepth
    · have unknown : ¬ Known shapes seen t := Known.not_of_not_mem new
      rw [textIn, schemaIn, flat, (Fails.tooDeep unknown refused.not_primitive).derive_eq,
        Outcome.map_error]
      simp
    · simp [fails settings levels]
  · exact derive_of_known ⟨by rw [kind]; rfl, old⟩

theorem Settings.run_never_meets_refused_journal :
    let seen := (run journal [⟨0, 512⟩, ⟨5, 512⟩, ⟨1, 1⟩] .empty).2
    (journal 5).Refused (.unsupported "core.time.Duration") ∧ (0 : Fin 6) ∈ seen ∧
    (5 : Fin 6) ∉ seen ∧
    textIn {} journal 5 seen = ⟨.error (.unsupported "core.time.Duration"), seen⟩ := by
  intro seen
  have refused : (journal 5).Refused (.unsupported "core.time.Duration") := .duration rfl
  obtain ⟨new, fails, -⟩ :=
    run_never_meets_refused journal [⟨0, 512⟩, ⟨5, 512⟩, ⟨1, 1⟩] refused
  exact ⟨refused, by decide, new, fails {} (by decide)⟩

end AvroSchemata
