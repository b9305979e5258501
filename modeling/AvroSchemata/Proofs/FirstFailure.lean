import Mathlib.Data.List.TakeWhile
import AvroSchemata.Derivation.Walk
import AvroSchemata.Proofs.Rules
set_option autoImplicit false

/-!
How derivations fail. A derivation follows its walk as far as the first occurrence that has no
schema where it stands, and fails for that reason. What it has met by then are the types of the
occurrences before, be they done with or still open.
-/

namespace AvroSchemata

variable {τ : Type}

def Visited.Lists (seen : Visited τ) (met : List τ) : Prop := ∀ t, t ∈ seen ↔ t ∈ met

/-- Occurrences that all have schemas, and the types that have been met after them. -/
structure Completes (shapes : τ → Shape τ) (limit : Nat) (met : List τ)
    (os : List (Occurrence τ)) (seen' : Visited τ) : Prop where
  passes : ∀ o ∈ os, o.failure? shapes limit = none
  lists : seen'.Lists (met ++ os.map Occurrence.type)

/-- Occurrences of which one has no schema. What has been met then are the types of those before
it, and its own is not added. -/
inductive Halts (shapes : τ → Shape τ) (limit : Nat) (met : List τ) (e : Failure)
    (seen' : Visited τ) : List (Occurrence τ) → Prop where
  | mk {before after : List (Occurrence τ)} {o : Occurrence τ}
      (passes : ∀ b ∈ before, b.failure? shapes limit = none)
      (fails : o.failure? shapes limit = some e)
      (lists : seen'.Lists (met ++ before.map Occurrence.type))
      (new : (shapes o.type).kind.isNamed = true → o.type ∉ seen') :
      Halts shapes limit met e seen' (before ++ o :: after)

section Lists

variable {seen : Visited τ} {met : List τ} {t : τ}

theorem Visited.lists_items (seen : Visited τ) : seen.Lists seen.items := fun _ => .rfl

theorem Visited.Lists.insert [DecidableEq τ] (h : seen.Lists met) (t : τ) :
    (seen.insert t).Lists (met ++ [t]) := fun u => by
  rw [Visited.mem_insert, List.mem_append, List.mem_singleton, h u, or_comm]

theorem Visited.Lists.append_of_mem (h : seen.Lists met) (old : t ∈ met) :
    seen.Lists (met ++ [t]) := fun u => by
  rw [h u, List.mem_append, List.mem_singleton]
  exact ⟨.inl, fun hu => hu.elim id fun he => he ▸ old⟩

end Lists

theorem Visited.Lists.mem_iff {seen seen' : Visited τ} {os : List (Occurrence τ)} {t : τ}
    (h : seen'.Lists (seen.items ++ os.map Occurrence.type)) :
    t ∈ seen' ↔ t ∈ seen ∨ ∃ o ∈ os, o.type = t := by
  rw [h t, List.mem_append, List.mem_map]
  rfl

section Parts

variable {shapes : τ → Shape τ} {limit : Nat} {met : List τ} {seen₁ seen' : Visited τ}
  {os ps : List (Occurrence τ)} {o : Occurrence τ} {e : Failure}

theorem Completes.nil (h : seen'.Lists met) : Completes shapes limit met [] seen' :=
  ⟨fun _ ho => (List.not_mem_nil ho).elim, by simpa using h⟩

theorem Completes.single (passes : o.failure? shapes limit = none)
    (h : seen'.Lists (met ++ [o.type])) : Completes shapes limit met [o] seen' :=
  ⟨fun _ ho => List.mem_singleton.1 ho ▸ passes, h⟩

theorem Completes.append (h : Completes shapes limit met os seen₁)
    (h' : Completes shapes limit (met ++ os.map Occurrence.type) ps seen') :
    Completes shapes limit met (os ++ ps) seen' := by
  refine ⟨fun o ho => (List.mem_append.1 ho).elim (h.passes o) (h'.passes o), ?_⟩
  rw [List.map_append, ← List.append_assoc]
  exact h'.lists

theorem Halts.single (fails : o.failure? shapes limit = some e) (h : seen'.Lists met)
    (new : (shapes o.type).kind.isNamed = true → o.type ∉ seen') :
    Halts shapes limit met e seen' [o] := by
  rw [← List.nil_append [o]]
  exact .mk (fun _ hb => (List.not_mem_nil hb).elim) fails (by simpa using h) new

theorem Halts.append_left (h : Halts shapes limit met e seen' os) (ps : List (Occurrence τ)) :
    Halts shapes limit met e seen' (os ++ ps) := by
  obtain ⟨passes, fails, lists, new⟩ := h
  rw [List.append_assoc, List.cons_append]
  exact .mk passes fails lists new

theorem Halts.append_right (h : Completes shapes limit met os seen₁)
    (h' : Halts shapes limit (met ++ os.map Occurrence.type) e seen' ps) :
    Halts shapes limit met e seen' (os ++ ps) := by
  obtain ⟨passes, fails, lists, new⟩ := h'
  rw [← List.append_assoc]
  refine .mk (fun b hb => (List.mem_append.1 hb).elim (h.passes b) (passes b)) fails ?_ new
  rwa [List.map_append, ← List.append_assoc]

theorem Completes.not_stopped (h : Completes shapes limit met os seen') :
    os.findSome? (·.failure? shapes limit) = none ∧
      os.takeWhile (fun o => (o.failure? shapes limit).isNone) = os ∧
      os.find? (fun o => (o.failure? shapes limit).isSome) = none :=
  ⟨List.findSome?_eq_none_iff.2 h.passes,
    List.takeWhile_eq_self_iff.2 fun o ho => by simp [h.passes o ho],
    List.find?_eq_none.2 fun o ho => by simp [h.passes o ho]⟩

theorem Halts.stopped (h : Halts shapes limit met e seen' os) :
    os.findSome? (·.failure? shapes limit) = some e ∧
      seen'.Lists (met ++
        (os.takeWhile fun o => (o.failure? shapes limit).isNone).map Occurrence.type) ∧
      ∀ o, os.find? (fun o => (o.failure? shapes limit).isSome) = some o →
        (shapes o.type).kind.isNamed = true → o.type ∉ seen' := by
  cases h with
  | @mk before after o passes fails lists new =>
    have complete : Completes shapes limit met before seen' := ⟨passes, lists⟩
    obtain ⟨nothing, all, nowhere⟩ := complete.not_stopped
    have pass : ∀ b ∈ before, (b.failure? shapes limit).isNone = true :=
      fun b hb => by simp [passes b hb]
    refine ⟨by simp [nothing, fails], ?_, fun o' ho => ?_⟩
    · rw [List.takeWhile_append_of_pos pass, List.takeWhile_cons_of_neg (by simp [fails]),
        List.append_nil]
      exact lists
    · have he : o = o' := by simpa [nowhere, fails] using ho
      exact he ▸ new

end Parts

variable [DecidableEq τ] {shapes : τ → Shape τ} {limit : Nat}

omit [DecidableEq τ] in
theorem Describes.failure?_eq_none {t : τ} {s : Schema} (full : Describes shapes t s)
    (room : Nat) : (Occurrence.mk t (room + 1) false).failure? shapes limit = none := by
  cases full with
  | logical kind short => cases ‹Logical› <;> simp_all [Occurrence.failure?, Logical.alias?]
  | _ kind => simp [Occurrence.failure?, kind]

omit [DecidableEq τ] in
theorem failure?_of_no_room {t : τ} (kind : ∀ p, (shapes t).kind ≠ .primitive p) :
    (Occurrence.mk t 0 false).failure? shapes limit =
      some (.tooDeep limit (shapes t).fullName) := by
  cases hk : (shapes t).kind with
  | primitive p => exact absurd hk (kind p)
  | _ => simp [Occurrence.failure?, hk]

theorem Known.completes {t : τ} {seen : Visited τ} {met : List τ} (known : Known shapes seen t)
    (h : seen.Lists met) (limit room : Nat) :
    Completes shapes limit met (walk shapes room t met) seen := by
  have old : t ∈ met := (h t).1 known.2
  rw [walk_of_known known.1 old]
  exact .single rfl (h.append_of_mem old)

mutual

theorem Derives.completes {room : Nat} {t : τ} {seen seen' : Visited τ} {s : Schema}
    {met : List τ} : Derives shapes room t seen s seen' → seen.Lists met →
      Completes shapes limit met (walk shapes room t met) seen'
  | .primitive kind, h => by
    rw [walk_of_leaf (by simp [kind, Kind.isNamed]) (by simp [kind])]
    exact .single (by simp [Occurrence.failure?, kind]) (h.insert t)
  | .known known, h => known.completes h limit _
  | .leaf new leaf full, h => by
    rw [walk_of_leaf (fun hk => new ⟨hk.1, (h t).2 hk.2⟩) leaf]
    exact .single (full.failure?_eq_none _) (h.insert t)
  | .record kind new inside, h => by
    rw [walk_record kind fun ht => new ((h t).2 ht), ← List.singleton_append]
    exact .append (.single (by simp [Occurrence.failure?, kind]) (h.insert t))
      (inside.completes (h.insert t))

theorem DerivesFields.completes {room : Nat} {ms : List (Member τ)} {seen seen' : Visited τ}
    {fields : Fields} {met : List τ} :
    DerivesFields shapes room ms seen fields seen' → seen.Lists met →
      Completes shapes limit met (walkMembers (walk shapes room) ms met) seen'
  | .nil, h => .nil h
  | .named known after, h => by
    have first := known.completes h limit room
    exact first.append (after.completes first.lists)
  | .inline _ first after, h => by
    have first := first.completes h
    exact first.append (after.completes first.lists)

end

mutual

theorem Fails.halts {room : Nat} {t : τ} {seen seen' : Visited τ} {e : Failure} {met : List τ} :
    Fails shapes limit room t seen e seen' → seen.Lists met →
      Halts shapes limit met e seen' (walk shapes room t met)
  | .tooDeep new kind, h => by
    rw [walk_zero fun hk => new ⟨hk.1, (h t).2 hk.2⟩]
    exact .single (failure?_of_no_room kind) h fun named ht => new ⟨named, ht⟩
  | .sequence kind, h => by
    rw [walk_of_leaf (by simp [kind, Kind.isNamed]) (by simp [kind])]
    exact .single (by simp [Occurrence.failure?, kind]) h (by simp [kind, Kind.isNamed])
  | .map kind, h => by
    rw [walk_of_leaf (by simp [kind, Kind.isNamed]) (by simp [kind])]
    exact .single (by simp [Occurrence.failure?, kind]) h (by simp [kind, Kind.isNamed])
  | .duration kind new, h => by
    rw [walk_of_leaf (fun hk => new ((h t).2 hk.2)) (by simp [kind])]
    exact .single (by simp [Occurrence.failure?, kind]) h fun _ => new
  | .record kind new inside, h => by
    rw [walk_record kind fun ht => new ((h t).2 ht), ← List.singleton_append]
    exact .append_right (.single (by simp [Occurrence.failure?, kind]) (h.insert t))
      (inside.halts (h.insert t))

theorem FailsFields.halts {room : Nat} {ms : List (Member τ)} {seen seen' : Visited τ}
    {e : Failure} {met : List τ} :
    FailsFields shapes limit room ms seen e seen' → seen.Lists met →
      Halts shapes limit met e seen' (walkMembers (walk shapes room) ms met)
  | .here _ first, h => (first.halts h).append_left _
  | .named known after, h => by
    have first := known.completes h limit room
    exact .append_right first (after.halts first.lists)
  | .inline _ first after, h => by
    have first : Completes shapes limit met _ _ := first.completes h
    exact .append_right first (after.halts first.lists)

end

namespace Settings

/-- A derivation fails if and only if the walk comes upon a type that has no schema where it
stands, and then for the first such reason. The types that have been met afterwards are those from
before and those of the occurrences before the failure, all of them if there is none. The type that
fails is not added. -/
theorem textIn_stops_at_first_failure (settings : Settings) (shapes : τ → Shape τ) (t : τ)
    (seen : Visited τ) :
    let limit := settings.maxDepth
    let occurrences := walk shapes limit t seen.items
    let outcome := settings.textIn shapes t seen
    (∀ e, outcome.result = .error e ↔
      occurrences.findSome? (·.failure? shapes limit) = some e) ∧
    (∀ u, u ∈ outcome.seen ↔ u ∈ seen ∨
      ∃ o ∈ occurrences.takeWhile (fun o => (o.failure? shapes limit).isNone), o.type = u) ∧
    (∀ o, occurrences.find? (fun o => (o.failure? shapes limit).isSome) = some o →
      (shapes o.type).kind.isNamed = true → o.type ∉ outcome.seen) := by
  intro limit occurrences outcome
  obtain ⟨s, seen', h⟩ | ⟨e, seen', h⟩ := derives_or_fails shapes limit limit t seen
  · have he : outcome = ⟨.ok (settings.render s), seen'⟩ := by
      simp only [outcome, textIn, schemaIn_eq h, Outcome.map_ok]
    have walked : Completes shapes limit seen.items occurrences seen' :=
      h.completes seen.lists_items
    obtain ⟨nothing, all, nowhere⟩ := walked.not_stopped
    rw [he, all]
    exact ⟨fun e => by simp [nothing], fun u => walked.lists.mem_iff, by simp [nowhere]⟩
  · have he : outcome = ⟨.error e, seen'⟩ := by
      simp only [outcome, textIn, schemaIn, limit, h.derive_eq, Outcome.map_error]
    have walked : Halts shapes limit seen.items e seen' occurrences := h.halts seen.lists_items
    obtain ⟨first, lists, new⟩ := walked.stopped
    rw [he]
    exact ⟨fun e' => by simp [first], fun u => lists.mem_iff, new⟩

example : (walk club 1 0 []).findSome? (·.failure? club 1) = some (.tooDeep 1 "club.Player") := by
  decide

end Settings

end AvroSchemata
