import AvroSchemata.Derivation.Run
import AvroSchemata.Proofs.Reachability
set_option autoImplicit false

/-!
Derivation after other derivations. What a run without failures has met is closed: no type in it
leads out of it. So a later derivation is the derivation by itself with the parts for these types
cut off, and meets all other types in the same order and as deep.
-/

namespace AvroSchemata

variable {τ : Type}

/-- A set that members of records do not lead out of, and in which all types have schemas. -/
structure Closed (shapes : τ → Shape τ) (seen : Visited τ) : Prop where
  members : ∀ t ∈ seen, (shapes t).kind = .record → ∀ m ∈ (shapes t).members, m.type ∈ seen
  not_blocked : ∀ t ∈ seen, ¬ Blocked shapes .empty t

def Visited.IsUnion (both seen seen' : Visited τ) : Prop := ∀ t, t ∈ both ↔ t ∈ seen ∨ t ∈ seen'

section Sets

variable {shapes : τ → Shape τ} {seen seen₁ closed both : Visited τ} {t u : τ}

theorem closed_empty (shapes : τ → Shape τ) : Closed shapes .empty :=
  ⟨fun t h => absurd h (Visited.not_mem_empty t), fun t h => absurd h (Visited.not_mem_empty t)⟩

theorem Closed.mem_of_reaches (c : Closed shapes closed) (ht : t ∈ closed)
    (r : Reaches shapes seen t u) : u ∈ closed := by
  induction r with
  | refl => exact ht
  | tail _ o ih =>
    obtain ⟨kind, _, m, hm, rfl⟩ := o
    exact c.members _ ih kind m hm

theorem Closed.reaches_of_not_mem (c : Closed shapes closed) (r : Reaches shapes seen t u)
    (new : u ∉ closed) : Reaches shapes closed t u := by
  induction r with
  | refl => exact .refl
  | @tail v _ _ o ih =>
    obtain ⟨kind, -, m, hm, rfl⟩ := o
    have outside : v ∉ closed := fun hv => new (c.members v hv kind m hm)
    exact (ih outside).tail ⟨kind, outside, m, hm, rfl⟩

theorem Closed.not_blocked_of_reaches (c : Closed shapes closed) (ht : t ∈ closed)
    (r : Reaches shapes seen t u) : ¬ Blocked shapes seen u := fun b =>
  c.not_blocked u (c.mem_of_reaches ht r) (b.anti fun v hv => absurd hv (Visited.not_mem_empty v))

theorem Visited.IsUnion.known_iff (h : both.IsUnion seen closed) (new : ¬ Known shapes closed t) :
    Known shapes both t ↔ Known shapes seen t := by
  have ht := h t
  unfold Known at *
  tauto

theorem Visited.IsUnion.known (h : both.IsUnion seen closed) (known : Known shapes closed t) :
    Known shapes both t :=
  ⟨known.1, (h t).2 (.inr known.2)⟩

theorem Visited.IsUnion.not_mem (h : both.IsUnion seen closed)
    (named : (shapes t).kind.isNamed = true) (hs : t ∉ seen) (new : ¬ Known shapes closed t) :
    t ∉ both := by
  intro ht
  obtain ht | ht := (h t).1 ht
  · exact hs ht
  · exact new ⟨named, ht⟩

variable [DecidableEq τ]

theorem Visited.IsUnion.insert (h : both.IsUnion seen closed) (t : τ) :
    (both.insert t).IsUnion (seen.insert t) closed := fun u => by
  rw [Visited.mem_insert, Visited.mem_insert, h u, or_assoc]

theorem Visited.IsUnion.skip {room : Nat} {s : Schema} (h : both.IsUnion seen closed)
    (c : Closed shapes closed) (ht : t ∈ closed) (d : Derives shapes room t seen s seen₁) :
    both.IsUnion seen₁ closed := by
  intro u
  have hu : u ∈ seen₁ → u ∈ seen ∨ u ∈ closed :=
    fun hu => (d.reaches hu).imp_right (c.mem_of_reaches ht)
  have hm := d.grows.mem u
  have hb := h u
  tauto

end Sets

theorem Describes.prune_eq [DecidableEq τ] {shapes : τ → Shape τ} {t : τ} {s : Schema}
    (full : Describes shapes t s) (leaf : (shapes t).kind ≠ .record) (closed : Visited τ) :
    s.prune shapes closed t = s := by
  cases full with
  | record kind => exact absurd kind leaf
  | _ => rfl

variable [DecidableEq τ] {shapes : τ → Shape τ} {closed : Visited τ}

mutual

theorem Derives.prune (c : Closed shapes closed) {room : Nat} {t : τ}
    {seen seen' both : Visited τ} {s : Schema} :
    Derives shapes room t seen s seen' → ¬ Known shapes closed t → both.IsUnion seen closed →
      ∃ both', Derives shapes room t both (s.prune shapes closed t) both' ∧
        both'.IsUnion seen' closed
  | .primitive kind, _, union => ⟨_, .primitive kind, union.insert t⟩
  | .known known, new, union => ⟨_, .known ((union.known_iff new).2 known), union⟩
  | .leaf fresh leaf full, new, union => by
    rw [full.prune_eq leaf]
    exact ⟨_, .leaf (fun h => fresh ((union.known_iff new).1 h)) leaf full, union.insert t⟩
  | .record kind fresh inside, new, union => by
    obtain ⟨both', inside', union'⟩ := inside.prune c (union.insert t)
    have named : (shapes t).kind.isNamed = true := by rw [kind]; rfl
    exact ⟨both', .record kind (union.not_mem named fresh new) inside', union'⟩

theorem DerivesFields.prune (c : Closed shapes closed) {room : Nat} {ms : List (Member τ)}
    {seen seen' both : Visited τ} {fields : Fields} :
    DerivesFields shapes room ms seen fields seen' → both.IsUnion seen closed →
      ∃ both', DerivesFields shapes room ms both (fields.prune shapes closed ms) both' ∧
        both'.IsUnion seen' closed
  | .nil, union => ⟨_, .nil, union⟩
  | .named known after, union => by
    obtain ⟨both', after', union'⟩ := after.prune c union
    exact ⟨both', .named ⟨known.1, (union _).2 (.inl known.2)⟩ after', union'⟩
  | .inline (m := m) fresh first after, union => by
    rw [Fields.prune]
    by_cases known : Known shapes closed m.type
    -- all that the part cut off would have met is in the closed set
    · obtain ⟨both', after', union'⟩ := after.prune c (union.skip c known.2 first)
      rw [if_pos known]
      exact ⟨both', .named (union.known known) after', union'⟩
    · obtain ⟨both₁, first', union₁⟩ := first.prune c known union
      obtain ⟨both', after', union'⟩ := after.prune c union₁
      rw [if_neg known]
      exact ⟨both', .inline (fun h => fresh ((union.known_iff known).1 h)) first' after', union'⟩

end

variable {limit : Nat}

theorem Closed.not_fails (c : Closed shapes closed) {room : Nat} {t : τ}
    {seen seen' : Visited τ} {e : Failure} (ht : t ∈ closed)
    (shallow : ∀ type, e ≠ .tooDeep limit type) : ¬ Fails shapes limit room t seen e seen' := by
  intro h
  obtain ⟨u, r, b⟩ := h.exists_blocked shallow
  exact c.not_blocked_of_reaches ht r b

mutual

/-- A failure by itself is the same failure where a closed set has been met besides, unless it is
for want of levels. -/
theorem Fails.prune (c : Closed shapes closed) {room : Nat} {t : τ} {seen seen' both : Visited τ}
    {e : Failure} : Fails shapes limit room t seen e seen' →
      (∀ type, e ≠ .tooDeep limit type) → ¬ Known shapes closed t → both.IsUnion seen closed →
        ∃ both', Fails shapes limit room t both e both'
  | .tooDeep _ _, shallow, _, _ => absurd rfl (shallow _)
  | .sequence kind, _, _, _ => ⟨_, .sequence kind⟩
  | .map kind, _, _, _ => ⟨_, .map kind⟩
  | .duration kind fresh, _, new, union =>
    ⟨_, .duration kind (union.not_mem (by rw [kind]; rfl) fresh new)⟩
  | .record kind fresh inside, shallow, new, union => by
    obtain ⟨both', inside'⟩ := inside.prune c shallow (union.insert t)
    exact ⟨both', .record kind (union.not_mem (by rw [kind]; rfl) fresh new) inside'⟩

theorem FailsFields.prune (c : Closed shapes closed) {room : Nat} {ms : List (Member τ)}
    {seen seen' both : Visited τ} {e : Failure} :
    FailsFields shapes limit room ms seen e seen' → (∀ type, e ≠ .tooDeep limit type) →
      both.IsUnion seen closed → ∃ both', FailsFields shapes limit room ms both e both'
  | .here (m := m) fresh first, shallow, union => by
    by_cases known : Known shapes closed m.type
    · exact absurd first (c.not_fails known.2 shallow)
    · obtain ⟨both', first'⟩ := first.prune c shallow known union
      exact ⟨both', .here (fun h => fresh ((union.known_iff known).1 h)) first'⟩
  | .named known after, shallow, union => by
    obtain ⟨both', after'⟩ := after.prune c shallow union
    exact ⟨both', .named ⟨known.1, (union _).2 (.inl known.2)⟩ after'⟩
  | .inline (m := m) fresh first after, shallow, union => by
    by_cases known : Known shapes closed m.type
    · obtain ⟨both', after'⟩ := after.prune c shallow (union.skip c known.2 first)
      exact ⟨both', .named (union.known known) after'⟩
    · obtain ⟨both₁, first', union₁⟩ := first.prune c known union
      obtain ⟨both', after'⟩ := after.prune c shallow union₁
      exact ⟨both', .inline (fun h => fresh ((union.known_iff known).1 h)) first' after'⟩

end

theorem Closed.derives {room : Nat} {t : τ} {seen seen' : Visited τ} {s : Schema}
    (c : Closed shapes seen) (h : Derives shapes room t seen s seen') : Closed shapes seen' := by
  refine ⟨fun u hu kind m hm => ?_, fun u hu b => ?_⟩
  · by_cases hs : u ∈ seen
    · exact h.grows.mem _ (c.members u hs kind m hm)
    · exact (h.settled_members hu hs kind m hm).mem
  · by_cases hs : u ∈ seen
    · exact c.not_blocked u hs b
    · exact h.grows.not_blocked u hu hs (b.of_not_mem hs)

theorem Closed.run {calls : List (Call τ)} {seen : Visited τ} (c : Closed shapes seen)
    (ok : ∀ r ∈ (run shapes calls seen).1, ∃ s, r = .ok s) :
    Closed shapes (run shapes calls seen).2 := by
  induction calls generalizing seen with
  | nil => exact c
  | cons call calls ih =>
    obtain ⟨s, hs⟩ := ok _ List.mem_cons_self
    exact ih (c.derives (derives_of_result hs)) fun r hr => ok r (List.mem_cons_of_mem _ hr)

omit [DecidableEq τ] in
theorem Visited.isUnion_empty (seen : Visited τ) : seen.IsUnion .empty seen := fun t => by simp

namespace Settings

variable {settings : Settings} {t : τ}

theorem schemaIn_of_closed_of_ok (c : Closed shapes closed) {s : Schema}
    (h : settings.schema shapes t = .ok s) :
    (settings.schemaIn shapes t closed).result =
        .ok (if Known shapes closed t then .referenceTo (shapes t).resolved
          else s.prune shapes closed t) ∧
      (settings.schemaIn shapes t closed).seen.IsUnion
        (settings.schemaIn shapes t .empty).seen closed := by
  have hd : Derives shapes settings.maxDepth t .empty s (settings.schemaIn shapes t .empty).seen :=
    derives_of_result h
  by_cases known : Known shapes closed t
  · rw [schemaIn_eq (.known known), if_pos known]
    exact ⟨rfl, (Visited.isUnion_empty closed).skip c known.2 hd⟩
  · obtain ⟨both', hd', union⟩ := hd.prune c known (Visited.isUnion_empty closed)
    rw [schemaIn_eq hd', if_neg known]
    exact ⟨rfl, union⟩

theorem schemaIn_of_closed_of_error (c : Closed shapes closed) {e : Failure}
    (h : settings.schema shapes t = .error e)
    (shallow : ∀ type, e ≠ .tooDeep settings.maxDepth type) :
    (settings.schemaIn shapes t closed).result = .error e := by
  have hf := fails_of_result h
  have new : ¬ Known shapes closed t := fun known => c.not_fails known.2 shallow hf
  obtain ⟨both', hf'⟩ := hf.prune c shallow new (Visited.isUnion_empty closed)
  rw [schemaIn, hf'.derive_eq]

/-- After a run without failures, the schema of a type is its schema by itself with the parts for
types that the run has met cut off, or its name if the run has met the type. The types that have
been met are then those of both. What has no schema by itself has none for the same reason. -/
theorem schemaIn_run_eq_prune (settings : Settings) (shapes : τ → Shape τ)
    (calls : List (Call τ)) (ok : ∀ r ∈ (run shapes calls .empty).1, ∃ s, r = .ok s) (t : τ) :
    let seen := (run shapes calls .empty).2
    (∀ s, settings.schema shapes t = .ok s →
      (settings.schemaIn shapes t seen).result =
          .ok (if Known shapes seen t then .referenceTo (shapes t).resolved
            else s.prune shapes seen t) ∧
        ∀ u, u ∈ (settings.schemaIn shapes t seen).seen ↔
          u ∈ seen ∨ u ∈ (settings.schemaIn shapes t .empty).seen) ∧
    (∀ type, settings.schema shapes t = .error (.unsupported type) →
      (settings.schemaIn shapes t seen).result = .error (.unsupported type)) ∧
    (∀ what type, settings.schema shapes t = .error (.unimplemented what type) →
      (settings.schemaIn shapes t seen).result = .error (.unimplemented what type)) := by
  intro seen
  have c : Closed shapes seen := (closed_empty shapes).run ok
  refine ⟨fun s h => ?_, fun type h => ?_, fun what type h => ?_⟩
  · obtain ⟨result, union⟩ := schemaIn_of_closed_of_ok c h
    exact ⟨result, fun u => (union u).trans Or.comm⟩
  · exact schemaIn_of_closed_of_error c h (by simp)
  · exact schemaIn_of_closed_of_error c h (by simp)

theorem schemaIn_run_eq_prune_club :
    (∀ r ∈ (run club [⟨7, 2⟩] .empty).1, ∃ s, r = .ok s) ∧
    Settings.schema {} club 0 = .ok clubTeam ∧
    (schemaIn {} club 0 (run club [⟨7, 2⟩] .empty).2).result =
      .ok (clubTeam.prune club (run club [⟨7, 2⟩] .empty).2 0) := by
  have ok : ∀ r ∈ (run club [⟨7, 2⟩] .empty).1, ∃ s, r = .ok s := by
    intro r hr
    rw [List.mem_singleton.1 hr]
    exact ⟨_, rfl⟩
  exact ⟨ok, rfl, ((schemaIn_run_eq_prune {} club [⟨7, 2⟩] ok 0).1 clubTeam rfl).1⟩

end Settings

end AvroSchemata
