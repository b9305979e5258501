import AvroSchemata.Proofs.FirstOccurrence
import AvroSchemata.Proofs.Termination
set_option autoImplicit false

/-!
What a limit does. A schema needs a limit above the depth of each of its parts that is more than a
primitive; with any such limit it is the same, and with any other there is none. A failure for
another reason than the limit stays, or is overtaken by it.
-/

namespace AvroSchemata

/-- Whether a part is a schema that needs a level: all but primitives do. What stands for a field
is no schema. -/
def Part.isComplex : Part → Bool
  | .reference _ _ | .fixed _ _ | .enumeration _ _ _ | .record _ _ _ | .union _ => true
  | .primitive _ | .named _ _ | .inline _ => false

def Above (depth : Nat) (entries : List Entry) : Prop :=
  ∀ e ∈ entries, e.part.isComplex = true → e.depth < depth

/-- A schema for which so many levels are enough. A reference at the top needs none. -/
def Schema.FitsIn (levels : Nat) (s : Schema) : Prop :=
  (∃ name space?, s = .reference name space?) ∨ Above levels (s.outline 0)

section Above

variable {depth depth' : Nat} {e : Entry} {es fs : List Entry}

@[simp] theorem above_nil : Above depth [] := fun _ he => (List.not_mem_nil he).elim

@[simp] theorem above_cons :
    Above depth (e :: es) ↔ (e.part.isComplex = true → e.depth < depth) ∧ Above depth es :=
  List.forall_mem_cons

@[simp] theorem above_append : Above depth (es ++ fs) ↔ Above depth es ∧ Above depth fs :=
  List.forall_mem_append

theorem Above.mono (h : Above depth es) (le : depth ≤ depth') : Above depth' es :=
  fun e he hc => Nat.lt_of_lt_of_le (h e he hc) le

end Above

variable {τ : Type} [DecidableEq τ] {shapes : τ → Shape τ}

omit [DecidableEq τ] in
theorem Describes.above_iff {t : τ} {s : Schema} (full : Describes shapes t s)
    (leaf : (shapes t).kind ≠ .record) (kind : ∀ p, (shapes t).kind ≠ .primitive p)
    {depth room : Nat} : Above (depth + room) (s.outline depth) ↔ 0 < room := by
  cases full with
  | primitive h => exact absurd h (kind _)
  | record h => exact absurd h leaf
  | _ => simp [Schema.outline, Schema.enumerationOf, Part.isComplex]

mutual

theorem Derives.of_above {room room' depth : Nat} {t : τ} {seen seen' : Visited τ} {s : Schema} :
    Derives shapes room t seen s seen' → ¬ Known shapes seen t →
      Above (depth + room') (s.outline depth) → Derives shapes room' t seen s seen'
  | .primitive kind, _, _ => .primitive kind
  | .known known, new, _ => absurd known new
  | .leaf _ leaf full, new, above => by
    by_cases hp : ∃ p, (shapes t).kind = .primitive p
    · cases full with
      | primitive kind => exact .primitive kind
      | _ => simp_all
    · have lt := (full.above_iff leaf (not_exists.1 hp)).1 above
      obtain ⟨room', rfl⟩ := Nat.exists_eq_add_one.2 lt
      exact .leaf new leaf full
  | .record kind fresh inside, _, above => by
    obtain ⟨first, above⟩ := above_cons.1 above
    have lt : 0 < room' := Nat.lt_add_right_iff_pos.1 (first rfl)
    obtain ⟨room', rfl⟩ := Nat.exists_eq_add_one.2 lt
    rw [← Nat.add_assoc, Nat.add_right_comm] at above
    exact .record kind fresh (inside.of_above above)

theorem DerivesFields.of_above {room room' depth : Nat} {ms : List (Member τ)}
    {seen seen' : Visited τ} {fields : Fields} :
    DerivesFields shapes room ms seen fields seen' →
      Above (depth + 1 + room') (fields.outline depth) →
        DerivesFields shapes room' ms seen fields seen'
  | .nil, _ => .nil
  | .named known after, above => .named known (after.of_above (above_cons.1 above).2)
  | .inline new first after, above => by
    obtain ⟨inside, above⟩ := above_append.1 (above_cons.1 above).2
    exact .inline new (first.of_above new inside) (after.of_above above)

end

mutual

theorem Derives.above {room : Nat} {t : τ} {seen seen' : Visited τ} {s : Schema} :
    Derives shapes room t seen s seen' → ¬ Known shapes seen t →
      ∀ depth, Above (depth + room) (s.outline depth)
  | .primitive _, _, _ => by simp [Schema.outline, Part.isComplex]
  | .known known, new, _ => absurd known new
  | .leaf _ leaf full, _, depth => by
    by_cases hp : ∃ p, (shapes t).kind = .primitive p
    · cases full with
      | primitive => simp [Schema.outline, Part.isComplex]
      | _ => simp_all
    · exact (full.above_iff leaf (not_exists.1 hp)).2 (Nat.succ_pos _)
  | .record _ _ inside, _, depth => by
    refine above_cons.2 ⟨fun _ => Nat.lt_add_of_pos_right (Nat.succ_pos _), ?_⟩
    rw [← Nat.add_assoc, Nat.add_right_comm]
    exact inside.above depth

theorem DerivesFields.above {room : Nat} {ms : List (Member τ)} {seen seen' : Visited τ}
    {fields : Fields} : DerivesFields shapes room ms seen fields seen' →
      ∀ depth, Above (depth + 1 + room) (fields.outline depth)
  | .nil, _ => above_nil
  | .named _ after, depth => above_cons.2 ⟨by simp [Part.isComplex], after.above depth⟩
  | .inline new first after, depth => above_cons.2 ⟨by simp [Part.isComplex],
      above_append.2 ⟨first.above new (depth + 1), after.above depth⟩⟩

end

section Levels

variable {room room' : Nat} {t : τ} {seen seen' : Visited τ} {s : Schema}

theorem Derives.of_known (h : Derives shapes room t seen s seen') (known : Known shapes seen t) :
    Derives shapes room' t seen s seen' := by
  cases h with
  | primitive kind => exact .primitive kind
  | known => exact .known known
  | leaf new => exact absurd known new
  | record _ new => exact absurd known.2 new

/-- A schema comes out with just those levels that it fits in. -/
theorem Derives.iff_fitsIn (h : Derives shapes room t seen s seen') :
    Derives shapes room' t seen s seen' ↔ s.FitsIn room' := by
  by_cases known : Known shapes seen t
  · have fits : s.FitsIn room' := .inl ⟨_, _, h.eq_reference known⟩
    exact iff_of_true (h.of_known known) fits
  · have full := h.describes known
    constructor
    · intro h'
      have above : Above (0 + room') (s.outline 0) := h'.above known 0
      rw [Nat.zero_add] at above
      exact .inr above
    · intro fits
      obtain ⟨name, space?, hs⟩ | above := fits
      · exact absurd hs (full.ne_reference name space?)
      · rw [← Nat.zero_add room'] at above
        exact h.of_above known above

theorem Schema.FitsIn.mono (h : s.FitsIn room) (le : room ≤ room') : s.FitsIn room' :=
  Or.imp_right (fun above => above.mono le) h

theorem Derives.mono (h : Derives shapes room t seen s seen') (le : room ≤ room') :
    Derives shapes room' t seen s seen' :=
  h.iff_fitsIn.2 ((h.iff_fitsIn.1 h).mono le)

end Levels

mutual

theorem Fails.more_levels {limit limit' room : Nat} (more : Nat) {t : τ}
    {seen seen' : Visited τ} {e : Failure} : Fails shapes limit room t seen e seen' →
      (∀ type, e ≠ .tooDeep limit type) → Fails shapes limit' (more + room) t seen e seen'
  | .tooDeep .., other => absurd rfl (other _)
  | .sequence kind, _ => .sequence kind
  | .map kind, _ => .map kind
  | .duration kind new, _ => .duration kind new
  | .record kind new inside, other => .record kind new (inside.more_levels more other)

theorem FailsFields.more_levels {limit limit' room : Nat} (more : Nat) {ms : List (Member τ)}
    {seen seen' : Visited τ} {e : Failure} : FailsFields shapes limit room ms seen e seen' →
      (∀ type, e ≠ .tooDeep limit type) → FailsFields shapes limit' (more + room) ms seen e seen'
  | .here new first, other => .here new (first.more_levels more other)
  | .named known after, other => .named known (after.more_levels more other)
  | .inline new first after, other =>
    .inline new (first.mono (Nat.le_add_left _ _)) (after.more_levels more other)

end

section Unique

variable {limit limit' room room' : Nat} {t : τ} {seen seen₁ seen₂ : Visited τ}

theorem Derives.unique {s₁ s₂ : Schema} (h₁ : Derives shapes room t seen s₁ seen₁)
    (h₂ : Derives shapes room' t seen s₂ seen₂) : s₁ = s₂ ∧ seen₁ = seen₂ := by
  have he₁ : derive shapes 0 (room + room') t seen = ⟨.ok s₁, seen₁⟩ :=
    (h₁.mono (Nat.le_add_right _ _)).derive_eq
  have he₂ : derive shapes 0 (room + room') t seen = ⟨.ok s₂, seen₂⟩ :=
    (h₂.mono (Nat.le_add_left _ _)).derive_eq
  cases he₁.symm.trans he₂
  exact ⟨rfl, rfl⟩

theorem Derives.not_fails {s : Schema} {e : Failure} (h : Derives shapes room t seen s seen₁)
    (other : ∀ type, e ≠ .tooDeep limit type) : ¬ Fails shapes limit room' t seen e seen₂ := by
  intro hf
  have he₁ : derive shapes 0 (room + room') t seen = ⟨.ok s, seen₁⟩ :=
    (h.mono (Nat.le_add_right _ _)).derive_eq
  have he₂ : derive shapes 0 (room + room') t seen = ⟨.error e, seen₂⟩ :=
    (hf.more_levels room other).derive_eq
  cases he₁.symm.trans he₂

theorem Fails.unique {e₁ e₂ : Failure} (h₁ : Fails shapes limit room t seen e₁ seen₁)
    (h₂ : Fails shapes limit' room' t seen e₂ seen₂) (other₁ : ∀ type, e₁ ≠ .tooDeep limit type)
    (other₂ : ∀ type, e₂ ≠ .tooDeep limit' type) : e₁ = e₂ := by
  have he₁ : derive shapes 0 (room' + room) t seen = ⟨.error e₁, seen₁⟩ :=
    (h₁.more_levels room' other₁).derive_eq
  have he₂ : derive shapes 0 (room + room') t seen = ⟨.error e₂, seen₂⟩ :=
    (h₂.more_levels room other₂).derive_eq
  rw [Nat.add_comm] at he₂
  cases he₁.symm.trans he₂
  rfl

/-- With another limit the schema is the same if it fits, and the type lies too deep otherwise. -/
theorem Derives.limited {s : Schema} (h : Derives shapes room t seen s seen₁) (limit : Nat) :
    (s.FitsIn limit → derive shapes limit limit t seen = ⟨.ok s, seen₁⟩) ∧
    (¬ s.FitsIn limit →
      ∃ type, (derive shapes limit limit t seen).result = .error (.tooDeep limit type)) := by
  refine ⟨fun fits => (h.iff_fitsIn.2 fits).derive_eq, fun tight => ?_⟩
  obtain ⟨s', seen', h'⟩ | ⟨e, seen', failed⟩ := derives_or_fails shapes limit limit t seen
  · obtain ⟨rfl, rfl⟩ := h.unique h'
    exact absurd (h.iff_fitsIn.1 h') tight
  by_cases deep : ∃ type, e = .tooDeep limit type
  · obtain ⟨type, rfl⟩ := deep
    exact ⟨type, by rw [failed.derive_eq]⟩
  · exact absurd failed (h.not_fails (not_exists.1 deep))

theorem Fails.limited {e : Failure} (h : Fails shapes limit room t seen e seen₁)
    (other : ∀ type, e ≠ .tooDeep limit type) (limit' : Nat) :
    (derive shapes limit' limit' t seen).result = .error e ∨
      ∃ type, (derive shapes limit' limit' t seen).result = .error (.tooDeep limit' type) := by
  obtain ⟨s, seen', h'⟩ | ⟨e', seen', failed⟩ := derives_or_fails shapes limit' limit' t seen
  · exact absurd h (h'.not_fails other)
  rw [failed.derive_eq]
  by_cases deep : ∃ type, e' = .tooDeep limit' type
  · obtain ⟨type, rfl⟩ := deep
    exact .inr ⟨type, rfl⟩
  · rw [h.unique failed other (not_exists.1 deep)]
    exact .inl rfl

end Unique

/-- With a limit above the number of records, a type has a schema with any other limit if and only
if the schema fits, and it is the same schema then, after which the same types have been met. If it
does not fit, the type lies too deep. A type that fails for another reason fails for it or lies too
deep. So no schema is changed or lost by a higher limit. -/
theorem derive_limit (shapes : τ → Shape τ) (t : τ) (seen : Visited τ) {large : Nat}
    (levels : {u | (shapes u).kind = .record}.encard < large) (limit : Nat) :
    let unlimited := derive shapes large large t seen
    let limited := derive shapes limit limit t seen
    (∀ s, unlimited.result = .ok s →
      (s.FitsIn limit → limited = unlimited) ∧
      (¬ s.FitsIn limit → ∃ type, limited.result = .error (.tooDeep limit type))) ∧
    (∀ e, unlimited.result = .error e → limited.result = .error e ∨
      ∃ type, limited.result = .error (.tooDeep limit type)) ∧
    (∀ limit' ≥ limit, ∀ s, limited.result = .ok s →
      derive shapes limit' limit' t seen = limited) := by
  intro unlimited limited
  refine ⟨fun s ok => ?_, fun e error => ?_, fun limit' le s ok => ?_⟩
  · have h : Derives shapes large t seen s unlimited.seen := derives_of_result ok
    refine ⟨fun fits => ?_, (h.limited limit).2⟩
    have same : limited = ⟨.ok s, unlimited.seen⟩ := (h.limited limit).1 fits
    rw [same, ← ok]
  · have h : Fails shapes large large t seen e unlimited.seen := fails_of_result error
    have other : ∀ type, e ≠ .tooDeep large type :=
      h.ne_tooDeep ((Set.encard_le_encard fun u hu => hu.2.1).trans_lt levels)
    exact h.limited other limit
  · have h : Derives shapes limit t seen s limited.seen := derives_of_result ok
    rw [(h.mono le).derive_eq, ← ok]

instance (depth : Nat) (es : List Entry) : Decidable (Above depth es) :=
  inferInstanceAs (Decidable (∀ e ∈ es, e.part.isComplex = true → e.depth < depth))

theorem derive_limit_club :
    {u | (club u).kind = .record}.encard < ((512 : Nat) : ℕ∞) ∧
    (derive club 512 512 0 .empty).result = .ok clubTeam ∧
    clubTeam.FitsIn 3 ∧ derive club 3 3 0 .empty = derive club 512 512 0 .empty ∧
    ¬ clubTeam.FitsIn 2 ∧
      ∃ type, (derive club 2 2 0 .empty).result = .error (.tooDeep 2 type) := by
  have levels : {u | (club u).kind = .record}.encard < ((512 : Nat) : ℕ∞) :=
    encard_setOf_lt _ (by decide)
  have ok : (derive club 512 512 0 .empty).result = .ok clubTeam := rfl
  have fits : clubTeam.FitsIn 3 := .inr (by decide)
  have tight : ¬ clubTeam.FitsIn 2 := by
    intro fits
    obtain ⟨name, space?, hs⟩ | above := fits
    · cases hs
    · exact absurd above (by decide)
  exact ⟨levels, ok, fits, ((derive_limit club 0 .empty levels 3).1 _ ok).1 fits, tight,
    ((derive_limit club 0 .empty levels 2).1 _ ok).2 tight⟩

end AvroSchemata
