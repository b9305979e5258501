import Mathlib.Data.Set.Card
import AvroSchemata.Derivation.Walk
import AvroSchemata.Proofs.Rules
set_option autoImplicit false

namespace AvroSchemata

variable {τ : Type}

/-- A type that has no schema. A duration may still be written by its name, once it has been
met; what has no name cannot. -/
inductive Blocked (shapes : τ → Shape τ) (seen : Visited τ) (t : τ) : Prop where
  | sequence {item : τ} (kind : (shapes t).kind = .sequence item)
  | map {key value : τ} (kind : (shapes t).kind = .map key value)
  | duration (kind : (shapes t).kind = .logical .duration) (new : t ∉ seen)

def newRecords (shapes : τ → Shape τ) (seen : Visited τ) (t : τ) : Set τ :=
  {u | Reaches shapes seen t u ∧ (shapes u).kind = .record ∧ u ∉ seen}

section Blocked

variable {shapes : τ → Shape τ} {seen seen' : Visited τ} {t u : τ}

theorem Blocked.anti (h : ∀ t ∈ seen, t ∈ seen') (b : Blocked shapes seen' t) :
    Blocked shapes seen t := by
  cases b with
  | sequence kind => exact .sequence kind
  | map kind => exact .map kind
  | duration kind new => exact .duration kind fun ht => new (h t ht)

theorem Blocked.of_not_mem (b : Blocked shapes seen t) (new : t ∉ seen') :
    Blocked shapes seen' t := by
  cases b with
  | sequence kind => exact .sequence kind
  | map kind => exact .map kind
  | duration kind => exact .duration kind new

theorem Known.not_blocked (known : Known shapes seen t) : ¬ Blocked shapes seen t := by
  intro b
  cases b with
  | sequence kind => simp [Known, kind, Kind.isNamed] at known
  | map kind => simp [Known, kind, Kind.isNamed] at known
  | duration _ new => exact new known.2

theorem Describes.not_blocked {s : Schema} (full : Describes shapes t s) :
    ¬ Blocked shapes seen t := by
  intro b
  cases b with
  | sequence kind => cases full <;> simp_all
  | map kind => cases full <;> simp_all
  | duration kind =>
    cases full with
    | logical kind' short =>
      have hl := kind.symm.trans kind'
      cases hl
      simp [Logical.alias?] at short
    | _ => simp_all

theorem not_blocked_of_record (kind : (shapes t).kind = .record) : ¬ Blocked shapes seen t := by
  intro b
  cases b <;> simp_all

theorem Opens.reaches (o : Opens shapes seen t u) (h : ∀ t ∈ seen, t ∈ seen') {v : τ}
    (r : Reaches shapes seen' u v) : Reaches shapes seen t v :=
  .head o (r.mono h)

end Blocked

/-- The set has grown, and not by types without a schema. -/
structure Grows (shapes : τ → Shape τ) (seen seen' : Visited τ) : Prop where
  mem : ∀ t ∈ seen, t ∈ seen'
  not_blocked : ∀ t ∈ seen', t ∉ seen → ¬ Blocked shapes seen t

section Grows

variable {shapes : τ → Shape τ} {seen seen₁ seen' : Visited τ} {t : τ}

theorem Grows.refl (shapes : τ → Shape τ) (seen : Visited τ) : Grows shapes seen seen :=
  ⟨fun _ h => h, fun _ h new => absurd h new⟩

theorem Grows.blocked (h : Grows shapes seen seen') (b : Blocked shapes seen t) :
    Blocked shapes seen' t := by
  by_cases new : t ∈ seen'
  · cases b with
    | sequence kind => exact .sequence kind
    | map kind => exact .map kind
    | duration kind hs => exact absurd (.duration kind hs) (h.not_blocked t new hs)
  · exact b.of_not_mem new

theorem Grows.trans (h : Grows shapes seen seen₁) (h' : Grows shapes seen₁ seen') :
    Grows shapes seen seen' := by
  refine ⟨fun t ht => h'.mem t (h.mem t ht), fun t ht new b => ?_⟩
  by_cases hm : t ∈ seen₁
  · exact h.not_blocked t hm new b
  · exact h'.not_blocked t ht hm (h.blocked b)

theorem Grows.insert [DecidableEq τ] (h : ¬ Blocked shapes seen t) :
    Grows shapes seen (seen.insert t) := by
  refine ⟨fun u => Visited.mem_insert_of_mem, fun u hu new => ?_⟩
  obtain rfl | hu := Visited.mem_insert.1 hu
  · exact h
  · exact absurd hu new

/-- Met by the end, and not in the way from the start. -/
structure Settled (shapes : τ → Shape τ) (seen seen' : Visited τ) (t : τ) : Prop where
  mem : t ∈ seen'
  not_blocked : ¬ Blocked shapes seen t

theorem Settled.within {seen₂ : Visited τ} (h : Settled shapes seen₁ seen₂ t)
    (before : Grows shapes seen seen₁) (after : Grows shapes seen₂ seen') :
    Settled shapes seen seen' t :=
  ⟨after.mem t h.mem, fun b => h.not_blocked (before.blocked b)⟩

end Grows

variable [DecidableEq τ] {shapes : τ → Shape τ}

theorem Derives.not_blocked {room : Nat} {t : τ} {seen seen' : Visited τ} {s : Schema}
    (h : Derives shapes room t seen s seen') : ¬ Blocked shapes seen t := by
  cases h with
  | primitive kind => exact (Describes.primitive kind).not_blocked
  | known known => exact known.not_blocked
  | leaf _ _ full => exact full.not_blocked
  | record kind => exact not_blocked_of_record kind

mutual

theorem Derives.grows {room : Nat} {t : τ} {seen seen' : Visited τ} {s : Schema} :
    Derives shapes room t seen s seen' → Grows shapes seen seen'
  | .primitive kind => .insert (Describes.primitive kind).not_blocked
  | .known _ => .refl shapes _
  | .leaf _ _ full => .insert full.not_blocked
  | .record kind _ inside => (Grows.insert (not_blocked_of_record kind)).trans inside.grows

theorem DerivesFields.grows {room : Nat} {ms : List (Member τ)} {seen seen' : Visited τ}
    {fields : Fields} : DerivesFields shapes room ms seen fields seen' → Grows shapes seen seen'
  | .nil => .refl shapes _
  | .named _ after => after.grows
  | .inline _ first after => first.grows.trans after.grows

end

mutual

theorem Fails.grows {limit room : Nat} {t : τ} {seen seen' : Visited τ} {e : Failure} :
    Fails shapes limit room t seen e seen' → Grows shapes seen seen'
  | .tooDeep _ _ => .refl shapes _
  | .sequence _ => .refl shapes _
  | .map _ => .refl shapes _
  | .duration _ _ => .refl shapes _
  | .record kind _ inside => (Grows.insert (not_blocked_of_record kind)).trans inside.grows

theorem FailsFields.grows {limit room : Nat} {ms : List (Member τ)} {seen seen' : Visited τ}
    {e : Failure} : FailsFields shapes limit room ms seen e seen' → Grows shapes seen seen'
  | .here _ first => first.grows
  | .named _ after => after.grows
  | .inline _ first after => first.grows.trans after.grows

end

theorem Derives.mem_self {room : Nat} {t : τ} {seen seen' : Visited τ} {s : Schema}
    (h : Derives shapes room t seen s seen') : t ∈ seen' := by
  cases h with
  | primitive => exact Visited.mem_insert_self _ _
  | known known => exact known.2
  | leaf => exact Visited.mem_insert_self _ _
  | record _ _ inside => exact inside.grows.mem t (Visited.mem_insert_self _ _)

theorem mem_or_reaches_of_mem_insert {t u : τ} {seen : Visited τ} (hu : u ∈ seen.insert t) :
    u ∈ seen ∨ Reaches shapes seen t u := by
  obtain rfl | hu := Visited.mem_insert.1 hu
  · exact .inr .refl
  · exact .inl hu

mutual

theorem Derives.reaches {room : Nat} {t u : τ} {seen seen' : Visited τ} {s : Schema} :
    Derives shapes room t seen s seen' → u ∈ seen' → u ∈ seen ∨ Reaches shapes seen t u
  | .primitive _, hu => mem_or_reaches_of_mem_insert hu
  | .known _, hu => .inl hu
  | .leaf .., hu => mem_or_reaches_of_mem_insert hu
  | .record kind new inside, hu => by
    obtain hu | ⟨m, hm, r⟩ := inside.reaches hu
    · exact mem_or_reaches_of_mem_insert hu
    · have o : Opens shapes seen t m.type := ⟨kind, new, m, hm, rfl⟩
      exact .inr (o.reaches (fun v => Visited.mem_insert_of_mem) r)

theorem DerivesFields.reaches {room : Nat} {ms : List (Member τ)} {u : τ}
    {seen seen' : Visited τ} {fields : Fields} :
    DerivesFields shapes room ms seen fields seen' → u ∈ seen' →
      u ∈ seen ∨ ∃ m ∈ ms, Reaches shapes seen m.type u
  | .nil, hu => .inl hu
  | .named _ after, hu => by
    obtain hu | ⟨m, hm, r⟩ := after.reaches hu
    · exact .inl hu
    · exact .inr ⟨m, List.mem_cons_of_mem _ hm, r⟩
  | .inline _ first after, hu => by
    obtain hu | ⟨m, hm, r⟩ := after.reaches hu
    · obtain hu | r := first.reaches hu
      · exact .inl hu
      · exact .inr ⟨_, List.mem_cons_self, r⟩
    · exact .inr ⟨m, List.mem_cons_of_mem _ hm, r.mono first.grows.mem⟩

end

theorem Derives.settled {room : Nat} {t : τ} {seen seen' : Visited τ} {s : Schema}
    (h : Derives shapes room t seen s seen') : Settled shapes seen seen' t :=
  ⟨h.mem_self, h.not_blocked⟩

theorem DerivesFields.settled {room : Nat} {ms : List (Member τ)} {seen seen' : Visited τ}
    {fields : Fields} (h : DerivesFields shapes room ms seen fields seen') (m : Member τ)
    (hm : m ∈ ms) : Settled shapes seen seen' m.type := by
  induction ms generalizing seen fields with
  | nil => cases hm
  | cons m' ms ih =>
    cases h with
    | named known after =>
      obtain rfl | hm := List.mem_cons.1 hm
      · exact ⟨after.grows.mem _ known.2, known.not_blocked⟩
      · exact ih after hm
    | inline _ first after =>
      obtain rfl | hm := List.mem_cons.1 hm
      · exact first.settled.within (.refl shapes _) after.grows
      · exact (ih after hm).within first.grows (.refl shapes _)

mutual

theorem Derives.settled_members {room : Nat} {t u : τ} {seen seen' : Visited τ} {s : Schema} :
    Derives shapes room t seen s seen' → u ∈ seen' → u ∉ seen → (shapes u).kind = .record →
      ∀ m ∈ (shapes u).members, Settled shapes seen seen' m.type
  | .primitive kind, hu, new, hr => by
    obtain rfl | hu := Visited.mem_insert.1 hu
    · simp [kind] at hr
    · exact absurd hu new
  | .known _, hu, new, _ => absurd hu new
  | .leaf _ leaf _, hu, new, hr => by
    obtain rfl | hu := Visited.mem_insert.1 hu
    · exact absurd hr leaf
    · exact absurd hu new
  | .record kind _ inside, hu, new, hr => by
    have entry : Grows shapes seen (seen.insert t) := .insert (not_blocked_of_record kind)
    intro m hm
    -- the record itself has met its members, and all others are new to them
    by_cases he : u = t
    · subst he
      exact (inside.settled m hm).within entry (.refl shapes _)
    · have new' : u ∉ seen.insert t := by simp [he, new]
      exact (inside.settled_members hu new' hr m hm).within entry (.refl shapes _)

theorem DerivesFields.settled_members {room : Nat} {ms : List (Member τ)} {u : τ}
    {seen seen' : Visited τ} {fields : Fields} :
    DerivesFields shapes room ms seen fields seen' → u ∈ seen' → u ∉ seen →
      (shapes u).kind = .record → ∀ m ∈ (shapes u).members, Settled shapes seen seen' m.type
  | .nil, hu, new, _ => absurd hu new
  | .named _ after, hu, new, hr => after.settled_members hu new hr
  | .inline _ first after, hu, new, hr => by
    intro m hm
    rename_i seen₁ _ _ _
    by_cases h₁ : u ∈ seen₁
    · exact (first.settled_members h₁ new hr m hm).within (.refl shapes _) after.grows
    · exact (after.settled_members hu h₁ hr m hm).within first.grows (.refl shapes _)

end

theorem Derives.settled_of_reaches {room : Nat} {t u : τ} {seen seen' : Visited τ} {s : Schema}
    (h : Derives shapes room t seen s seen') (r : Reaches shapes seen t u) :
    Settled shapes seen seen' u := by
  induction r with
  | refl => exact h.settled
  | tail _ o ih =>
    obtain ⟨kind, new, m, hm, rfl⟩ := o
    exact h.settled_members ih.mem new kind m hm

theorem Derives.mem_iff {room : Nat} {t u : τ} {seen seen' : Visited τ} {s : Schema}
    (h : Derives shapes room t seen s seen') :
    u ∈ seen' ↔ u ∈ seen ∨ Reaches shapes seen t u := by
  refine ⟨h.reaches, fun hu => ?_⟩
  obtain hu | r := hu
  · exact h.grows.mem u hu
  · exact (h.settled_of_reaches r).mem

mutual

theorem Fails.exists_blocked {limit room : Nat} {t : τ} {seen seen' : Visited τ} {e : Failure} :
    Fails shapes limit room t seen e seen' → (∀ type, e ≠ .tooDeep limit type) →
      ∃ u, Reaches shapes seen t u ∧ Blocked shapes seen u
  | .tooDeep _ _, shallow => absurd rfl (shallow _)
  | .sequence kind, _ => ⟨t, .refl, .sequence kind⟩
  | .map kind, _ => ⟨t, .refl, .map kind⟩
  | .duration kind new, _ => ⟨t, .refl, .duration kind new⟩
  | .record kind new inside, shallow => by
    have hsub : ∀ u ∈ seen, u ∈ seen.insert t := fun u => Visited.mem_insert_of_mem
    obtain ⟨m, hm, u, r, b⟩ := inside.exists_blocked shallow
    have o : Opens shapes seen t m.type := ⟨kind, new, m, hm, rfl⟩
    exact ⟨u, o.reaches hsub r, b.anti hsub⟩

theorem FailsFields.exists_blocked {limit room : Nat} {ms : List (Member τ)}
    {seen seen' : Visited τ} {e : Failure} : FailsFields shapes limit room ms seen e seen' →
      (∀ type, e ≠ .tooDeep limit type) →
        ∃ m ∈ ms, ∃ u, Reaches shapes seen m.type u ∧ Blocked shapes seen u
  | .here _ first, shallow => ⟨_, List.mem_cons_self, first.exists_blocked shallow⟩
  | .named _ after, shallow => by
    obtain ⟨m, hm, u, r, b⟩ := after.exists_blocked shallow
    exact ⟨m, List.mem_cons_of_mem _ hm, u, r, b⟩
  | .inline _ first after, shallow => by
    obtain ⟨m, hm, u, r, b⟩ := after.exists_blocked shallow
    exact ⟨m, List.mem_cons_of_mem _ hm, u, r.mono first.grows.mem, b.anti first.grows.mem⟩

end

theorem Opens.encard_newRecords_lt {seen seen' : Visited τ} {t u : τ} {room : Nat}
    (o : Opens shapes seen t u) (hs : ∀ v ∈ seen.insert t, v ∈ seen')
    (h : (newRecords shapes seen t).encard < (room + 1 : Nat)) :
    (newRecords shapes seen' u).encard < room := by
  -- `t` is such a record outside and, as it has been met, none inside
  have ht : t ∉ newRecords shapes seen' u := fun hm => hm.2.2 (hs t (by simp))
  have hsub : insert t (newRecords shapes seen' u) ⊆ newRecords shapes seen t := by
    intro v hv
    obtain rfl | ⟨r, kind, new⟩ := hv
    · exact ⟨.refl, o.1, o.2.1⟩
    · exact ⟨o.reaches (fun w hw => hs w (by simp [hw])) r, kind,
        fun hv => new (hs v (by simp [hv]))⟩
  have hle := Set.encard_le_encard hsub
  rw [Set.encard_insert_of_notMem ht] at hle
  have hlt := hle.trans_lt h
  rw [Nat.cast_add, Nat.cast_one, ENat.lt_natCast_add_one_iff] at hlt
  exact ENat.add_one_le_natCast_iff.1 hlt

theorem exists_derivesFields {room : Nat} {t : τ} {seen : Visited τ}
    (inner : ∀ m seen', Opens shapes seen t m → (∀ u ∈ seen.insert t, u ∈ seen') →
      ∃ s seen₁, Derives shapes room m seen' s seen₁)
    (ms : List (Member τ)) (opens : ∀ m ∈ ms, Opens shapes seen t m.type) (seen' : Visited τ)
    (hs : ∀ u ∈ seen.insert t, u ∈ seen') :
    ∃ fields seen₁, DerivesFields shapes room ms seen' fields seen₁ := by
  induction ms generalizing seen' with
  | nil => exact ⟨_, _, .nil⟩
  | cons m ms ih =>
    have opens' : ∀ m' ∈ ms, Opens shapes seen t m'.type :=
      fun m' hm => opens m' (List.mem_cons_of_mem m hm)
    by_cases hk : Known shapes seen' m.type
    · obtain ⟨fields, seen₁, h⟩ := ih opens' seen' hs
      exact ⟨_, _, .named hk h⟩
    · obtain ⟨s, seen₁, first⟩ := inner m.type seen' (opens m List.mem_cons_self) hs
      obtain ⟨fields, seen₂, after⟩ :=
        ih opens' seen₁ fun u hu => first.grows.mem u (hs u hu)
      exact ⟨_, _, .inline hk first after⟩

theorem exists_derives {room : Nat} {t : τ} {seen : Visited τ}
    (unblocked : ∀ u, Reaches shapes seen t u → ¬ Blocked shapes seen u)
    (h : (newRecords shapes seen t).encard < room) :
    ∃ s seen', Derives shapes room t seen s seen' := by
  induction room generalizing t seen with
  | zero => exact absurd h (by simp)
  | succ room ih =>
    by_cases hk : Known shapes seen t
    · exact ⟨_, _, .known hk⟩
    -- the limit shows in failures only, so any will do
    obtain ⟨s, seen', h'⟩ | ⟨e, seen', h'⟩ := derives_or_fails shapes 0 (room + 1) t seen
    · exact ⟨s, seen', h'⟩
    cases h' with
    | sequence kind => exact absurd (.sequence kind) (unblocked t .refl)
    | map kind => exact absurd (.map kind) (unblocked t .refl)
    | duration kind new => exact absurd (.duration kind new) (unblocked t .refl)
    | record kind new =>
      have inner : ∀ u seen', Opens shapes seen t u → (∀ v ∈ seen.insert t, v ∈ seen') →
          ∃ s seen₁, Derives shapes room u seen' s seen₁ := by
        intro u seen' o hs
        have hsub : ∀ v ∈ seen, v ∈ seen' := fun v hv => hs v (by simp [hv])
        exact ih (fun v r b => unblocked v (o.reaches hsub r) (b.anti hsub))
          (o.encard_newRecords_lt hs h)
      obtain ⟨fields, seen₁, inside⟩ := exists_derivesFields inner (shapes t).members
        (fun m hm => ⟨kind, new, m, hm, rfl⟩) (seen.insert t) fun u hu => hu
      exact ⟨_, _, .record kind new inside⟩

namespace Settings

theorem exists_textIn_iff {settings : Settings} {t : τ} {seen : Visited τ} :
    (∃ text, (settings.textIn shapes t seen).result = .ok text) ↔
      ∃ s, Derives shapes settings.maxDepth t seen s (settings.textIn shapes t seen).seen := by
  constructor
  · intro h
    obtain ⟨text, h⟩ := h
    cases hr : (settings.schemaIn shapes t seen).result with
    | error e => simp [textIn, Outcome.map, hr, Except.map] at h
    | ok s => exact ⟨s, derives_of_result hr⟩
  · intro h
    obtain ⟨s, h⟩ := h
    exact ⟨settings.render s, by rw [textIn, schemaIn_eq h]; rfl⟩

/-- With levels for the records that a type reaches, it has a schema if and only if it reaches no
sequence, no map, and no duration that has not been met. Then the types that have been met are
those from before and those that it reaches. -/
theorem textIn_ok_iff_unblocked (settings : Settings) (shapes : τ → Shape τ) (t : τ)
    (seen : Visited τ)
    (levels : {u | Reaches shapes seen t u ∧ (shapes u).kind = .record}.encard <
      settings.maxDepth) :
    ((∃ text, (settings.textIn shapes t seen).result = .ok text) ↔
      ∀ u, Reaches shapes seen t u → ¬ Blocked shapes seen u) ∧
    ((∃ text, (settings.textIn shapes t seen).result = .ok text) →
      ∀ u, u ∈ (settings.textIn shapes t seen).seen ↔ u ∈ seen ∨ Reaches shapes seen t u) := by
  rw [exists_textIn_iff]
  refine ⟨⟨fun h u r => ?_, fun unblocked => ?_⟩, fun h u => ?_⟩
  · obtain ⟨s, h⟩ := h
    exact (h.settled_of_reaches r).not_blocked
  · have hsub : newRecords shapes seen t ⊆
        {u | Reaches shapes seen t u ∧ (shapes u).kind = .record} := fun u hu => ⟨hu.1, hu.2.1⟩
    have hlt := (Set.encard_le_encard hsub).trans_lt levels
    obtain ⟨s, seen', h⟩ := exists_derives unblocked hlt
    refine ⟨s, ?_⟩
    rwa [textIn, schemaIn_eq h]
  · obtain ⟨s, h⟩ := h
    exact h.mem_iff

theorem textIn_ok_iff_unblocked_club :
    {u | Reaches club (.ofList [7, 6]) 0 u ∧ (club u).kind = .record}.encard <
      (({} : Settings).maxDepth : ℕ∞) ∧
    ((∃ text, (textIn {} club 0 (.ofList [7, 6])).result = .ok text) ↔
      ∀ u, Reaches club (.ofList [7, 6]) 0 u → ¬ Blocked club (.ofList [7, 6]) u) ∧
    ((∃ text, (textIn {} club 0 (.ofList [7, 6])).result = .ok text) →
      ∀ u, u ∈ (textIn {} club 0 (.ofList [7, 6])).seen ↔
        u ∈ Visited.ofList [7, 6] ∨ Reaches club (.ofList [7, 6]) 0 u) := by
  have levels : {u | Reaches club (.ofList [7, 6]) 0 u ∧ (club u).kind = .record}.encard <
      (({} : Settings).maxDepth : ℕ∞) := by
    refine (Set.encard_le_encard (Set.subset_univ _)).trans_lt ?_
    rw [Set.encard_univ, ENat.card_eq_coe_fintype_card, Fintype.card_fin]
    decide
  exact ⟨levels, textIn_ok_iff_unblocked {} club 0 _ levels⟩

end Settings

end AvroSchemata
