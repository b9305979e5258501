import AvroSchemata.Derivation.Basic
import AvroSchemata.Proofs.Description
set_option autoImplicit false

/-!
Derivation by rules: one relation for the schemas that come out and one for the failures, each
with the types that have been met before and after. The rules say exactly what `derive` does, so
whatever holds of every rule holds of every derivation.
-/

namespace AvroSchemata

variable {τ : Type} [DecidableEq τ]

mutual

/-- A schema for a type, with this many levels left. It does not depend on the limit. -/
inductive Derives (shapes : τ → Shape τ) : Nat → τ → Visited τ → Schema → Visited τ → Prop where
  | primitive {room : Nat} {t : τ} {seen : Visited τ} {p : Primitive}
      (kind : (shapes t).kind = .primitive p) :
      Derives shapes room t seen (.primitive p) (seen.insert t)
  | known {room : Nat} {t : τ} {seen : Visited τ} (known : Known shapes seen t) :
      Derives shapes room t seen (.referenceTo (shapes t).resolved) seen
  | leaf {room : Nat} {t : τ} {seen : Visited τ} {s : Schema} (new : ¬ Known shapes seen t)
      (leaf : (shapes t).kind ≠ .record) (full : Describes shapes t s) :
      Derives shapes (room + 1) t seen s (seen.insert t)
  | record {room : Nat} {t : τ} {seen seen' : Visited τ} {fields : Fields}
      (kind : (shapes t).kind = .record) (new : t ∉ seen)
      (inside : DerivesFields shapes room (shapes t).members (seen.insert t) fields seen') :
      Derives shapes (room + 1) t seen (.recordOf (shapes t).resolved fields) seen'

inductive DerivesFields (shapes : τ → Shape τ) :
    Nat → List (Member τ) → Visited τ → Fields → Visited τ → Prop where
  | nil {room : Nat} {seen : Visited τ} : DerivesFields shapes room [] seen .nil seen
  | named {room : Nat} {m : Member τ} {ms : List (Member τ)} {seen seen' : Visited τ}
      {rest : Fields} (known : Known shapes seen m.type)
      (after : DerivesFields shapes room ms seen rest seen') :
      DerivesFields shapes room (m :: ms) seen
        (.named m.name (shapes m.type).fullName rest) seen'
  | inline {room : Nat} {m : Member τ} {ms : List (Member τ)} {seen seen₁ seen' : Visited τ}
      {s : Schema} {rest : Fields} (new : ¬ Known shapes seen m.type)
      (first : Derives shapes room m.type seen s seen₁)
      (after : DerivesFields shapes room ms seen₁ rest seen') :
      DerivesFields shapes room (m :: ms) seen (.inline m.name s rest) seen'

end

mutual

/-- A failure for a type, with this many levels left. -/
inductive Fails (shapes : τ → Shape τ) (limit : Nat) :
    Nat → τ → Visited τ → Failure → Visited τ → Prop where
  | tooDeep {t : τ} {seen : Visited τ} (new : ¬ Known shapes seen t)
      (kind : ∀ p, (shapes t).kind ≠ .primitive p) :
      Fails shapes limit 0 t seen (.tooDeep limit (shapes t).fullName) seen
  | sequence {room : Nat} {t item : τ} {seen : Visited τ}
      (kind : (shapes t).kind = .sequence item) :
      Fails shapes limit (room + 1) t seen
        (.unimplemented .sequence (shapes t).fullName) seen
  | map {room : Nat} {t key value : τ} {seen : Visited τ}
      (kind : (shapes t).kind = .map key value) :
      Fails shapes limit (room + 1) t seen (.unimplemented .map (shapes t).fullName) seen
  | duration {room : Nat} {t : τ} {seen : Visited τ}
      (kind : (shapes t).kind = .logical .duration) (new : t ∉ seen) :
      Fails shapes limit (room + 1) t seen (.unsupported (shapes t).fullName) seen
  | record {room : Nat} {t : τ} {seen seen' : Visited τ} {e : Failure}
      (kind : (shapes t).kind = .record) (new : t ∉ seen)
      (inside : FailsFields shapes limit room (shapes t).members (seen.insert t) e seen') :
      Fails shapes limit (room + 1) t seen e seen'

inductive FailsFields (shapes : τ → Shape τ) (limit : Nat) :
    Nat → List (Member τ) → Visited τ → Failure → Visited τ → Prop where
  | here {room : Nat} {m : Member τ} {ms : List (Member τ)} {seen seen' : Visited τ}
      {e : Failure} (new : ¬ Known shapes seen m.type)
      (first : Fails shapes limit room m.type seen e seen') :
      FailsFields shapes limit room (m :: ms) seen e seen'
  | named {room : Nat} {m : Member τ} {ms : List (Member τ)} {seen seen' : Visited τ}
      {e : Failure} (known : Known shapes seen m.type)
      (after : FailsFields shapes limit room ms seen e seen') :
      FailsFields shapes limit room (m :: ms) seen e seen'
  | inline {room : Nat} {m : Member τ} {ms : List (Member τ)} {seen seen₁ seen' : Visited τ}
      {s : Schema} {e : Failure} (new : ¬ Known shapes seen m.type)
      (first : Derives shapes room m.type seen s seen₁)
      (after : FailsFields shapes limit room ms seen₁ e seen') :
      FailsFields shapes limit room (m :: ms) seen e seen'

end

section Shapes

omit [DecidableEq τ]

variable {shapes : τ → Shape τ} {t : τ}

theorem Known.not_of_not_mem {seen : Visited τ} (new : t ∉ seen) : ¬ Known shapes seen t :=
  fun h => new h.2

theorem Shape.literal?_eq_none (h : ∀ p, (shapes t).kind ≠ .primitive p) :
    (shapes t).literal? = none := by
  unfold Shape.literal?
  split
  · next hk => exact absurd hk (h _)
  · rfl

theorem Describes.outerSchema_eq {s : Schema} (full : Describes shapes t s)
    (leaf : (shapes t).kind ≠ .record) : (shapes t).outerSchema shapes = .ok s := by
  cases full with
  | primitive kind => simp [Shape.outerSchema, kind]
  | optional kind => simp [Shape.outerSchema, kind, Shape.nullable, Schema.nullable]
  | logical kind short bytes => simp [Shape.outerSchema, kind, Logical.schema, short, bytes]
  | enumeration kind => simp [Shape.outerSchema, kind]
  | record kind => exact absurd kind leaf

end Shapes

variable {shapes : τ → Shape τ} {limit : Nat}

mutual

theorem Derives.describes {room : Nat} {t : τ} {seen seen' : Visited τ} {s : Schema} :
    Derives shapes room t seen s seen' → ¬ Known shapes seen t → Describes shapes t s
  | .primitive kind, _ => .primitive kind
  | .known known, new => absurd known new
  | .leaf _ _ full, _ => full
  | .record kind _ inside, _ => .record kind inside.agree

theorem DerivesFields.agree {room : Nat} {ms : List (Member τ)} {seen seen' : Visited τ}
    {fields : Fields} : DerivesFields shapes room ms seen fields seen' → fields.Agree shapes ms
  | .nil => .nil
  | .named known after => .cons ⟨rfl, .name known.1⟩ after.agree
  | .inline new first after => .cons ⟨rfl, (first.describes new).mentions⟩ after.agree

end

theorem Derives.eq_reference {room : Nat} {t : τ} {seen seen' : Visited τ} {s : Schema}
    (h : Derives shapes room t seen s seen') (known : Known shapes seen t) :
    s = .referenceTo (shapes t).resolved := by
  cases h with
  | primitive kind => simp [Known, kind, Kind.isNamed] at known
  | known => rfl
  | leaf new => exact absurd known new
  | record _ new => exact absurd known.2 new

mutual

theorem Derives.derive_eq {room : Nat} {t : τ} {seen seen' : Visited τ} {s : Schema} :
    Derives shapes room t seen s seen' → derive shapes limit room t seen = ⟨.ok s, seen'⟩
  | .primitive kind => derive_of_literal (by simp [Shape.literal?, kind])
  | .known known => derive_of_known known
  | .leaf new leaf full => by
    -- a primitive has its schema even without levels left
    by_cases hp : ∃ p, (shapes t).kind = .primitive p
    · cases full with
      | primitive kind => exact derive_of_literal (by simp [Shape.literal?, kind])
      | _ => simp_all
    · have hl := Shape.literal?_eq_none (not_exists.1 hp)
      rw [derive_outer hl leaf new, full.outerSchema_eq leaf]
  | .record kind new inside => by
    rw [derive_record kind new, inside.fieldsOf_eq]
    rfl

theorem DerivesFields.fieldsOf_eq {room : Nat} {ms : List (Member τ)} {seen seen' : Visited τ}
    {fields : Fields} : DerivesFields shapes room ms seen fields seen' →
      fieldsOf shapes (derive shapes limit room) ms seen = ⟨.ok fields, seen'⟩
  | .nil => rfl
  | .named known after => by
    rw [fieldsOf_known known, after.fieldsOf_eq]
    rfl
  | .inline new first after => by
    rw [fieldsOf_inline new, first.derive_eq, Outcome.andThen_ok, after.fieldsOf_eq]
    rfl

end

theorem derive_of_outerSchema_error {room : Nat} {t : τ} {seen : Visited τ} {e : Failure}
    (kind : ∀ p, (shapes t).kind ≠ .primitive p) (leaf : (shapes t).kind ≠ .record)
    (new : ¬ Known shapes seen t) (h : (shapes t).outerSchema shapes = .error e) :
    derive shapes limit (room + 1) t seen = ⟨.error e, seen⟩ := by
  rw [derive_outer (Shape.literal?_eq_none kind) leaf new, h]

mutual

theorem Fails.derive_eq {room : Nat} {t : τ} {seen seen' : Visited τ} {e : Failure} :
    Fails shapes limit room t seen e seen' → derive shapes limit room t seen = ⟨.error e, seen'⟩
  | .tooDeep new kind => derive_zero (Shape.literal?_eq_none kind) new
  | .sequence kind => by
    have unknown : ¬ Known shapes seen t := by simp [Known, kind, Kind.isNamed]
    exact derive_of_outerSchema_error (by simp [kind]) (by simp [kind]) unknown
      (by simp [Shape.outerSchema, kind])
  | .map kind => by
    have unknown : ¬ Known shapes seen t := by simp [Known, kind, Kind.isNamed]
    exact derive_of_outerSchema_error (by simp [kind]) (by simp [kind]) unknown
      (by simp [Shape.outerSchema, kind])
  | .duration kind new =>
    derive_of_outerSchema_error (by simp [kind]) (by simp [kind]) (Known.not_of_not_mem new)
      (by simp [Shape.outerSchema, kind, Logical.schema, Logical.alias?])
  | .record kind new inside => by
    rw [derive_record kind new, inside.fieldsOf_eq]
    rfl

theorem FailsFields.fieldsOf_eq {room : Nat} {ms : List (Member τ)} {seen seen' : Visited τ}
    {e : Failure} : FailsFields shapes limit room ms seen e seen' →
      fieldsOf shapes (derive shapes limit room) ms seen = ⟨.error e, seen'⟩
  | .here new first => by
    rw [fieldsOf_inline new, first.derive_eq]
    rfl
  | .named known after => by
    rw [fieldsOf_known known, after.fieldsOf_eq]
    rfl
  | .inline new first after => by
    rw [fieldsOf_inline new, first.derive_eq, Outcome.andThen_ok, after.fieldsOf_eq]
    rfl

end

theorem derivesFields_or_failsFields {room : Nat}
    (rule : ∀ t seen, (∃ s seen', Derives shapes room t seen s seen') ∨
      ∃ e seen', Fails shapes limit room t seen e seen')
    (ms : List (Member τ)) (seen : Visited τ) :
    (∃ fields seen', DerivesFields shapes room ms seen fields seen') ∨
      ∃ e seen', FailsFields shapes limit room ms seen e seen' := by
  induction ms generalizing seen with
  | nil => exact .inl ⟨_, _, .nil⟩
  | cons m ms ih =>
    by_cases hk : Known shapes seen m.type
    · obtain ⟨fields, seen', h⟩ | ⟨e, seen', h⟩ := ih seen
      · exact .inl ⟨_, _, .named hk h⟩
      · exact .inr ⟨_, _, .named hk h⟩
    · obtain ⟨s, seen₁, h⟩ | ⟨e, seen₁, h⟩ := rule m.type seen
      · obtain ⟨fields, seen', h'⟩ | ⟨e, seen', h'⟩ := ih seen₁
        · exact .inl ⟨_, _, .inline hk h h'⟩
        · exact .inr ⟨_, _, .inline hk h h'⟩
      · exact .inr ⟨_, _, .here hk h⟩

theorem derives_or_fails (shapes : τ → Shape τ) (limit room : Nat) (t : τ) (seen : Visited τ) :
    (∃ s seen', Derives shapes room t seen s seen') ∨
      ∃ e seen', Fails shapes limit room t seen e seen' := by
  induction room generalizing t seen with
  | zero =>
    by_cases hk : Known shapes seen t
    · exact .inl ⟨_, _, .known hk⟩
    · by_cases hp : ∃ p, (shapes t).kind = .primitive p
      · obtain ⟨p, kind⟩ := hp
        exact .inl ⟨_, _, .primitive kind⟩
      · exact .inr ⟨_, _, .tooDeep hk (not_exists.1 hp)⟩
  | succ room ih =>
    by_cases hk : Known shapes seen t
    · exact .inl ⟨_, _, .known hk⟩
    · cases kind : (shapes t).kind with
      | primitive p => exact .inl ⟨_, _, .primitive kind⟩
      | logical l =>
        have new : t ∉ seen := fun h => hk ⟨by rw [kind]; rfl, h⟩
        cases l with
        | duration => exact .inr ⟨_, _, .duration kind new⟩
        | guid => exact .inl ⟨_, _, .leaf hk (by simp [kind]) (.logical kind rfl rfl)⟩
        | decimal => exact .inl ⟨_, _, .leaf hk (by simp [kind]) (.logical kind rfl rfl)⟩
        | timestamp => exact .inl ⟨_, _, .leaf hk (by simp [kind]) (.logical kind rfl rfl)⟩
      | optional item => exact .inl ⟨_, _, .leaf hk (by simp [kind]) (.optional kind)⟩
      | enumeration symbols => exact .inl ⟨_, _, .leaf hk (by simp [kind]) (.enumeration kind)⟩
      | sequence item => exact .inr ⟨_, _, .sequence kind⟩
      | map key value => exact .inr ⟨_, _, .map kind⟩
      | record =>
        have new : t ∉ seen := fun h => hk ⟨by rw [kind]; rfl, h⟩
        obtain ⟨fields, seen', h⟩ | ⟨e, seen', h⟩ :=
          derivesFields_or_failsFields ih (shapes t).members (seen.insert t)
        · exact .inl ⟨_, _, .record kind new h⟩
        · exact .inr ⟨_, _, .record kind new h⟩

section Exact

variable {room : Nat} {t : τ} {seen seen' : Visited τ}

theorem derives_iff {s : Schema} : Derives shapes room t seen s seen' ↔
    derive shapes limit room t seen = ⟨.ok s, seen'⟩ := by
  refine ⟨Derives.derive_eq, fun h => ?_⟩
  obtain ⟨s₁, seen₁, h₁⟩ | ⟨e, seen₁, h₁⟩ := derives_or_fails shapes limit room t seen
  · have he := h.symm.trans h₁.derive_eq
    cases he
    exact h₁
  · have he := h.symm.trans h₁.derive_eq
    cases he

theorem fails_iff {e : Failure} : Fails shapes limit room t seen e seen' ↔
    derive shapes limit room t seen = ⟨.error e, seen'⟩ := by
  refine ⟨Fails.derive_eq, fun h => ?_⟩
  obtain ⟨s, seen₁, h₁⟩ | ⟨e₁, seen₁, h₁⟩ := derives_or_fails shapes limit room t seen
  · have he := h.symm.trans h₁.derive_eq
    cases he
  · have he := h.symm.trans h₁.derive_eq
    cases he
    exact h₁

theorem derives_of_result {s : Schema} (h : (derive shapes limit room t seen).result = .ok s) :
    Derives shapes room t seen s (derive shapes limit room t seen).seen :=
  derives_iff.2 (by rw [← h])

theorem fails_of_result {e : Failure} (h : (derive shapes limit room t seen).result = .error e) :
    Fails shapes limit room t seen e (derive shapes limit room t seen).seen :=
  fails_iff.2 (by rw [← h])

theorem Settings.schemaIn_eq {settings : Settings} {s : Schema}
    (h : Derives shapes settings.maxDepth t seen s seen') :
    settings.schemaIn shapes t seen = ⟨.ok s, seen'⟩ := h.derive_eq

end Exact

/-- A table of types with a team whose players know it. A team may have sisters, of which the
type is named and not looked at. -/
def club : Fin 8 → Shape (Fin 8)
  | 0 => ⟨⟨"club", "Team"⟩, .record, [⟨"lead", 1⟩, ⟨"badge", 3⟩, ⟨"sisters", 5⟩, ⟨"coach", 7⟩]⟩
  | 1 => ⟨⟨"club", "Player"⟩, .record,
      [⟨"team", 0⟩, ⟨"id", 2⟩, ⟨"badge", 3⟩, ⟨"partner", 1⟩, ⟨"nick", 4⟩]⟩
  | 2 => .logical .guid ⟨"uuid", "Uuid"⟩
  | 3 => .enumeration ⟨"club", "Badge"⟩ ["Red", "Blue"]
  | 4 => .primitive .string
  | 5 => .optional 6
  | 6 => .sequence ⟨"alloc.vec", "Vec"⟩ 0
  | 7 => ⟨⟨"club", "Coach"⟩, .record, [⟨"id", 2⟩, ⟨"nick", 4⟩]⟩

def clubTeam : Schema :=
  .record "Team" (some "club")
    (.inline "lead" (.record "Player" (some "club")
        (.named "team" "club.Team" (.inline "id" (.fixed "guid" 16)
          (.inline "badge" (.enumeration "Badge" "club" ["Red", "Blue"])
            (.named "partner" "club.Player" (.inline "nick" (.primitive .string) .nil))))))
      (.named "badge" "club.Badge"
        (.inline "sisters" (.union [some "alloc.vec.Vec", none])
          (.inline "coach" (.record "Coach" (some "club")
            (.named "id" "guid" (.inline "nick" (.primitive .string) .nil))) .nil))))

/-- A table of types with a moment in time from two sources. A visit has a length besides, and so
no schema. -/
def journal : Fin 6 → Shape (Fin 6)
  | 0 => ⟨⟨"log", "Visit"⟩, .record, [⟨"begun", 3⟩, ⟨"length", 5⟩]⟩
  | 1 => ⟨⟨"log", "Entry"⟩, .record, [⟨"written", 3⟩]⟩
  | 2 => ⟨⟨"log", "Letter"⟩, .record, [⟨"written", 3⟩, ⟨"read", 4⟩]⟩
  | 3 => .logical .timestamp ⟨"std.time", "SystemTime"⟩
  | 4 => .logical .timestamp ⟨"chrono", "DateTime"⟩
  | 5 => .logical .duration ⟨"core.time", "Duration"⟩

end AvroSchemata
