import AvroSchemata.Proofs.Definitions
set_option autoImplicit false

/-!
Names that are defined more than once. What has been met is known by its type, and what is written
stands by its name. Types for which an alias stands share it, so each of those that a type reaches
has a definition of its own, all of one name. Other names are defined once.
-/

namespace AvroSchemata

variable {τ : Type}

def Logical.aliases : List String := ["guid", "decimal", "utcdatetime"]

theorem Logical.mem_aliases_iff {a : String} : a ∈ aliases ↔ ∃ l : Logical, l.alias? = some a := by
  constructor
  · intro h
    simp only [aliases, List.mem_cons, List.not_mem_nil, or_false] at h
    obtain rfl | rfl | rfl := h
    · exact ⟨.guid, rfl⟩
    · exact ⟨.decimal, rfl⟩
    · exact ⟨.timestamp, rfl⟩
  · intro h
    obtain ⟨l, h⟩ := h
    cases l <;> simp_all [alias?, aliases]

theorem Logical.alias?_injective : Function.Injective Logical.alias? := by
  intro l k h
  cases l <;> cases k <;> simp_all [alias?]

/-- Whether a type of this kind is known by the name it is declared with. -/
def Kind.isDeclared : Kind τ → Bool
  | .enumeration _ | .record => true
  | .primitive _ | .logical _ | .optional _ | .sequence _ | .map _ _ => false

/-- Different records and enumerations have different names, none of which is an alias. -/
structure NamedApart (shapes : τ → Shape τ) : Prop where
  distinct : ∀ u v, (shapes u).kind.isDeclared = true → (shapes v).kind.isDeclared = true →
    (shapes u).fullName = (shapes v).fullName → u = v
  not_alias : ∀ u, (shapes u).kind.isDeclared = true → (shapes u).fullName ∉ Logical.aliases

/-- The types that a type reaches and that schemas know by this name. -/
def reachedUnder (shapes : τ → Shape τ) (t : τ) (name : String) : Set τ :=
  {u | ((shapes u).kind.isNamed = true ∧ Reaches shapes .empty t u) ∧ (shapes u).fullName = name}

def reachedLogicals (shapes : τ → Shape τ) (t : τ) (l : Logical) : Set τ :=
  {u | Reaches shapes .empty t u ∧ (shapes u).kind = .logical l}

variable [DecidableEq τ]

theorem count_map_eq_encard {ts : List τ} (nodup : ts.Nodup) (f : τ → String) (a : String) :
    ((ts.map f).count a : ℕ∞) = {u | u ∈ ts ∧ f u = a}.encard := by
  have he : {u | u ∈ ts ∧ f u = a} = ((ts.filter (f · == a)).toFinset : Set τ) := by
    ext u
    simp
  rw [he, Set.encard_coe_eq_coe_finsetCard, List.toFinset_card_of_nodup (nodup.filter _),
    List.count, List.countP_map, List.countP_eq_length_filter]
  rfl

section Reached

variable {shapes : τ → Shape τ} {settings : Settings} {t u : τ} {s : Schema} {l : Logical}
  {name : String}

theorem Settings.count_definedNames (h : settings.schema shapes t = .ok s) (name : String) :
    (s.definedNames.count name : ℕ∞) = (reachedUnder shapes t name).encard := by
  have hd := derives_of_result h
  obtain ⟨ts, fresh, describe⟩ := hd.exists_newlyNamed
  have mem_iff (u : τ) : u ∈ ts ↔ (shapes u).kind.isNamed = true ∧ Reaches shapes .empty t u := by
    rw [fresh.mem_iff, hd.mem_iff]
    simp
  have names : s.definedNames = ts.map fun u => (shapes u).fullName :=
    definedNames_eq_map_fullName describe fun u hu => ((mem_iff u).1 hu).1
  rw [names, count_map_eq_encard fresh.nodup]
  simp only [mem_iff]
  rfl

theorem Settings.count_definedNames_le_one_iff (h : settings.schema shapes t = .ok s) :
    s.definedNames.count name ≤ 1 ↔ (reachedUnder shapes t name).Subsingleton := by
  rw [← Set.encard_le_one_iff_subsingleton, ← count_definedNames h]
  exact Nat.cast_le_one.symm

theorem Settings.exists_alias (h : settings.schema shapes t = .ok s)
    (hu : u ∈ reachedLogicals shapes t l) : ∃ a, l.alias? = some a := by
  obtain ⟨r, kind⟩ := hu
  have unblocked := ((derives_of_result h).settled_of_reaches r).not_blocked
  cases l with
  | duration => exact absurd (.duration kind (Visited.not_mem_empty u)) unblocked
  | _ => exact ⟨_, rfl⟩

theorem Settings.isDeclared_or_alias (h : settings.schema shapes t = .ok s)
    (hu : u ∈ reachedUnder shapes t name) : (shapes u).kind.isDeclared = true ∨
      ∃ l, u ∈ reachedLogicals shapes t l ∧ l.alias? = some name := by
  obtain ⟨⟨named, r⟩, he⟩ := hu
  cases kind : (shapes u).kind with
  | logical l =>
    obtain ⟨a, short⟩ := exists_alias h ⟨r, kind⟩
    rw [Shape.fullName_logical kind short] at he
    exact .inr ⟨l, ⟨r, kind⟩, by rw [short, he]⟩
  | enumeration => exact .inl rfl
  | record => exact .inl rfl
  | _ => simp [kind, Kind.isNamed] at named

theorem NamedApart.reachedUnder_alias (apart : NamedApart shapes)
    (h : settings.schema shapes t = .ok s) (short : l.alias? = some name) :
    reachedUnder shapes t name = reachedLogicals shapes t l := by
  ext u
  constructor
  · intro hu
    obtain declared | ⟨k, hk, short'⟩ := Settings.isDeclared_or_alias h hu
    · have known : (shapes u).fullName ∈ Logical.aliases :=
        Logical.mem_aliases_iff.2 ⟨l, by rw [short, hu.2]⟩
      exact absurd known (apart.not_alias u declared)
    · have hl : k = l := Logical.alias?_injective (short'.trans short.symm)
      exact hl ▸ hk
  · intro hu
    obtain ⟨r, kind⟩ := hu
    exact ⟨⟨by rw [kind]; rfl, r⟩, Shape.fullName_logical kind short⟩

theorem NamedApart.reachedUnder_subsingleton (apart : NamedApart shapes)
    (h : settings.schema shapes t = .ok s) (other : name ∉ Logical.aliases) :
    (reachedUnder shapes t name).Subsingleton := by
  have declared : ∀ u ∈ reachedUnder shapes t name, (shapes u).kind.isDeclared = true := by
    intro u hu
    obtain declared | ⟨l, -, short⟩ := Settings.isDeclared_or_alias h hu
    · exact declared
    · exact absurd (Logical.mem_aliases_iff.2 ⟨l, short⟩) other
  intro u hu v hv
  exact apart.distinct u v (declared u hu) (declared v hv) (hu.2.trans hv.2.symm)

end Reached

/-- Where records and enumerations have names of their own, a schema defines no name twice, apart
from an alias, which it defines once for each type it stands for. So no name at all is defined
twice if and only if no two logical types of one sort are reached. -/
theorem Settings.schema_count_definedNames (settings : Settings) {shapes : τ → Shape τ}
    (apart : NamedApart shapes) (t : τ) {s : Schema} (h : settings.schema shapes t = .ok s) :
    (∀ name, name ∉ Logical.aliases → s.definedNames.count name ≤ 1) ∧
    (∀ l a, l.alias? = some a →
      (s.definedNames.count a : ℕ∞) = (reachedLogicals shapes t l).encard) ∧
    (s.definedNames.Nodup ↔ ∀ l, (reachedLogicals shapes t l).Subsingleton) := by
  have others : ∀ name, name ∉ Logical.aliases → s.definedNames.count name ≤ 1 :=
    fun _ other => (count_definedNames_le_one_iff h).2 (apart.reachedUnder_subsingleton h other)
  refine ⟨others, fun l a short => ?_, ?_⟩
  · rw [count_definedNames h, apart.reachedUnder_alias h short]
  · rw [List.nodup_iff_count_le_one]
    constructor
    · intro once l u hu
      obtain ⟨a, short⟩ := exists_alias h hu
      have single := (count_definedNames_le_one_iff h).1 (once a)
      rw [apart.reachedUnder_alias h short] at single
      exact single hu
    · intro single name
      by_cases hn : name ∈ Logical.aliases
      · obtain ⟨l, short⟩ := Logical.mem_aliases_iff.1 hn
        rw [count_definedNames_le_one_iff h, apart.reachedUnder_alias h short]
        exact single l
      · exact others name hn

def journalLetter : Schema :=
  .record "Letter" (some "log") (.inline "written" (.fixed "utcdatetime" 8)
    (.inline "read" (.fixed "utcdatetime" 8) .nil))

theorem namedApart_journal : NamedApart journal := ⟨by decide, by decide⟩

theorem Settings.schema_count_definedNames_journal :
    NamedApart journal ∧ Settings.schema {} journal 2 = .ok journalLetter ∧
    (journalLetter.definedNames.count "utcdatetime" : ℕ∞) =
      (reachedLogicals journal 2 .timestamp).encard := by
  have h : Settings.schema {} journal 2 = .ok journalLetter := rfl
  exact ⟨namedApart_journal, h,
    (schema_count_definedNames {} namedApart_journal 2 h).2.1 .timestamp "utcdatetime" rfl⟩

theorem Settings.schema_defines_alias_twice_journal :
    NamedApart journal ∧ Settings.schema {} journal 2 = .ok journalLetter ∧
    ¬ journalLetter.definedNames.Nodup :=
  ⟨namedApart_journal, rfl, by decide⟩

end AvroSchemata
