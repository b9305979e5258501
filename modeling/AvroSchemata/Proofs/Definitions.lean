import Mathlib.Data.List.Nodup
import AvroSchemata.Derivation.Run
import AvroSchemata.Proofs.FirstOccurrence
import AvroSchemata.Proofs.Reachability
set_option autoImplicit false

namespace AvroSchemata

variable {τ : Type}

/-- The types with a name that were met in between, each of them once. -/
structure NewlyNamed (shapes : τ → Shape τ) (seen seen' : Visited τ) (ts : List τ) : Prop where
  nodup : ts.Nodup
  mem_iff : ∀ t, t ∈ ts ↔ (shapes t).kind.isNamed = true ∧ t ∈ seen' ∧ t ∉ seen

section NewlyNamed

variable {shapes : τ → Shape τ} {seen seen₁ seen' : Visited τ} {t : τ} {ts us : List τ}

theorem NewlyNamed.nil (shapes : τ → Shape τ) (seen : Visited τ) :
    NewlyNamed shapes seen seen [] :=
  ⟨List.nodup_nil, fun t => by simp⟩

theorem NewlyNamed.append (h : NewlyNamed shapes seen seen₁ ts)
    (h' : NewlyNamed shapes seen₁ seen' us) (before : Grows shapes seen seen₁)
    (after : Grows shapes seen₁ seen') : NewlyNamed shapes seen seen' (ts ++ us) := by
  refine ⟨h.nodup.append h'.nodup ?_, fun t => ?_⟩
  · intro t ht hu
    exact ((h'.mem_iff t).1 hu).2.2 ((h.mem_iff t).1 ht).2.1
  · have hb := before.mem t
    have ha := after.mem t
    rw [List.mem_append, h.mem_iff, h'.mem_iff]
    tauto

variable [DecidableEq τ]

theorem NewlyNamed.single (named : (shapes t).kind.isNamed = true) (new : t ∉ seen) :
    NewlyNamed shapes seen (seen.insert t) [t] := by
  refine ⟨List.nodup_singleton t, fun u => ?_⟩
  rw [List.mem_singleton, Visited.mem_insert]
  constructor
  · intro h
    subst h
    exact ⟨named, .inl rfl, new⟩
  · intro h
    obtain ⟨_, hu | hu, hn⟩ := h
    · exact hu
    · exact absurd hu hn

theorem NewlyNamed.unnamed (unnamed : (shapes t).kind.isNamed = false) :
    NewlyNamed shapes seen (seen.insert t) [] := by
  refine ⟨List.nodup_nil, fun u => ?_⟩
  simp only [List.not_mem_nil, Visited.mem_insert, false_iff]
  intro h
  obtain ⟨named, rfl | hu, hn⟩ := h
  · simp [unnamed] at named
  · exact hn hu

end NewlyNamed

theorem Describes.definitions_eq {shapes : τ → Shape τ} {t : τ} {s : Schema}
    (full : Describes shapes t s) (leaf : (shapes t).kind ≠ .record) :
    s.definitions = if (shapes t).kind.isNamed then [s] else [] := by
  cases full with
  | record kind => exact absurd kind leaf
  | _ kind => rw [kind]; rfl

theorem Describes.isDefinition_eq {shapes : τ → Shape τ} {t : τ} {s : Schema}
    (full : Describes shapes t s) :
    (Placement.mk t (.schema s)).isDefinition = (shapes t).kind.isNamed := by
  cases full with
  | record kind => simp [Placement.isDefinition, Schema.definedName?_recordOf, kind, Kind.isNamed]
  | _ kind => rw [kind]; rfl

variable [DecidableEq τ] {shapes : τ → Shape τ}

mutual

theorem Derives.newlyNamed {room : Nat} {t : τ} {seen seen' : Visited τ} {s : Schema} :
    Derives shapes room t seen s seen' →
      NewlyNamed shapes seen seen' (definedIn (s.placements shapes t)) ∧
        List.Forall₂ (Describes shapes) (definedIn (s.placements shapes t)) s.definitions
  | .primitive kind => ⟨.unnamed (by rw [kind]; rfl), .nil⟩
  | .known _ => ⟨.nil shapes _, .nil⟩
  | .leaf new leaf full => by
    rw [full.definitions_eq leaf, full.placements_eq leaf, definedIn_cons, full.isDefinition_eq]
    by_cases named : (shapes t).kind.isNamed = true
    · rw [if_pos named, if_pos named]
      exact ⟨.single named fun h => new ⟨named, h⟩, .cons full .nil⟩
    · rw [if_neg named, if_neg named]
      exact ⟨.unnamed (by simpa using named), .nil⟩
  | .record kind new inside => by
    obtain ⟨fresh, describe⟩ := inside.newlyNamed
    have full : Describes shapes t _ := .record kind inside.agree
    have named : (shapes t).kind.isNamed = true := by rw [kind]; rfl
    have entry : NewlyNamed shapes seen (seen.insert t) [t] := .single named new
    have grows : Grows shapes seen (seen.insert t) := .insert (not_blocked_of_record kind)
    rw [Schema.placements_recordOf, definedIn_cons, full.isDefinition_eq, if_pos named]
    exact ⟨entry.append fresh grows inside.grows, .cons full describe⟩

theorem DerivesFields.newlyNamed {room : Nat} {ms : List (Member τ)} {seen seen' : Visited τ}
    {fields : Fields} : DerivesFields shapes room ms seen fields seen' →
      NewlyNamed shapes seen seen' (definedIn (fields.placements shapes ms)) ∧
        List.Forall₂ (Describes shapes) (definedIn (fields.placements shapes ms))
          fields.definitions
  | .nil => ⟨.nil shapes _, .nil⟩
  | .named _ after => after.newlyNamed
  | .inline _ first after => by
    obtain ⟨fresh, describe⟩ := first.newlyNamed
    obtain ⟨fresh', describe'⟩ := after.newlyNamed
    rw [Fields.placements, definedIn_append]
    exact ⟨fresh.append fresh' first.grows after.grows, List.rel_append describe describe'⟩

end

theorem Derives.exists_newlyNamed {room : Nat} {t : τ} {seen seen' : Visited τ} {s : Schema}
    (h : Derives shapes room t seen s seen') : ∃ ts, NewlyNamed shapes seen seen' ts ∧
      List.Forall₂ (Describes shapes) ts s.definitions :=
  ⟨_, h.newlyNamed⟩

omit [DecidableEq τ] in
theorem definedNames_eq_map_fullName {ts : List τ} {ds : List Schema}
    (describe : List.Forall₂ (Describes shapes) ts ds)
    (named : ∀ t ∈ ts, (shapes t).kind.isNamed = true) :
    ds.filterMap Schema.definedName? = ts.map fun t => (shapes t).fullName := by
  induction describe with
  | nil => rfl
  | cons full _ ih =>
    have head := full.definedName?_eq (named _ List.mem_cons_self)
    have rest := ih fun t ht => named t (List.mem_cons_of_mem _ ht)
    simp [head, rest]

/-- The schema of a type defines the types with a name that it reaches, one for one and under
their full names, and describes each of them, as long as no two of these have the same full
name. -/
theorem Settings.schema_definitions (settings : Settings) (t : τ)
    (distinct : ∀ u v, Reaches shapes .empty t u → Reaches shapes .empty t v →
      (shapes u).kind.isNamed = true → (shapes v).kind.isNamed = true →
        (shapes u).fullName = (shapes v).fullName → u = v)
    {s : Schema} (h : settings.schema shapes t = .ok s) :
    ∃ ts : List τ, ts.Nodup ∧
      (∀ u, u ∈ ts ↔ (shapes u).kind.isNamed = true ∧ Reaches shapes .empty t u) ∧
      List.Forall₂ (Describes shapes) ts s.definitions ∧
      s.definedNames = ts.map (fun u => (shapes u).fullName) ∧ s.definedNames.Nodup := by
  have hd := derives_of_result h
  obtain ⟨ts, fresh, describe⟩ := hd.exists_newlyNamed
  have mem_iff (u : τ) : u ∈ ts ↔ (shapes u).kind.isNamed = true ∧ Reaches shapes .empty t u := by
    rw [fresh.mem_iff, hd.mem_iff]
    simp
  have names : s.definedNames = ts.map fun u => (shapes u).fullName :=
    definedNames_eq_map_fullName describe fun u hu => ((mem_iff u).1 hu).1
  refine ⟨ts, fresh.nodup, mem_iff, describe, names, ?_⟩
  rw [names]
  refine List.Nodup.map_on (fun u hu v hv he => ?_) fresh.nodup
  obtain ⟨hu, ru⟩ := (mem_iff u).1 hu
  obtain ⟨hv, rv⟩ := (mem_iff v).1 hv
  exact distinct u v ru rv hu hv he

theorem Settings.schema_definitions_club :
    (∀ u v, (club u).kind.isNamed = true → (club v).kind.isNamed = true →
      (club u).fullName = (club v).fullName → u = v) ∧
    Settings.schema {} club 0 = .ok clubTeam ∧
    ∃ ts : List (Fin 8), ts.Nodup ∧
      (∀ u, u ∈ ts ↔ (club u).kind.isNamed = true ∧ Reaches club .empty 0 u) ∧
      List.Forall₂ (Describes club) ts clubTeam.definitions ∧
      clubTeam.definedNames = ts.map (fun u => (club u).fullName) ∧
      clubTeam.definedNames.Nodup := by
  have distinct : ∀ u v, (club u).kind.isNamed = true → (club v).kind.isNamed = true →
      (club u).fullName = (club v).fullName → u = v := by decide
  exact ⟨distinct, rfl, schema_definitions {} 0 (fun u v _ _ => distinct u v) rfl⟩

end AvroSchemata
