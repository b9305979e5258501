import Mathlib.Data.List.Induction
import AvroSchemata.Catalogue
import AvroSchemata.Proofs.SharedCatalogue
set_option autoImplicit false

namespace AvroSchemata

variable {τ : Type} [DecidableEq τ] {shapes : τ → Shape τ}

mutual

theorem Fails.ne_unknown {limit room : Nat} {t : τ} {seen seen' : Visited τ} {e : Failure} :
    Fails shapes limit room t seen e seen' → ∀ name, e ≠ .unknown name
  | .tooDeep _ _, _ => nofun
  | .sequence _, _ => nofun
  | .map _, _ => nofun
  | .duration _ _, _ => nofun
  | .record _ _ inside, name => inside.ne_unknown name

theorem FailsFields.ne_unknown {limit room : Nat} {ms : List (Member τ)} {seen seen' : Visited τ}
    {e : Failure} : FailsFields shapes limit room ms seen e seen' → ∀ name, e ≠ .unknown name
  | .here _ first, name => first.ne_unknown name
  | .named _ after, name => after.ne_unknown name
  | .inline _ _ after, name => after.ne_unknown name

end

theorem Settings.text_ne_unknown (settings : Settings) (t : τ) (name : String) :
    settings.text shapes t ≠ .error (.unknown name) := by
  rw [text_eq_map_render]
  cases h : settings.schema shapes t with
  | ok s => nofun
  | error e =>
    intro same
    exact (fails_of_result h).ne_unknown name (Except.error.inj same)

namespace Catalogue

variable {requests requests' : List (Request τ)} {c c' : Catalogue τ}

theorem get?_after (shapes : τ → Shape τ) (requests : List (Request τ)) (name : String) :
    (after shapes requests).get? name = lastBound shapes requests name := by
  induction requests using List.reverseRecOn with
  | nil => exact get?_empty name
  | append_singleton requests r ih =>
    rw [after_append_singleton, get?_serve, lastBound_append_singleton, ih]

omit [DecidableEq τ] in
theorem lastBound_eq_none_iff {name : String} : lastBound shapes requests name = none ↔
    ∀ r ∈ requests, ∀ t, r.binding? shapes ≠ some (name, t) := by
  rw [lastBound, List.lookup_eq_none_iff]
  simp only [List.mem_reverse, List.mem_filterMap]
  constructor
  · intro other r hr t bound
    simpa using other (name, t) ⟨r, hr, bound⟩
  · rintro unbound ⟨a, t⟩ ⟨r, hr, bound⟩
    rw [bne_iff_ne]
    rintro rfl
    exact unbound r hr t bound

omit [DecidableEq τ] in
theorem types_equiv (same : ∀ name, c'.get? name = c.get? name) : c'.types.Equiv c.types :=
  .of_forall_constGet?_eq same

theorem fst_serve_congr (shapes : τ → Shape τ) (same : ∀ name, c'.get? name = c.get? name)
    (settings : c'.settings = c.settings) (r : Request τ) :
    (c'.serve shapes r).1 = (c.serve shapes r).1 := by
  have types : c'.types.Equiv c.types := types_equiv same
  cases r with
  | type name => exact congrArg Reply.type (same name)
  | names => exact congrArg Reply.names types.keys_eq
  | size => exact congrArg Reply.size types.size_eq
  | schema name => simp only [serve, schema, same, settings]
  | schemas => simp only [serve, schemas, types.toList_eq, settings]
  | _ => rfl

/-- The names are those that have been bound, in order and each of them once, and each stands for
the type that it was bound to last. It has the schema of this type by itself. -/
structure TellsOf (c : Catalogue τ) (shapes : τ → Shape τ) (requests : List (Request τ)) :
    Prop where
  get?_eq : ∀ name, c.get? name = lastBound shapes requests name
  ascending : c.names.Pairwise fun a b => bytes a < bytes b
  mem_names : ∀ name, name ∈ c.names ↔
    ∃ r ∈ requests, ∃ t, r.binding? shapes = some (name, t)
  size_eq : c.size = c.names.length
  unknown_iff : ∀ name, c.schema shapes name = .error (.unknown name) ↔
    ∀ r ∈ requests, ∀ t, r.binding? shapes ≠ some (name, t)
  schema_eq : ∀ name t, lastBound shapes requests name = some t →
    c.schema shapes name = (c.settings.textIn shapes t .empty).result

theorem schema_eq_unknown_iff {name : String} :
    c.schema shapes name = .error (.unknown name) ↔ c.get? name = none := by
  rw [schema]
  cases found : c.get? name with
  | none => simp
  | some t => simpa [found] using c.settings.text_ne_unknown t name

theorem tellsOf_after (shapes : τ → Shape τ) (requests : List (Request τ)) :
    (after shapes requests).TellsOf shapes requests where
  get?_eq := get?_after shapes requests
  ascending := pairwise_names _
  mem_names := fun name => by
    rw [mem_names_iff, get?_after, Option.isSome_iff_ne_none, Ne, lastBound_eq_none_iff]
    simp
  size_eq := Std.TreeMap.length_keys.symm
  unknown_iff := fun name => by rw [schema_eq_unknown_iff, get?_after, lastBound_eq_none_iff]
  schema_eq := fun name t last => by
    rw [← get?_after] at last
    exact schema_of_get? last

/-- After any requests, a catalogue tells of their bindings. After others with the same last binding
of each name, and the same settings, it gives the same answer to each request, whatever has been
asked for in between. -/
theorem serve_after_determined (shapes : τ → Shape τ) (requests : List (Request τ)) :
    (after shapes requests).TellsOf shapes requests ∧
    ∀ requests', (∀ name, lastBound shapes requests' name = lastBound shapes requests name) →
      (after shapes requests').settings = (after shapes requests).settings →
      ∀ r, ((after shapes requests').serve shapes r).1 = ((after shapes requests).serve shapes r).1 := by
  refine ⟨tellsOf_after shapes requests, fun requests' last settings => ?_⟩
  refine fst_serve_congr shapes (fun name => ?_) settings
  rw [get?_after, get?_after, last]

theorem serve_after_determined_club :
    let requests : List (Request (Fin 8)) := [.insert "team" 2, .schemas, .register 3,
      .configure { layout := .pretty }, .insert "team" 0, .schema "team"]
    let requests' : List (Request (Fin 8)) :=
      [.configure { layout := .pretty }, .insert "team" 0, .register 3]
    (∀ name, lastBound club requests' name = lastBound club requests name) ∧
    (after club requests').settings = (after club requests).settings ∧
    ((after club requests').serve club .schemas).1 = ((after club requests).serve club .schemas).1 := by
  intro requests requests'
  have last : ∀ name, lastBound club requests' name = lastBound club requests name := by
    intro name
    have bound : lastBound club requests name =
        List.lookup name [("team", 0), ("club.Badge", 3), ("team", 2)] := rfl
    have bound' : lastBound club requests' name =
        List.lookup name [("club.Badge", 3), ("team", 0)] := rfl
    rw [bound, bound']
    by_cases team : name = "team"
    · subst team
      rfl
    · have other : (name == "team") = false := beq_false_of_ne team
      simp [List.lookup_cons, other]
  exact ⟨last, rfl, (serve_after_determined club requests).2 requests' last rfl .schemas⟩

end Catalogue

end AvroSchemata
