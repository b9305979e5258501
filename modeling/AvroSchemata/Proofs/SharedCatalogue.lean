import AvroSchemata.Catalogue
import AvroSchemata.Proofs.ByteOrder
import AvroSchemata.Proofs.Limits
import AvroSchemata.Proofs.NestedTexts
import AvroSchemata.Proofs.OrderOfCalls
import AvroSchemata.Proofs.Pruning
set_option autoImplicit false

/-!
The schemas of a whole catalogue. They come from one run over its types in the order of their
names, which fails if and only if one of the types fails by itself. Each type with a name is
defined once in all of them, under the first name that leads to it.
-/

namespace AvroSchemata

variable {τ : Type}

theorem mem_before_iff {α : Type} {r : α → α → Prop} (asymm : ∀ a b, r a b → ¬ r b a)
    {before after : List α} {a b : α} (h : (before ++ a :: after).Pairwise r) :
    b ∈ before ↔ b ∈ before ++ a :: after ∧ r b a := by
  rw [List.pairwise_append] at h
  obtain ⟨-, later, less⟩ := h
  refine ⟨fun hb => ⟨List.mem_append_left _ hb, less b hb a List.mem_cons_self⟩, fun hb => ?_⟩
  obtain ⟨hb, lt⟩ := hb
  obtain hb | hb := List.mem_append.1 hb
  · exact hb
  obtain rfl | hb := List.mem_cons.1 hb
  · exact absurd lt (asymm b b lt)
  · exact absurd lt (asymm a b ((List.pairwise_cons.1 later).1 b hb))

namespace Catalogue

theorem mem_toList_iff {c : Catalogue τ} {name : String} {t : τ} :
    (name, t) ∈ c.types.toList ↔ c.get? name = some t :=
  Std.TreeMap.mem_toList_iff_getElem?_eq_some

theorem map_fst_toList (c : Catalogue τ) : c.types.toList.map Prod.fst = c.names :=
  Std.TreeMap.map_fst_toList_eq_keys

theorem pairwise_names (c : Catalogue τ) : c.names.Pairwise fun a b => bytes a < bytes b := by
  have ordered := Std.TreeMap.ordered_keys (t := c.types)
  exact ordered.imp fun h => bytes_lt_iff.2 (compareOfLessAndEq_eq_lt.1 h)

/-- A name of a catalogue, its type, and the schema that stands for it among the others. -/
structure Item (τ : Type) where
  name : String
  type : τ
  schema : Schema

namespace Item

def call (limit : Nat) (i : Item τ) : Call τ := ⟨i.type, limit⟩

def result (i : Item τ) : Except Failure Schema := .ok i.schema

def text (settings : Settings) (i : Item τ) : String × String :=
  (i.name, settings.render i.schema)

def defines (shapes : τ → Shape τ) (i : Item τ) : List τ :=
  definedIn (i.schema.placements shapes i.type)

/-- The text is JSON under the name of the item, and what is read from it is what the schema has
to say. -/
def ReadFrom (i : Item τ) (entry : String × String) : Prop :=
  entry.1 = i.name ∧ ∃ value, Json.read? entry.2 = some value ∧ i.schema.SaidBy value

theorem readFrom_text (settings : Settings) (i : Item τ) : i.ReadFrom (i.text settings) :=
  ⟨rfl, i.schema.toJson, Json.read?_text settings.layout i.schema.toJson, i.schema.saidBy_toJson⟩

end Item

variable [DecidableEq τ]

/-- The texts are those of one run over the types by name, which share their definitions. -/
structure SharedBy (c : Catalogue τ) (shapes : τ → Shape τ) (texts : List (String × String))
    (items : List (Item τ)) : Prop where
  names : items.map Item.name = c.names
  ascending : c.names.Pairwise fun a b => bytes a < bytes b
  types : ∀ i ∈ items, c.get? i.name = some i.type
  read : List.Forall₂ Item.ReadFrom items texts
  texts : texts = items.map (Item.text c.settings)
  run : (run shapes (items.map (Item.call c.settings.maxDepth)) .empty).1 = items.map Item.result
  mem_defines_iff : ∀ t, t ∈ items.flatMap (Item.defines shapes) ↔
    (shapes t).kind.isNamed = true ∧ ∃ i ∈ items, Reaches shapes .empty i.type t
  nodup_defines : (items.flatMap (Item.defines shapes)).Nodup
  /-- What an item defines is what the definitions in its schema describe, one for one. -/
  describe : ∀ i ∈ items,
    List.Forall₂ (Describes shapes) (i.defines shapes) i.schema.definitions
  defines_iff : ∀ i ∈ items, ∀ t, t ∈ i.defines shapes ↔
    (shapes t).kind.isNamed = true ∧ Reaches shapes .empty i.type t ∧
      ∀ j ∈ items, bytes j.name < bytes i.name → ¬ Reaches shapes .empty j.type t
  reference_iff : ∀ i ∈ items, (∃ name space?, i.schema = .reference name space?) ↔
    (shapes i.type).kind.isNamed = true ∧
      ∃ j ∈ items, bytes j.name < bytes i.name ∧ Reaches shapes .empty j.type i.type
  reference : ∀ i ∈ items, ∀ name space?, i.schema = .reference name space? →
    i.schema = .referenceTo (shapes i.type).resolved

def ItemsRun (shapes : τ → Shape τ) (limit : Nat) (items : List (Item τ))
    (seen seen' : Visited τ) : Prop :=
  Runs shapes (items.map (Item.call limit)) seen (items.map Item.result) seen'

variable {shapes : τ → Shape τ}

section Items

variable {limit : Nat} {seen seen' : Visited τ} {items before after : List (Item τ)} {i : Item τ}
  {t : τ}

omit [DecidableEq τ] in
theorem fine_items (items : List (Item τ)) : Fine (items.map Item.result) := by
  intro r hr
  obtain ⟨i, -, rfl⟩ := List.mem_map.1 hr
  exact ⟨i.schema, rfl⟩

omit [DecidableEq τ] in
theorem definedBy_items (shapes : τ → Shape τ) (limit : Nat) (items : List (Item τ)) :
    definedBy shapes (items.map (Item.call limit)) (items.map Item.result) =
      items.flatMap (Item.defines shapes) := by
  induction items with
  | nil => rfl
  | cons i items ih =>
    rw [List.map_cons, List.map_cons, List.flatMap_cons, ← ih]
    rfl

theorem ItemsRun.mem_iff (h : ItemsRun shapes limit items .empty seen') :
    t ∈ seen' ↔ ∃ i ∈ items, Reaches shapes .empty i.type t := by
  rw [Runs.mem_iff h (fine_items items)]
  simp [Item.call]

theorem ItemsRun.closed (h : ItemsRun shapes limit items .empty seen') : Closed shapes seen' := by
  have he := Runs.run_eq h
  have c := (closed_empty shapes).run (by rw [he]; exact fine_items items)
  rwa [he] at c

theorem ItemsRun.exists_derives (h : ItemsRun shapes limit (before ++ i :: after) seen seen') :
    ∃ seen₁ seen₂, ItemsRun shapes limit before seen seen₁ ∧
      Derives shapes limit i.type seen₁ i.schema seen₂ := by
  induction before generalizing seen with
  | nil =>
    cases h with
    | schema first _ => exact ⟨_, _, .nil, first⟩
  | cons j before ih =>
    cases h with
    | schema first rest =>
      obtain ⟨seen₁, seen₂, earlier, last⟩ := ih rest
      exact ⟨seen₁, seen₂, .schema first earlier, last⟩

theorem ItemsRun.mem_defines_iff (h : ItemsRun shapes limit (before ++ i :: after) .empty seen') :
    t ∈ i.defines shapes ↔ (shapes t).kind.isNamed = true ∧ Reaches shapes .empty i.type t ∧
      ∀ j ∈ before, ¬ Reaches shapes .empty j.type t := by
  obtain ⟨seen₁, seen₂, earlier, last⟩ := h.exists_derives
  have not_met : t ∉ seen₁ ↔ ∀ j ∈ before, ¬ Reaches shapes .empty j.type t := by
    rw [earlier.mem_iff]
    simp
  rw [Item.defines, last.newlyNamed.1.mem_iff, last.mem_iff, ← not_met]
  refine and_congr_right fun _ => ⟨fun ht => ?_, fun ht => ?_⟩
  · obtain ⟨old | r, new⟩ := ht
    · exact absurd old new
    · exact ⟨r.mono fun u hu => absurd hu (Visited.not_mem_empty u), new⟩
  · exact ⟨.inr (earlier.closed.reaches_of_not_mem ht.1 ht.2), ht.2⟩

theorem ItemsRun.reference_iff (h : ItemsRun shapes limit (before ++ i :: after) .empty seen') :
    (∃ name space?, i.schema = .reference name space?) ↔ (shapes i.type).kind.isNamed = true ∧
      ∃ j ∈ before, Reaches shapes .empty j.type i.type := by
  obtain ⟨seen₁, seen₂, earlier, last⟩ := h.exists_derives
  rw [last.placedByFirstOccurrence.reference_iff, Known, earlier.mem_iff]

theorem ItemsRun.describe (h : ItemsRun shapes limit (before ++ i :: after) seen seen') :
    List.Forall₂ (Describes shapes) (i.defines shapes) i.schema.definitions := by
  obtain ⟨seen₁, seen₂, -, last⟩ := h.exists_derives
  exact last.newlyNamed.2

theorem ItemsRun.eq_reference (h : ItemsRun shapes limit (before ++ i :: after) seen seen')
    {name : String} {space? : Option String} (hs : i.schema = .reference name space?) :
    i.schema = .referenceTo (shapes i.type).resolved := by
  obtain ⟨seen₁, seen₂, -, last⟩ := h.exists_derives
  have place := last.placedByFirstOccurrence
  exact place.reference (place.reference_iff.1 ⟨name, space?, hs⟩)

end Items

section Texts

variable {settings : Settings} {seen : Visited τ}

theorem textsFrom_cons (name : String) {t : τ} (ps : List (String × τ)) (c : Closed shapes seen)
    (levels : (newRecords shapes .empty t).encard < settings.maxDepth) :
    (∃ s seen', (∃ text, settings.text shapes t = .ok text) ∧
      Derives shapes settings.maxDepth t seen s seen' ∧
      textsFrom settings shapes ((name, t) :: ps) seen =
        (textsFrom settings shapes ps seen').map ((name, settings.render s) :: ·)) ∨
    ∃ e, settings.text shapes t = .error e ∧
      (textsFrom settings shapes ((name, t) :: ps) seen).result = .error e := by
  rw [Settings.text_eq_map_render, textsFrom, Settings.textIn]
  cases alone : settings.schema shapes t with
  | ok s =>
    have h := derives_of_result (Settings.schemaIn_of_closed_of_ok c alone).1
    refine .inl ⟨_, _, ⟨_, rfl⟩, h, ?_⟩
    rw [Settings.schemaIn_eq h]
    rfl
  | error e =>
    have other := (fails_of_result alone).ne_tooDeep levels
    have h := fails_of_result (Settings.schemaIn_of_closed_of_error c alone other)
    refine .inr ⟨e, rfl, ?_⟩
    rw [Settings.schemaIn, h.derive_eq]
    rfl

theorem textsFrom_cases (ps : List (String × τ)) (c : Closed shapes seen)
    (levels : ∀ p ∈ ps, (newRecords shapes .empty p.2).encard < settings.maxDepth) :
    ((∀ p ∈ ps, ∃ text, settings.text shapes p.2 = .ok text) ∧
      ∃ (items : List (Item τ)) (seen' : Visited τ), items.map (fun i => (i.name, i.type)) = ps ∧
        ItemsRun shapes settings.maxDepth items seen seen' ∧
        (textsFrom settings shapes ps seen).result = .ok (items.map (Item.text settings))) ∨
    ∃ before p after e, ps = before ++ p :: after ∧
      (∀ q ∈ before, ∃ text, settings.text shapes q.2 = .ok text) ∧
      settings.text shapes p.2 = .error e ∧
      (textsFrom settings shapes ps seen).result = .error e := by
  induction ps generalizing seen with
  | nil => exact .inl ⟨fun p hp => (List.not_mem_nil hp).elim, [], seen, rfl, .nil, rfl⟩
  | cons p ps ih =>
    obtain ⟨name, t⟩ := p
    obtain ⟨s, seen₁, good, first, he⟩ | ⟨e, bad, failed⟩ :=
      textsFrom_cons name ps c (levels (name, t) List.mem_cons_self)
    · rw [he]
      obtain ⟨all, items, seen', types, rest, texts⟩ |
          ⟨before, p, after, e, split, all, bad, failed⟩ :=
        ih (c.derives first) fun q hq => levels q (List.mem_cons_of_mem _ hq)
      · refine .inl ⟨List.forall_mem_cons.2 ⟨good, all⟩, ⟨name, t, s⟩ :: items, seen', ?_,
          .schema first rest, ?_⟩
        · rw [List.map_cons, types]
        · rw [Outcome.map, texts]
          rfl
      · refine .inr ⟨(name, t) :: before, p, after, e, ?_, List.forall_mem_cons.2 ⟨good, all⟩,
          bad, ?_⟩
        · rw [split, List.cons_append]
        · rw [Outcome.map, failed]
          rfl
    · exact .inr ⟨[], (name, t), ps, e, rfl, fun q hq => (List.not_mem_nil hq).elim, bad, failed⟩

end Texts

variable {c : Catalogue τ}

theorem schema_of_get? {name : String} {t : τ} (h : c.get? name = some t) :
    c.schema shapes name = c.settings.text shapes t := by
  rw [schema, h]

theorem schema_ok_of_forall_toList
    (all : ∀ p ∈ c.types.toList, ∃ text, c.settings.text shapes p.2 = .ok text) :
    ∀ name ∈ c.names, ∃ text, c.schema shapes name = .ok text := by
  intro name hn
  obtain ⟨t, ht⟩ := Option.isSome_iff_exists.1 (mem_names_iff.1 hn)
  rw [schema_of_get? ht]
  exact all (name, t) (mem_toList_iff.2 ht)

theorem ItemsRun.sharedBy {items : List (Item τ)} {seen' : Visited τ}
    (h : ItemsRun shapes c.settings.maxDepth items .empty seen')
    (types : items.map (fun i => (i.name, i.type)) = c.types.toList) :
    c.SharedBy shapes (items.map (Item.text c.settings)) items := by
  have names : items.map Item.name = c.names := by
    rw [← map_fst_toList, ← types, List.map_map]
    rfl
  have ordered : items.Pairwise fun i j => bytes i.name < bytes j.name := by
    have h := c.pairwise_names
    rwa [← names, List.pairwise_map] at h
  have fresh : NewlyNamed shapes .empty seen' (items.flatMap (Item.defines shapes)) := by
    rw [← definedBy_items shapes c.settings.maxDepth]
    exact Runs.newlyNamed h (fine_items items)
  have read : List.Forall₂ Item.ReadFrom items (items.map (Item.text c.settings)) :=
    List.forall₂_map_right_iff.2 (List.forall₂_same.2 fun i _ => i.readFrom_text c.settings)
  refine ⟨names, c.pairwise_names, fun i hi => ?_, read, rfl, by rw [Runs.run_eq h], fun t => ?_,
    fresh.nodup, fun i hi => ?_, fun i hi t => ?_, fun i hi => ?_, fun i hi name space? => ?_⟩
  · rw [← mem_toList_iff, ← types]
    exact List.mem_map.2 ⟨i, hi, rfl⟩
  · rw [fresh.mem_iff, h.mem_iff]
    simp
  all_goals
    obtain ⟨before, after, rfl⟩ := List.append_of_mem hi
    have less (j : Item τ) : j ∈ before ↔ j ∈ before ++ i :: after ∧ bytes j.name < bytes i.name :=
      mem_before_iff (fun _ _ => List.lt_asymm) ordered
  · exact h.describe
  · rw [h.mem_defines_iff]
    simp only [less, and_imp]
  · rw [h.reference_iff]
    simp only [less, and_assoc]
  · exact h.eq_reference

theorem SharedBy.map_fst_texts {texts : List (String × String)} {items : List (Item τ)}
    (h : c.SharedBy shapes texts items) : texts.map Prod.fst = c.names := by
  rw [h.texts, ← h.names, List.map_map]
  rfl

structure FailsFirst (c : Catalogue τ) (shapes : τ → Shape τ) (name : String) (e : Failure) :
    Prop where
  mem : name ∈ c.names
  error : c.schema shapes name = .error e
  less : ∀ less ∈ c.names, bytes less < bytes name → ∃ text, c.schema shapes less = .ok text

theorem FailsFirst.not_ok {name : String} {e : Failure} (h : c.FailsFirst shapes name e) :
    ¬ ∃ text, c.schema shapes name = .ok text := by
  intro ok
  obtain ⟨text, ok⟩ := ok
  cases ok.symm.trans h.error

theorem FailsFirst.unique {name name' : String} {e e' : Failure}
    (h : c.FailsFirst shapes name e) (h' : c.FailsFirst shapes name' e') : e = e' := by
  obtain lt | rfl | lt := lt_trichotomy name name'
  · exact absurd (h'.less name h.mem (bytes_lt_iff.2 lt)) h.not_ok
  · cases h.error.symm.trans h'.error
    rfl
  · exact absurd (h.less name' h'.mem (bytes_lt_iff.2 lt)) h'.not_ok

theorem failsFirst_of_split {before after : List (String × τ)} {p : String × τ} {e : Failure}
    (split : c.types.toList = before ++ p :: after)
    (all : ∀ q ∈ before, ∃ text, c.settings.text shapes q.2 = .ok text)
    (bad : c.settings.text shapes p.2 = .error e) : c.FailsFirst shapes p.1 e := by
  have get {q : String × τ} (hq : q ∈ before ++ p :: after) : c.get? q.1 = some q.2 := by
    rwa [← split, mem_toList_iff] at hq
  have ordered : (before ++ p :: after).Pairwise fun p q => bytes p.1 < bytes q.1 := by
    have h := c.pairwise_names
    rwa [← map_fst_toList, split, List.pairwise_map] at h
  have hp := get (List.mem_append_right before List.mem_cons_self)
  refine ⟨mem_names_iff.2 (by rw [hp]; rfl), by rw [schema_of_get? hp, bad], fun less hl lt => ?_⟩
  obtain ⟨t, ht⟩ := Option.isSome_iff_exists.1 (mem_names_iff.1 hl)
  have hq : (less, t) ∈ before ++ p :: after := by rwa [← split, mem_toList_iff]
  rw [schema_of_get? ht]
  exact all (less, t) ((mem_before_iff (fun _ _ => List.lt_asymm) ordered).2 ⟨hq, lt⟩)

theorem schemas_cases (levels : ∀ name t, c.get? name = some t →
      (newRecords shapes .empty t).encard < c.settings.maxDepth) :
    (∃ texts items, c.schemas shapes = .ok texts ∧ c.SharedBy shapes texts items ∧
      ∀ name ∈ c.names, ∃ text, c.schema shapes name = .ok text) ∨
    ∃ name e, c.schemas shapes = .error e ∧ c.FailsFirst shapes name e := by
  obtain ⟨all, items, seen', types, h, texts⟩ | ⟨before, p, after, e, split, all, bad, failed⟩ :=
    textsFrom_cases c.types.toList (closed_empty shapes)
      fun p hp => levels p.1 p.2 (mem_toList_iff.1 hp)
  · exact .inl ⟨_, items, texts, h.sharedBy types, schema_ok_of_forall_toList all⟩
  · exact .inr ⟨p.1, e, failed, failsFirst_of_split split all bad⟩

/-- With levels for the records that its types reach, a catalogue has schemas if and only if each
of its names has one by itself, and otherwise fails as the first name does that has none. The
schemas share their definitions. -/
theorem schemas_share_definitions (c : Catalogue τ) (shapes : τ → Shape τ)
    (levels : {u | (shapes u).kind = .record ∧
      ∃ name t, c.get? name = some t ∧ Reaches shapes .empty t u}.encard < c.settings.maxDepth) :
    ((∃ texts, c.schemas shapes = .ok texts) ↔
      ∀ name ∈ c.names, ∃ text, c.schema shapes name = .ok text) ∧
    (∀ e, c.schemas shapes = .error e ↔ ∃ name, c.FailsFirst shapes name e) ∧
    (∀ texts, c.schemas shapes = .ok texts → texts.map Prod.fst = c.names ∧
      ∃ items, c.SharedBy shapes texts items) := by
  have levels' (name : String) (t : τ) (ht : c.get? name = some t) :
      (newRecords shapes .empty t).encard < c.settings.maxDepth := by
    refine (Set.encard_le_encard fun u hu => ?_).trans_lt levels
    exact ⟨hu.2.1, name, t, ht, hu.1⟩
  obtain ⟨texts, items, he, shared, good⟩ | ⟨name, e, he, first⟩ := schemas_cases levels'
  · rw [he]
    refine ⟨iff_of_true ⟨texts, rfl⟩ good, fun e => ⟨fun h => ?_, fun h => ?_⟩, fun texts' h => ?_⟩
    · cases h
    · obtain ⟨name, first⟩ := h
      exact absurd (good name first.mem) first.not_ok
    · cases h
      exact ⟨shared.map_fst_texts, items, shared⟩
  · rw [he]
    refine ⟨iff_of_false (fun h => ?_) fun good => first.not_ok (good name first.mem),
      fun e' => ⟨fun h => ?_, fun h => ?_⟩, fun texts h => ?_⟩
    · obtain ⟨text, h⟩ := h
      cases h
    · cases h
      exact ⟨name, first⟩
    · obtain ⟨name', first'⟩ := h
      rw [first.unique first']
    · cases h

def clubCatalogue (team lead badge coach : Fin 8) : Catalogue (Fin 8) :=
  (((empty.insert "team" team).register club badge).insert "the lead" lead).insert "a coach" coach

theorem schemas_share_definitions_club :
    {u | (club u).kind = .record ∧ ∃ name t, (clubCatalogue 0 1 3 7).get? name = some t ∧
      Reaches club .empty t u}.encard < (clubCatalogue 0 1 3 7).settings.maxDepth ∧
    ∃ texts, (clubCatalogue 0 1 3 7).schemas club = .ok texts ∧
      texts.map Prod.fst = (clubCatalogue 0 1 3 7).names ∧
      ∃ items, (clubCatalogue 0 1 3 7).SharedBy club texts items := by
  have levels : {u | (club u).kind = .record ∧
      ∃ name t, (clubCatalogue 0 1 3 7).get? name = some t ∧
        Reaches club .empty t u}.encard < (clubCatalogue 0 1 3 7).settings.maxDepth :=
    encard_setOf_lt _ (by decide)
  obtain ⟨texts, ok⟩ : ∃ texts, (clubCatalogue 0 1 3 7).schemas club = .ok texts := ⟨_, rfl⟩
  have shared := (schemas_share_definitions (clubCatalogue 0 1 3 7) club levels).2.2 texts ok
  exact ⟨levels, texts, ok, shared⟩

end Catalogue

end AvroSchemata
