import AvroSchemata.Json.RoundTrip
import AvroSchemata.Schema.Basic
set_option autoImplicit false

/-!
How far a text tells its schema. What is read from a text is one value, so two schemas have the
same text only if they have the same value; and a value leaves two things open, at any depth: a
primitive or a reference to its name, and a field with a schema in place or with a type whose name
is the text of that schema.
-/

namespace AvroSchemata

mutual

/-- Schemas that differ by the two ambiguities alone, at any depth. -/
inductive Schema.Alike : Schema → Schema → Prop where
  | refl (s : Schema) : Schema.Alike s s
  | primitive_reference (p : Primitive) : Schema.Alike (.primitive p) (.reference p.name none)
  | reference_primitive (p : Primitive) : Schema.Alike (.reference p.name none) (.primitive p)
  | record (name : String) (space? : Option String) {a b : Fields} (h : Fields.Alike a b) :
    Schema.Alike (.record name space? a) (.record name space? b)

inductive Fields.Alike : Fields → Fields → Prop where
  | nil : Fields.Alike .nil .nil
  | named (name type : String) {a b : Fields} (rest : Fields.Alike a b) :
    Fields.Alike (.named name type a) (.named name type b)
  | inline (name : String) {s t : Schema} {a b : Fields} (h : Schema.Alike s t)
    (rest : Fields.Alike a b) : Fields.Alike (.inline name s a) (.inline name t b)
  | named_inline (name : String) (s : Schema) {a b : Fields} (rest : Fields.Alike a b) :
    Fields.Alike (.named name (s.text .compact) a) (.inline name s b)
  | inline_named (name : String) (s : Schema) {a b : Fields} (rest : Fields.Alike a b) :
    Fields.Alike (.inline name s a) (.named name (s.text .compact) b)

end

theorem Json.eq_of_text_eq {layout : Json.Layout} {v w : Json}
    (h : v.text layout = w.text layout) : v = w := by
  have hv := read?_text layout v
  rw [h, read?_text] at hv
  exact (Option.some.inj hv).symm

theorem Schema.text_eq_iff {layout : Json.Layout} {a b : Schema} :
    a.text layout = b.text layout ↔ a.toJson = b.toJson :=
  ⟨Json.eq_of_text_eq, congrArg (Json.text layout)⟩

section Members

variable {s t : Option String} {member : String × Json} {members : List (String × Json)}

@[simp] theorem spaceMember_eq_nil_iff : spaceMember s = [] ↔ s = none := by
  cases s <;> simp [spaceMember]

@[simp] theorem spaceMember_eq_cons_iff : spaceMember s = member :: members ↔
    ∃ space, s = some space ∧ member = ("namespace", .str space) ∧ members = [] := by
  cases s <;> simp [spaceMember, eq_comm]

@[simp] theorem cons_eq_spaceMember_iff : member :: members = spaceMember s ↔
    ∃ space, s = some space ∧ member = ("namespace", .str space) ∧ members = [] := by
  rw [eq_comm, spaceMember_eq_cons_iff]

theorem spaceMember_eq_iff : spaceMember s = spaceMember t ↔ s = t := by
  cases s <;> cases t <;> simp [spaceMember]

theorem fieldJson_eq_iff {name name' type type' : String} :
    fieldJson name type = fieldJson name' type' ↔ name = name' ∧ type = type' := by
  simp [fieldJson]

theorem branchJson_eq_iff : branchJson s = branchJson t ↔ s = t := by
  cases s <;> cases t <;> simp [branchJson]

end Members

mutual

theorem Schema.Alike.toJson_eq {a b : Schema} : Schema.Alike a b → a.toJson = b.toJson
  | .refl _ => rfl
  | .primitive_reference _ => rfl
  | .reference_primitive _ => rfl
  | .record _ _ h => by rw [Schema.toJson, Schema.toJson, h.toJson_eq]

theorem Fields.Alike.toJson_eq {a b : Fields} : Fields.Alike a b → a.toJson = b.toJson
  | .nil => rfl
  | .named _ _ rest => by rw [Fields.toJson, Fields.toJson, rest.toJson_eq]
  | .inline _ h rest => by rw [Fields.toJson, Fields.toJson, h.toJson_eq, rest.toJson_eq]
  | .named_inline _ s rest => by rw [Fields.toJson, Fields.toJson, rest.toJson_eq, Schema.text]
  | .inline_named _ s rest => by rw [Fields.toJson, Fields.toJson, rest.toJson_eq, Schema.text]

end

mutual

/-- Nothing else is lost: the keys tell the other variants from each other, and what is nested in a
text is the same value again. -/
theorem Schema.alike_of_toJson_eq : ∀ {a b : Schema}, a.toJson = b.toJson → Schema.Alike a b
  | .primitive p, b, h => by
    cases b with
    | primitive q =>
      simp only [Schema.toJson, Json.obj.injEq, List.cons.injEq, Prod.mk.injEq, Json.str.injEq] at h
      rw [Primitive.name_injective h.1.2]
      exact .refl _
    | reference name space? =>
      obtain ⟨rfl, rfl⟩ : p.name = name ∧ none = space? := by
        simpa [Schema.toJson, eq_comm] using h
      exact .primitive_reference p
    | _ => simp [Schema.toJson] at h
  | .reference name space?, b, h => by
    cases b with
    | primitive p =>
      obtain ⟨rfl, rfl⟩ : p.name = name ∧ space? = none := by
        simpa [Schema.toJson, eq_comm] using h
      exact .reference_primitive p
    | reference name' space'? =>
      obtain ⟨rfl, rfl⟩ : name = name' ∧ space? = space'? := by
        simpa [Schema.toJson, spaceMember_eq_iff] using h
      exact .refl _
    | _ => simp [Schema.toJson] at h
  | .fixed name size, b, h => by
    cases b with
    | fixed name' size' => simp_all [Schema.toJson, Schema.Alike.refl]
    | _ => simp [Schema.toJson] at h
  | .enumeration name space symbols, b, h => by
    cases b with
    | enumeration name' space' symbols' =>
      simp only [Schema.toJson, Json.obj.injEq, List.cons.injEq, Prod.mk.injEq, Json.str.injEq,
        Json.arr.injEq, List.map_inj_right (fun _ _ => Json.str.inj)] at h
      obtain ⟨-, ⟨-, rfl⟩, ⟨-, rfl⟩, ⟨-, rfl⟩, -⟩ := h
      exact .refl _
    | _ => simp [Schema.toJson] at h
  | .union branches, b, h => by
    cases b with
    | union branches' =>
      rw [Schema.toJson, Schema.toJson, Json.arr.injEq,
        List.map_inj_right fun _ _ => branchJson_eq_iff.1] at h
      exact h ▸ .refl _
    | _ => simp [Schema.toJson] at h
  | .record name space? fields, b, h => by
    cases b with
    | record name' space'? fields' =>
      simp only [Schema.toJson, Json.obj.injEq, List.cons_append, List.cons.injEq, Prod.mk.injEq,
        Json.str.injEq] at h
      obtain ⟨-, ⟨-, rfl⟩, h⟩ := h
      obtain ⟨hs, hf⟩ := List.append_inj' h rfl
      rw [spaceMember_eq_iff] at hs
      subst hs
      exact .record name _ (Fields.alike_of_toJson_eq (by simpa using hf))
    | _ => simp [Schema.toJson] at h

theorem Fields.alike_of_toJson_eq : ∀ {a b : Fields}, a.toJson = b.toJson → Fields.Alike a b
  | .nil, b, h => by
    cases b with
    | nil => exact .nil
    | _ => simp [Fields.toJson] at h
  | .named name type rest, b, h => by
    cases b with
    | nil => simp [Fields.toJson] at h
    | named name' type' rest' =>
      simp only [Fields.toJson, fieldJson_eq_iff, List.cons.injEq] at h
      obtain ⟨⟨rfl, rfl⟩, h⟩ := h
      exact .named name type (Fields.alike_of_toJson_eq h)
    | inline name' s rest' =>
      simp only [Fields.toJson, fieldJson_eq_iff, List.cons.injEq] at h
      obtain ⟨⟨rfl, rfl⟩, h⟩ := h
      exact .named_inline name s (Fields.alike_of_toJson_eq h)
  | .inline name s rest, b, h => by
    cases b with
    | nil => simp [Fields.toJson] at h
    | named name' type' rest' =>
      simp only [Fields.toJson, fieldJson_eq_iff, List.cons.injEq] at h
      obtain ⟨⟨rfl, rfl⟩, h⟩ := h
      exact .inline_named name s (Fields.alike_of_toJson_eq h)
    | inline name' s' rest' =>
      simp only [Fields.toJson, fieldJson_eq_iff, List.cons.injEq] at h
      obtain ⟨⟨rfl, ht⟩, h⟩ := h
      have hs : s.toJson = s'.toJson := Json.eq_of_text_eq ht
      exact .inline name (Schema.alike_of_toJson_eq hs) (Fields.alike_of_toJson_eq h)

end

theorem Schema.text_eq_iff_alike {a b : Schema} :
    a.text .compact = b.text .compact ↔ Schema.Alike a b :=
  Schema.text_eq_iff.trans ⟨Schema.alike_of_toJson_eq, Schema.Alike.toJson_eq⟩

/-- Relations of schemas and of fields that are kept by records and by the fields in them. -/
structure Congruence (R : Schema → Schema → Prop) (F : Fields → Fields → Prop) : Prop where
  schemas : Equivalence R
  fields : Equivalence F
  record : ∀ {a b}, F a b → ∀ name space?, R (.record name space? a) (.record name space? b)
  named : ∀ {a b}, F a b → ∀ name type, F (.named name type a) (.named name type b)
  inline : ∀ {s t a b}, R s t → F a b → ∀ name, F (.inline name s a) (.inline name t b)

/-- A primitive goes with a reference to its name, and a schema in the place of a field with a
type whose name is the text of that schema. -/
structure Confuses (R : Schema → Schema → Prop) (F : Fields → Fields → Prop) : Prop where
  primitive : ∀ p : Primitive, R (.primitive p) (.reference p.name none)
  inline : ∀ name (s : Schema) rest,
    F (.named name (s.text .compact) rest) (.inline name s rest)

theorem congruence_toJson : Congruence (fun a b => a.toJson = b.toJson)
    (fun a b => a.toJson = b.toJson) where
  schemas := ⟨fun _ => rfl, .symm, .trans⟩
  fields := ⟨fun _ => rfl, .symm, .trans⟩
  record h name space? := by rw [Schema.toJson, Schema.toJson, h]
  named h name type := by rw [Fields.toJson, Fields.toJson, h]
  inline hs h name := by rw [Fields.toJson, Fields.toJson, hs, h]

theorem confuses_toJson : Confuses (fun a b => a.toJson = b.toJson)
    (fun a b => a.toJson = b.toJson) where
  primitive _ := rfl
  inline _ _ _ := rfl

section Congruence

variable {R : Schema → Schema → Prop} {F : Fields → Fields → Prop}

mutual

theorem Schema.Alike.related (c : Congruence R F) (amb : Confuses R F) {a b : Schema} :
    Schema.Alike a b → R a b
  | .refl s => c.schemas.refl s
  | .primitive_reference p => amb.primitive p
  | .reference_primitive p => c.schemas.symm (amb.primitive p)
  | .record name space? h => c.record (h.related c amb) name space?

theorem Fields.Alike.related (c : Congruence R F) (amb : Confuses R F) {a b : Fields} :
    Fields.Alike a b → F a b
  | .nil => c.fields.refl _
  | .named name type rest => c.named (rest.related c amb) name type
  | .inline name h rest => c.inline (h.related c amb) (rest.related c amb) name
  | .named_inline name s rest =>
    c.fields.trans (c.named (rest.related c amb) name _) (amb.inline name s _)
  | .inline_named name s rest =>
    c.fields.trans (c.fields.symm (amb.inline name s _)) (c.named (rest.related c amb) name _)

end

end Congruence

mutual

/-- Schemas without anything ambiguous, at any depth: no reference to a bare name is to that of a
primitive, and no type of a field has a name that starts like a schema. -/
def Schema.Unambiguous : Schema → Prop
  | .reference name none => ∀ p : Primitive, name ≠ p.name
  | .record _ _ fields => fields.Unambiguous
  | .primitive _ | .reference _ (some _) | .fixed _ _ | .enumeration _ _ _ | .union _ => True

def Fields.Unambiguous : Fields → Prop
  | .nil => True
  | .named _ type rest =>
    type.toList.head? ≠ some '{' ∧ type.toList.head? ≠ some '[' ∧ rest.Unambiguous
  | .inline _ schema rest => schema.Unambiguous ∧ rest.Unambiguous

end

theorem Schema.head?_text (layout : Json.Layout) (s : Schema) :
    (s.text layout).toList.head? = some '{' ∨ (s.text layout).toList.head? = some '[' := by
  cases s with
  | union branches => cases branches <;> simp [text, toJson, Json.chars]
  | _ => simp [text, toJson, Json.chars]

mutual

theorem Schema.Alike.eq_of_unambiguous {a b : Schema} :
    Schema.Alike a b → a.Unambiguous → b.Unambiguous → a = b
  | .refl _, _, _ => rfl
  | .primitive_reference p, _, hb => absurd rfl (hb p)
  | .reference_primitive p, ha, _ => absurd rfl (ha p)
  | .record _ _ h, ha, hb => by rw [h.eq_of_unambiguous ha hb]

theorem Fields.Alike.eq_of_unambiguous {a b : Fields} :
    Fields.Alike a b → a.Unambiguous → b.Unambiguous → a = b
  | .nil, _, _ => rfl
  | .named _ _ rest, ha, hb => by rw [rest.eq_of_unambiguous ha.2.2 hb.2.2]
  | .inline _ h rest, ha, hb => by
    rw [h.eq_of_unambiguous ha.1 hb.1, rest.eq_of_unambiguous ha.2 hb.2]
  | .named_inline _ s _, ha, _ => ((s.head?_text .compact).elim ha.1 ha.2.1).elim
  | .inline_named _ s _, _, hb => ((s.head?_text .compact).elim hb.1 hb.2.1).elim

end

/-- Two schemas have the same compact text if and only if they are related by the least congruence
that has the two ambiguities in it. So the text of a schema without anything ambiguous is that of
no other such schema. -/
theorem Schema.text_eq_iff_congruent (a b : Schema) :
    (a.text .compact = b.text .compact ↔
      ∀ R F, Congruence R F → Confuses R F → R a b) ∧
    (a.text .compact = b.text .compact ↔ Schema.Alike a b) ∧
    (a.Unambiguous → b.Unambiguous → a.text .compact = b.text .compact → a = b) := by
  refine ⟨⟨fun h R F c amb => ?_, fun h => ?_⟩, text_eq_iff_alike, fun ha hb h => ?_⟩
  · exact (text_eq_iff_alike.1 h).related c amb
  · exact text_eq_iff.2 (h _ _ congruence_toJson confuses_toJson)
  · exact (text_eq_iff_alike.1 h).eq_of_unambiguous ha hb

end AvroSchemata
