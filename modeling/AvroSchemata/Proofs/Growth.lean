import Mathlib.Algebra.Group.Nat.Defs
import AvroSchemata.Schema.Basic
import AvroSchemata.Schema.Outline
set_option autoImplicit false

/-!
What nesting costs. A schema in place is a string literal inside the text of the schema around it,
so its quotation marks and backslashes are escaped, and those that escape them once more at the
next level. Their number more than doubles from level to level, and with it the text.
-/

namespace AvroSchemata

def isMark (c : Char) : Bool := c == '"' || c == '\\'

def marks (cs : List Char) : Nat := cs.countP isMark

@[simp] theorem marks_nil : marks [] = 0 := rfl

@[simp] theorem marks_cons (c : Char) (cs : List Char) :
    marks (c :: cs) = marks cs + if isMark c then 1 else 0 := List.countP_cons

@[simp] theorem marks_append (cs ds : List Char) : marks (cs ++ ds) = marks cs + marks ds :=
  List.countP_append

theorem marks_le_length (cs : List Char) : marks cs ≤ cs.length := List.countP_le_length

namespace Json

theorem two_mul_marks_le_marks_escape (c : Char) : 2 * marks [c] ≤ marks (escape c) := by
  by_cases quote : c = '"'
  · subst quote
    decide
  · by_cases backslash : c = '\\'
    · subst backslash
      decide
    · simp [isMark, quote, backslash]

/-- Escaping doubles the marks. Control characters may add some. -/
theorem two_mul_marks_le_marks_escaped (cs : List Char) : 2 * marks cs ≤ marks (escaped cs) := by
  induction cs with
  | nil => simp
  | cons c cs ih =>
    have h := two_mul_marks_le_marks_escape c
    simp only [marks_cons, marks_nil, escaped_cons, marks_append] at *
    omega

theorem two_mul_marks_add_two_le_marks_quoted (s : String) :
    2 * marks s.toList + 2 ≤ marks (quoted s) := by
  have h := two_mul_marks_le_marks_escaped s.toList
  have quote : isMark '"' = true := rfl
  simp only [quoted, List.cons_append, marks_cons, marks_append, marks_nil, quote, if_true]
  omega

theorem marks_chars_arr (items : List Json) (depth : Nat) :
    marks ((Json.arr items).chars .compact depth) =
      marks (itemChars .compact (depth + 1) items) := by
  cases items with
  | nil => simp [chars, itemChars, isMark]
  | cons item items => simp [chars, itemChars, Layout.gap, isMark]

theorem marks_le_marks_itemChars {item : Json} {items : List Json} (h : item ∈ items)
    (depth : Nat) : marks (item.chars .compact depth) ≤ marks (itemChars .compact depth items) := by
  induction items with
  | nil => cases h
  | cons other items ih =>
    rw [itemChars, marks_append, marks_append]
    obtain rfl | h := List.mem_cons.1 h
    · omega
    · have := ih h
      omega

end Json

theorem two_mul_marks_add_eight_le_marks_fieldJson (name type : String) (depth : Nat) :
    2 * marks type.toList + 8 ≤ marks ((fieldJson name type).chars .compact depth) := by
  have h₁ := Json.two_mul_marks_add_two_le_marks_quoted "name"
  have h₂ := Json.two_mul_marks_add_two_le_marks_quoted name
  have h₃ := Json.two_mul_marks_add_two_le_marks_quoted "type"
  have h₄ := Json.two_mul_marks_add_two_le_marks_quoted type
  simp only [fieldJson, Json.chars, Json.memberChars, List.cons_append, marks_cons, marks_append]
  omega

theorem marks_fields_add_ten_le_marks_record (name : String) (space? : Option String)
    (fields : Fields) : marks (Json.itemChars .compact 2 fields.toJson) + 10 ≤
      marks ((Schema.record name space? fields).text .compact).toList := by
  have h₁ := Json.two_mul_marks_add_two_le_marks_quoted "type"
  have h₂ := Json.two_mul_marks_add_two_le_marks_quoted "record"
  have h₃ := Json.two_mul_marks_add_two_le_marks_quoted "name"
  have h₄ := Json.two_mul_marks_add_two_le_marks_quoted name
  have h₅ := Json.two_mul_marks_add_two_le_marks_quoted "fields"
  rw [Schema.text, Json.toList_text, ← Json.marks_chars_arr]
  cases space? <;>
    simp only [Schema.toJson, spaceMember, Json.chars, Json.memberChars, List.cons_append,
      List.nil_append, Nat.zero_add, marks_cons, marks_append] <;>
    omega

def Fields.inPlace : Fields → List Schema
  | .nil => []
  | .named _ _ rest => rest.inPlace
  | .inline _ schema rest => schema :: rest.inPlace

def Schema.inPlace : Schema → List Schema
  | .record _ _ fields => fields.inPlace
  | .primitive _ | .reference _ _ | .fixed _ _ | .enumeration _ _ _ | .union _ => []

theorem Fields.exists_fieldJson_of_mem_inPlace {fields : Fields} {s : Schema}
    (h : s ∈ fields.inPlace) : ∃ name, fieldJson name (s.text .compact) ∈ fields.toJson := by
  induction fields using Fields.rec (motive_1 := fun _ => True) with
  | nil => cases h
  | named _ _ _ ih =>
    obtain ⟨name, hm⟩ := ih h
    exact ⟨name, List.mem_cons_of_mem _ hm⟩
  | inline name _ _ _ ih =>
    obtain rfl | h := List.mem_cons.1 h
    · exact ⟨name, List.mem_cons_self⟩
    · obtain ⟨name, hm⟩ := ih h
      exact ⟨name, List.mem_cons_of_mem _ hm⟩
  | _ => trivial

/-- Each level has twice the marks of a level below, and eighteen of its own. -/
theorem Schema.two_mul_marks_le_of_mem_inPlace {s t : Schema} (h : t ∈ s.inPlace) :
    2 * marks (t.text .compact).toList + 18 ≤ marks (s.text .compact).toList := by
  cases s with
  | record name space? fields =>
    obtain ⟨field, hm⟩ := Fields.exists_fieldJson_of_mem_inPlace h
    have h₁ := two_mul_marks_add_eight_le_marks_fieldJson field (t.text .compact) 2
    have h₂ := Json.marks_le_marks_itemChars hm 2
    have h₃ := marks_fields_add_ten_le_marks_record name space? fields
    omega
  | _ => cases h

theorem Fields.exists_inPlace_of_mem_outline {fields : Fields} {e : Entry}
    (h : e ∈ fields.outline 0) : e.depth = 0 ∨
      ∃ t ∈ fields.inPlace, ∃ e' ∈ t.outline 0, e.depth = e'.depth + 1 := by
  induction fields using Fields.rec (motive_1 := fun _ => True) with
  | nil => cases h
  | named _ _ _ ih =>
    obtain rfl | h := List.mem_cons.1 h
    · exact .inl rfl
    · exact ih h
  | inline name s rest _ ih =>
    obtain h | h := List.mem_append.1 h
    · obtain rfl | h := List.mem_cons.1 h
      · exact .inl rfl
      · rw [Schema.outline_add 1 0] at h
        obtain ⟨e', he, rfl⟩ := List.mem_map.1 h
        exact .inr ⟨s, List.mem_cons_self, e', he, rfl⟩
    · obtain flat | ⟨t, ht, inside⟩ := ih h
      · exact .inl flat
      · exact .inr ⟨t, List.mem_cons_of_mem _ ht, inside⟩
  | _ => trivial

theorem Schema.exists_inPlace_of_mem_outline {s : Schema} {e : Entry} (h : e ∈ s.outline 0) :
    e.depth = 0 ∨ ∃ t ∈ s.inPlace, ∃ e' ∈ t.outline 0, e.depth = e'.depth + 1 := by
  cases s with
  | record name space? fields =>
    obtain rfl | h := List.mem_cons.1 h
    · exact .inl rfl
    · exact Fields.exists_inPlace_of_mem_outline h
  | _ =>
    obtain rfl := List.mem_singleton.1 h
    exact .inl rfl

theorem Schema.le_marks_of_mem_outline {s : Schema} {e : Entry} (h : e ∈ s.outline 0) :
    18 * (2 ^ e.depth - 1) ≤ marks (s.text .compact).toList := by
  -- by induction on the depth, since the entry one level down belongs to another schema
  generalize depth : e.depth = n
  induction n generalizing s e with
  | zero => simp
  | succ n ih =>
    obtain flat | ⟨t, ht, e', he, next⟩ := exists_inPlace_of_mem_outline h
    · omega
    · have below := ih he (by omega)
      have level := two_mul_marks_le_of_mem_inPlace ht
      have := Nat.one_le_two_pow (n := n)
      rw [Nat.pow_succ]
      omega

/-- A schema in place adds twice its marks to the text around it, and eighteen more. So a text in
which something lies `n` levels deep has at least `18 * (2 ^ n - 1)` characters. -/
theorem Schema.text_doubles_by_level (s : Schema) :
    (∀ t ∈ s.inPlace,
      2 * marks (t.text .compact).toList + 18 ≤ marks (s.text .compact).toList) ∧
    ∀ e ∈ s.outline 0, 18 * (2 ^ e.depth - 1) ≤ (s.text .compact).length := by
  refine ⟨fun t ht => two_mul_marks_le_of_mem_inPlace ht, fun e he => ?_⟩
  calc 18 * (2 ^ e.depth - 1)
    _ ≤ marks (s.text .compact).toList := le_marks_of_mem_outline he
    _ ≤ (s.text .compact).toList.length := marks_le_length _
    _ = (s.text .compact).length := String.length_toList

theorem Schema.text_doubles_by_level_link :
    let last : Schema := .record "Last" none .nil
    let link : Schema := .record "Link" (some "chain") (.inline "next" last .nil)
    let chain : Schema := .record "Chain" none (.named "name" "string" (.inline "first" link .nil))
    link ∈ chain.inPlace ∧
    2 * marks (link.text .compact).toList + 18 ≤ marks (chain.text .compact).toList ∧
    ⟨2, .record "Last" none 0⟩ ∈ chain.outline 0 ∧ 54 ≤ (chain.text .compact).length := by
  intro last link chain
  have inside : link ∈ chain.inPlace := List.mem_cons_self
  have deep : ⟨2, .record "Last" none 0⟩ ∈ chain.outline 0 := by decide
  obtain ⟨level, long⟩ := text_doubles_by_level chain
  exact ⟨inside, level link inside, deep, long _ deep⟩

end AvroSchemata
