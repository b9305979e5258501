import AvroSchemata.Json.RoundTrip
import AvroSchemata.Schema.Basic
set_option autoImplicit false

namespace AvroSchemata

def Printable (cs : List Char) : Prop := ∀ c ∈ cs, 0x20 ≤ c.toNat

section Printable

variable {c : Char} {cs ds : List Char}

theorem printable_nil : Printable [] := fun _ hc => (List.not_mem_nil hc).elim

@[simp] theorem printable_cons : Printable (c :: cs) ↔ 0x20 ≤ c.toNat ∧ Printable cs :=
  List.forall_mem_cons

@[simp] theorem printable_append : Printable (cs ++ ds) ↔ Printable cs ∧ Printable ds :=
  List.forall_mem_append

end Printable

namespace Json

theorem printable_hexDigit {n : Nat} (h : n < 16) : 0x20 ≤ (hexDigit n).toNat := by
  revert n
  decide

theorem printable_escape (c : Char) : Printable (escape c) := by
  unfold escape
  split
  any_goals simp [printable_nil]
  split
  · next h =>
    have h₁ := printable_hexDigit (n := c.toNat / 16) (by omega)
    have h₂ := printable_hexDigit (n := c.toNat % 16) (by omega)
    simp [h₁, h₂, printable_nil]
  · next h => simpa [printable_nil] using h

theorem printable_escaped (cs : List Char) : Printable (escaped cs) := by
  intro c hc
  obtain ⟨d, -, hc⟩ := List.mem_flatMap.1 hc
  exact printable_escape d c hc

theorem printable_quoted (s : String) : Printable (quoted s) := by
  simp [quoted, printable_escaped, printable_nil]

theorem printable_toDigits (n : Nat) : Printable (Nat.toDigits 10 n) := by
  intro c hc
  have hd := Nat.isDigit_of_mem_toDigits (by decide) (by decide) hc
  have h : '0'.toNat ≤ c.toNat := (Char.isDigit_iff_toNat.1 hd).1
  exact Nat.le_trans (by decide) h

mutual

theorem printable_chars : ∀ (v : Json) (depth : Nat), Printable (v.chars .compact depth)
  | .null, _ => by simp [chars, printable_nil]
  | .num n, _ => printable_toDigits n
  | .str s, _ => printable_quoted s
  | .arr [], _ => by simp [chars, printable_nil]
  | .arr (item :: items), depth => by
    simp [chars, Layout.gap, printable_chars item, printable_itemChars items, printable_nil]
  | .obj [], _ => by simp [chars, printable_nil]
  | .obj ((key, value) :: members), depth => by
    simp [chars, Layout.gap, Layout.colon, printable_quoted, printable_chars value,
      printable_memberChars members, printable_nil]

theorem printable_itemChars : ∀ (items : List Json) (depth : Nat),
    Printable (itemChars .compact depth items)
  | [], _ => printable_nil
  | item :: items, depth => by
    simp [itemChars, Layout.gap, printable_chars item, printable_itemChars items]

theorem printable_memberChars : ∀ (members : List (String × Json)) (depth : Nat),
    Printable (memberChars .compact depth members)
  | [], _ => printable_nil
  | (key, value) :: members, depth => by
    simp [memberChars, Layout.gap, Layout.colon, printable_quoted, printable_chars value,
      printable_memberChars members]

end

end Json

mutual

/-- The text is JSON without control characters, and what is read is what the schema has to say. -/
inductive Schema.WrittenAs : Schema → String → Prop where
  | mk {s : Schema} {text : String} {value : Json} (printable : Printable text.toList)
      (read : Json.read? text = some value) (content : Schema.SaidBy s value) :
      Schema.WrittenAs s text

inductive Schema.SaidBy : Schema → Json → Prop where
  | primitive (p : Primitive) : Schema.SaidBy (.primitive p) (.obj [("type", .str p.name)])
  | bareReference (name : String) :
      Schema.SaidBy (.reference name none) (.obj [("type", .str name)])
  | reference (name space : String) :
      Schema.SaidBy (.reference name (some space))
        (.obj [("type", .str name), ("namespace", .str space)])
  | fixed (name : String) (size : Nat) :
      Schema.SaidBy (.fixed name size)
        (.obj [("type", .str "fixed"), ("size", .num size), ("name", .str name)])
  | enumeration (name space : String) (symbols : List String) :
      Schema.SaidBy (.enumeration name space symbols)
        (.obj [("type", .str "enum"), ("name", .str name), ("namespace", .str space),
          ("symbols", .arr (symbols.map .str))])
  | bareRecord (name : String) {fields : Fields} {values : List Json}
      (inside : Fields.SaidBy fields values) :
      Schema.SaidBy (.record name none fields)
        (.obj [("type", .str "record"), ("name", .str name), ("fields", .arr values)])
  | record (name space : String) {fields : Fields} {values : List Json}
      (inside : Fields.SaidBy fields values) :
      Schema.SaidBy (.record name (some space) fields)
        (.obj [("type", .str "record"), ("name", .str name), ("namespace", .str space),
          ("fields", .arr values)])
  | union (branches : List (Option String)) :
      Schema.SaidBy (.union branches) (.arr (branches.map fun b => b.elim .null .str))

/-- The values of the fields. The type of a field in place is the compact text of a schema, and
that text is written as this one is. -/
inductive Fields.SaidBy : Fields → List Json → Prop where
  | nil : Fields.SaidBy .nil []
  | named (name type : String) {rest : Fields} {values : List Json}
      (after : Fields.SaidBy rest values) :
      Fields.SaidBy (.named name type rest)
        (.obj [("name", .str name), ("type", .str type)] :: values)
  | inline (name : String) {s : Schema} {rest : Fields} {values : List Json}
      (nested : Schema.WrittenAs s (s.text .compact)) (after : Fields.SaidBy rest values) :
      Fields.SaidBy (.inline name s rest)
        (.obj [("name", .str name), ("type", .str (s.text .compact))] :: values)

end

theorem branchJson_eq_elim : branchJson = fun b => b.elim Json.null Json.str :=
  funext fun b => by cases b <;> rfl

theorem Schema.SaidBy.writtenAs {s : Schema} (h : s.SaidBy s.toJson) :
    s.WrittenAs (s.text .compact) := by
  refine .mk ?_ (Json.read?_text .compact s.toJson) h
  rw [Schema.text, Json.toList_text]
  exact Json.printable_chars s.toJson 0

mutual

theorem Schema.saidBy_toJson : ∀ s : Schema, s.SaidBy s.toJson
  | .primitive p => .primitive p
  | .reference name none => .bareReference name
  | .reference name (some space) => .reference name space
  | .fixed name size => .fixed name size
  | .enumeration name space symbols => .enumeration name space symbols
  | .record name none fields => .bareRecord name fields.saidBy_toJson
  | .record name (some space) fields => .record name space fields.saidBy_toJson
  | .union branches => by
    rw [Schema.toJson, branchJson_eq_elim]
    exact .union branches

theorem Fields.saidBy_toJson : ∀ fields : Fields, fields.SaidBy fields.toJson
  | .nil => .nil
  | .named name type rest => .named name type rest.saidBy_toJson
  | .inline name s rest => .inline name s.saidBy_toJson.writtenAs rest.saidBy_toJson

end

/-- The compact text of a schema is read as what the schema describes, and so is each text in it. -/
theorem Schema.writtenAs_text (s : Schema) : s.WrittenAs (s.text .compact) :=
  s.saidBy_toJson.writtenAs

end AvroSchemata
