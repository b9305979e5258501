import AvroSchemata.Json
import AvroSchemata.Proofs.NestedTexts
set_option autoImplicit false

namespace AvroSchemata.Json

mutual

/-- Leaves out spaces and line breaks, up to the next literal. -/
def dense : List Char → List Char
  | [] => []
  | c :: cs =>
    if c = '"' then c :: denseLiteral cs
    else if c = ' ' ∨ c = '\n' then dense cs
    else c :: dense cs

/-- Keeps all characters of a literal. A backslash takes the next one along. -/
def denseLiteral : List Char → List Char
  | [] => []
  | '\\' :: c :: cs => '\\' :: c :: denseLiteral cs
  | c :: cs => if c = '"' then c :: dense cs else c :: denseLiteral cs

end

theorem dense_gap (layout : Layout) (depth : Nat) (cs : List Char) :
    dense (layout.gap depth ++ cs) = dense cs := by
  cases layout with
  | compact => rfl
  | pretty =>
    simp only [Layout.gap, List.cons_append]
    rw [dense, if_neg (by decide), if_pos (by decide)]
    induction 2 * depth with
    | zero => rfl
    | succ n ih => simpa [List.replicate_succ, dense] using ih

theorem dense_quote (cs : List Char) : dense ('"' :: cs) = '"' :: denseLiteral cs := by
  rw [dense, if_pos rfl]

theorem dense_cons {c : Char} (hq : c ≠ '"') (hs : c ≠ ' ') (hn : c ≠ '\n') (cs : List Char) :
    dense (c :: cs) = c :: dense cs := by
  rw [dense, if_neg hq, if_neg (not_or.2 ⟨hs, hn⟩)]

theorem denseLiteral_cons {c : Char} (hq : c ≠ '"') (hb : c ≠ '\\') (cs : List Char) :
    denseLiteral (c :: cs) = c :: denseLiteral cs := by
  rw [denseLiteral.eq_def]
  split
  · next he => cases he
  · next he => exact absurd (List.cons.inj he).1 hb
  · next he =>
    cases he
    exact if_neg hq

theorem hexDigit_ne {n : Nat} (h : n < 16) : hexDigit n ≠ '"' ∧ hexDigit n ≠ '\\' := by
  revert n
  decide

theorem denseLiteral_escape (c : Char) (cs : List Char) :
    denseLiteral (escape c ++ cs) = escape c ++ denseLiteral cs := by
  unfold escape
  split
  any_goals rfl
  next hq hb _ _ _ _ _ =>
    split
    · next h =>
      -- behind the backslash and its letter come four digits
      obtain ⟨hq₁, hb₁⟩ := hexDigit_ne (n := c.toNat / 16) (by omega)
      obtain ⟨hq₂, hb₂⟩ := hexDigit_ne (n := c.toNat % 16) (by omega)
      simp [denseLiteral, denseLiteral_cons, hq₁, hb₁, hq₂, hb₂]
    · exact denseLiteral_cons hq hb cs

theorem denseLiteral_escaped (cs rest : List Char) :
    denseLiteral (escaped cs ++ '"' :: rest) = escaped cs ++ '"' :: dense rest := by
  induction cs with
  | nil => rfl
  | cons c cs ih => simp [denseLiteral_escape, ih]

/-- White space inside a literal stays, and the scan is outside again behind it. -/
theorem dense_quoted (s : String) (rest : List Char) :
    dense (quoted s ++ rest) = quoted s ++ dense rest := by
  simp [quoted, dense_quote, denseLiteral_escaped]

theorem dense_digits {digits : List Char} (h : ∀ c ∈ digits, c.isDigit = true)
    (rest : List Char) : dense (digits ++ rest) = digits ++ dense rest := by
  induction digits with
  | nil => rfl
  | cons d ds ih =>
    have hd := h d List.mem_cons_self
    have ne {c : Char} (hc : c.isDigit = false) : d ≠ c := by
      rintro rfl
      simp [hd] at hc
    rw [List.cons_append, dense_cons (ne rfl) (ne rfl) (ne rfl),
      ih fun c hc => h c (List.mem_cons_of_mem _ hc), List.cons_append]

@[simp] theorem Layout.gap_compact (depth : Nat) : Layout.compact.gap depth = [] := rfl

theorem dense_colon (layout : Layout) (cs : List Char) :
    dense (layout.colon ++ cs) = Layout.compact.colon ++ dense cs := by
  cases layout <;> simp [Layout.colon, dense]

mutual

theorem dense_chars (layout : Layout) : ∀ (v : Json) (depth depth' : Nat) (rest : List Char),
    dense (v.chars layout depth ++ rest) = v.chars .compact depth' ++ dense rest
  | .null, _, _, _ => by simp [chars, dense]
  | .num n, _, _, rest =>
    dense_digits (fun _ hc => Nat.isDigit_of_mem_toDigits (by decide) (by decide) hc) rest
  | .str s, _, _, rest => dense_quoted s rest
  | .arr [], _, _, _ => by simp [chars, dense]
  | .arr (item :: items), depth, depth', rest => by
    have h₁ := dense_chars layout item (depth + 1) (depth' + 1)
    have h₂ := dense_itemChars layout items (depth + 1) (depth' + 1)
    simp [chars, dense_cons, dense_gap, h₁, h₂]
  | .obj [], _, _, _ => by simp [chars, dense]
  | .obj ((key, value) :: members), depth, depth', rest => by
    have h₁ := dense_chars layout value (depth + 1) (depth' + 1)
    have h₂ := dense_memberChars layout members (depth + 1) (depth' + 1)
    simp [chars, dense_cons, dense_gap, dense_quoted, dense_colon, h₁, h₂]

theorem dense_itemChars (layout : Layout) :
    ∀ (items : List Json) (depth depth' : Nat) (rest : List Char),
    dense (itemChars layout depth items ++ rest) = itemChars .compact depth' items ++ dense rest
  | [], _, _, _ => rfl
  | item :: items, depth, depth', rest => by
    have h₁ := dense_chars layout item depth depth'
    have h₂ := dense_itemChars layout items depth depth'
    simp [itemChars, dense_cons, dense_gap, h₁, h₂]

theorem dense_memberChars (layout : Layout) :
    ∀ (members : List (String × Json)) (depth depth' : Nat) (rest : List Char),
    dense (memberChars layout depth members ++ rest) =
      memberChars .compact depth' members ++ dense rest
  | [], _, _, _ => rfl
  | (key, value) :: members, depth, depth', rest => by
    have h₁ := dense_chars layout value depth depth'
    have h₂ := dense_memberChars layout members depth depth'
    simp [memberChars, dense_cons, dense_gap, dense_quoted, dense_colon, h₁, h₂]

end

theorem dense_text (layout : Layout) (v : Json) :
    dense (v.text layout).toList = (v.text .compact).toList := by
  have h := dense_chars layout v 0 0 []
  rwa [List.append_nil, dense, List.append_nil, ← toList_text, ← toList_text] at h

example : String.ofList (dense ((Json.arr [.str "a \" b", .num 1]).text .pretty).toList) =
    "[\"a \\\" b\",1]" := by decide

end AvroSchemata.Json

namespace AvroSchemata

/-- Pretty text without the white space outside its literals is the compact text. Both say the
same: names and symbols as they are, and of a field in place its compact text. -/
theorem Schema.dense_pretty_eq_compact (s : Schema) :
    Json.dense (s.text .pretty).toList = (s.text .compact).toList ∧
      ∃ value, s.SaidBy value ∧ ∀ layout, Json.read? (s.text layout) = some value := by
  refine ⟨Json.dense_text .pretty s.toJson, s.toJson, s.saidBy_toJson, fun layout => ?_⟩
  exact Json.read?_text layout s.toJson

end AvroSchemata
