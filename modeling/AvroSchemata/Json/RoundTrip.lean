import AvroSchemata.Json.Reader
set_option autoImplicit false

/-!
Written values are read back. Main statement: `read? (v.text layout) = some v`, for both layouts.
-/

namespace AvroSchemata.Json

theorem hexValue?_hexDigit {n : Nat} (h : n < 16) : hexValue? (hexDigit n) = some n := by
  revert n
  decide

theorem unicode?_control {c : Char} (h : c.toNat < 0x20) :
    unicode? '0' '0' (hexDigit (c.toNat / 16)) (hexDigit (c.toNat % 16)) = some c := by
  have h₀ : hexValue? '0' = some 0 := rfl
  have h₁ := hexValue?_hexDigit (n := c.toNat / 16) (by omega)
  have h₂ := hexValue?_hexDigit (n := c.toNat % 16) (by omega)
  have hn : ((0 * 16 + 0) * 16 + c.toNat / 16) * 16 + c.toNat % 16 = c.toNat := by omega
  have hv : c.toNat.isValidChar := c.valid
  simp only [unicode?, h₀, h₁, h₂, Option.bind_eq_bind, Option.bind_some, hn, if_pos hv]
  simp

theorem readLiteral_cons {c : Char} (hq : c ≠ '"') (hb : c ≠ '\\') (hc : ¬ c.toNat < 0x20)
    (rest : List Char) : readLiteral (c :: rest) = prepend (some c) (readLiteral rest) := by
  rw [readLiteral.eq_def]
  split
  · next he => cases he
  · next he => exact absurd (List.cons.inj he).1 hq
  · next he => exact absurd (List.cons.inj he).1 hb
  · next he => exact absurd (List.cons.inj he).1 hb
  · next he =>
    cases he
    exact if_neg (not_or.2 ⟨hc, hb⟩)

theorem readLiteral_escape (c : Char) (rest : List Char) :
    readLiteral (escape c ++ rest) = prepend (some c) (readLiteral rest) := by
  unfold escape
  split
  any_goals rfl
  next hq hb _ _ _ _ _ =>
    split
    · next h =>
      rw [← unicode?_control h]
      rfl
    · next h => exact readLiteral_cons hq hb h rest

theorem readLiteral_escaped (cs rest : List Char) :
    readLiteral (escaped cs ++ '"' :: rest) = some (cs, rest) := by
  induction cs with
  | nil => rfl
  | cons c cs ih => simp [readLiteral_escape, ih, prepend]

theorem readString_quoted (s : String) (rest : List Char) :
    (quoted s ++ rest) = '"' :: (escaped s.toList ++ '"' :: rest) ∧
      readString (escaped s.toList ++ '"' :: rest) = some (s, rest) := by
  simp [quoted, readString, readLiteral_escaped]

/-- Text that cannot make a number in front of it longer. -/
def Ends (rest : List Char) : Prop := ∀ c ∈ rest.head?, c.isDigit = false

theorem takeWhile_append_of_ends {digits rest : List Char} (hd : ∀ c ∈ digits, c.isDigit = true)
    (hr : Ends rest) :
    (digits ++ rest).takeWhile Char.isDigit = digits ∧
      (digits ++ rest).dropWhile Char.isDigit = rest := by
  induction digits with
  | nil =>
    cases rest with
    | nil => exact ⟨rfl, rfl⟩
    | cons c cs =>
      have hc : c.isDigit = false := hr c rfl
      simp [hc]
  | cons d ds ih =>
    have h := ih fun c hc => hd c (List.mem_cons_of_mem _ hc)
    simp [hd d List.mem_cons_self, h.1, h.2]

theorem head?_toDigits_ne {n : Nat} (h : 0 < n) : (Nat.toDigits 10 n).head? ≠ some '0' := by
  induction n using Nat.strongRecOn with
  | ind n ih =>
    by_cases hn : n < 10
    · rw [Nat.toDigits_of_lt_base hn]
      have : ∀ m, m < 10 → 0 < m → [Nat.digitChar m].head? ≠ some '0' := by decide
      exact this n hn h
    · have hq := ih (n / 10) (by omega) (by omega)
      rw [Nat.toDigits_of_base_le (by decide) (by omega), List.head?_append]
      cases hd : (Nat.toDigits 10 (n / 10)).head? with
      | none => exact absurd (List.head?_eq_none_iff.1 hd) Nat.toDigits_ne_nil
      | some c => rwa [hd] at hq

theorem readNumber_toDigits (n : Nat) {rest : List Char} (hr : Ends rest) :
    readNumber (Nat.toDigits 10 n ++ rest) = some (n, rest) := by
  have hd : ∀ c ∈ Nat.toDigits 10 n, c.isDigit = true :=
    fun c hc => Nat.isDigit_of_mem_toDigits (by decide) (by decide) hc
  have h := takeWhile_append_of_ends hd hr
  rw [readNumber, h.1, h.2]
  split
  · next h0 => exact absurd h0 Nat.toDigits_ne_nil
  · next h0 =>
    cases n with
    | zero => simp at h0
    | succ n => exact absurd (by rw [h0]; rfl) (head?_toDigits_ne (Nat.succ_pos n))
  · rw [Nat.ofDigitChars_toDigits (by decide) (by decide)]

theorem skipBlanks_append {blanks : List Char} (hb : ∀ c ∈ blanks, isBlank c = true)
    (cs : List Char) : skipBlanks (blanks ++ cs) = skipBlanks cs := by
  induction blanks with
  | nil => rfl
  | cons b bs ih =>
    simp only [skipBlanks, List.cons_append, List.dropWhile_cons, hb b List.mem_cons_self, if_true]
    exact ih fun c hc => hb c (List.mem_cons_of_mem _ hc)

@[simp] theorem skipBlanks_cons {c : Char} (h : isBlank c = false) (cs : List Char) :
    skipBlanks (c :: cs) = c :: cs := by simp [skipBlanks, h]

theorem isBlank_of_mem_gap {layout : Layout} {depth : Nat} {c : Char}
    (h : c ∈ layout.gap depth) : isBlank c = true := by
  cases layout with
  | compact => simp [Layout.gap] at h
  | pretty =>
    simp only [Layout.gap, List.mem_cons, List.mem_replicate] at h
    rcases h with rfl | ⟨_, rfl⟩ <;> rfl

@[simp] theorem skipBlanks_gap (layout : Layout) (depth : Nat) (cs : List Char) :
    skipBlanks (layout.gap depth ++ cs) = skipBlanks cs :=
  skipBlanks_append (fun _ => isBlank_of_mem_gap) cs

@[simp] theorem readValue_gap (layout : Layout) (depth fuel : Nat) (cs : List Char) :
    readValue fuel (layout.gap depth ++ cs) = readValue fuel cs := by
  cases fuel with
  | zero => rfl
  | succ fuel => simp only [readValue, skipBlanks_gap]

@[simp] theorem readKey_colon (layout : Layout) (key : String) (cs : List Char) :
    readKey (escaped key.toList ++ '"' :: (layout.colon ++ cs)) =
      some (key, layout.colon.tail ++ cs) := by
  cases layout <;>
    simp [readKey, readString, readLiteral_escaped, Layout.colon, skipBlanks, isBlank]

@[simp] theorem readValue_colon (layout : Layout) (fuel : Nat) (cs : List Char) :
    readValue fuel (layout.colon.tail ++ cs) = readValue fuel cs := by
  cases layout with
  | compact => rfl
  | pretty =>
    cases fuel with
    | zero => rfl
    | succ fuel =>
      have : skipBlanks (Layout.pretty.colon.tail ++ cs) = skipBlanks cs := rfl
      simp only [readValue, this]

theorem isBlank_eq_false_of_isDigit {c : Char} (h : c.isDigit = true) : isBlank c = false := by
  rw [← Bool.not_eq_true]
  intro hb
  simp only [isBlank, Bool.or_eq_true, beq_iff_eq] at hb
  rcases hb with ((rfl | rfl) | rfl) | rfl <;> exact absurd h (by decide)

theorem readValue_digit {c : Char} (h : c.isDigit = true) (fuel : Nat) (cs : List Char) :
    readValue (fuel + 1) (c :: cs) = (readNumber (c :: cs)).map fun (n, rest) => (.num n, rest) := by
  have ne {d : Char} (hd : d.isDigit = false) : c ≠ d := by
    rintro rfl
    simp [h] at hd
  rw [readValue, skipBlanks_cons (isBlank_eq_false_of_isDigit h)]
  split
  · next heq => exact absurd (List.cons.inj heq).1 (ne rfl)
  · next heq => exact absurd (List.cons.inj heq).1 (ne rfl)
  · next heq => exact absurd (List.cons.inj heq).1 (ne rfl)
  · next heq => exact absurd (List.cons.inj heq).1 (ne rfl)
  · rfl

theorem readValue_bracket (fuel : Nat) {cs rest : List Char} (h : skipBlanks cs = ']' :: rest) :
    readValue fuel cs = none := by
  cases fuel with
  | zero => rfl
  | succ fuel => rw [readValue, h]; rfl

theorem ends_cons {c : Char} (h : c.isDigit = false) (cs : List Char) : Ends (c :: cs) := by
  intro d hd
  rw [← Option.mem_some_iff.1 hd]
  exact h

theorem ends_gap_append {layout : Layout} {depth : Nat} {cs : List Char} (h : Ends cs) :
    Ends (layout.gap depth ++ cs) := by
  cases layout with
  | compact => exact h
  | pretty => exact ends_cons rfl _

theorem ends_itemChars (layout : Layout) (depth closing : Nat) (items : List Json)
    (rest : List Char) :
    Ends (itemChars layout depth items ++ (layout.gap closing ++ ']' :: rest)) := by
  cases items with
  | nil => exact ends_gap_append (ends_cons rfl rest)
  | cons _ _ => exact ends_cons rfl _

theorem ends_memberChars (layout : Layout) (depth closing : Nat) (members : List (String × Json))
    (rest : List Char) :
    Ends (memberChars layout depth members ++ (layout.gap closing ++ '}' :: rest)) := by
  cases members with
  | nil => exact ends_gap_append (ends_cons rfl rest)
  | cons _ _ => exact ends_cons rfl _

mutual

theorem readValue_chars (layout : Layout) : ∀ (v : Json) (depth fuel : Nat) (rest : List Char),
    (v.chars layout depth).length < fuel → Ends rest →
      readValue fuel (v.chars layout depth ++ rest) = some (v, rest)
  | _, _, 0, _, h, _ => absurd h (Nat.not_lt_zero _)
  | .null, _, fuel + 1, rest, _, _ => by simp [readValue, chars, isBlank]
  | .num n, depth, fuel + 1, rest, _, hr => by
    have hn := readNumber_toDigits n hr
    rw [chars]
    cases hd : Nat.toDigits 10 n with
    | nil => exact absurd hd Nat.toDigits_ne_nil
    | cons c cs =>
      have hc : c.isDigit = true :=
        Nat.isDigit_of_mem_toDigits (by decide) (by decide) (hd ▸ List.mem_cons_self)
      rw [hd, List.cons_append] at hn
      rw [List.cons_append, readValue_digit hc, hn]
      rfl
  | .str s, _, fuel + 1, rest, _, _ => by
    simp [readValue, chars, isBlank, readString_quoted]
  | .arr [], _, fuel + 1, rest, _, _ => by simp [readValue, chars, isBlank]
  | .arr (item :: items), depth, fuel + 1, rest, h, _ => by
    simp only [chars, List.length_append, List.length_cons] at h
    have h₁ := readValue_chars layout item (depth + 1) fuel _ (by omega)
      (ends_itemChars layout (depth + 1) depth items rest)
    have h₂ := readItems_chars layout items (depth + 1) depth fuel rest (by omega)
    simp only [readValue, chars, List.append_assoc, List.cons_append, List.nil_append,
      skipBlanks_cons (c := '[') rfl, skipBlanks_gap]
    split
    · next hs => simp [readValue_bracket fuel hs] at h₁
    · simp [h₁, h₂]
  | .obj [], _, fuel + 1, rest, _, _ => by simp [readValue, chars, isBlank]
  | .obj ((key, value) :: members), depth, fuel + 1, rest, h, _ => by
    simp only [chars, List.length_append, List.length_cons] at h
    have h₁ := readValue_chars layout value (depth + 1) fuel _ (by omega)
      (ends_memberChars layout (depth + 1) depth members rest)
    have h₂ := readMembers_chars layout members (depth + 1) depth fuel rest (by omega)
    simp [readValue, chars, isBlank, h₁, h₂, List.append_assoc, quoted]

theorem readItems_chars (layout : Layout) :
    ∀ (items : List Json) (depth closing fuel : Nat) (rest : List Char),
    (itemChars layout depth items).length < fuel →
      readItems fuel (itemChars layout depth items ++ (layout.gap closing ++ ']' :: rest)) =
        some (items, rest)
  | _, _, _, 0, _, h => absurd h (Nat.not_lt_zero _)
  | [], _, _, fuel + 1, rest, _ => by simp [readItems, itemChars, isBlank]
  | item :: items, depth, closing, fuel + 1, rest, h => by
    simp only [itemChars, List.length_append, List.length_cons] at h
    have h₁ := readValue_chars layout item depth fuel _ (by omega)
      (ends_itemChars layout depth closing items rest)
    have h₂ := readItems_chars layout items depth closing fuel rest (by omega)
    simp [readItems, itemChars, isBlank, h₁, h₂, List.append_assoc]

theorem readMembers_chars (layout : Layout) :
    ∀ (members : List (String × Json)) (depth closing fuel : Nat) (rest : List Char),
    (memberChars layout depth members).length < fuel →
      readMembers fuel (memberChars layout depth members ++ (layout.gap closing ++ '}' :: rest)) =
        some (members, rest)
  | _, _, _, 0, _, h => absurd h (Nat.not_lt_zero _)
  | [], _, _, fuel + 1, rest, _ => by simp [readMembers, memberChars, isBlank]
  | (key, value) :: members, depth, closing, fuel + 1, rest, h => by
    simp only [memberChars, List.length_append, List.length_cons] at h
    have h₁ := readValue_chars layout value depth fuel _ (by omega)
      (ends_memberChars layout depth closing members rest)
    have h₂ := readMembers_chars layout members depth closing fuel rest (by omega)
    simp [readMembers, memberChars, isBlank, h₁, h₂, List.append_assoc, quoted]

end

/-- What is written is read back, in either layout. -/
theorem read?_text (layout : Layout) (v : Json) : read? (v.text layout) = some v := by
  have h := readValue_chars layout v 0 ((v.chars layout 0).length + 1) []
    (Nat.lt_succ_self _) fun _ hc => by simp at hc
  rw [List.append_nil] at h
  rw [read?, toList_text, h]
  rfl

end AvroSchemata.Json
