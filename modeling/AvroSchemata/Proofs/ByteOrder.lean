import Mathlib.Data.String.Basic
set_option autoImplicit false

namespace AvroSchemata

def bytes (s : String) : List UInt8 := s.toUTF8.data.toList

theorem bytes_eq_flatMap (s : String) : bytes s = s.toList.flatMap String.utf8EncodeChar := by
  have h : s.toByteArray = s.toList.utf8Encode := by
    conv_lhs => rw [← String.ofList_toList (s := s)]
    exact String.toByteArray_ofList
  rw [bytes, String.toUTF8, h, List.utf8Encode]
  simp

section Bytes

variable {x y x' y' : Nat} {xs ys : List UInt8}

theorem ofNat_cons_lt (hy : y < 256) (h : x < y) : UInt8.ofNat x :: xs < UInt8.ofNat y :: ys := by
  rw [List.cons_lt_cons_iff, UInt8.lt_iff_toNat_lt, UInt8.toNat_ofNat', UInt8.toNat_ofNat']
  left
  omega

theorem ofNat_cons_lt_or (hy : y < 256) (h : x ≤ y) (hs : x = y → xs < ys) :
    UInt8.ofNat x :: xs < UInt8.ofNat y :: ys := by
  obtain h | rfl := Nat.lt_or_eq_of_le h
  · exact ofNat_cons_lt hy h
  · exact List.cons_lt_cons_iff.2 (.inr ⟨rfl, hs rfl⟩)

end Bytes

/-- The form of a character begins with less than that of a later one, whatever comes after. -/
theorem utf8EncodeChar_append_lt {c d : Char} (h : c < d) (xs ys : List UInt8) :
    String.utf8EncodeChar c ++ xs < String.utf8EncodeChar d ++ ys := by
  have lt : c.val.toNat < d.val.toNat := h
  have bound : d.val.toNat < 1114112 := by
    rcases d.valid with h | h <;> omega
  unfold String.utf8EncodeChar
  generalize c.val.toNat = v at lt
  generalize d.val.toNat = w at lt bound
  simp only
  -- the first byte tells how many there are, and is greater for more of them
  by_cases h₁ : v ≤ 127
  · rw [if_pos h₁]
    split
    · exact ofNat_cons_lt (by omega) lt
    split
    · exact ofNat_cons_lt (by omega) (by omega)
    split
    · exact ofNat_cons_lt (by omega) (by omega)
    · exact ofNat_cons_lt (by omega) (by omega)
  rw [if_neg h₁, if_neg (c := w ≤ 127) (by omega)]
  by_cases h₂ : v ≤ 2047
  · rw [if_pos h₂]
    split
    · refine ofNat_cons_lt_or (by omega) (by omega) fun _ => ?_
      exact ofNat_cons_lt (by omega) (by omega)
    split
    · exact ofNat_cons_lt (by omega) (by omega)
    · exact ofNat_cons_lt (by omega) (by omega)
  rw [if_neg h₂, if_neg (c := w ≤ 2047) (by omega)]
  by_cases h₃ : v ≤ 65535
  · rw [if_pos h₃]
    split
    · refine ofNat_cons_lt_or (by omega) (by omega) fun _ => ?_
      refine ofNat_cons_lt_or (by omega) (by omega) fun _ => ?_
      exact ofNat_cons_lt (by omega) (by omega)
    · exact ofNat_cons_lt (by omega) (by omega)
  rw [if_neg h₃, if_neg (c := w ≤ 65535) (by omega)]
  refine ofNat_cons_lt_or (by omega) (by omega) fun _ => ?_
  refine ofNat_cons_lt_or (by omega) (by omega) fun _ => ?_
  refine ofNat_cons_lt_or (by omega) (by omega) fun _ => ?_
  exact ofNat_cons_lt (by omega) (by omega)

theorem flatMap_utf8EncodeChar_lt {cs ds : List Char} (h : cs < ds) :
    cs.flatMap String.utf8EncodeChar < ds.flatMap String.utf8EncodeChar := by
  induction h with
  | @nil d ds =>
    have h : String.utf8EncodeChar d ≠ [] := by simp
    obtain ⟨x, xs, hx⟩ := List.exists_cons_of_ne_nil h
    rw [List.flatMap_cons, hx]
    exact List.nil_lt_cons _ _
  | rel h => exact utf8EncodeChar_append_lt h _ _
  | cons _ ih => exact List.append_left_lt ih

theorem bytes_lt_iff {a b : String} : bytes a < bytes b ↔ a < b := by
  have mono {a b : String} (h : a < b) : bytes a < bytes b := by
    rw [bytes_eq_flatMap, bytes_eq_flatMap]
    exact flatMap_utf8EncodeChar_lt (String.lt_iff_toList_lt.1 h)
  refine ⟨fun h => ?_, mono⟩
  obtain lt | rfl | lt := lt_trichotomy a b
  · exact lt
  · exact absurd h (List.lt_irrefl _)
  · exact absurd h (List.lt_asymm (mono lt))

end AvroSchemata
