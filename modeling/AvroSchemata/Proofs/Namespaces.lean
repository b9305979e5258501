import AvroSchemata.TypePath
set_option autoImplicit false

namespace AvroSchemata

section Names

variable {c : Char} {cs part : List Char}

theorem le_toNat_of_isNameStart (h : isNameStart c = true) : 'A'.toNat ≤ c.toNat := by
  obtain alpha | underscore := Bool.or_eq_true_iff.1 h
  · obtain upper | lower := Bool.or_eq_true_iff.1 alpha
    · exact UInt32.le_iff_toNat_le.1 (of_decide_eq_true upper).1
    · have small := UInt32.le_iff_toNat_le.1 (of_decide_eq_true (Bool.and_eq_true_iff.1 lower).1)
      exact Nat.le_trans (by decide) small
  · rw [beq_iff_eq.1 underscore]
    decide

theorem isDigit_eq_false_of_isNameStart (h : isNameStart c = true) : c.isDigit = false := by
  rw [← Bool.not_eq_true, Char.isDigit_iff_toNat]
  rintro ⟨-, below⟩
  exact absurd (Nat.le_trans (le_toNat_of_isNameStart h) below) (by decide)

theorem isNameStart_ite_iff :
    isNameStart (if isNameChar c then c else '_') = true ↔ c.isDigit = false := by
  constructor
  · intro h
    split at h
    · exact isDigit_eq_false_of_isNameStart h
    · next other =>
      simp only [isNameChar, Char.isAlphanum, Bool.or_eq_true, not_or, Bool.not_eq_true] at other
      exact other.1.2
  · intro digit
    split
    · next name => simpa [isNameChar, isNameStart, Char.isAlphanum, digit] using name
    · rfl

theorem isNameChar_of_mem_mask (h : c ∈ mask isNameChar cs) : isNameChar c = true :=
  allowed_of_mem_mask rfl h

theorem isName_mask_iff :
    IsName (mask isNameChar part) ↔ part ≠ [] ∧ ∀ c ∈ part.head?, c.isDigit = false := by
  cases part with
  | nil => simp [IsName]
  | cons c cs =>
    have chars : ∀ d ∈ mask isNameChar cs, isNameChar d = true := fun _ => isNameChar_of_mem_mask
    rw [mask_cons, IsName, isNameStart_ite_iff, and_iff_left chars]
    simp

theorem forall_isName_map_mask_iff {parts : List (List Char)} :
    (∀ p ∈ parts.map (mask isNameChar), IsName p) ↔
      ∀ p ∈ parts, p ≠ [] ∧ ∀ c ∈ p.head?, c.isDigit = false := by
  rw [List.forall_mem_map]
  exact forall₂_congr fun _ _ => isName_mask_iff

theorem IsName.chars (h : IsName cs) : ∀ c ∈ cs, isNameChar c = true := by
  cases cs with
  | nil => exact h.elim
  | cons c cs => exact List.forall_mem_cons.2 ⟨isNameChar_of_isNameStart h.1, h.2⟩

theorem IsName.not_mem (h : IsName cs) (other : isNameChar c = false) : c ∉ cs := fun hm =>
  absurd (h.chars c hm) (Bool.eq_false_iff.1 other)

theorem isNamespace_iff : IsNamespace cs ↔ ∀ part ∈ cs.splitOn '.', IsName part := by
  constructor
  · rintro ⟨names, some, all, rfl⟩
    rwa [List.splitOn_intercalate '.' (fun n hn => (all n hn).not_mem rfl) some]
  · intro all
    exact ⟨cs.splitOn '.', List.splitOn_ne_nil '.' cs, all, (List.intercalate_splitOn '.').symm⟩

instance (cs : List Char) : Decidable (IsNamespace cs) := decidable_of_iff _ isNamespace_iff.symm

theorem splitOn_mask (cs : List Char) :
    (mask isNamespaceChar cs).splitOn '.' = (cs.splitOn '.').map (mask isNameChar) := by
  induction cs with
  | nil => simp
  | cons c cs ih =>
    obtain ⟨part, parts, hp⟩ := List.exists_cons_of_ne_nil (List.splitOn_ne_nil '.' cs)
    rw [hp] at ih
    by_cases dot : c = '.'
    · subst dot
      simp [List.splitOn_cons_eq_if_modifyHead, ih, hp, isNamespaceChar]
    · have same : (if isNamespaceChar c then c else '_') = if isNameChar c then c else '_' := by
        simp [isNamespaceChar, dot]
      have away : (if isNameChar c then c else '_') ≠ '.' := by
        split
        · exact dot
        · decide
      simp [List.splitOn_cons_eq_if_modifyHead, ih, hp, dot, same, away]

theorem head?_of_splitOn_eq_cons {parts : List (List Char)}
    (h : (c :: cs).splitOn '.' = part :: parts) :
    part.head? = if c = '.' then none else some c := by
  obtain ⟨q, qs, hq⟩ := List.exists_cons_of_ne_nil (List.splitOn_ne_nil '.' cs)
  rw [List.splitOn_cons_eq_if_modifyHead, hq] at h
  by_cases dot : c = '.'
  · simp only [dot, beq_self_eq_true, if_true, List.cons.injEq] at h
    rw [if_pos dot, ← h.1]
    rfl
  · simp only [beq_iff_eq, dot, if_false, List.modifyHead_cons, List.cons.injEq] at h
    rw [if_neg dot, ← h.1]
    rfl

end Names

namespace Namespace

/-- Parts between dots that make a namespace. The first may start with a digit, as an underscore goes
in front of that. -/
structure HasNames (cs : List Char) : Prop where
  nonempty : ∀ part ∈ cs.splitOn '.', part ≠ []
  undigited : ∀ part ∈ (cs.splitOn '.').tail, ∀ c ∈ part.head?, c.isDigit = false

theorem hasNames_iff {cs part : List Char} {parts : List (List Char)}
    (h : cs.splitOn '.' = part :: parts) : HasNames cs ↔
      part ≠ [] ∧ ∀ p ∈ parts, p ≠ [] ∧ ∀ c ∈ p.head?, c.isDigit = false := by
  constructor
  · rintro ⟨nonempty, undigited⟩
    rw [h] at nonempty undigited
    obtain ⟨first, rest⟩ := List.forall_mem_cons.1 nonempty
    exact ⟨first, fun p hp => ⟨rest p hp, undigited p hp⟩⟩
  · rintro ⟨first, rest⟩
    refine ⟨?_, ?_⟩
    · rw [h]
      exact List.forall_mem_cons.2 ⟨first, fun p hp => (rest p hp).1⟩
    · rw [h]
      exact fun p hp => (rest p hp).2

theorem isNamespace_underscore_mask_iff {cs part : List Char} {parts : List (List Char)}
    (h : cs.splitOn '.' = part :: parts) : IsNamespace ('_' :: mask isNamespaceChar cs) ↔
      ∀ p ∈ parts, p ≠ [] ∧ ∀ c ∈ p.head?, c.isDigit = false := by
  have name : IsName ('_' :: mask isNameChar part) := ⟨rfl, fun _ => isNameChar_of_mem_mask⟩
  have masked := splitOn_mask cs
  rw [h, List.map_cons] at masked
  rw [isNamespace_iff, List.splitOn_cons_eq_if_modifyHead, masked]
  simp only [show ('_' == '.') = false from rfl, Bool.false_eq_true, if_false,
    List.modifyHead_cons]
  rw [List.forall_mem_cons, forall_isName_map_mask_iff, and_iff_right name]

theorem mend_cons (c : Char) (cs : List Char) :
    mend (c :: cs) = if c.isDigit then '_' :: mask isNamespaceChar (c :: cs)
      else mask isNamespaceChar (c :: cs) := by
  have digit : (if isNamespaceChar c then c else '_').isDigit = c.isDigit := by
    by_cases hc : isNamespaceChar c = true
    · rw [if_pos hc]
    · have other := hc
      simp only [isNamespaceChar, isNameChar, Char.isAlphanum, Bool.or_eq_true, not_or,
        Bool.not_eq_true] at other
      rw [if_neg hc, other.1.1.2]
      rfl
  rw [mend, mask_cons]
  simp only [digit]

theorem mend_eq_nil_iff {cs : List Char} : mend cs = [] ↔ cs = [] := by
  cases cs with
  | nil => simp [mend]
  | cons c cs =>
    rw [mend_cons]
    split <;> simp

/-- What comes out is a namespace if and only if no part between dots is empty and none after the
first starts with a digit. -/
theorem isNamespace_mend_iff (cs : List Char) : IsNamespace (mend cs) ↔ HasNames cs := by
  cases cs with
  | nil => simp [isNamespace_iff, mend, IsName, hasNames_iff (List.splitOn_nil '.')]
  | cons c cs =>
    obtain ⟨part, parts, hp⟩ := List.exists_cons_of_ne_nil (List.splitOn_ne_nil '.' (c :: cs))
    have first := head?_of_splitOn_eq_cons hp
    rw [mend_cons, hasNames_iff hp]
    by_cases digit : c.isDigit = true
    · have dot : c ≠ '.' := by
        rintro rfl
        exact absurd digit (by decide)
      have some : part ≠ [] := by
        rintro rfl
        simp [dot] at first
      rw [if_pos digit, isNamespace_underscore_mask_iff hp, and_iff_right some]
    · have undigited : ∀ d ∈ part.head?, d.isDigit = false := by
        intro d hd
        rw [first] at hd
        split at hd
        · cases hd
        · cases hd
          exact Bool.eq_false_iff.2 digit
      rw [if_neg digit, isNamespace_iff, splitOn_mask, hp, List.map_cons, List.forall_mem_cons,
        isName_mask_iff, forall_isName_map_mask_iff, and_iff_left undigited]

end Namespace

theorem TypePath.dotted_eq_nil_iff {cs : List Char} : dotted cs = [] ↔ cs = [] := by
  unfold dotted
  split <;> simp

namespace Namespace

/-- The namespace for a text, or for one read as a path of modules with its separators as dots, is
empty or one indeed if and only if the text is empty or its parts between dots make names. -/
theorem valid_iff_hasNames (s : String) :
    (ofText s = "" ∨ IsNamespace (ofText s).toList ↔ s = "" ∨ HasNames s.toList) ∧
    (TypePath.namespaceOf s = "" ∨ IsNamespace (TypePath.namespaceOf s).toList ↔
      s = "" ∨ HasNames (TypePath.dotted s.toList)) := by
  constructor
  · rw [toList_ofText, isNamespace_mend_iff, ← String.toList_eq_nil_iff, toList_ofText,
      mend_eq_nil_iff, String.toList_eq_nil_iff]
  · rw [← String.toList_eq_nil_iff, TypePath.namespaceOf, String.toList_ofList,
      isNamespace_mend_iff, mend_eq_nil_iff, TypePath.dotted_eq_nil_iff, String.toList_eq_nil_iff]

theorem ofText_not_valid :
    ofText "com.1st" = "com.1st" ∧ ¬ IsNamespace (ofText "com.1st").toList ∧
    ofText ".." = ".." ∧ ¬ IsNamespace (ofText "..").toList ∧
    TypePath.namespaceOf "com::1st" = "com.1st" ∧
    ¬ IsNamespace (TypePath.namespaceOf "com::1st").toList := by
  decide

end Namespace

end AvroSchemata
