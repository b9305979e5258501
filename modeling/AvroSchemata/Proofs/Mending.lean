import AvroSchemata.Proofs.Namespaces
set_option autoImplicit false

namespace AvroSchemata

section Mask

variable {allowed among : Char → Bool} {cs : List Char}

/-- What a wider class of characters has left is masked as the text itself. -/
theorem mask_mask_of_imp (wider : ∀ c, allowed c = true → among c = true) :
    mask allowed (mask among cs) = mask allowed cs := by
  induction cs with
  | nil => rfl
  | cons c cs ih =>
    by_cases hc : allowed c = true
    · simp [ih, hc, wider c hc]
    · by_cases ha : among c = true <;> simp [ih, hc, ha]

theorem isNamespaceChar_of_isNameChar {c : Char} (h : isNameChar c = true) :
    isNamespaceChar c = true := by
  simp [isNamespaceChar, h]

theorem isName_underscore_mask (cs : List Char) : IsName ('_' :: mask isNameChar cs) :=
  ⟨rfl, fun _ => isNameChar_of_mem_mask⟩

end Mask

namespace Identifier

variable {cs ds : List Char}

theorem mend_eq_ite (cs : List Char) :
    mend cs = if IsName (mask isNameChar cs) then mask isNameChar cs
      else '_' :: mask isNameChar cs := by
  cases cs with
  | nil => rfl
  | cons c cs =>
    have chars : ∀ d ∈ mask isNameChar cs, isNameChar d = true := fun _ => isNameChar_of_mem_mask
    simp only [mend, mask_cons, IsName, and_iff_left chars]

theorem mend_congr (h : mask isNameChar cs = mask isNameChar ds) : mend cs = mend ds := by
  rw [mend_eq_ite, mend_eq_ite, h]

theorem isName_mend (cs : List Char) : IsName (mend cs) := by
  rw [mend_eq_ite]
  split
  · assumption
  · exact isName_underscore_mask cs

theorem mend_eq_self_iff : mend cs = cs ↔ IsName cs := by
  refine ⟨fun h => h ▸ isName_mend cs, fun h => ?_⟩
  have same : mask isNameChar cs = cs := mask_eq_self h.chars
  rw [mend_eq_ite, same, if_pos h]

end Identifier

namespace Namespace

variable {cs : List Char}

/-- Text with nothing to mend: only characters of namespaces, and no digit in front. -/
structure IsMended (cs : List Char) : Prop where
  chars : ∀ c ∈ cs, isNamespaceChar c = true
  undigited : ∀ c ∈ cs.head?, c.isDigit = false

theorem isMended_mend (cs : List Char) : IsMended (mend cs) := by
  have chars : ∀ c ∈ mask isNamespaceChar cs, isNamespaceChar c = true := fun _ =>
    allowed_of_mem_mask rfl
  cases cs with
  | nil => exact ⟨nofun, nofun⟩
  | cons c cs =>
    rw [mend_cons]
    by_cases digit : c.isDigit = true
    · rw [if_pos digit]
      exact ⟨List.forall_mem_cons.2 ⟨rfl, chars⟩, by rintro _ ⟨⟩; rfl⟩
    · rw [if_neg digit]
      refine ⟨chars, ?_⟩
      simp only [mask_cons, List.head?_cons, Option.mem_def, Option.some.injEq, forall_eq']
      split
      · exact Bool.eq_false_iff.2 digit
      · rfl

theorem mend_eq_self_iff : mend cs = cs ↔ IsMended cs := by
  refine ⟨fun h => h ▸ isMended_mend cs, fun h => ?_⟩
  cases cs with
  | nil => rfl
  | cons c cs =>
    have digit : c.isDigit = false := h.undigited c rfl
    rw [mend_cons, digit, mask_eq_self h.chars]
    rfl

end Namespace

theorem Identifier.mend_mend_namespace (cs : List Char) : mend (Namespace.mend cs) = mend cs := by
  have again (cs : List Char) :
      mask isNameChar (mask isNamespaceChar cs) = mask isNameChar cs :=
    mask_mask_of_imp fun _ => isNamespaceChar_of_isNameChar
  cases cs with
  | nil => rfl
  | cons c cs =>
    rw [Namespace.mend_cons]
    by_cases digit : c.isDigit = true
    · -- the underscore that the digit needs is there already, and is the one that a name gets
      have other : ¬ IsName (mask isNameChar (c :: cs)) := by
        rw [isName_mask_iff]
        simp [digit]
      have front : mask isNameChar ('_' :: mask isNamespaceChar (c :: cs)) =
          '_' :: mask isNameChar (c :: cs) := by
        rw [mask_cons, again]
        rfl
      rw [if_pos digit, mend_eq_ite, front, if_pos (isName_underscore_mask _), mend_eq_ite,
        if_neg other]
    · rw [if_neg digit]
      exact mend_congr (again (c :: cs))

/-- Any text becomes a name, and names stay as they are. What becomes of it as a namespace has no
other characters than namespaces have and no digit in front, and such text stays as it is. So
mending a second time changes nothing, and neither does mending as a namespace before as a name. -/
theorem ofText_retracts (s : String) :
    IsName (Identifier.ofText s).toList ∧ (Identifier.ofText s = s ↔ IsName s.toList) ∧
    Namespace.IsMended (Namespace.ofText s).toList ∧
    (Namespace.ofText s = s ↔ Namespace.IsMended s.toList) ∧
    Identifier.ofText (Identifier.ofText s) = Identifier.ofText s ∧
    Namespace.ofText (Namespace.ofText s) = Namespace.ofText s ∧
    Identifier.ofText (Namespace.ofText s) = Identifier.ofText s := by
  simp only [← String.toList_inj, Identifier.toList_ofText, Namespace.toList_ofText]
  refine ⟨Identifier.isName_mend _, Identifier.mend_eq_self_iff, Namespace.isMended_mend _,
    Namespace.mend_eq_self_iff, ?_, ?_, Identifier.mend_mend_namespace _⟩
  · exact Identifier.mend_eq_self_iff.2 (Identifier.isName_mend _)
  · exact Namespace.mend_eq_self_iff.2 (Namespace.isMended_mend _)

end AvroSchemata
