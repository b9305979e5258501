import Mathlib.Data.List.TakeWhile
import AvroSchemata.Proofs.TypePaths
import AvroSchemata.Shape
set_option autoImplicit false

namespace AvroSchemata

namespace FullName

variable {space name : String} {f g : FullName}

theorem ne_dot_of_mem_reverse (bare : '.' ∉ name.toList) :
    ∀ c ∈ name.toList.reverse, (c != '.') = true := by
  intro c hc
  rw [bne_iff_ne]
  rintro rfl
  exact bare (List.mem_reverse.1 hc)

theorem ofText_append (bare : '.' ∉ name.toList) :
    ofText (space ++ "." ++ name) = ⟨space, name⟩ := by
  have before := ne_dot_of_mem_reverse bare
  simp [ofText, List.takeWhile_append_of_pos before, List.dropWhile_append_of_pos before]

theorem ofText_of_not_mem (bare : '.' ∉ name.toList) : ofText name = ⟨"", name⟩ := by
  have all := ne_dot_of_mem_reverse bare
  simp [ofText, List.takeWhile_eq_self_iff.2 all, List.dropWhile_eq_nil_iff.2 all]

theorem dot_not_mem_name_ofText (s : String) : '.' ∉ (ofText s).name.toList := by
  intro h
  rw [ofText, String.toList_ofList, List.mem_reverse] at h
  exact absurd (List.mem_takeWhile_imp h) (by decide)

theorem ofText_text_iff : ofText f.text = f ↔ '.' ∉ f.name.toList := by
  constructor
  · intro h
    rw [← h]
    exact dot_not_mem_name_ofText f.text
  · intro bare
    obtain ⟨space, name⟩ := f
    by_cases none : space = ""
    · subst none
      exact ofText_of_not_mem bare
    · rw [text_of_space none]
      exact ofText_append bare

theorem text_inj (hf : '.' ∉ f.name.toList) (hg : '.' ∉ g.name.toList) :
    f.text = g.text ↔ f = g := by
  refine ⟨fun h => ?_, congrArg text⟩
  calc f = ofText f.text := (ofText_text_iff.2 hf).symm
    _ = ofText g.text := by rw [h]
    _ = g := ofText_text_iff.2 hg

-- names with dots may share a text
example : (FullName.mk "a.b" "c").text = (FullName.mk "a" "b.c").text := by decide

end FullName

theorem Identifier.dot_not_mem_ofText (s : String) : '.' ∉ (Identifier.ofText s).toList := by
  rw [Identifier.toList_ofText]
  exact (Identifier.isName_mend s.toList).not_mem rfl

theorem TypePath.dot_not_mem_name_fullName (path : String) :
    '.' ∉ (TypePath.fullName path).name.toList := by
  unfold TypePath.fullName
  split <;> exact Identifier.dot_not_mem_ofText _

section Shapes

variable {τ σ : Type} {path path' : String} {s : Shape τ} {t : Shape σ}

/-- What is built for a type path: a record or an enumeration of the full name that the path stands
for, and any members after that. -/
inductive Shape.BuiltFor (path : String) : Shape τ → Prop
  | record : BuiltFor path (.record (TypePath.fullName path))
  | enumeration (symbols : List String) :
    BuiltFor path (.enumeration (TypePath.fullName path) symbols)
  | withMember {s : Shape τ} (name : String) (type : τ) :
    BuiltFor path s → BuiltFor path (s.withMember name type)

theorem Shape.BuiltFor.resolved_eq (h : s.BuiltFor path) : s.resolved = TypePath.fullName path := by
  induction h with
  | record => rfl
  | enumeration symbols => rfl
  | withMember name type _ ih => rw [resolved_withMember, ih]

theorem Shape.BuiltFor.fullName_eq_iff (hs : s.BuiltFor path) (ht : t.BuiltFor path') :
    s.fullName = t.fullName ↔ TypePath.fullName path = TypePath.fullName path' := by
  rw [fullName, fullName, hs.resolved_eq, ht.resolved_eq]
  exact FullName.text_inj (TypePath.dot_not_mem_name_fullName path)
    (TypePath.dot_not_mem_name_fullName path')

end Shapes

/-- A text is split at its last dot, and has no namespace if it has no dot. Full names whose names
have no dots, and no others, are read back from their texts, so that no two of them share a text.
Names made for texts have no dots. So types that are built for two paths share a full name if and
only if the paths stand for the same namespace and the same name. -/
theorem FullName.text_identifies :
    (∀ space name : String, '.' ∉ name.toList →
      ofText (space ++ "." ++ name) = ⟨space, name⟩ ∧ ofText name = ⟨"", name⟩) ∧
    (∀ f : FullName, ofText f.text = f ↔ '.' ∉ f.name.toList) ∧
    (∀ f g : FullName, '.' ∉ f.name.toList → '.' ∉ g.name.toList → (f.text = g.text ↔ f = g)) ∧
    (∀ s : String, '.' ∉ (Identifier.ofText s).toList) ∧
    ∀ (τ σ : Type) (path path' : String) (s : Shape τ) (t : Shape σ),
      s.BuiltFor path → t.BuiltFor path' →
      (s.fullName = t.fullName ↔ TypePath.fullName path = TypePath.fullName path') :=
  ⟨fun _ _ bare => ⟨ofText_append bare, ofText_of_not_mem bare⟩, fun _ => ofText_text_iff,
    fun _ _ => text_inj, Identifier.dot_not_mem_ofText,
    fun _ _ _ _ _ _ hs ht => hs.fullName_eq_iff ht⟩

theorem FullName.text_identifies_pair :
    ('.' ∉ "Point".toList ∧ ofText (".geo." ++ "." ++ "Point") = ⟨".geo.", "Point"⟩ ∧
      ofText "Point" = ⟨"", "Point"⟩) ∧
    ('.' ∉ "".toList ∧ '.' ∉ "geo".toList ∧
      ((FullName.mk "geo" "").text = (FullName.mk "" "geo").text ↔
        FullName.mk "geo" "" = FullName.mk "" "geo")) ∧
    Shape.BuiltFor "app::Pair<a::B>" ((Shape.record ⟨"app", "Pair_a__B_"⟩).withMember "left" ()) ∧
    Shape.BuiltFor "app::Pair_a__B_"
      (Shape.enumeration ⟨"app", "Pair_a__B_"⟩ ["Left"] : Shape Unit) ∧
    (((Shape.record ⟨"app", "Pair_a__B_"⟩).withMember "left" ()).fullName =
        (Shape.enumeration ⟨"app", "Pair_a__B_"⟩ ["Left"] : Shape Unit).fullName ↔
      TypePath.fullName "app::Pair<a::B>" = TypePath.fullName "app::Pair_a__B_") := by
  obtain ⟨split, -, distinct, -, built⟩ := text_identifies
  have generic : TypePath.fullName "app::Pair<a::B>" = ⟨"app", "Pair_a__B_"⟩ := by decide
  have plain : TypePath.fullName "app::Pair_a__B_" = ⟨"app", "Pair_a__B_"⟩ := by decide
  have pair : Shape.BuiltFor "app::Pair<a::B>"
      ((Shape.record ⟨"app", "Pair_a__B_"⟩).withMember "left" ()) :=
    generic ▸ .withMember "left" () .record
  have sides : Shape.BuiltFor "app::Pair_a__B_"
      (Shape.enumeration ⟨"app", "Pair_a__B_"⟩ ["Left"] : Shape Unit) :=
    plain ▸ .enumeration ["Left"]
  exact ⟨⟨by decide, split ".geo." "Point" (by decide)⟩,
    ⟨by decide, by decide, distinct _ _ (by decide) (by decide)⟩,
    pair, sides, built _ _ _ _ _ _ pair sides⟩

end AvroSchemata
