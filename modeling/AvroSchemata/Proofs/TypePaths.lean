import AvroSchemata.Proofs.Mending
set_option autoImplicit false

namespace AvroSchemata

theorem mem_intercalate {α : Type} {sep : List α} {xs : List (List α)} {a : α}
    (h : a ∈ sep.intercalate xs) : a ∈ sep ∨ ∃ x ∈ xs, a ∈ x := by
  induction xs with
  | nil => simp at h
  | cons x xs ih =>
    cases xs with
    | nil => exact .inr ⟨x, List.mem_singleton_self x, by simpa using h⟩
    | cons y ys =>
      rw [List.intercalate_cons_cons, List.mem_append, List.mem_append] at h
      obtain (here | between) | later := h
      · exact .inr ⟨x, List.mem_cons_self, here⟩
      · exact .inl between
      · exact (ih later).imp_right fun ⟨z, hz, ha⟩ => ⟨z, List.mem_cons_of_mem x hz, ha⟩

theorem Namespace.isMended_intercalate {names : List (List Char)} (all : ∀ n ∈ names, IsName n) :
    IsMended (['.'].intercalate names) := by
  constructor
  · intro c hc
    obtain dot | ⟨n, hn, hc⟩ := mem_intercalate hc
    · rw [List.mem_singleton.1 dot]
      rfl
    · exact isNamespaceChar_of_isNameChar ((all n hn).chars c hc)
  · match names, all with
    | [], _ => exact nofun
    | [] :: _, all => exact (all [] List.mem_cons_self).elim
    | (c :: cs) :: rest, all =>
      have start : isNameStart c = true := (all (c :: cs) List.mem_cons_self).1
      rw [List.intercalate_cons_cons_left]
      rintro _ ⟨⟩
      exact isDigit_eq_false_of_isNameStart start

namespace TypePath

section Separators

variable {c : Char} {cs ds before after : List Char}

theorem afterSeparator?_eq_none_iff : afterSeparator? cs = none ↔ ¬ [':', ':'] <+: cs := by
  rw [Option.eq_none_iff_forall_ne_some]
  constructor
  · rintro none ⟨after, h⟩
    exact none after (afterSeparator?_eq_some_iff.2 h.symm)
  · intro none after h
    exact none ⟨after, (afterSeparator?_eq_some_iff.1 h).symm⟩

theorem splitLast_eq_none_iff : splitLast cs = none ↔ ¬ [':', ':'] <:+: cs := by
  induction cs with
  | nil => simp [splitLast]
  | cons c cs ih =>
    rw [splitLast, List.infix_cons_iff, not_or]
    by_cases later : [':', ':'] <:+: cs
    · obtain ⟨p, rest⟩ := Option.ne_none_iff_exists'.1 (mt ih.1 (not_not_intro later))
      simp [rest, later]
    · rw [ih.2 later, Option.map_eq_none_iff, afterSeparator?_eq_none_iff, and_iff_left later]

/-- The last "::" is one that no other follows, not even from its second colon on. -/
theorem splitLast_append (last : ¬ [':', ':'] <:+: ':' :: after) :
    splitLast (before ++ ':' :: ':' :: after) = some (before, after) := by
  induction before with
  | nil =>
    rw [List.nil_append, splitLast, splitLast_eq_none_iff.2 last]
    rfl
  | cons c before ih => rw [List.cons_append, splitLast, ih]

theorem not_infix_cons_of_not_mem (h : ':' ∉ cs) : ¬ [':', ':'] <:+: ':' :: cs := by
  rw [List.infix_cons_iff, List.cons_prefix_cons]
  rintro (⟨-, first⟩ | later)
  · exact h (first.subset List.mem_cons_self)
  · exact h (later.subset List.mem_cons_self)

theorem dotted_cons_of_ne (h : c ≠ ':') : dotted (c :: cs) = c :: dotted cs := by
  rw [dotted]
  rintro _ rfl
  exact absurd rfl h

theorem dotted_append (h : ':' ∉ cs) : dotted (cs ++ ds) = cs ++ dotted ds := by
  induction cs with
  | nil => rfl
  | cons c cs ih =>
    obtain ⟨first, rest⟩ := not_or.1 (mt List.mem_cons.2 h)
    rw [List.cons_append, dotted_cons_of_ne (Ne.symm first), ih rest, List.cons_append]

theorem dotted_intercalate {names : List (List Char)} (all : ∀ n ∈ names, ':' ∉ n) :
    dotted ([':', ':'].intercalate names) = ['.'].intercalate names := by
  induction names with
  | nil => rfl
  | cons n names ih =>
    obtain ⟨first, rest⟩ := List.forall_mem_cons.1 all
    cases names with
    | nil =>
      have alone : dotted (n ++ []) = n ++ dotted [] := dotted_append first
      simpa [dotted] using alone
    | cons m names =>
      rw [List.intercalate_cons_cons, List.append_assoc, dotted_append first]
      simp [dotted, ih rest]

end Separators

section Arguments

variable {cs ds : List Char}

theorem head_append (h : '<' ∉ cs) : head (cs ++ ds) = cs ++ head ds :=
  List.takeWhile_append_of_pos fun a ha => by simpa using fun e : a = '<' => h (e ▸ ha)

theorem arguments_append (h : '<' ∉ cs) : arguments (cs ++ ds) = arguments ds :=
  List.dropWhile_append_of_pos fun a ha => by simpa using fun e : a = '<' => h (e ▸ ha)

theorem space_fullName_congr {path path' : String}
    (h : head path.toList = head path'.toList) :
    (fullName path).space = (fullName path').space := by
  unfold fullName
  rw [h]
  cases splitLast (head path'.toList) <;> rfl

end Arguments

section Full

variable {modules name path : String}

theorem fullName_append (modules_bare : '<' ∉ modules.toList) (last : ':' ∉ head name.toList) :
    fullName (modules ++ "::" ++ name) = ⟨namespaceOf modules, Identifier.ofText name⟩ := by
  have text : (modules ++ "::" ++ name).toList = modules.toList ++ ':' :: ':' :: name.toList := by
    simp [String.toList_append]
  have colons : head (':' :: ':' :: name.toList) = ':' :: ':' :: head name.toList := rfl
  have rest : arguments (':' :: ':' :: name.toList) = arguments name.toList := rfl
  have split : splitLast (modules.toList ++ ':' :: ':' :: head name.toList) =
      some (modules.toList, head name.toList) := splitLast_append (not_infix_cons_of_not_mem last)
  simp only [fullName, text, head_append modules_bare, arguments_append modules_bare, colons, rest,
    split, head_append_arguments, String.ofList_toList]

theorem fullName_of_not_infix (h : ¬ [':', ':'] <:+: head path.toList) :
    fullName path = ⟨"", Identifier.ofText path⟩ := by
  simp only [fullName, splitLast_eq_none_iff.2 h]

theorem namespaceOf_intercalate {names : List String} (all : ∀ m ∈ names, IsName m.toList) :
    namespaceOf ("::".intercalate names) = ".".intercalate names := by
  have plain : ∀ n ∈ names.map String.toList, IsName n := List.forall_mem_map.2 all
  rw [← String.toList_inj, namespaceOf, String.toList_ofList, String.toList_intercalate,
    String.toList_intercalate]
  exact (congrArg Namespace.mend (dotted_intercalate fun n hn => (plain n hn).not_mem rfl)).trans
    (Namespace.mend_eq_self_iff.2 (Namespace.isMended_intercalate plain))

theorem intercalate_ne_empty {names : List String} (some : names ≠ [])
    (all : ∀ m ∈ names, IsName m.toList) : ".".intercalate names ≠ "" := by
  obtain ⟨first, rest, rfl⟩ := List.exists_cons_of_ne_nil some
  have start : first.toList ≠ [] := by
    intro h
    have name := all first List.mem_cons_self
    rw [h] at name
    exact name
  rw [Ne, ← String.toList_eq_nil_iff, String.toList_intercalate, List.map_cons]
  cases chars : first.toList with
  | nil => exact absurd chars start
  | cons c cs => simp [List.intercalate_cons_cons_left]

theorem fullName_intercalate {names : List String} (all : ∀ m ∈ names, IsName m.toList)
    (last : IsName name.toList) :
    fullName ("::".intercalate (names ++ [name])) = ⟨".".intercalate names, name⟩ := by
  have same : Identifier.ofText name = name := by
    rw [← String.toList_inj, Identifier.toList_ofText, Identifier.mend_eq_self_iff.2 last]
  have no_colon : ':' ∉ head name.toList := fun h =>
    last.not_mem rfl ((List.takeWhile_sublist _).subset h)
  cases names with
  | nil =>
    rw [List.nil_append, String.intercalate_singleton, fullName_of_not_infix, same]
    · rfl
    · exact fun h => no_colon (h.subset List.mem_cons_self)
  | cons first rest =>
    have bare : '<' ∉ ("::".intercalate (first :: rest)).toList := by
      rw [String.toList_intercalate]
      intro h
      obtain between | ⟨n, hn, h⟩ := mem_intercalate h
      · exact absurd between (by decide)
      · obtain ⟨m, hm, rfl⟩ := List.mem_map.1 hn
        exact (all m hm).not_mem rfl h
    rw [String.intercalate_append_of_ne_nil (List.cons_ne_nil _ _) (List.cons_ne_nil _ _),
      String.intercalate_singleton, fullName_append bare no_colon, namespaceOf_intercalate all, same]

theorem text_fullName_intercalate {names : List String} (all : ∀ m ∈ names, IsName m.toList)
    (last : IsName name.toList) :
    (fullName ("::".intercalate (names ++ [name]))).text =
      String.ofList (dotted ("::".intercalate (names ++ [name])).toList) := by
  have dots : String.ofList (dotted ("::".intercalate (names ++ [name])).toList) =
      ".".intercalate (names ++ [name]) := by
    rw [← String.toList_inj, String.toList_ofList, String.toList_intercalate,
      String.toList_intercalate]
    refine dotted_intercalate fun n hn => ?_
    obtain ⟨m, hm, rfl⟩ := List.mem_map.1 hn
    obtain hm | hm := List.mem_append.1 hm
    · exact (all m hm).not_mem rfl
    · rw [List.mem_singleton.1 hm]
      exact last.not_mem rfl
  rw [dots, fullName_intercalate all last]
  cases names with
  | nil => rw [List.nil_append, String.intercalate_singleton, String.intercalate_nil,
      FullName.text_bare]
  | cons first rest =>
    rw [FullName.text_of_space (intercalate_ne_empty (List.cons_ne_nil _ _) all),
      String.intercalate_append_of_ne_nil (List.cons_ne_nil _ _) (List.cons_ne_nil _ _),
      String.intercalate_singleton]

end Full

/-- A path is split at the last "::" in front of its type arguments: what stands before becomes the
namespace, and the name takes all the rest. Without such a "::" there is no namespace. So type
arguments have no part in namespaces, and a path of names has the full name that is written with
dots for its separators. -/
theorem fullName_eq_split :
    (∀ modules name : String, '<' ∉ modules.toList → ':' ∉ head name.toList →
      fullName (modules ++ "::" ++ name) = ⟨namespaceOf modules, Identifier.ofText name⟩) ∧
    (∀ path : String, ¬ "::".toList <:+: head path.toList →
      fullName path = ⟨"", Identifier.ofText path⟩) ∧
    (∀ path arguments : String, '<' ∉ path.toList →
      (fullName (path ++ "<" ++ arguments)).space = (fullName path).space) ∧
    ∀ (modules : List String) (name : String), (∀ m ∈ modules, IsName m.toList) →
      IsName name.toList →
      fullName ("::".intercalate (modules ++ [name])) = ⟨".".intercalate modules, name⟩ ∧
      (fullName ("::".intercalate (modules ++ [name]))).text =
        String.ofList (dotted ("::".intercalate (modules ++ [name])).toList) := by
  refine ⟨fun modules name => fullName_append, fun path => fullName_of_not_infix,
    fun path arguments bare => space_fullName_congr ?_, fun modules name all last =>
      ⟨fullName_intercalate all last, text_fullName_intercalate all last⟩⟩
  have stop : head ("<".toList ++ arguments.toList) = head [] := rfl
  rw [String.toList_append, String.toList_append, List.append_assoc, head_append bare, stop,
    ← head_append bare, List.append_nil]

theorem fullName_eq_split_pair :
    ('<' ∉ "app:::".toList ∧ ':' ∉ head "Pair<a::B, <c::D>>".toList ∧
      fullName ("app:::" ++ "::" ++ "Pair<a::B, <c::D>>") =
        ⟨namespaceOf "app:::", Identifier.ofText "Pair<a::B, <c::D>>"⟩) ∧
    (¬ "::".toList <:+: head ":<a::B>".toList ∧
      fullName ":<a::B>" = ⟨"", Identifier.ofText ":<a::B>"⟩) ∧
    ('<' ∉ "app::Pair".toList ∧
      (fullName ("app::Pair" ++ "<" ++ "a::B>")).space = (fullName "app::Pair").space) ∧
    (∀ m ∈ ["my_crate", "geo"], IsName m.toList) ∧ IsName "Point".toList ∧
    fullName ("::".intercalate (["my_crate", "geo"] ++ ["Point"])) =
      ⟨".".intercalate ["my_crate", "geo"], "Point"⟩ ∧
    (fullName ("::".intercalate (["my_crate", "geo"] ++ ["Point"]))).text =
      String.ofList (dotted ("::".intercalate (["my_crate", "geo"] ++ ["Point"])).toList) := by
  obtain ⟨split, whole, hidden, names⟩ := fullName_eq_split
  have modules : ∀ m ∈ ["my_crate", "geo"], IsName m.toList := by decide
  have name : IsName "Point".toList := by decide
  have colon : ¬ "::".toList <:+: head ":<a::B>".toList := by
    have alone : head ":<a::B>".toList = [':'] := rfl
    rw [alone]
    decide
  exact ⟨⟨by decide, by decide, split _ _ (by decide) (by decide)⟩,
    ⟨colon, whole _ colon⟩, ⟨by decide, hidden _ _ (by decide)⟩, modules, name,
    names _ _ modules name⟩

end TypePath

end AvroSchemata
