set_option autoImplicit false

/-!
Names out of arbitrary text. A character that may not stand in one becomes an underscore, and an
underscore goes in front where the text may not start as it does. A full name is a namespace and a
name; a type path stands for one, and may have type arguments that hold paths of their own.
-/

namespace AvroSchemata

def isNameChar (c : Char) : Bool := c.isAlphanum || c == '_'

def isNameStart (c : Char) : Bool := c.isAlpha || c == '_'

def isNamespaceChar (c : Char) : Bool := isNameChar c || c == '.'

def IsName : List Char → Prop
  | [] => False
  | c :: cs => isNameStart c = true ∧ ∀ d ∈ cs, isNameChar d = true

instance : (cs : List Char) → Decidable (IsName cs)
  | [] => inferInstanceAs (Decidable False)
  -- named, since where characters are known to be finite the search would go over all of them
  | _ :: cs => @instDecidableAnd _ _ _ (List.decidableBAll _ cs)

def IsNamespace (cs : List Char) : Prop :=
  ∃ names : List (List Char), names ≠ [] ∧ (∀ n ∈ names, IsName n) ∧ cs = ['.'].intercalate names

theorem isNameChar_of_isNameStart {c : Char} (h : isNameStart c = true) : isNameChar c = true := by
  simp only [isNameStart, isNameChar, Char.isAlphanum, Bool.or_eq_true] at *
  exact h.imp_left Or.inl

def mask (allowed : Char → Bool) (cs : List Char) : List Char :=
  cs.map fun c => if allowed c then c else '_'

@[simp] theorem mask_nil (allowed : Char → Bool) : mask allowed [] = [] := rfl

@[simp] theorem mask_cons (allowed : Char → Bool) (c : Char) (cs : List Char) :
    mask allowed (c :: cs) = (if allowed c then c else '_') :: mask allowed cs := rfl

theorem mask_eq_self {allowed : Char → Bool} {cs : List Char} (h : ∀ c ∈ cs, allowed c = true) :
    mask allowed cs = cs := by
  induction cs with
  | nil => rfl
  | cons c cs ih => simp_all

theorem allowed_of_mem_mask {allowed : Char → Bool} {c : Char} {cs : List Char}
    (underscore : allowed '_' = true) (h : c ∈ mask allowed cs) : allowed c = true := by
  obtain ⟨d, -, rfl⟩ := List.mem_map.1 h
  split
  · assumption
  · exact underscore

/-- A name in place of the text: no name is empty or starts with a digit. -/
def Identifier.mend (cs : List Char) : List Char :=
  match mask isNameChar cs with
  | [] => ['_']
  | c :: rest => if isNameStart c then c :: rest else '_' :: c :: rest

/-- A namespace in place of the text: it may be empty, and may not start with a digit. -/
def Namespace.mend (cs : List Char) : List Char :=
  match mask isNamespaceChar cs with
  | [] => []
  | c :: rest => if c.isDigit then '_' :: c :: rest else c :: rest

def Identifier.ofText (s : String) : String := String.ofList (Identifier.mend s.toList)

def Namespace.ofText (s : String) : String := String.ofList (Namespace.mend s.toList)

@[simp] theorem Identifier.toList_ofText (s : String) :
    (Identifier.ofText s).toList = Identifier.mend s.toList := String.toList_ofList

@[simp] theorem Namespace.toList_ofText (s : String) :
    (Namespace.ofText s).toList = Namespace.mend s.toList := String.toList_ofList

/-- A name inside a namespace. The empty namespace stands for none. -/
structure FullName where
  space : String
  name : String
  deriving DecidableEq, Repr

def FullName.text (f : FullName) : String :=
  if f.space = "" then f.name else f.space ++ "." ++ f.name

def FullName.space? (f : FullName) : Option String :=
  if f.space = "" then none else some f.space

/-- The full name with this text, if names have no dots: what follows the last dot is the name. -/
def FullName.ofText (s : String) : FullName :=
  let backward := s.toList.reverse
  ⟨String.ofList ((backward.dropWhile (· != '.')).drop 1).reverse,
    String.ofList (backward.takeWhile (· != '.')).reverse⟩

@[simp] theorem FullName.text_bare (name : String) : (FullName.mk "" name).text = name := rfl

theorem FullName.text_of_space {f : FullName} (h : f.space ≠ "") :
    f.text = f.space ++ "." ++ f.name := if_neg h

namespace TypePath

/-- Each "::" becomes a dot, from the left and without overlap. -/
def dotted : List Char → List Char
  | ':' :: ':' :: cs => '.' :: dotted cs
  | c :: cs => c :: dotted cs
  | [] => []

def afterSeparator? : List Char → Option (List Char)
  | ':' :: ':' :: after => some after
  | _ => none

theorem afterSeparator?_eq_some_iff {cs after : List Char} :
    afterSeparator? cs = some after ↔ cs = ':' :: ':' :: after := by
  constructor
  · intro h
    unfold afterSeparator? at h
    split at h
    · rw [Option.some.inj h]
    · simp at h
  · rintro rfl
    rfl

def splitLast : List Char → Option (List Char × List Char)
  | [] => none
  | c :: cs =>
    match splitLast cs with
    | some (before, after) => some (c :: before, after)
    | none => (afterSeparator? (c :: cs)).map fun after => ([], after)

def namespaceOf (path : String) : String :=
  String.ofList (Namespace.mend (dotted path.toList))

def head (path : List Char) : List Char := path.takeWhile (· != '<')

def arguments (path : List Char) : List Char := path.dropWhile (· != '<')

theorem head_append_arguments (path : List Char) : head path ++ arguments path = path :=
  List.takeWhile_append_dropWhile

/-- The full name that stands for a path. Type arguments stay with the name, and only a "::" in
front of them ends the modules. -/
def fullName (path : String) : FullName :=
  match splitLast (head path.toList) with
  | some (modules, name) =>
    ⟨namespaceOf (String.ofList modules),
      Identifier.ofText (String.ofList (name ++ arguments path.toList))⟩
  | none => ⟨"", Identifier.ofText path⟩

end TypePath

end AvroSchemata
