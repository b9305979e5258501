set_option autoImplicit false

namespace AvroSchemata

/-- The values that schemas are made of. The only numbers among them are natural. -/
inductive Json where
  | null
  | num (n : Nat)
  | str (s : String)
  | arr (items : List Json)
  | obj (members : List (String × Json))
  deriving Repr

namespace Json

def hexDigit (n : Nat) : Char := Nat.digitChar n

def escape (c : Char) : List Char :=
  match c with
  | '"' => ['\\', '"']
  | '\\' => ['\\', '\\']
  | '\x08' => ['\\', 'b']
  | '\x0c' => ['\\', 'f']
  | '\n' => ['\\', 'n']
  | '\r' => ['\\', 'r']
  | '\t' => ['\\', 't']
  | c =>
    if c.toNat < 0x20 then
      ['\\', 'u', '0', '0', hexDigit (c.toNat / 16), hexDigit (c.toNat % 16)]
    else [c]

def escaped (cs : List Char) : List Char := cs.flatMap escape

@[simp] theorem escaped_nil : escaped [] = [] := rfl

@[simp] theorem escaped_cons (c : Char) (cs : List Char) :
    escaped (c :: cs) = escape c ++ escaped cs := rfl

def quoted (s : String) : List Char := '"' :: escaped s.toList ++ ['"']

inductive Layout where
  | compact
  | pretty
  deriving DecidableEq, Repr

/-- What stands before a token that starts a line inside so many brackets: a level of brackets
moves it two places to the right. -/
def Layout.gap : Layout → Nat → List Char
  | .compact, _ => []
  | .pretty, depth => '\n' :: List.replicate (2 * depth) ' '

def Layout.colon : Layout → List Char
  | .compact => [':']
  | .pretty => [':', ' ']

mutual

/-- The text of a value inside so many brackets. Empty brackets stay on one line. -/
def chars (layout : Layout) : Nat → Json → List Char
  | _, .null => ['n', 'u', 'l', 'l']
  | _, .num n => Nat.toDigits 10 n
  | _, .str s => quoted s
  | _, .arr [] => ['[', ']']
  | depth, .arr (item :: items) =>
    '[' :: layout.gap (depth + 1) ++ chars layout (depth + 1) item ++
      itemChars layout (depth + 1) items ++ layout.gap depth ++ [']']
  | _, .obj [] => ['{', '}']
  | depth, .obj ((key, value) :: members) =>
    '{' :: layout.gap (depth + 1) ++ quoted key ++ layout.colon ++ chars layout (depth + 1) value ++
      memberChars layout (depth + 1) members ++ layout.gap depth ++ ['}']

def itemChars (layout : Layout) : Nat → List Json → List Char
  | _, [] => []
  | depth, item :: items =>
    ',' :: layout.gap depth ++ chars layout depth item ++ itemChars layout depth items

def memberChars (layout : Layout) : Nat → List (String × Json) → List Char
  | _, [] => []
  | depth, (key, value) :: members =>
    ',' :: layout.gap depth ++ quoted key ++ layout.colon ++ chars layout depth value ++
      memberChars layout depth members

end

def text (layout : Layout) (v : Json) : String := String.ofList (v.chars layout 0)

@[simp] theorem toList_text (layout : Layout) (v : Json) :
    (v.text layout).toList = v.chars layout 0 := String.toList_ofList

end Json

end AvroSchemata
