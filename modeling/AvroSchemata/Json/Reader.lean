import AvroSchemata.Json
set_option autoImplicit false

namespace AvroSchemata.Json

def isBlank (c : Char) : Bool := c == ' ' || c == '\n' || c == '\r' || c == '\t'

def skipBlanks (cs : List Char) : List Char := cs.dropWhile isBlank

def hexValue? (c : Char) : Option Nat :=
  if c.isDigit then some (c.toNat - 48)
  else if 'a' ≤ c ∧ c ≤ 'f' then some (c.toNat - 87)
  else if 'A' ≤ c ∧ c ≤ 'F' then some (c.toNat - 55)
  else none

/-- The character of a number of four digits, unless it is half of a surrogate pair. -/
def unicode? (a b c d : Char) : Option Char := do
  let n := (((← hexValue? a) * 16 + (← hexValue? b)) * 16 + (← hexValue? c)) * 16 + (← hexValue? d)
  if n.isValidChar then some (Char.ofNat n) else none

def unescape? : Char → Option Char
  | '"' => some '"'
  | '\\' => some '\\'
  | '/' => some '/'
  | 'b' => some '\x08'
  | 'f' => some '\x0c'
  | 'n' => some '\n'
  | 'r' => some '\r'
  | 't' => some '\t'
  | _ => none

def prepend (c? : Option Char) (r : Option (List Char × List Char)) :
    Option (List Char × List Char) :=
  match c?, r with
  | some c, some (cs, rest) => some (c :: cs, rest)
  | _, _ => none

def readLiteral : List Char → Option (List Char × List Char)
  | [] => none
  | '"' :: rest => some ([], rest)
  | '\\' :: 'u' :: a :: b :: c :: d :: rest => prepend (unicode? a b c d) (readLiteral rest)
  | '\\' :: c :: rest => prepend (unescape? c) (readLiteral rest)
  | c :: rest =>
    if c.toNat < 0x20 ∨ c = '\\' then none else prepend (some c) (readLiteral rest)

def readString (cs : List Char) : Option (String × List Char) :=
  (readLiteral cs).map fun (s, rest) => (String.ofList s, rest)

/-- A natural number, which starts with a nought only if it is one. -/
def readNumber (cs : List Char) : Option (Nat × List Char) :=
  match cs.takeWhile Char.isDigit with
  | [] => none
  | '0' :: _ :: _ => none
  | digits => some (Nat.ofDigitChars 10 digits 0, cs.dropWhile Char.isDigit)

def readKey (cs : List Char) : Option (String × List Char) := do
  let (key, rest) ← readString cs
  match skipBlanks rest with
  | ':' :: rest => some (key, rest)
  | _ => none

mutual

/-- A value and what follows it, where the brackets and the items in them are no more than the
first argument. -/
def readValue : Nat → List Char → Option (Json × List Char)
  | 0, _ => none
  | fuel + 1, cs =>
    match skipBlanks cs with
    | 'n' :: 'u' :: 'l' :: 'l' :: rest => some (.null, rest)
    | '"' :: rest => (readString rest).map fun (s, rest) => (.str s, rest)
    | '[' :: rest =>
      match skipBlanks rest with
      | ']' :: rest => some (.arr [], rest)
      | _ => do
        let (item, rest) ← readValue fuel rest
        let (items, rest) ← readItems fuel rest
        some (.arr (item :: items), rest)
    | '{' :: rest =>
      match skipBlanks rest with
      | '}' :: rest => some (.obj [], rest)
      | '"' :: rest => do
        let (key, rest) ← readKey rest
        let (value, rest) ← readValue fuel rest
        let (members, rest) ← readMembers fuel rest
        some (.obj ((key, value) :: members), rest)
      | _ => none
    | cs => (readNumber cs).map fun (n, rest) => (.num n, rest)

def readItems : Nat → List Char → Option (List Json × List Char)
  | 0, _ => none
  | fuel + 1, cs =>
    match skipBlanks cs with
    | ']' :: rest => some ([], rest)
    | ',' :: rest => do
      let (item, rest) ← readValue fuel rest
      let (items, rest) ← readItems fuel rest
      some (item :: items, rest)
    | _ => none

def readMembers : Nat → List Char → Option (List (String × Json) × List Char)
  | 0, _ => none
  | fuel + 1, cs =>
    match skipBlanks cs with
    | '}' :: rest => some ([], rest)
    | ',' :: rest =>
      match skipBlanks rest with
      | '"' :: rest => do
        let (key, rest) ← readKey rest
        let (value, rest) ← readValue fuel rest
        let (members, rest) ← readMembers fuel rest
        some ((key, value) :: members, rest)
      | _ => none
    | _ => none

end

def read? (text : String) : Option Json :=
  match readValue (text.toList.length + 1) text.toList with
  | some (v, rest) => if skipBlanks rest = [] then some v else none
  | none => none

end AvroSchemata.Json
