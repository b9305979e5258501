import AvroSchemata.Shape
set_option autoImplicit false

namespace AvroSchemata

/-- How a character is written inside a label. Control characters of ASCII are shown by number. -/
def labelEscape (c : Char) : List Char :=
  match c with
  | '"' => ['\\', '"']
  | '\\' => ['\\', '\\']
  | '\n' => ['\\', 'n']
  | '\r' => ['\\', 'r']
  | '\t' => ['\\', 't']
  | '\x00' => ['\\', '0']
  | c =>
    if c.toNat < 0x20 ∨ c.toNat = 0x7f then
      '\\' :: 'u' :: '{' :: Nat.toDigits 16 c.toNat ++ ['}']
    else [c]

def labelQuoted (s : String) : String :=
  String.ofList ('"' :: s.toList.flatMap labelEscape ++ ['"'])

def Shape.label {τ : Type} (s : Shape τ) : String :=
  "TypeDescriptor \x7b namespace: " ++ labelQuoted s.declared.space ++
    ", name: " ++ labelQuoted s.declared.name ++ " \x7d"

end AvroSchemata
