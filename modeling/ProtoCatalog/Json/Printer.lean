import ProtoCatalog.Json.Basic

/-!
# JSON text

Values written as JSON in ASCII, on one line or with one item to a line.  Two layouts of one
value differ only in the blanks between its tokens.
-/

namespace ProtoCatalog.Json

/-- How a text is laid out: on one line, or with a line for each item, indented by a number of
spaces for each level (none if the number is negative). -/
inductive Layout where
  | oneLine
  | indented (width : Int)
deriving DecidableEq, Repr

namespace Layout

/-- The start of an item's line. -/
def newLine (layout : Layout) (level : Nat) : List Char :=
  match layout with
  | .oneLine => []
  | .indented width => '\n' :: List.replicate (level * width.toNat) ' '

/-- What stands between two items. -/
def separator (layout : Layout) (level : Nat) : List Char :=
  match layout with
  | .oneLine => [',', ' ']
  | .indented _ => ',' :: layout.newLine level

end Layout

/-! ## Strings -/

def hexDigit (n : Nat) : Char :=
  if n < 10 then Char.ofNat ('0'.toNat + n) else Char.ofNat ('a'.toNat + (n - 10))

/-- The escape of a 16-bit unit. -/
def unitEscape (n : Nat) : List Char :=
  ['\\', 'u', hexDigit (n / 4096 % 16), hexDigit (n / 256 % 16), hexDigit (n / 16 % 16),
    hexDigit (n % 16)]

/-- The 16-bit units of a code point: above `FFFF`, a pair of surrogates. -/
def units (n : Nat) : List Nat :=
  if n < 0x10000 then [n]
  else [0xD800 + (n - 0x10000) / 0x400, 0xDC00 + (n - 0x10000) % 0x400]

/-- A character inside a string: ASCII as it is, except for quotes, backslashes and control
characters. -/
def escape (c : Char) : List Char :=
  if c = '"' then ['\\', '"']
  else if c = '\\' then ['\\', '\\']
  else if c = '\n' then ['\\', 'n']
  else if c = '\r' then ['\\', 'r']
  else if c = '\t' then ['\\', 't']
  else if c = '\x0c' then ['\\', 'f']
  else if c = '\x08' then ['\\', 'b']
  -- The delete character is a control character too.
  else if 0x20 ≤ c.toNat ∧ c.toNat ≤ 0x7E then [c]
  else (units c.toNat).flatMap unitEscape

def quoted (s : String) : List Char := '"' :: s.toList.flatMap escape ++ ['"']

/-! ## Values -/

/-- Decimals are written positionally from `0.0001` to below `10 ^ 16`, and elsewhere with at
least two digits of the exponent. -/
def decimalLayout : Decimal.Layout := ⟨-4, 16, 2⟩

def intText (n : Int) : List Char :=
  (if n < 0 then ['-'] else []) ++ Decimal.natDigits n.natAbs

mutual

/-- A value whose closing bracket stands at the given level. -/
def write (layout : Layout) (level : Nat) : Json → List Char
  | .null => ['n', 'u', 'l', 'l']
  | .bool true => ['t', 'r', 'u', 'e']
  | .bool false => ['f', 'a', 'l', 's', 'e']
  | .int n => intText n
  | .decimal d => d.render decimalLayout
  | .str s => quoted s
  | .arr [] => ['[', ']']
  | .arr (item :: items) =>
    '[' :: layout.newLine (level + 1) ++ write layout (level + 1) item ++
      writeItems layout (level + 1) items ++ layout.newLine level ++ [']']
  | .obj [] => ['{', '}']
  | .obj ((key, value) :: members) =>
    '{' :: layout.newLine (level + 1) ++ quoted key ++ [':', ' '] ++
      write layout (level + 1) value ++ writeMembers layout (level + 1) members ++
      layout.newLine level ++ ['}']

/-- The items after the first, each behind its separator. -/
def writeItems (layout : Layout) (level : Nat) : List Json → List Char
  | [] => []
  | item :: items =>
    layout.separator level ++ write layout level item ++ writeItems layout level items

def writeMembers (layout : Layout) (level : Nat) : List (String × Json) → List Char
  | [] => []
  | (key, value) :: members =>
    layout.separator level ++ quoted key ++ [':', ' '] ++ write layout level value ++
      writeMembers layout level members

end

def render (layout : Layout) (j : Json) : String := String.ofList (write layout 0 j)

end ProtoCatalog.Json
