import ProtoCatalog.Json.Basic

/-!
# JSON tokens

JSON text cut into tokens by a machine that reads one character at a time.  A word (a numeral or
one of the three names) ends at the first character that cannot belong to one.
-/

namespace ProtoCatalog.Json

/-- A token.  Words are tokens once it is known which atomic value they are. -/
inductive Token where
  | beginArr
  | endArr
  | beginObj
  | endObj
  | comma
  | colon
  | text (s : String)
  | atom (v : Json)
deriving DecidableEq, Repr

namespace Token

def hexValue? (c : Char) : Option Nat :=
  if c.isDigit then some (c.toNat - '0'.toNat)
  else if 'a' ≤ c ∧ c ≤ 'f' then some (c.toNat - 'a'.toNat + 10)
  else if 'A' ≤ c ∧ c ≤ 'F' then some (c.toNat - 'A'.toNat + 10)
  else none

/-- The atomic value that a word stands for. -/
def ofWord? (word : List Char) : Option Json :=
  if word = ['n', 'u', 'l', 'l'] then some .null
  else if word = ['t', 'r', 'u', 'e'] then some (.bool true)
  else if word = ['f', 'a', 'l', 's', 'e'] then some (.bool false)
  else match Numeral.read? word with
    | some (.integer n) => some (.int n)
    | some (.decimal d) => some (.decimal d)
    | none => none

/-- The characters of some code points and 16-bit units; a surrogate must have its partner. -/
def ofUnits? : List Nat → Option (List Char)
  | [] => some []
  | [n] => if 0xD800 ≤ n ∧ n < 0xE000 then none else some [Char.ofNat n]
  | n :: m :: rest =>
    if 0xD800 ≤ n ∧ n < 0xDC00 then
      if 0xDC00 ≤ m ∧ m < 0xE000 then
        (ofUnits? rest).map (Char.ofNat (0x10000 + (n - 0xD800) * 0x400 + (m - 0xDC00)) :: ·)
      else none
    else if 0xDC00 ≤ n ∧ n < 0xE000 then none
    else (ofUnits? (m :: rest)).map (Char.ofNat n :: ·)

end Token

/-- Where the machine stands.  Characters and units read are kept last first. -/
inductive Mode where
  | between
  | word (chars : List Char)
  | text (units : List Nat)
  | escape (units : List Nat)
  | unicode (units : List Nat) (value : Nat) (owed : Nat)
deriving DecidableEq, Repr

/-- The machine between two characters: where it stands, and the tokens so far, last first. -/
structure Lexer where
  mode : Mode
  tokens : List Token
deriving DecidableEq, Repr

namespace Lexer

def isWordChar (c : Char) : Bool := c.isAlphanum || c = '+' || c = '-' || c = '.'

def isSpace (c : Char) : Bool := c = ' ' || c = '\n' || c = '\t' || c = '\r'

/-- A character outside of words and strings. -/
def stepBetween (tokens : List Token) (c : Char) : Option Lexer :=
  if isSpace c then some ⟨.between, tokens⟩
  else if c = '"' then some ⟨.text [], tokens⟩
  else if c = '[' then some ⟨.between, .beginArr :: tokens⟩
  else if c = ']' then some ⟨.between, .endArr :: tokens⟩
  else if c = '{' then some ⟨.between, .beginObj :: tokens⟩
  else if c = '}' then some ⟨.between, .endObj :: tokens⟩
  else if c = ',' then some ⟨.between, .comma :: tokens⟩
  else if c = ':' then some ⟨.between, .colon :: tokens⟩
  else if isWordChar c then some ⟨.word [c], tokens⟩
  else none

def stepEscape (units : List Nat) (c : Char) : Option Mode :=
  if c = '"' || c = '\\' || c = '/' then some (.text (c.toNat :: units))
  else if c = 'n' then some (.text (0xA :: units))
  else if c = 'r' then some (.text (0xD :: units))
  else if c = 't' then some (.text (0x9 :: units))
  else if c = 'f' then some (.text (0xC :: units))
  else if c = 'b' then some (.text (0x8 :: units))
  else if c = 'u' then some (.unicode units 0 4)
  else none

def step (l : Lexer) (c : Char) : Option Lexer :=
  match l.mode with
  | .between => stepBetween l.tokens c
  | .word chars =>
    if isWordChar c then some ⟨.word (c :: chars), l.tokens⟩
    else do stepBetween (.atom (← Token.ofWord? chars.reverse) :: l.tokens) c
  | .text units =>
    if c = '"' then do
      let chars ← Token.ofUnits? units.reverse
      some ⟨.between, .text (String.ofList chars) :: l.tokens⟩
    else if c = '\\' then some ⟨.escape units, l.tokens⟩
    else if c.toNat < 0x20 then none
    else some ⟨.text (c.toNat :: units), l.tokens⟩
  | .escape units => (stepEscape units c).map (⟨·, l.tokens⟩)
  | .unicode units value owed => do
    let value := value * 16 + (← Token.hexValue? c)
    some ⟨if owed ≤ 1 then .text (value :: units) else .unicode units value (owed - 1), l.tokens⟩

def start : Lexer := ⟨.between, []⟩

/-- The tokens at the end of the text: a word may end there, a string may not. -/
def finish? (l : Lexer) : Option (List Token) :=
  match l.mode with
  | .between => some l.tokens.reverse
  | .word chars => do some (Token.atom (← Token.ofWord? chars.reverse) :: l.tokens).reverse
  | _ => none

end Lexer

/-- The tokens of a text. -/
def Token.scan? (s : List Char) : Option (List Token) := do
  (← s.foldlM Lexer.step Lexer.start).finish?

end ProtoCatalog.Json
