/-!
# UTF-8

Reading bytes as UTF-8 text.  Bytes that do not form a character are left out: where a sequence
breaks off, its longest well-begun part is dropped and reading goes on with the byte that broke it.
-/

namespace ProtoCatalog.Text.Utf8

/-- A character begun and not finished: the value of its bits so far, the number of bytes still
owed, and the least and the greatest byte that may come next. -/
structure Pending where
  value : Nat
  owed : Nat
  least : Nat
  most : Nat
deriving DecidableEq, Repr

/-- A reader between two bytes: the characters read, last first, and the one begun. -/
structure Reader where
  done : List Char
  pending : Option Pending
deriving DecidableEq, Repr

/-- The effect of a byte that stands at the start of a character.  The narrower ranges after
`E0`, `ED`, `F0` and `F4` exclude overlong forms, surrogates and values above `10FFFF`. -/
def begin (done : List Char) (b : Nat) : Reader :=
  if b ≤ 0x7F then ⟨Char.ofNat b :: done, none⟩
  else if 0xC2 ≤ b ∧ b ≤ 0xDF then ⟨done, some ⟨b - 0xC0, 1, 0x80, 0xBF⟩⟩
  else if b = 0xE0 then ⟨done, some ⟨0, 2, 0xA0, 0xBF⟩⟩
  else if b = 0xED then ⟨done, some ⟨0xD, 2, 0x80, 0x9F⟩⟩
  else if 0xE1 ≤ b ∧ b ≤ 0xEF then ⟨done, some ⟨b - 0xE0, 2, 0x80, 0xBF⟩⟩
  else if b = 0xF0 then ⟨done, some ⟨0, 3, 0x90, 0xBF⟩⟩
  else if 0xF1 ≤ b ∧ b ≤ 0xF3 then ⟨done, some ⟨b - 0xF0, 3, 0x80, 0xBF⟩⟩
  else if b = 0xF4 then ⟨done, some ⟨4, 3, 0x80, 0x8F⟩⟩
  else ⟨done, none⟩

/-- The effect of one byte: it continues the character begun if it may, and starts one if not. -/
def Reader.step (r : Reader) (byte : UInt8) : Reader :=
  let b := byte.toNat
  match r.pending with
  | none => begin r.done b
  | some p =>
    if p.least ≤ b ∧ b ≤ p.most then
      let value := p.value * 64 + (b - 0x80)
      if p.owed ≤ 1 then ⟨Char.ofNat value :: r.done, none⟩
      else ⟨r.done, some ⟨value, p.owed - 1, 0x80, 0xBF⟩⟩
    else begin r.done b

/-- The text of some bytes, ill-formed parts left out. -/
def decode (bytes : List UInt8) : String :=
  String.ofList (bytes.foldl Reader.step ⟨[], none⟩).done.reverse

end ProtoCatalog.Text.Utf8
