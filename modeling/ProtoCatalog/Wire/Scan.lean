import ProtoCatalog.Wire.Token

/-!
# The fields of a message

A message's own fields in order, with groups left out: no field known here is a group.  Groups
must be closed in the order of their opening, by their own numbers, and may not be nested deeper
than a limit.  No field of a message has the number zero, but inside a group, which nobody reads,
any number will do.
-/

namespace ProtoCatalog.Wire

/-- Fields found outside of groups, last first; the numbers of the open groups, innermost first;
whether any group was left out; and whether the bytes so far are a message. -/
structure Grouping where
  fields : List Field
  opened : List Nat
  leftOut : Bool
  sound : Bool
deriving DecidableEq, Repr

namespace Grouping

def start : Grouping := ⟨[], [], false, true⟩

/-- Whether a number is none that a field or a group can have where it stands. -/
def isStray (g : Grouping) (number : Nat) : Bool := number = 0 && g.opened.isEmpty

/-- The effect of one token.  What follows a fault does not count. -/
def step (limit : Nat) (g : Grouping) (t : Token) : Grouping :=
  if !g.sound then g
  else match t with
    | .field f =>
      if g.isStray f.number then { g with sound := false }
      -- What stands inside a group belongs to the group.
      else if g.opened.isEmpty then { g with fields := f :: g.fields }
      else g
    | .groupStart n =>
      if g.isStray n then { g with sound := false }
      else if g.opened.length < limit then { g with opened := n :: g.opened, leftOut := true }
      else { g with sound := false }
    | .groupEnd n =>
      match g.opened with
      | m :: rest => if m = n then { g with opened := rest } else { g with sound := false }
      | [] => { g with sound := false }

end Grouping

/-- The fields of a message up to its first fault. -/
structure Scan where
  fields : List Field
  leftOut : Bool
  sound : Bool
deriving DecidableEq, Repr

/-- The fields in some bytes, groups nested at most `limit` deep. -/
def Scan.ofBytes (limit : Nat) (bytes : List UInt8) : Scan :=
  let l := Lexer.run bytes
  let g := l.tokens.reverse.foldl (Grouping.step limit) Grouping.start
  ⟨g.fields.reverse, g.leftOut, g.sound && g.opened.isEmpty && l.phase = .between⟩

end ProtoCatalog.Wire
