import ProtoCatalog.Number.Power

/-!
# Wire tokens

The bytes of a message cut into fields and group marks by a machine that reads one byte at a
time.  What the machine has read of one message never depends on the bytes that follow, and
after a complete message it stands where it started.
-/

namespace ProtoCatalog.Wire

/-- The value of a field, as far as the bytes alone tell. -/
inductive Payload where
  | varint (n : Nat)
  | fixed32 (n : Nat)
  | fixed64 (n : Nat)
  | bytes (b : List UInt8)
deriving DecidableEq, Repr

structure Field where
  number : Nat
  payload : Payload
deriving DecidableEq, Repr

/-- A field, or the start or the end of a group. -/
inductive Token where
  | field (f : Field)
  | groupStart (number : Nat)
  | groupEnd (number : Nat)
deriving DecidableEq, Repr

/-- The payloads that come as a known number of bytes. -/
inductive Block where
  | fixed32
  | fixed64
  | bytes
deriving DecidableEq, Repr

/-- The number whose bytes, the least significant first, are given. -/
def littleEndian (bytes : List UInt8) : Nat :=
  bytes.foldr (fun b n => b.toNat + 256 * n) 0

def Block.payload (block : Block) (bytes : List UInt8) : Payload :=
  match block with
  | .fixed32 => .fixed32 (littleEndian bytes)
  | .fixed64 => .fixed64 (littleEndian bytes)
  | .bytes => .bytes bytes

/-- Where the machine stands: in a tag (before its first byte if none is read), in a varint, in
a length, in a block, or behind bytes that are no message.  Each varint is kept with the number
of its bytes read; the bytes of a block are kept last first. -/
inductive Phase where
  | tag (value read : Nat)
  | varint (number value read : Nat)
  | length (number value read : Nat)
  | block (number : Nat) (block : Block) (left : Nat) (taken : List UInt8)
  | broken
deriving DecidableEq, Repr

def Phase.between : Phase := .tag 0 0

/-- The machine between two bytes: where it stands, and the tokens so far, last first. -/
structure Lexer where
  phase : Phase
  tokens : List Token
deriving DecidableEq, Repr

namespace Lexer

/-- A varint one byte further: its value, and whether it goes on. -/
def extend (value read : Nat) (byte : UInt8) : Nat × Bool :=
  (value + byte.toNat % 128 * twoTo (7 * read), 128 ≤ byte.toNat)

/-- After a whole tag.  Its lowest three bits say what follows. -/
def afterTag (tokens : List Token) (tag : Nat) : Lexer :=
  let number := tag / 8
  if twoTo 32 ≤ tag then ⟨.broken, tokens⟩
  else match tag % 8 with
    | 0 => ⟨.varint number 0 0, tokens⟩
    | 1 => ⟨.block number .fixed64 8 [], tokens⟩
    | 2 => ⟨.length number 0 0, tokens⟩
    | 3 => ⟨.between, .groupStart number :: tokens⟩
    | 4 => ⟨.between, .groupEnd number :: tokens⟩
    | 5 => ⟨.block number .fixed32 4 [], tokens⟩
    | _ => ⟨.broken, tokens⟩

def afterLength (tokens : List Token) (number length : Nat) : Lexer :=
  if twoTo 31 ≤ length then ⟨.broken, tokens⟩
  -- No byte is to come that could end the block.
  else if length = 0 then ⟨.between, .field ⟨number, .bytes []⟩ :: tokens⟩
  else ⟨.block number .bytes length [], tokens⟩

/-- The most bytes of a tag or a length. -/
def shortVarint : Nat := 5

/-- The most bytes of a varint. -/
def longVarint : Nat := 10

/-- The effect of one byte.  Of a varint, the lowest 64 bits count. -/
def step (l : Lexer) (byte : UInt8) : Lexer :=
  match l.phase with
  | .tag value read =>
    let (value, goesOn) := extend value read byte
    if !goesOn then afterTag l.tokens value
    -- A tag may be longer than its value needs, but not longer than this.
    else if read + 1 < shortVarint then ⟨.tag value (read + 1), l.tokens⟩
    else ⟨.broken, l.tokens⟩
  | .varint number value read =>
    let (value, goesOn) := extend value read byte
    if !goesOn then ⟨.between, .field ⟨number, .varint (value % twoTo 64)⟩ :: l.tokens⟩
    else if read + 1 < longVarint then ⟨.varint number value (read + 1), l.tokens⟩
    else ⟨.broken, l.tokens⟩
  | .length number value read =>
    let (value, goesOn) := extend value read byte
    if !goesOn then afterLength l.tokens number value
    else if read + 1 < shortVarint then ⟨.length number value (read + 1), l.tokens⟩
    else ⟨.broken, l.tokens⟩
  | .block number block left taken =>
    if left ≤ 1 then
      ⟨.between, .field ⟨number, block.payload (byte :: taken).reverse⟩ :: l.tokens⟩
    else ⟨.block number block (left - 1) (byte :: taken), l.tokens⟩
  | .broken => l

def start : Lexer := ⟨.between, []⟩

def run (bytes : List UInt8) : Lexer := bytes.foldl step start

/-- The tokens read before only stand behind those that come. -/
theorem step_tokens (phase : Phase) (tokens : List Token) (byte : UInt8) :
    step ⟨phase, tokens⟩ byte =
      { step ⟨phase, []⟩ byte with tokens := (step ⟨phase, []⟩ byte).tokens ++ tokens } := by
  unfold step
  cases phase with
  | tag value read =>
    simp only
    split
    · unfold afterTag
      simp only
      split
      · rfl
      · split <;> rfl
    · split <;> rfl
  | varint number value read =>
    simp only
    split
    · rfl
    · split <;> rfl
  | length number value read =>
    simp only
    split
    · unfold afterLength
      split
      · rfl
      · split <;> rfl
    · split <;> rfl
  | block number block left taken => simp only; split <;> rfl
  | broken => rfl

/-- The same over any number of bytes. -/
theorem foldl_step_tokens (phase : Phase) (tokens : List Token) (bytes : List UInt8) :
    bytes.foldl step ⟨phase, tokens⟩ =
      { bytes.foldl step ⟨phase, []⟩ with
        tokens := (bytes.foldl step ⟨phase, []⟩).tokens ++ tokens } := by
  induction bytes generalizing phase tokens with
  | nil => rfl
  | cons b rest ih =>
    rw [List.foldl_cons, List.foldl_cons, step_tokens]
    generalize step ⟨phase, []⟩ b = l
    obtain ⟨p, ts⟩ := l
    rw [ih p (ts ++ tokens), ih p ts]
    simp

/-- After whole fields the machine starts anew. -/
theorem run_append {a : List UInt8} (h : (run a).phase = .between) (b : List UInt8) :
    run (a ++ b) = ⟨(run b).phase, (run b).tokens ++ (run a).tokens⟩ := by
  unfold run at h ⊢
  rw [List.foldl_append]
  generalize a.foldl step start = l at h ⊢
  obtain ⟨p, ts⟩ := l
  simp only at h
  subst h
  rw [foldl_step_tokens]
  rfl

end Lexer

/-- The numbers of a packed field of varints, if its bytes are that. -/
def packedVarints? (bytes : List UInt8) : Option (List Nat) :=
  go 0 0 [] bytes
where
  go (value read : Nat) (done : List Nat) : List UInt8 → Option (List Nat)
    | [] => if read = 0 then some done.reverse else none
    | byte :: rest =>
      let (value, goesOn) := Lexer.extend value read byte
      if !goesOn then go 0 0 (value % twoTo 64 :: done) rest
      else if read + 1 < Lexer.longVarint then go value (read + 1) done rest
      else none

/-- The numbers of a packed field of blocks of `width` bytes, if its bytes are that. -/
def packedBlocks? (width : Nat) (bytes : List UInt8) : Option (List Nat) :=
  go width [] [] bytes
where
  go (left : Nat) (taken : List UInt8) (done : List Nat) : List UInt8 → Option (List Nat)
    | [] => if taken.isEmpty then some done.reverse else none
    | byte :: rest =>
      if left ≤ 1 then go width [] (littleEndian (byte :: taken).reverse :: done) rest
      else go (left - 1) (byte :: taken) done rest

end ProtoCatalog.Wire
