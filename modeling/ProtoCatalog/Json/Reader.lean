import ProtoCatalog.Json.Token

/-!
# Reading JSON

The value of a sequence of tokens, found by a machine with a stack of the arrays and objects
that are still open.
-/

namespace ProtoCatalog.Json

/-- An array or an object that is still open; items and members are kept last first. -/
inductive Frame where
  | arr (items : List Json)
  | obj (members : List (String × Json)) (key : String)
deriving DecidableEq, Repr

/-- The machine between two tokens: what must come next, inside which open frames. -/
inductive Reader where
  /-- A value. -/
  | value (stack : List Frame)
  /-- The first item of an array, or its end. -/
  | firstItem (stack : List Frame)
  /-- The first key of an object, or its end. -/
  | firstKey (stack : List Frame)
  /-- A key, after some members. -/
  | key (members : List (String × Json)) (stack : List Frame)
  /-- The colon after a key. -/
  | colon (members : List (String × Json)) (key : String) (stack : List Frame)
  /-- What follows a value: a comma, or the end of its frame. -/
  | after (value : Json) (stack : List Frame)
deriving DecidableEq, Repr

namespace Reader

/-- A token where a value must come. -/
def stepValue (stack : List Frame) : Token → Option Reader
  | .beginArr => some (.firstItem stack)
  | .beginObj => some (.firstKey stack)
  | .text s => some (.after (.str s) stack)
  | .atom v => some (.after v stack)
  | _ => none

def step : Reader → Token → Option Reader
  | .value stack, t => stepValue stack t
  -- Only a first item may be missing: behind a comma an item must come.
  | .firstItem stack, .endArr => some (.after (.arr []) stack)
  | .firstItem stack, t => stepValue (.arr [] :: stack) t
  | .firstKey stack, .endObj => some (.after (.obj []) stack)
  | .firstKey stack, .text k => some (.colon [] k stack)
  | .key members stack, .text k => some (.colon members k stack)
  | .colon members k stack, .colon => some (.value (.obj members k :: stack))
  | .after v (.arr items :: stack), .comma => some (.value (.arr (v :: items) :: stack))
  | .after v (.arr items :: stack), .endArr => some (.after (.arr (v :: items).reverse) stack)
  | .after v (.obj members k :: stack), .comma => some (.key ((k, v) :: members) stack)
  | .after v (.obj members k :: stack), .endObj =>
    some (.after (.obj ((k, v) :: members).reverse) stack)
  | _, _ => none

/-- The value read, if no frame is open. -/
def result? : Reader → Option Json
  | .after v [] => some v
  | _ => none

end Reader

def ofTokens? (tokens : List Token) : Option Json := do
  (← tokens.foldlM Reader.step (Reader.value [])).result?

/-- The value that a JSON text denotes. -/
def parse? (s : String) : Option Json := do
  ofTokens? (← Token.scan? s.toList)

end ProtoCatalog.Json
