import ProtoCatalog.Options.Registry

/-!
# HTTP rules

The rule that maps a method to HTTP, flattened to a list of bindings: its own and its additional
ones, each with an HTTP method, a path pattern and the field that is the body.
-/

namespace ProtoCatalog

/-- One binding of a method to HTTP. -/
structure HttpBinding where
  method : String
  pattern : String
  body : String
deriving DecidableEq, Repr

namespace HttpBinding

/-- The fields that hold a path pattern, by the HTTP method they stand for. -/
def verbs : List (Nat × String) :=
  [(2, "GET"), (3, "PUT"), (4, "POST"), (5, "DELETE"), (6, "PATCH")]

/-- The method and the pattern that a field of a rule gives. -/
def ofField? : Nat × Datum → Option (String × String)
  | (number, .text pattern) =>
    (verbs.find? (·.1 == number)).map fun (_, method) => (method, pattern)
  | (number, .record custom) =>
    if number = 8 then some (Record.text custom 1, Record.text custom 2) else none
  | _ => none

/-- A rule's own binding.  A rule without a pattern has an empty method and an empty pattern. -/
def ofRule (rule : Record) : HttpBinding :=
  let (method, pattern) := (rule.findSome? ofField?).getD ("", "")
  ⟨method, pattern, rule.text 7⟩

def toJson (b : HttpBinding) : Json :=
  .obj [("method", .str b.method), ("pattern", .str b.pattern), ("body", .str b.body)]

end HttpBinding

namespace HttpRule

def extensionName : String := "google.api.http"

/-- The bindings of a rule: its own, then the additional ones in order. -/
def bindings (rule : Record) : List HttpBinding :=
  HttpBinding.ofRule rule :: (rule.records 11).map HttpBinding.ofRule

/-- The oneof of a rule that holds its path pattern. -/
def patternName : String := "pattern"

/-- A rule as plain data.  A message of another type is taken to have no pattern. -/
def transform : Transform
  | .message .httpRule, d =>
    .ok (.obj [("rules", .arr ((bindings d.fields).map HttpBinding.toJson))])
  | .message t, _ => .error (.noOneof t patternName)
  | _, _ => .error (.unsuited "A rule must be a message.")

end HttpRule

/-- The registry that knows HTTP rules. -/
def Registry.standard : Registry :=
  Registry.empty.register HttpRule.extensionName HttpRule.transform

end ProtoCatalog
