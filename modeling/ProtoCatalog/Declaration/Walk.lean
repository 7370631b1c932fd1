import ProtoCatalog.Address
import ProtoCatalog.Declaration
import ProtoCatalog.Naming

/-!
# All declarations of a file

The messages and enumerations of a file, those inside messages included, each with its address
and its name relative to the package.  Messages are visited with an agenda: a message comes
before the messages declared inside it, and these come before its siblings.
-/

namespace ProtoCatalog

/-- A declaration with its address and its name relative to the package. -/
structure Placed (α : Type) where
  address : Address
  longName : String
  decl : α
deriving Repr

namespace Placed

/-- Declarations in a collection, each placed by its index. -/
def inCollection {α : Type} (name : α → String) (address : Address) (scope : String)
    (collection : Collection) (decls : List α) : List (Placed α) :=
  decls.mapIdx fun i d => ⟨address.child collection i, inScope scope (name d), d⟩

theorem map_decl_inCollection {α : Type} (name : α → String) (address : Address) (scope : String)
    (collection : Collection) (decls : List α) :
    (inCollection name address scope collection decls).map (·.decl) = decls := by
  simp [inCollection, List.mapIdx_eq_zipIdx_map, Function.comp_def, List.zipIdx_map_fst]

end Placed

namespace MessageDecl

mutual

/-- The number of messages in a message, itself included. -/
def count : MessageDecl → Nat
  | { nested, .. } => countAll nested + 1

/-- The number of messages in some messages, themselves included. -/
def countAll : List MessageDecl → Nat
  | [] => 0
  | m :: rest => m.count + countAll rest

end

theorem count_eq (m : MessageDecl) : m.count = countAll m.nested + 1 := by
  cases m; simp [count]

theorem countAll_append (ms ns : List MessageDecl) :
    countAll (ms ++ ns) = countAll ms + countAll ns := by
  induction ms with
  | nil => simp [countAll]
  | cons m ms ih => simp [countAll, ih, Nat.add_assoc]

/-- The messages declared inside a placed message. -/
def inside (m : Placed MessageDecl) : List (Placed MessageDecl) :=
  Placed.inCollection (·.name) m.address m.longName .nestedMessages m.decl.nested

def enumsInside (m : Placed MessageDecl) : List (Placed EnumDecl) :=
  Placed.inCollection (·.name) m.address m.longName .nestedEnums m.decl.enums

/-- The messages on an agenda and those inside them.  The messages inside the first are put in
front of the rest. -/
def visit : List (Placed MessageDecl) → List (Placed MessageDecl)
  | [] => []
  | m :: rest => m :: visit (inside m ++ rest)
termination_by agenda => countAll (agenda.map (·.decl))
decreasing_by
  simp only [List.map_append, List.map_cons, countAll_append, countAll, inside,
    Placed.map_decl_inCollection, count_eq]
  omega

end MessageDecl

namespace FileDecl

def topMessages (f : FileDecl) : List (Placed MessageDecl) :=
  Placed.inCollection (·.name) Address.file "" .fileMessages f.messages

def topEnums (f : FileDecl) : List (Placed EnumDecl) :=
  Placed.inCollection (·.name) Address.file "" .fileEnums f.enums

def allMessages (f : FileDecl) : List (Placed MessageDecl) := MessageDecl.visit f.topMessages

/-- All enumerations of a file: its own, then those inside each message. -/
def allEnums (f : FileDecl) : List (Placed EnumDecl) :=
  f.topEnums ++ f.allMessages.flatMap MessageDecl.enumsInside

end FileDecl
end ProtoCatalog
