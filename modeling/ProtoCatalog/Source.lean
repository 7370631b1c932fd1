import ProtoCatalog.Address
import ProtoCatalog.Declaration
import ProtoCatalog.Text.Blank

/-!
# Sources and descriptions

Where a declaration stands in its file, and the description that its comments give.
-/

namespace ProtoCatalog

/-- Where a declaration stands: its file, its address, its first and last line (zero where they
are not known), and the comments before and behind it. -/
structure Source where
  file : String
  path : Address
  firstLine : Int
  lastLine : Int
  leading : String
  trailing : String
deriving DecidableEq, Repr, Inhabited

namespace Location

/-- The first line, counted from one; a location without a span has none. -/
def firstLine (l : Location) : Int :=
  match l.span with
  | [] => 0
  | line :: _ => line + 1

/-- The last line, counted from one; a span that does not give one ends where it starts. -/
def lastLine (l : Location) : Int :=
  match l.span with
  | [_, _, line, _] => line + 1
  | _ => l.firstLine

/-- The first of some locations that has an address. -/
def find? (ls : List Location) (path : Address) : Option Location :=
  ls.find? fun l => l.path == path

end Location

namespace Source

/-- The source that a location gives; comments lose the blanks around them. -/
def ofLocation (file : String) (l : Location) : Source where
  file := file
  path := l.path
  firstLine := l.firstLine
  lastLine := l.lastLine
  leading := Text.trim l.leading
  trailing := Text.trim l.trailing

/-- The source of a declaration without a location. -/
def unplaced (file : String) (path : Address) : Source := ⟨file, path, 0, 0, "", ""⟩

/-- The source that the first matching location gives. -/
def find? (ls : List Location) (path : Address) (file : String) : Option Source :=
  (Location.find? ls path).map (ofLocation file)

end Source

/-- The source of the declaration at an address. -/
def FileDecl.sourceAt (f : FileDecl) (path : Address) : Source :=
  (Source.find? f.locations path f.name).getD (.unplaced f.name path)

namespace Comment

/-- The characters that decorate the start of a comment. -/
def isDecoration (c : Char) : Bool := c = '*' || c = '/' || c = '\n' || c = ' '

/-- The mark of a comment that is not to be shown. -/
def hiddenMark : List Char := ['@', 'e', 'x', 'c', 'l', 'u', 'd', 'e']

/-- A comment without decoration; a hidden one is empty. -/
def cleanChars (comment : List Char) : List Char :=
  let text := comment.dropWhile isDecoration
  if hiddenMark.isPrefixOf text then [] else text

def clean (comment : String) : String := String.ofList (cleanChars comment.toList)

/-- Comments as paragraphs of one text; empty ones are left out. -/
def join (comments : List String) : String :=
  Text.trim ("\n\n".intercalate (comments.filter (· ≠ "")))

/-- The description that two comments give. -/
def describe (leading trailing : String) : String := clean (join [leading, trailing])

end Comment

def Source.description (s : Source) : String := Comment.describe s.leading s.trailing

end ProtoCatalog
