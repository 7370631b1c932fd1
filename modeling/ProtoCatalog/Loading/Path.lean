/-!
# File paths

Paths with their dots resolved by the text alone, and the directories that paths are in.
-/

namespace ProtoCatalog.Path

def parts : List Char → List (List Char)
  | [] => [[]]
  | c :: rest =>
    match parts rest with
    | [] => [[]]
    | part :: more => if c = '/' then [] :: part :: more else (c :: part) :: more

/-- The slashes that the normal form of an absolute path starts with: two if the path has just
two, and one if it has more. -/
def leadingSlashes (path : List Char) : Nat :=
  let n := (path.takeWhile (· = '/')).length
  if n = 2 then 2 else min n 1

/-- The parts of an absolute path so far, last first, and one part more: a single dot stays, and
two dots go up, at most to the root. -/
def enter (done : List (List Char)) (part : List Char) : List (List Char) :=
  if part = [] || part = ['.'] then done
  else if part = ['.', '.'] then done.drop 1
  else part :: done

def normal (path : List Char) : List Char :=
  List.replicate (leadingSlashes path) '/' ++
    ['/'].intercalate ((parts path).foldl enter []).reverse

/-- The absolute form of a path, relative ones taken from the root. -/
def absolute (path : List Char) : List Char :=
  normal (if path.head? = some '/' then path else '/' :: path)

/-- The directory part of a path, without slashes at its end unless it is the root. -/
def directory (path : List Char) : List Char :=
  -- The head ends in a slash, or is empty.
  let head := (path.reverse.dropWhile (· ≠ '/')).reverse
  let trimmed := (head.reverse.dropWhile (· = '/')).reverse
  if trimmed = [] then head else trimmed

/-- The directory that holds the file at a path. -/
def directoryOf (path : String) : String := String.ofList (directory (absolute path.toList))

end ProtoCatalog.Path
