/-!
Paths of files. As a text a path is kept the way it was written; `ofText` gives the names that lead
to the file, in which doubled and final slashes and single points make no difference.

Where a path leads is told by its names alone. Two points lead back to where the way came from,
whatever stands there: that this is a directory and no link is not asked.
-/

namespace BuildPipeline

/-- A path: the names that lead from the root, or from the working directory, to a file. -/
structure Path where
  absolute : Bool
  names : List String
  deriving DecidableEq, Repr

namespace Path

/-- The path that a text stands for. -/
def ofText (text : String) : Path where
  absolute := text.startsWith "/"
  names := (text.splitOn "/").filter fun name => name ≠ "" ∧ name ≠ "."

/-- The directory that holds a path; the starting points of paths are in none. -/
def parent? (p : Path) : Option Path :=
  if p.names.isEmpty then none else some { p with names := p.names.dropLast }

/-- The last name of a path, unless it leads back up. -/
def name? (p : Path) : Option String :=
  p.names.getLast?.filter (· ≠ "..")

/-- The names of a way when one more is appended: two points lead back up, but not from the root. -/
def climb (absolute : Bool) (names : List String) (name : String) : List String :=
  if name ≠ ".." then names ++ [name]
  else
    match names.getLast? with
    | none => if absolute then [] else [".."]
    | some last => if last = ".." then names ++ [".."] else names.dropLast

/-- The place that a path leads to, without ways back up that could be saved. -/
def place (p : Path) : Path :=
  { p with names := p.names.foldl (climb p.absolute) [] }

/-- Whether a text can only stand for a directory, as its last part is empty or made of points. -/
def endsInDirectory (text : String) : Bool :=
  [some "", some ".", some ".."].contains (text.splitOn "/").getLast?

/-- Whether the last part of a text that is not empty is a single point. -/
def endsInPoint (text : String) : Bool :=
  ((text.splitOn "/").filter (· ≠ "")).getLast? = some "."

/-- Every path on the way, from the outermost to the path itself. -/
def steps (p : Path) : List Path :=
  (List.range p.names.length).map fun i => { p with names := p.names.take (i + 1) }

/-- The text of a path behind a directory. An absolute path stands for itself, and a directory
without a name adds nothing. -/
def join (directory path : String) : String :=
  if path.startsWith "/" ∨ directory = "" then path
  else if directory.endsWith "/" then directory ++ path
  else directory ++ "/" ++ path

end Path
end BuildPipeline
