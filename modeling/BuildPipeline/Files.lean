import BuildPipeline.Keyed
import BuildPipeline.Path

/-!
The files that a daemon leaves on disk: plain files, directories and sockets, each at its path. A
plain file has a number of its own, and locks are held on that number and not on the path: a file
that was removed keeps its lock, and a new one at the same path is not locked. Two paths that lead
to one place, one of them back up on its way, stand for the same entry.

There are no links and no permissions, and no write fails halfway. A path is looked up by the place
that its names lead to (`Path.place`), without a look at what stands on the way there; only
`createDirectories`, `openFile` and `bind` ask for directories.
-/

namespace BuildPipeline

/-- What stands at a path. -/
inductive Entry where
  | file (number : Nat) (text : String)
  | directory
  /-- A socket that a process is bound to, or was. -/
  | socket (owner : Nat)
  deriving DecidableEq, Repr

/-- Why something could not be done with a file. -/
inductive FileError where
  | notFound
  | notADirectory
  | isADirectory
  | alreadyExists
  | noSuchDevice
  | addressInUse
  | nameTooLong
  | pathTooLong
  | nulByte
  | nulInAddress
  deriving DecidableEq, Repr

/-- The sentence reported for an error. -/
def FileError.message : FileError → String
  | .notFound => "No such file or directory (os error 2)"
  | .notADirectory => "Not a directory (os error 20)"
  | .isADirectory => "Is a directory (os error 21)"
  | .alreadyExists => "File exists (os error 17)"
  | .noSuchDevice => "No such device or address (os error 6)"
  | .addressInUse => "Address already in use (os error 98)"
  | .nameTooLong => "File name too long (os error 36)"
  | .pathTooLong => "path must be shorter than SUN_LEN"
  | .nulByte => "file name contained an unexpected NUL byte"
  | .nulInAddress => "paths must not contain interior null bytes"

/-- What stands at which path, the number of the next new file, and the numbers of the files that
are locked. -/
structure Files where
  entries : List (Path × Entry) := []
  next : Nat := 0
  locked : List Nat := []
  deriving DecidableEq

namespace Files

/-- What stands at a path. The starting points of paths are directories. -/
def get? (fs : Files) (p : Path) : Option Entry :=
  if p.place.names.isEmpty then some .directory else Keyed.get? p.place fs.entries

/-- Puts something at a path. -/
def put (fs : Files) (p : Path) (e : Entry) : Files :=
  { fs with entries := Keyed.put p.place e fs.entries }

theorem get?_put_self (fs : Files) {p : Path} (e : Entry) (named : p.place.names ≠ []) :
    (fs.put p e).get? p = some e := by
  have : p.place.names.isEmpty = false := by simpa using named
  simp [get?, put, this]

theorem get?_put_of_ne (fs : Files) {p q : Path} (e : Entry) (ne : q.place ≠ p.place) :
    (fs.put p e).get? q = fs.get? q := by
  simp only [get?, put]
  rw [Keyed.get?_put_of_ne ne]

/-- Whether anything stands at a path. -/
def contains (fs : Files) (p : Path) : Bool :=
  (fs.get? p).isSome

/-- Whether a directory stands at a path. -/
def isDirectory (fs : Files) (p : Path) : Bool :=
  fs.get? p = some .directory

/-- Whether a text is the path of anything. One that can only stand for a directory is the path of
nothing else, and the empty text is the path of nothing. -/
def standsAt (fs : Files) (path : String) : Bool :=
  if path = "" then false
  else if Path.endsInDirectory path then fs.isDirectory (.ofText path)
  else fs.contains (.ofText path)

@[simp]
theorem standsAt_empty (fs : Files) : fs.standsAt "" = false :=
  if_pos rfl

/-- Whether a path may lead through a place: there is a directory, or nothing yet. -/
def isOpen (fs : Files) (p : Path) : Bool :=
  fs.isDirectory p || !fs.contains p

/-- Makes a directory where nothing stands. -/
def addDirectory (fs : Files) (p : Path) : Files :=
  if fs.contains p then fs else fs.put p .directory

/-- The greatest number of bytes in a name. -/
def nameLimit : Nat := 255

/-- The number of bytes that the text of a path has to stay below. -/
def pathLimit : Nat := 4096

/-- Why a name cannot stand in a path, if it cannot. -/
def badName? (name : String) : Option FileError :=
  if name.contains '\x00' then some .nulByte
  else if nameLimit < name.utf8ByteSize then some .nameTooLong
  else none

/-- Why a path leads nowhere, whatever there is. -/
def badPath? (p : Path) : Option FileError :=
  p.names.findSome? badName?

/-- Why a text cannot be the path of a file to open, whatever there is. -/
def badText? (path : String) : Option FileError :=
  if pathLimit ≤ path.utf8ByteSize then some .nameTooLong
  else if Path.endsInDirectory path then some .isADirectory
  else badPath? (.ofText path)

/-- Makes a directory and all that are missing on the way to it. -/
def createDirectories (fs : Files) (p : Path) : Except FileError Files :=
  match badPath? p with
  | some e => .error e
  | none =>
    if p.steps.all fs.isOpen then .ok (p.steps.foldl addDirectory fs)
    else if fs.contains p then .error .alreadyExists
    else .error .notADirectory

/-- The error for a path under which nothing new can stand, if it is one. -/
def misplaced? (fs : Files) (p : Path) : Option FileError :=
  match p.parent? with
  | none => some .isADirectory
  | some parent =>
    match fs.get? parent with
    | some .directory => none
    | some _ => some .notADirectory
    | none => some .notFound

/-- Opens a file to write to it, without touching what is in it; where nothing stands a new file is
made. Also gives the number of the file. -/
def openFile (fs : Files) (path : String) : Except FileError (Files × Nat) :=
  let p := Path.ofText path
  match badText? path, fs.get? p with
  | some e, _ => .error e
  | none, some (.file number _) => .ok (fs, number)
  | none, some .directory => .error .isADirectory
  | none, some (.socket _) => .error .noSuchDevice
  | none, none =>
    match fs.misplaced? p with
    | some e => .error e
    | none => .ok ({ fs.put p (.file fs.next "") with next := fs.next + 1 }, fs.next)

/-- Replaces the text of a file, which is made if it is missing. -/
def writeFile (fs : Files) (path text : String) : Except FileError Files := do
  let (fs, number) ← fs.openFile path
  return fs.put (.ofText path) (.file number text)

/-- The text of a file. -/
def textAt? (fs : Files) (path : String) : Option String :=
  match fs.get? (.ofText path) with
  | some (.file _ text) => some text
  | _ => none

/-- Adds to the end of a file, which is made if it is missing. -/
def appendFile (fs : Files) (path text : String) : Except FileError Files :=
  fs.writeFile path ((fs.textAt? path).getD "" ++ text)

/-- Removes what stands at a path, unless it is a directory. -/
def remove (fs : Files) (p : Path) : Except FileError Files :=
  match fs.get? p with
  | none => .error .notFound
  | some .directory => .error .isADirectory
  | some _ => .ok { fs with entries := Keyed.erase p.place fs.entries }

/-- Removes what stands at a path, if that is possible. -/
def discard (fs : Files) (p : Path) : Files :=
  match fs.remove p with
  | .ok fs => fs
  | .error _ => fs

theorem get?_discard_of_ne (fs : Files) {p q : Path} (ne : q.place ≠ p.place) :
    (fs.discard p).get? q = fs.get? q := by
  unfold discard remove
  cases h : fs.get? p with
  | none => rfl
  | some e =>
    cases e with
    | directory => rfl
    | file number text => simp only [get?]; rw [Keyed.get?_erase_of_ne ne]
    | socket owner => simp only [get?]; rw [Keyed.get?_erase_of_ne ne]

/-- The number of bytes that the path of a socket has to stay below. -/
def socketPathLimit : Nat := 108

/-- Binds a process to a new socket. The empty text is no path: a socket that is bound to it gets an
address of its own, and no file. Nor does one that can only stand for a directory name a new socket.
A null byte is refused wherever it stands; that one in front stands for an address without a file is
left out. -/
def bind (fs : Files) (path : String) (owner : Nat) : Except FileError Files :=
  let p := Path.ofText path
  if path.contains '\x00' then .error .nulInAddress
  else if socketPathLimit ≤ path.utf8ByteSize then .error .pathTooLong
  else if path = "" then .ok fs
  else
    match fs.get? p with
    | some .directory => .error .addressInUse
    | some _ => .error (if Path.endsInPoint path then .notADirectory else .addressInUse)
    | none =>
      match fs.misplaced? p with
      | some e => .error e
      | none =>
        if Path.endsInDirectory path then .error .notFound else .ok (fs.put p (.socket owner))

/-- Whether a file is locked. -/
def isLocked (fs : Files) (number : Nat) : Bool :=
  fs.locked.contains number

/-- Locks a file. -/
def lock (fs : Files) (number : Nat) : Files :=
  { fs with locked := number :: fs.locked }

/-- Gives up the lock of a file. -/
def unlock (fs : Files) (number : Nat) : Files :=
  { fs with locked := fs.locked.filter (· ≠ number) }

end Files
end BuildPipeline
