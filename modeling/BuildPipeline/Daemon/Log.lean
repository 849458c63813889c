import BuildPipeline.Daemon.Startup

/-!
The lines that a daemon adds to its log when it starts: one that marks the start, and one for the
error where the start failed. The directory of the log is made if it is missing.
-/

namespace BuildPipeline.Daemon

/-- A line about a start. -/
inductive LogLine where
  | starting (pid : Nat)
  | failed (e : LifecycleError)
  deriving DecidableEq, Repr

namespace LogLine

/-- A line as it stands in the log. -/
def text : LogLine → String
  | starting pid => "--- kilnd: starting (pid: " ++ toString pid ++ ") ---"
  | failed e => "ERROR kilnd failed to start: " ++ e.message

/-- Adds a line to the log at a path. -/
def append (line : LogLine) (path : String) (fs : Files) : Except FileError Files := do
  let fs ← match (Path.ofText path).parent? with
    | some parent => fs.createDirectories parent
    | none => pure fs
  fs.appendFile path (line.text ++ "\n")

end LogLine

/-- The directory and the name of a log, which both have to exist. -/
def logTarget? (path : String) : Except LifecycleError (Path × String) :=
  let p := Path.ofText path
  match p.parent?, p.name? with
  | some parent, some name => .ok (parent, name)
  | _, _ => .error .noStateDir

end BuildPipeline.Daemon
