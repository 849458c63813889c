import BuildPipeline.Daemon.Basic
import BuildPipeline.Files

/-!
How a daemon starts and stops. On its way it takes the lock, writes its process id and its version,
and binds the socket last, because clients take a socket that answers for a daemon that is ready.

A start that finds the lock taken leaves all files alone, as they belong to the daemon that runs;
after any other failure the files of the configuration are removed. The lock file is opened without
emptying it, so that a daemon that runs keeps its process id in it.
-/

namespace BuildPipeline

/-- Why a daemon did not start. -/
inductive LifecycleError where
  | noStateDir
  | lockFailed (reason : String)
  | bindFailed (path reason : String)
  | file (reason : String)
  deriving DecidableEq, Repr

/-- The sentence reported for an error. -/
def LifecycleError.message : LifecycleError → String
  | .noStateDir => "Could not determine state directory"
  | .lockFailed _ => "Failed to acquire lock: daemon already running?"
  | .bindFailed path reason => "Failed to bind socket at " ++ path ++ ": " ++ reason
  | .file reason => "IO error: " ++ reason

namespace Config

/-- The paths of the files that show that a daemon runs. -/
def markerPaths (c : Config) : List String :=
  [c.socketPath, c.versionPath, c.lockPath]

/-- Where these files are. A path that can only stand for a directory is the path of none. -/
def markers (c : Config) : List Path :=
  (c.markerPaths.filter fun path => !Path.endsInDirectory path).map Path.ofText

/-- Removes the files that show that a daemon runs. -/
def removeMarkers (c : Config) (fs : Files) : Files :=
  c.markers.foldl Files.discard fs

/-- The providers that a configuration asks for. -/
def instances (c : Config) : List Provider :=
  c.providers.map ProviderSpec.provider

end Config

namespace Daemon

/-- A step of a start: it works on the files and may fail half way. -/
abbrev Step (α : Type) : Type :=
  ExceptT LifecycleError (StateM Files) α

/-- Does something with the files; where it fails they stay as they were. -/
def withFiles (change : Files → Except FileError Files) (failed : String → LifecycleError) :
    Step Unit := do
  match change (← get) with
  | .ok fs => set fs
  | .error e => throw (failed e.message)

/-- Takes the lock and writes the process id into the lock file. Once the file is locked nothing
fails any more here. Where there is no room for the process id, say, the lock is given up again, and
the start fails with the reason as a `file` error. -/
def takeLock (c : Config) (pid : Nat) : Step Nat := do
  withFiles (·.createDirectories (.ofText c.stateDir)) .file
  match (← get).openFile c.lockPath with
  | .error e => throw (.file e.message)
  | .ok (fs, number) =>
    set fs
    if fs.isLocked number then throw (.lockFailed "Resource temporarily unavailable (os error 11)")
    set ((fs.lock number).put (.ofText c.lockPath) (.file number (toString pid ++ "\n")))
    return number

/-- Binds the socket in the place of what stands at its path. -/
def replaceSocket (path : String) (pid : Nat) : Step Unit := do
  if (← get).standsAt path then
    withFiles (·.remove (.ofText path)) .file
  withFiles (·.bind path pid) (.bindFailed path)

/-- Binds the socket in the place of one that was left behind. -/
def bindSocket (path : String) (pid : Nat) : Step Unit := do
  match (Path.ofText path).parent? with
  | some parent => withFiles (·.createDirectories parent) .file
  | none => pure ()
  replaceSocket path pid

/-- What follows once the lock is held. -/
def occupy (c : Config) (pid : Nat) : Step Unit := do
  withFiles (·.writeFile c.versionPath daemonVersion) .file
  bindSocket c.socketPath pid

/-- Starts a daemon with the given providers as the process `pid`. -/
def startup (c : Config) (providers : List Provider) (pid : Nat) (fs : Files) :
    Files × Except LifecycleError Daemon :=
  match (takeLock c pid).run.run fs with
  | (.error (.lockFailed reason), fs) => (fs, .error (.lockFailed reason))
  | (.error e, fs) => (c.removeMarkers fs, .error e)
  | (.ok lock, fs) =>
    match (occupy c pid).run.run fs with
    | (.error e, fs) => (c.removeMarkers (fs.unlock lock), .error e)
    | (.ok (), fs) => (fs, .ok (idle c providers lock))

/-- Stops a daemon: the files that show that it runs are removed. The lock is held on. -/
def shutdown (d : Daemon) (fs : Files) : Files :=
  d.config.removeMarkers fs

/-- What becomes of the files when the process of a daemon is over, however it came to that: the
lock is free again. -/
def leave (d : Daemon) (fs : Files) : Files :=
  fs.unlock d.lock

end Daemon
end BuildPipeline
