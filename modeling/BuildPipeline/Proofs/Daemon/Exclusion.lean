import BuildPipeline.Proofs.Daemon.Occupying
import Mathlib.Logic.Relation

/-!
One daemon for one configuration. A world has the files, the processes that run a daemon, and those
whose daemon was shut down while they are still there and hold their lock. What can happen to it
(`World.Occurs`) are starts, which go through or fail at the lock or behind it, one shutdown for
every daemon, and the end of a process with its daemon shut down or not. From any files whatever,
and in any order, this leads only to worlds in which no more than one daemon runs, has its files to
itself and loses them all when it is shut down (`World.Reached.exclusive`).

A daemon that runs keeps others out with its lock, which is on the file in the place of the lock
file (`Process.Owns.not_taken`). That file is gone with the shutdown while the lock is still held,
so the next daemon locks a file of its own, and the invariant has to say that no two processes have
one lock (`World.Invariant`).

Nothing is asked of the paths of a configuration, and what a daemon has on disk depends on them
(`World.exclusive_limits`). A socket in the place of the lock file or of the version file takes that
file's place. In the place of the lock file it keeps others out as well, since it cannot be opened.
An empty socket path is bound to no file, and a directory at a path is never removed.
-/

namespace BuildPipeline

/-- A process with the daemon that runs in it, or ran until it was shut down. -/
structure Process where
  pid : Nat
  daemon : Daemon
  deriving DecidableEq

/-- The files, the processes whose daemon runs, and those whose daemon was shut down while they are
still there. -/
structure World where
  files : Files
  running : List Process := []
  stopped : List Process := []

/-- A start does not fail before it gets to the lock. -/
def Daemon.ReachesLock (c : Config) (pid : Nat) (fs : Files) : Prop :=
  ∀ why left, (takeLock c pid).run.run fs = (.error why, left) →
    ∃ reason, why = .lockFailed reason

namespace Process

open Daemon

/-- What a process has on disk whose daemon runs: its socket, if that has a path, its lock, and its
version and its process id, each unless the socket stands in the place of it. -/
structure Owns (c : Config) (fs : Files) (p : Process) : Prop where
  config : p.daemon.config = c
  locked : fs.isLocked p.daemon.lock = true
  socket : c.socketPath ≠ "" → fs.get? (.ofText c.socketPath) = some (.socket p.pid)
  version : (Path.ofText c.versionPath).place ≠ (Path.ofText c.socketPath).place →
    fs.textAt? c.versionPath = some daemonVersion
  pid : (Path.ofText c.lockPath).place ≠ (Path.ofText c.socketPath).place →
    fs.get? (.ofText c.lockPath) = some (.file p.daemon.lock (toString p.pid ++ "\n"))

section Owns

variable {c : Config} {fs gs : Files} {p : Process} {providers : List Provider} {pid : Nat}

/-- Where the socket has the place of a file in the state directory, it stands there. -/
theorem Owns.get?_of_place (owns : p.Owns c fs) {name : String} (plain : Path.Plain name)
    (same : (Path.ofText (Path.join c.stateDir name)).place = (Path.ofText c.socketPath).place) :
    fs.get? (.ofText (Path.join c.stateDir name)) = some (.socket p.pid) := by
  rw [fs.get?_congr same]
  exact owns.socket (Path.ne_empty_of_place_join plain same)

/-- Nobody else gets the lock of a daemon that runs. -/
theorem Owns.not_taken (owns : p.Owns c fs) {lock : Nat} {held : Files} :
    (takeLock c pid).run.run fs ≠ (.ok lock, held) := by
  intro taken
  rw [run_takeLock] at taken
  split at taken
  · cases taken
  · rename_i ready made
    have keeps := Files.keeps_createDirectories made
    split at taken
    · cases taken
    · rename_i opened number opens
      split at taken
      · cases taken
      · rename_i free
        by_cases apart : (Path.ofText c.lockPath).place = (Path.ofText c.socketPath).place
        · have there := keeps.entries _ _ (owns.get?_of_place Config.plain_lock apart)
          rcases Files.openFile_of_ok opens with ⟨text, at_, -⟩ | ⟨none_, -⟩
          · cases at_.symm.trans there
          · cases none_.symm.trans there
        · have there := keeps.entries _ _ (owns.pid apart)
          rcases Files.openFile_of_ok opens with ⟨text, at_, same⟩ | ⟨none_, -⟩
          · cases at_.symm.trans there
            refine free ?_
            rw [same, Files.isLocked_congr keeps.locked]
            exact owns.locked
          · cases none_.symm.trans there

theorem Owns.not_started (owns : p.Owns c fs) {d : Daemon} :
    (startup c providers pid fs).2 ≠ .ok d := by
  intro starts
  obtain ⟨lock, held, taken, -⟩ := startup_of_ok starts
  exact owns.not_taken taken

theorem Owns.keeps (owns : p.Owns c fs) (keeps : fs.Keeps gs) : p.Owns c gs := by
  refine ⟨owns.config, ?_, fun some_ => keeps.entries _ _ (owns.socket some_), fun apart => ?_,
    fun apart => keeps.entries _ _ (owns.pid apart)⟩
  · rw [Files.isLocked_congr keeps.locked]
    exact owns.locked
  · obtain ⟨number, at_⟩ := Files.textAt?_eq_some.1 (owns.version apart)
    exact Files.textAt?_eq_some.2 ⟨number, keeps.entries _ _ at_⟩

/-- A daemon that has started has everything. -/
theorem owns_of_startup {d : Daemon} (starts : (startup c providers pid fs).2 = .ok d) :
    (⟨pid, d⟩ : Process).Owns c (startup c providers pid fs).1 := by
  obtain ⟨lock, held, taken, done, rfl⟩ := startup_of_ok starts
  have takes := takes_of_takeLock taken
  have bounds := bounds_occupy done
  obtain ⟨socket, version, others⟩ := occupy_of_ok done
  refine ⟨rfl, ?_, socket, version, fun apart => ?_⟩
  · rw [Files.isLocked_congr bounds.locked, Files.isLocked, takes.locked]
    simp [idle]
  · exact others _ _ c.lockPath_ne_versionPath apart takes.file

/-- A file in the state directory is no directory, not even where the socket has its place. -/
theorem Owns.plain_of_name (owns : p.Owns c fs) {name : String} (plain : Path.Plain name)
    (own : (Path.ofText (Path.join c.stateDir name)).place ≠ (Path.ofText c.socketPath).place →
      fs.get? (.ofText (Path.join c.stateDir name)) ≠ some .directory) :
    fs.get? (.ofText (Path.join c.stateDir name)) ≠ some .directory := by
  by_cases same :
      (Path.ofText (Path.join c.stateDir name)).place = (Path.ofText c.socketPath).place
  · rw [owns.get?_of_place plain same]
    simp
  · exact own same

/-- None of the files of a daemon that runs is a directory. -/
theorem Owns.plain (owns : p.Owns c fs) {path : String} (mem : path ∈ c.markerPaths)
    (some_ : path ≠ "") : fs.get? (.ofText path) ≠ some .directory := by
  simp only [Config.markerPaths, List.mem_cons, List.not_mem_nil, or_false] at mem
  rcases mem with rfl | rfl | rfl
  · rw [owns.socket some_]
    simp
  · refine owns.plain_of_name Config.plain_version fun apart at_ => ?_
    obtain ⟨number, there⟩ := Files.textAt?_eq_some.1 (owns.version apart)
    cases there.symm.trans at_
  · refine owns.plain_of_name Config.plain_lock fun apart at_ => ?_
    cases (owns.pid apart).symm.trans at_

/-- So they are gone once it is shut down. -/
theorem Owns.shutdown (owns : p.Owns c fs) {path : String} (mem : path ∈ c.markerPaths) :
    (p.daemon.shutdown fs).standsAt path = false := by
  rw [Daemon.shutdown, owns.config, ← Bool.not_eq_true]
  intro stands
  have some_ : path ≠ "" := by
    rintro rfl
    simp at stands
  have left := c.get?_of_standsAt mem stands
  rw [Config.removeMarkers, Files.get?_foldl_discard] at left
  split at left
  · cases left
  · exact owns.plain mem some_ left

end Owns

end Process

namespace World

open Daemon

/-- What can happen to the daemons of a configuration. -/
inductive Occurs (c : Config) : World → World → Prop
  | started {w : World} (providers : List Provider) (pid : Nat) (d : Daemon)
      (starts : (startup c providers pid w.files).2 = .ok d) :
      Occurs c w
        { w with files := (startup c providers pid w.files).1, running := ⟨pid, d⟩ :: w.running }
  | failed {w : World} (providers : List Provider) (pid : Nat) (why : LifecycleError)
      (fails : (startup c providers pid w.files).2 = .error why)
      (reaches : ReachesLock c pid w.files) :
      Occurs c w { w with files := (startup c providers pid w.files).1 }
  | shutDown {w : World} (p : Process) (runs : p ∈ w.running) :
      Occurs c w
        { files := p.daemon.shutdown w.files
          running := w.running.erase p
          stopped := p :: w.stopped }
  | dropped {w : World} (p : Process) (runs : p ∈ w.running) :
      Occurs c w { w with files := p.daemon.leave w.files, running := w.running.erase p }
  | left {w : World} (p : Process) (stays : p ∈ w.stopped) :
      Occurs c w { w with files := p.daemon.leave w.files, stopped := w.stopped.erase p }

/-- The worlds that come of some files, where nothing has been started yet. -/
def Reached (c : Config) (fs : Files) : World → Prop :=
  Relation.ReflTransGen (Occurs c) { files := fs }

/-- What a world comes to in which a configuration was started, shut down and dropped in any order,
beginning with the files `fs`. -/
structure Invariant (c : Config) (fs : Files) (w : World) : Prop where
  one : w.running.length ≤ 1
  owns : ∀ p ∈ w.running, p.Owns c w.files
  locked : ∀ p ∈ w.stopped, w.files.isLocked p.daemon.lock = true
  apart : ((w.running ++ w.stopped).map (·.daemon.lock)).Nodup
  directories : c.Opens fs w.files

section Worlds

variable {c : Config} {fs : Files} {v w : World} {p : Process}

theorem Invariant.running_eq (holds : Invariant c fs w) (mem : p ∈ w.running) :
    w.running = [p] := by
  have one := holds.one
  cases running : w.running with
  | nil => rw [running] at mem; cases mem
  | cons first rest =>
      rw [running] at one mem
      have none_ : rest = [] := List.length_eq_zero_iff.1 (by simpa using one)
      subst none_
      rw [List.mem_singleton.1 mem]

theorem Invariant.running_eq_nil (holds : Invariant c fs w) {pid lock : Nat} {held : Files}
    (taken : (takeLock c pid).run.run w.files = (.ok lock, held)) : w.running = [] := by
  cases running : w.running with
  | nil => rfl
  | cons first rest =>
      have owns := holds.owns first (by rw [running]; exact List.mem_cons_self)
      exact absurd taken owns.not_taken

/-- A lock that a start gets is no one else's. -/
theorem Invariant.not_mem_locks (holds : Invariant c fs w) {pid lock : Nat} {held : Files}
    (takes : Takes c pid w.files lock held) : lock ∉ w.stopped.map (·.daemon.lock) := by
  intro mem
  obtain ⟨p, stays, rfl⟩ := List.mem_map.1 mem
  have free := takes.free
  rw [holds.locked p stays] at free
  cases free

theorem Invariant.started (holds : Invariant c fs w) {providers : List Provider} {pid : Nat}
    {d : Daemon} (starts : (startup c providers pid w.files).2 = .ok d) :
    Invariant c fs
      { w with
        files := (startup c providers pid w.files).1
        running := ⟨pid, d⟩ :: w.running } := by
  have owns := Process.owns_of_startup starts
  obtain ⟨lock, held, taken, done, rfl⟩ := startup_of_ok starts
  have takes := takes_of_takeLock taken
  have bounds := bounds_occupy done
  have alone := holds.running_eq_nil taken
  refine ⟨?_, ?_, ?_, ?_,
    (holds.directories.trans takes.directories).trans bounds.directories⟩
  · simp [alone]
  · intro p mem
    rw [alone] at mem
    obtain rfl := List.mem_singleton.1 mem
    exact owns
  · intro p stays
    rw [Files.isLocked_congr bounds.locked, Files.isLocked, takes.locked, List.contains_cons]
    have still : w.files.locked.contains p.daemon.lock = true := holds.locked p stays
    rw [still, Bool.or_true]
  · have others := holds.apart
    rw [alone, List.nil_append] at others
    rw [alone, List.singleton_append, List.map_cons, List.nodup_cons]
    exact ⟨holds.not_mem_locks takes, others⟩

theorem Invariant.failed (holds : Invariant c fs w) {providers : List Provider} {pid : Nat}
    {why : LifecycleError} (fails : (startup c providers pid w.files).2 = .error why)
    (reaches : ReachesLock c pid w.files) :
    Invariant c fs { w with files := (startup c providers pid w.files).1 } := by
  cases result : (takeLock c pid).run.run w.files with
  | mk outcome left =>
      cases outcome with
      | error why' =>
          obtain ⟨reason, rfl⟩ := reaches why' left result
          have barred := barred_of_takeLock result
          have eq : (startup c providers pid w.files).1 = left := by
            unfold startup
            rw [result]
          rw [eq]
          refine ⟨holds.one, fun p runs => (holds.owns p runs).keeps barred.keeps,
            fun p stays => ?_, holds.apart, holds.directories.trans barred.bounds.directories⟩
          rw [Files.isLocked_congr barred.bounds.locked]
          exact holds.locked p stays
      | ok lock =>
          have alone := holds.running_eq_nil result
          have fresh := holds.not_mem_locks (takes_of_takeLock result)
          have undoes := undoes_of_taken result fails
          refine ⟨holds.one, ?_, ?_, holds.apart, holds.directories.trans undoes.directories⟩
          · intro p runs
            rw [alone] at runs
            cases runs
          · intro p stays
            rw [undoes.locked _ fun same => fresh (same ▸ List.mem_map_of_mem stays)]
            exact holds.locked p stays

theorem Invariant.shutDown (holds : Invariant c fs w) (runs : p ∈ w.running) :
    Invariant c fs
      { files := p.daemon.shutdown w.files
        running := w.running.erase p
        stopped := p :: w.stopped } := by
  have alone := holds.running_eq runs
  have bounds : c.Bounds w.files (p.daemon.shutdown w.files) := by
    unfold Daemon.shutdown
    rw [(holds.owns p runs).config]
    exact Files.bounds_foldl_discard w.files c.markers
  rw [alone, List.erase_cons_head]
  refine ⟨Nat.zero_le 1, List.forall_mem_nil _, ?_, ?_,
    holds.directories.trans bounds.directories⟩
  · intro other stays
    rw [Files.isLocked_congr bounds.locked]
    rcases List.mem_cons.1 stays with rfl | stays
    · exact (holds.owns other runs).locked
    · exact holds.locked other stays
  · have apart := holds.apart
    rw [alone] at apart
    exact apart

theorem Invariant.dropped (holds : Invariant c fs w) (runs : p ∈ w.running) :
    Invariant c fs
      { w with files := p.daemon.leave w.files, running := w.running.erase p } := by
  have alone := holds.running_eq runs
  have apart := holds.apart
  rw [alone, List.singleton_append, List.map_cons, List.nodup_cons] at apart
  rw [alone, List.erase_cons_head]
  refine ⟨Nat.zero_le 1, List.forall_mem_nil _, ?_, apart.2, holds.directories⟩
  intro other stays
  have ne : other.daemon.lock ≠ p.daemon.lock :=
    fun same => apart.1 (same ▸ List.mem_map_of_mem stays)
  exact (Files.isLocked_unlock ne).trans (holds.locked other stays)

theorem Invariant.left (holds : Invariant c fs w) (stays : p ∈ w.stopped) :
    Invariant c fs
      { w with files := p.daemon.leave w.files, stopped := w.stopped.erase p } := by
  have apart : ((p :: (w.running ++ w.stopped.erase p)).map (·.daemon.lock)).Nodup := by
    refine (List.Perm.map _ ?_).nodup_iff.1 holds.apart
    exact ((List.perm_cons_erase stays).append_left _).trans List.perm_middle
  rw [List.map_cons, List.nodup_cons] at apart
  have others : ∀ other ∈ w.running ++ w.stopped.erase p,
      other.daemon.lock ≠ p.daemon.lock :=
    fun other mem same => apart.1 (same ▸ List.mem_map_of_mem mem)
  refine ⟨holds.one, fun other runs => ?_, fun other mem => ?_, apart.2, holds.directories⟩
  · have owns := holds.owns other runs
    refine ⟨owns.config, ?_, owns.socket, owns.version, owns.pid⟩
    exact (Files.isLocked_unlock (others other (List.mem_append_left _ runs))).trans owns.locked
  · exact (Files.isLocked_unlock (others other (List.mem_append_right _ mem))).trans
      (holds.locked other (List.mem_of_mem_erase mem))

/-- Whatever happens keeps the invariant. -/
theorem Invariant.occurs (holds : Invariant c fs v) (occurs : Occurs c v w) : Invariant c fs w := by
  cases occurs with
  | started providers pid d starts => exact holds.started starts
  | failed providers pid why fails reaches => exact holds.failed fails reaches
  | shutDown p runs => exact holds.shutDown runs
  | dropped p runs => exact holds.dropped runs
  | left p stays => exact holds.left stays

theorem Reached.invariant (reached : Reached c fs w) : Invariant c fs w := by
  induction reached with
  | refl => exact ⟨Nat.zero_le 1, List.forall_mem_nil _, List.forall_mem_nil _, .nil, .refl fs⟩
  | tail _ occurs ih => exact ih.occurs occurs

/-- What is known of a configuration in a world that came of the files `fs`. Where a start that
failed with the lock leaves something in the place of one of its files, it is a directory, which was
there to begin with or which starts make on their way. -/
structure Exclusive (c : Config) (fs : Files) (w : World) : Prop where
  one : w.running.length ≤ 1
  owns : ∀ p ∈ w.running, p.Owns c w.files
  alone : ∀ p ∈ w.running, ∀ providers pid, ∃ why,
    (startup c providers pid w.files).2 = .error why
  cleared : ∀ p ∈ w.running, ∀ path ∈ c.markerPaths,
    (p.daemon.shutdown w.files).standsAt path = false
  undone : ∀ providers pid lock held why,
    (takeLock c pid).run.run w.files = (.ok lock, held) →
    (startup c providers pid w.files).2 = .error why →
    ∀ path ∈ c.markerPaths, (startup c providers pid w.files).1.standsAt path = true →
      (startup c providers pid w.files).1.get? (.ofText path) = some .directory ∧
        (fs.get? (.ofText path) = some .directory ∨ c.Crosses (.ofText path))

/-- In whatever order daemons of one configuration are started, shut down and dropped, no more than
one of them runs. It has its socket, its version and its process id on disk as far as they have
places of their own, no start succeeds beside it, and once it is shut down none of its files is
left; neither is one of a start that failed with the lock, but for directories. -/
theorem Reached.exclusive (reached : Reached c fs w) : Exclusive c fs w := by
  have holds := reached.invariant
  refine ⟨holds.one, holds.owns, fun p runs providers pid => ?_,
    fun p runs path mem => (holds.owns p runs).shutdown mem, ?_⟩
  · cases result : (startup c providers pid w.files).2 with
    | error why => exact ⟨why, rfl⟩
    | ok d => exact absurd result (holds.owns p runs).not_started
  · intro providers pid lock held why taken fails path mem stands
    have undoes := undoes_of_taken taken fails
    have left := undoes.cleared path mem stands
    exact ⟨left, holds.directories.trans undoes.directories _ left⟩

end Worlds

end World

/-! ## Starts over what was left of a daemon -/

namespace Daemon

/-- A configuration with its state in one directory and its socket at a given path. -/
def socketAt (path : String) : Config where
  stateDir := "/s"
  socketPath := path
  logPath := "/l"
  stepTimeout := none
  providers := []

/-- What is left of a daemon that was not shut down: a lock file with a long process id in it, and a
socket. -/
def littered : Files where
  entries := [(⟨true, ["s"]⟩, .directory), (⟨true, ["s", "daemon.pid"]⟩, .file 0 "1234567\n"),
    (⟨true, ["x"]⟩, .socket 1234567)]
  next := 1

/-- The same files with the lock taken. -/
def seized : Files where
  entries := [(⟨true, ["s"]⟩, .directory),
    (⟨true, ["s", "daemon.pid"]⟩, .file 0 (toString 1 ++ "\n")),
    (⟨true, ["x"]⟩, .socket 1234567)]
  next := 1
  locked := [0]

/-- The same files with the version written. -/
def versioned : Files where
  entries := seized.entries ++ [(⟨true, ["s", "daemon.version"]⟩, .file 1 daemonVersion)]
  next := 2
  locked := [0]

/-- The files of the state directory, as texts and as paths. -/
theorem paths_socketAt :
    (∀ path, (socketAt path).lockPath = "/s/daemon.pid" ∧
        (socketAt path).versionPath = "/s/daemon.version") ∧
      Path.ofText "/s/daemon.pid" = ⟨true, ["s", "daemon.pid"]⟩ ∧
      Path.ofText "/s/daemon.version" = ⟨true, ["s", "daemon.version"]⟩ := by
  have open_ : "/s".endsWith "/" = false := by
    rw [← String.endsWith_toSlice, String.Slice.endsWith_string_eq_false_iff]
    simp
    decide
  refine ⟨fun path => ⟨?_, ?_⟩, ?_, ?_⟩
  · simp [socketAt, Config.lockPath, Path.join, open_]
  · simp [socketAt, Config.versionPath, Path.join, open_]
  all_goals simp [Path.ofText, Path.splitOn_slash, List.splitOn_cons_eq_if_modifyHead]

/-- The state directory and a socket beside it, as paths. -/
theorem places_socketAt :
    Path.ofText "/s" = ⟨true, ["s"]⟩ ∧ Path.ofText "/x" = ⟨true, ["x"]⟩ := by
  constructor
  all_goals simp [Path.ofText, Path.splitOn_slash, List.splitOn_cons_eq_if_modifyHead]

/-- None of these texts can only stand for a directory. -/
theorem endsInDirectory_socketAt :
    Path.endsInDirectory "/s/daemon.pid" = false ∧
      Path.endsInDirectory "/s/daemon.version" = false ∧
      Path.endsInDirectory "/s" = false ∧ Path.endsInDirectory "/x" = false := by
  refine ⟨?_, ?_, ?_, ?_⟩
  all_goals
    simp [Path.endsInDirectory, Path.splitOn_slash, List.splitOn_cons_eq_if_modifyHead]

theorem badName?_socketAt :
    Files.badName? "s" = none ∧ Files.badName? "daemon.pid" = none ∧
      Files.badName? "daemon.version" = none := by
  refine ⟨?_, ?_, ?_⟩
  all_goals
    simp [Files.badName?]
    decide

theorem badText?_socketAt :
    Files.badText? "/s/daemon.pid" = none ∧ Files.badText? "/s/daemon.version" = none := by
  obtain ⟨-, lock, version⟩ := paths_socketAt
  obtain ⟨lockForm, versionForm, -⟩ := endsInDirectory_socketAt
  obtain ⟨directory, lockName, versionName⟩ := badName?_socketAt
  constructor
  · simp [Files.badText?, lock, lockForm, Files.badPath?, directory, lockName]
    decide
  · simp [Files.badText?, version, versionForm, Files.badPath?, directory, versionName]
    decide

/-- Where the state directory is there already, it stays as it is. -/
theorem createDirectories_socketAt {fs : Files} (there : fs.get? ⟨true, ["s"]⟩ = some .directory) :
    fs.createDirectories ⟨true, ["s"]⟩ = .ok fs := by
  simp [Files.createDirectories, Files.badPath?, badName?_socketAt.1, Path.steps, Files.isOpen,
    Files.isDirectory, Files.addDirectory, Files.contains, there]

theorem takeLock_socketAt (path : String) :
    (takeLock (socketAt path) 1).run.run littered = (.ok 0, seized) := by
  obtain ⟨texts, place, -⟩ := paths_socketAt
  have made : littered.createDirectories (.ofText "/s") = .ok littered := by
    rw [places_socketAt.1]
    exact createDirectories_socketAt rfl
  have opened : littered.openFile "/s/daemon.pid" = .ok (littered, 0) := by
    unfold Files.openFile
    rw [badText?_socketAt.1, place]
    rfl
  rw [run_takeLock, show (socketAt path).stateDir = "/s" from rfl, made, (texts path).1]
  dsimp only
  rw [opened, place]
  rfl

/-- Behind the lock everything is up to the socket. -/
theorem occupy_socketAt (path : String) :
    (occupy (socketAt path) 1).run.run seized = (bindSocket path 1).run.run versioned := by
  obtain ⟨texts, -, place⟩ := paths_socketAt
  have wrote : seized.writeFile "/s/daemon.version" daemonVersion = .ok versioned := by
    unfold Files.writeFile Files.openFile
    rw [badText?_socketAt.2, place]
    rfl
  unfold occupy
  rw [run_bind, run_withFiles, (texts path).2, wrote]
  rfl

theorem startup_socketAt {path : String}
    (bound : ((bindSocket path 1).run.run versioned).1 = .ok ()) :
    (startup (socketAt path) [] 1 littered).2 = .ok (idle (socketAt path) [] 0) := by
  have done : (occupy (socketAt path) 1).run.run seized =
      (.ok (), ((occupy (socketAt path) 1).run.run seized).2) :=
    Prod.ext (by rw [occupy_socketAt, bound]) rfl
  rw [startup_of_occupied (takeLock_socketAt path) done]

/-- What stands at the path of the socket gives way to it, unless it is a directory. -/
theorem bindSocket_over {path : String} {place parent : Path} {cleared : Files}
    (leads : Path.ofText path = place) (form : Path.endsInDirectory path = false)
    (some_ : path ≠ "") (whole : path.contains '\x00' = false)
    (short : path.utf8ByteSize < Files.socketPathLimit) (way : place.parent? = some parent)
    (made : versioned.createDirectories parent = .ok versioned)
    (there : versioned.contains place = true) (removed : versioned.remove place = .ok cleared)
    (free : cleared.get? place = none) (room : cleared.misplaced? place = none) :
    ((bindSocket path 1).run.run versioned).1 = .ok () := by
  subst leads
  rw [← Files.standsAt_eq_contains some_ form] at there
  rw [run_bindSocket_of_made way made, run_replaceSocket, if_pos there, removed]
  dsimp only
  rw [run_withFiles, Files.bind_of_free whole short some_ free room form]

theorem bindSocket_stale : ((bindSocket "/x" 1).run.run versioned).1 = .ok () := by
  obtain ⟨-, leads⟩ := places_socketAt
  obtain ⟨-, -, -, form⟩ := endsInDirectory_socketAt
  exact bindSocket_over leads form (by decide) (by simp) (by decide) rfl rfl rfl rfl rfl rfl

theorem bindSocket_lockPath :
    ((bindSocket "/s/daemon.pid" 1).run.run versioned).1 = .ok () := by
  obtain ⟨-, leads, -⟩ := paths_socketAt
  obtain ⟨form, -⟩ := endsInDirectory_socketAt
  exact bindSocket_over leads form (by decide) (by simp) (by decide) rfl
    (createDirectories_socketAt rfl) rfl rfl rfl rfl

/-- An empty path is bound to no file. -/
theorem bindSocket_empty : ((bindSocket "" 1).run.run versioned).1 = .ok () := by
  have way : (Path.ofText "").parent? = none := by
    simp [Path.ofText, Path.splitOn_slash, Path.parent?]
  have bound : versioned.bind "" 1 = .ok versioned := by
    simp [Files.bind, Files.socketPathLimit]
  have same : bindSocket "" 1 = replaceSocket "" 1 := by
    unfold bindSocket
    rw [way]
  rw [same, run_replaceSocket, if_neg (by simp), run_withFiles, bound]

/-- The state directory cannot be removed for a socket. -/
theorem bindSocket_stateDir :
    (bindSocket "/s" 1).run.run versioned =
      (.error (.file "Is a directory (os error 21)"), versioned) := by
  obtain ⟨leads, -⟩ := places_socketAt
  obtain ⟨-, -, form, -⟩ := endsInDirectory_socketAt
  have way : (Path.ofText "/s").parent? = some ⟨true, []⟩ := by
    rw [leads]
    rfl
  have made : versioned.createDirectories ⟨true, []⟩ = .ok versioned := rfl
  have stands : versioned.standsAt "/s" = true := by
    rw [Files.standsAt_eq_contains (by decide) form, leads]
    rfl
  have stuck : versioned.remove (.ofText "/s") = .error .isADirectory := by
    rw [leads]
    rfl
  rw [run_bindSocket_of_made way made, run_replaceSocket, if_pos stands, stuck]
  rfl

end Daemon

namespace World

open Daemon

/-- A daemon that has started over what was left of another one, with its socket at a path. -/
def resumed (path : String) : World where
  files := (startup (socketAt path) [] 1 littered).1
  running := [⟨1, idle (socketAt path) [] 0⟩]

theorem reached_resumed {path : String}
    (bound : ((bindSocket path 1).run.run versioned).1 = .ok ()) :
    Reached (socketAt path) littered (resumed path) :=
  .single (.started [] 1 _ (startup_socketAt bound))

theorem exclusive_resumed :
    Reached (socketAt "/x") littered (resumed "/x") ∧
      Exclusive (socketAt "/x") littered (resumed "/x") := by
  have reached : Reached (socketAt "/x") littered (resumed "/x") := reached_resumed bindSocket_stale
  exact ⟨reached, reached.exclusive⟩

/-- Not every daemon that runs has its three files, and not every start that fails with the lock
leaves none of them. At the path of the lock file there may be the socket, nothing stands at an
empty socket path, and the state directory stays where the socket was to be bound in its place. -/
theorem exclusive_limits :
    (Reached (socketAt "/s/daemon.pid") littered (resumed "/s/daemon.pid") ∧
        (resumed "/s/daemon.pid").files.get? (.ofText (socketAt "/s/daemon.pid").lockPath) =
          some (.socket 1)) ∧
      (Reached (socketAt "") littered (resumed "") ∧
        (resumed "").files.standsAt (socketAt "").socketPath = false) ∧
      (takeLock (socketAt "/s") 1).run.run littered = (.ok 0, seized) ∧
      (startup (socketAt "/s") [] 1 littered).2 = .error (.file "Is a directory (os error 21)") ∧
      (startup (socketAt "/s") [] 1 littered).1.standsAt (socketAt "/s").socketPath = true := by
  have start : startup (socketAt "/s") [] 1 littered =
      ((socketAt "/s").removeMarkers (versioned.unlock 0), .error _) :=
    startup_of_unoccupied (takeLock_socketAt "/s")
      ((occupy_socketAt "/s").trans bindSocket_stateDir)
  refine ⟨⟨reached_resumed bindSocket_lockPath, ?_⟩, ⟨reached_resumed bindSocket_empty, ?_⟩,
    takeLock_socketAt "/s", ?_, ?_⟩
  · have owns := Process.owns_of_startup (startup_socketAt bindSocket_lockPath)
    have text : (socketAt "/s/daemon.pid").lockPath = "/s/daemon.pid" := (paths_socketAt.1 _).1
    have same := congrArg (fun path => (Path.ofText path).place) text
    exact owns.get?_of_place Config.plain_lock same
  · simp [socketAt]
  · rw [start]
  · have directory : (versioned.unlock 0).get? (.ofText "/s") = some .directory := by
      rw [places_socketAt.1]
      rfl
    obtain ⟨-, -, form, -⟩ := endsInDirectory_socketAt
    have stays := Config.get?_removeMarkers_of_aside (c := socketAt "/s") directory fun _ => rfl
    rw [start, show (socketAt "/s").socketPath = "/s" from rfl,
      Files.standsAt_eq_contains (by decide) form]
    simp [Files.contains, stays]

end World
end BuildPipeline
