import BuildPipeline.Proofs.Daemon.Starting
import BuildPipeline.Proofs.Paths

/-!
What a start does on disk once it has the lock. Taking the lock tells that nobody held it and leaves
the process id in the lock file (`Daemon.takes_of_takeLock`). A start that goes through has its
socket and its version then, and has left the lock file alone (`Daemon.occupy_of_ok`). One that
fails leaves nothing but directories at the paths of its files (`Daemon.undoes_of_taken`). Whatever
comes of it, no lock but its own is touched, and directories are made on its ways only
(`Config.Bounds`, `Daemon.bounds_occupy`). Only the lock file and the version file are in one
directory, under two names; the socket may be anywhere, also in the place of one of the two, and if
its path is empty it is nowhere.
-/

namespace BuildPipeline

namespace Config

variable {c : Config} {fs gs hs : Files} {p q : Path} {e : Entry}

/-- Whether a path leads to a directory that a start may make: one on the way to the state directory
or to the directory of the socket. -/
def Crosses (c : Config) (q : Path) : Prop :=
  ∃ way, (way = .ofText c.stateDir ∨ (Path.ofText c.socketPath).parent? = some way) ∧
    ∃ step ∈ way.steps, q.place = step.place

theorem lockPath_ne_versionPath (c : Config) :
    (Path.ofText c.lockPath).place ≠ (Path.ofText c.versionPath).place :=
  Path.place_join_ne plain_lock plain_version (by decide)

/-- The directories of the files `gs` were there in `fs` already, or are on the ways of a start. -/
def Opens (c : Config) (fs gs : Files) : Prop :=
  ∀ q, gs.get? q = some .directory → fs.get? q = some .directory ∨ c.Crosses q

theorem Opens.refl (fs : Files) : c.Opens fs fs :=
  fun _ => .inl

theorem Opens.trans (first : c.Opens fs gs) (second : c.Opens gs hs) : c.Opens fs hs := by
  intro q at_
  rcases second q at_ with before | crosses
  · exact first q before
  · exact .inr crosses

/-- What a start may do to the files without touching a lock: directories are made on its ways
only. -/
structure Bounds (c : Config) (fs gs : Files) : Prop where
  locked : gs.locked = fs.locked
  directories : c.Opens fs gs

theorem Bounds.refl (fs : Files) : c.Bounds fs fs :=
  ⟨rfl, .refl fs⟩

theorem Bounds.trans (first : c.Bounds fs gs) (second : c.Bounds gs hs) : c.Bounds fs hs :=
  ⟨second.locked.trans first.locked, first.directories.trans second.directories⟩

end Config

namespace Files

variable {c : Config} {fs gs : Files} {p q : Path} {e : Entry} {path : String} {number : Nat}

/-- What stands somewhere once something was put at a path. -/
theorem get?_put (fs : Files) (p q : Path) (e : Entry) :
    (fs.put p e).get? q =
      if q.place = p.place ∧ p.place.names ≠ [] then some e else fs.get? q := by
  by_cases same : q.place = p.place
  · rw [get?_congr _ same, fs.get?_congr same]
    by_cases named : p.place.names = []
    · simp [get?, named]
    · rw [get?_put_self fs e named, if_pos ⟨same, named⟩]
  · rw [if_neg fun both => same both.1, get?_put_of_ne fs e same]

/-- A path at which no directory stands has a name. -/
theorem named_of_get? (other : fs.get? p ≠ some .directory) : p.place.names ≠ [] := by
  intro none_
  exact other (by simp [get?, none_])

theorem bounds_put (fs : Files) (p : Path) (plain : e ≠ .directory) : c.Bounds fs (fs.put p e) := by
  refine ⟨rfl, fun q at_ => .inl ?_⟩
  rw [get?_put] at at_
  split at at_
  · exact absurd (Option.some.inj at_) plain
  · exact at_

theorem directories_foldl_addDirectory {paths : List Path}
    (at_ : (paths.foldl addDirectory fs).get? q = some .directory) :
    fs.get? q = some .directory ∨ ∃ p ∈ paths, q.place = p.place := by
  induction paths generalizing fs with
  | nil => exact .inl at_
  | cons p paths ih =>
      rcases ih at_ with made | ⟨other, mem, same⟩
      · unfold addDirectory at made
        split at made
        · exact .inl made
        · rw [get?_put] at made
          split at made
          · rename_i here
            exact .inr ⟨p, List.mem_cons_self, here.1⟩
          · exact .inl made
      · exact .inr ⟨other, List.mem_cons_of_mem _ mem, same⟩

theorem bounds_createDirectories
    (way : p = .ofText c.stateDir ∨ (Path.ofText c.socketPath).parent? = some p)
    (made : fs.createDirectories p = .ok gs) : c.Bounds fs gs := by
  refine ⟨(keeps_createDirectories made).locked, fun q at_ => ?_⟩
  unfold createDirectories at made
  split at made
  · cases made
  · split at made
    · cases made
      rcases directories_foldl_addDirectory at_ with before | crosses
      · exact .inl before
      · exact .inr ⟨p, way, crosses⟩
    · split at made <;> cases made

/-- What is at the path of a file that was opened. -/
theorem openFile_of_ok (opened : fs.openFile path = .ok (gs, number)) :
    (∃ text, fs.get? (.ofText path) = some (.file number text) ∧ gs = fs) ∨
      fs.get? (.ofText path) = none ∧
        gs = { fs.put (.ofText path) (.file number "") with next := fs.next + 1 } := by
  unfold openFile at opened
  dsimp only at opened
  split at opened
  · cases opened
  · rename_i text _ at_
    cases opened
    exact .inl ⟨text, at_, rfl⟩
  · cases opened
  · cases opened
  · rename_i free
    split at opened
    · cases opened
    · cases opened
      exact .inr ⟨free, rfl⟩

theorem bounds_openFile (opened : fs.openFile path = .ok (gs, number)) : c.Bounds fs gs := by
  rcases openFile_of_ok opened with ⟨text, at_, rfl⟩ | ⟨free, rfl⟩
  · exact .refl gs
  · exact ⟨rfl, (bounds_put (c := c) fs (.ofText path) (by simp)).directories⟩

/-- A file that is open is at its path. -/
theorem get?_openFile (opened : fs.openFile path = .ok (gs, number)) :
    ∃ text, gs.get? (.ofText path) = some (.file number text) := by
  rcases openFile_of_ok opened with ⟨text, at_, rfl⟩ | ⟨free, rfl⟩
  · exact ⟨text, at_⟩
  · have named : (Path.ofText path).place.names ≠ [] := named_of_get? (by rw [free]; nofun)
    exact ⟨"", get?_put_self fs _ named⟩

theorem writeFile_of_ok {text : String} (written : fs.writeFile path text = .ok gs) :
    ∃ opened number, fs.openFile path = .ok (opened, number) ∧
      gs = opened.put (.ofText path) (.file number text) := by
  unfold writeFile at written
  cases opens : fs.openFile path with
  | error e =>
      rw [opens] at written
      cases written
  | ok result =>
      obtain ⟨opened, number⟩ := result
      rw [opens] at written
      cases written
      exact ⟨opened, number, rfl, rfl⟩

theorem bounds_writeFile {text : String} (written : fs.writeFile path text = .ok gs) :
    c.Bounds fs gs := by
  obtain ⟨opened, number, opens, rfl⟩ := writeFile_of_ok written
  exact (bounds_openFile opens).trans (bounds_put opened _ (by simp))

/-- The text at a path is the one of the file that is there. -/
theorem textAt?_eq_some {text : String} :
    fs.textAt? path = some text ↔ ∃ number, fs.get? (.ofText path) = some (.file number text) := by
  unfold textAt?
  split
  · rename_i number there at_
    simp [at_]
  · rename_i other
    simpa using fun number at_ => other number text at_

theorem textAt?_writeFile {text : String} (written : fs.writeFile path text = .ok gs) :
    gs.textAt? path = some text := by
  obtain ⟨opened, number, opens, rfl⟩ := writeFile_of_ok written
  obtain ⟨old, at_⟩ := get?_openFile opens
  have named : (Path.ofText path).place.names ≠ [] := named_of_get? (by rw [at_]; nofun)
  exact textAt?_eq_some.2 ⟨number, get?_put_self opened _ named⟩

theorem get?_writeFile_of_ne {text : String} (written : fs.writeFile path text = .ok gs)
    (ne : q.place ≠ (Path.ofText path).place) (at_ : fs.get? q = some e) : gs.get? q = some e := by
  obtain ⟨opened, number, opens, rfl⟩ := writeFile_of_ok written
  rw [get?_put_of_ne opened _ ne]
  exact (keeps_openFile opens).entries q e at_

theorem discard_of_remove (removed : fs.remove p = .ok gs) : fs.discard p = gs := by
  rw [discard, removed]

theorem bounds_discard (fs : Files) (p : Path) : c.Bounds fs (fs.discard p) := by
  refine ⟨locked_discard fs p, fun q at_ => .inl ?_⟩
  rw [get?_discard] at at_
  split at at_
  · cases at_
  · exact at_

theorem bounds_foldl_discard (fs : Files) (paths : List Path) :
    c.Bounds fs (paths.foldl discard fs) := by
  induction paths generalizing fs with
  | nil => exact .refl fs
  | cons p paths ih => exact (bounds_discard fs p).trans (ih _)

/-- Files that have the same locks agree about each of them. -/
theorem isLocked_congr (same : gs.locked = fs.locked) (number : Nat) :
    gs.isLocked number = fs.isLocked number := by
  rw [isLocked, same]
  rfl

/-- Giving up a lock leaves the other ones. -/
theorem isLocked_unlock {other : Nat} (ne : other ≠ number) :
    (fs.unlock number).isLocked other = fs.isLocked other := by
  rw [Bool.eq_iff_iff]
  simp [isLocked, unlock, ne]

/-- A socket that was bound is where nothing was, unless it has no path. -/
theorem bind_of_ok {owner : Nat} (bound : fs.bind path owner = .ok gs) :
    path = "" ∧ gs = fs ∨
      path ≠ "" ∧ fs.get? (.ofText path) = none ∧ gs = fs.put (.ofText path) (.socket owner) := by
  unfold bind at bound
  dsimp only at bound
  split at bound
  · cases bound
  split at bound
  · cases bound
  split at bound
  · rename_i empty
    cases bound
    exact .inl ⟨empty, rfl⟩
  · rename_i some_
    split at bound
    · cases bound
    · cases bound
    · rename_i free
      split at bound
      · cases bound
      · split at bound
        · cases bound
        · cases bound
          exact .inr ⟨some_, free, rfl⟩

/-- A path that is free in a directory, and whose text is that of a new file, can be bound. -/
theorem bind_of_free {owner : Nat} (whole : path.contains '\x00' = false)
    (short : path.utf8ByteSize < socketPathLimit) (some_ : path ≠ "")
    (free : fs.get? (.ofText path) = none) (room : fs.misplaced? (.ofText path) = none)
    (form : Path.endsInDirectory path = false) :
    fs.bind path owner = .ok (fs.put (.ofText path) (.socket owner)) := by
  simp [bind, whole, Nat.not_le.2 short, some_, free, room, form]

theorem bounds_bind {owner : Nat} (bound : fs.bind path owner = .ok gs) : c.Bounds fs gs := by
  rcases bind_of_ok bound with ⟨-, rfl⟩ | ⟨-, -, rfl⟩
  · exact .refl gs
  · exact bounds_put fs _ (by simp)

/-- What stands at a path that can only stand for a directory is one. -/
theorem directory_of_standsAt (stands : fs.standsAt path = true)
    (form : Path.endsInDirectory path = true) : fs.get? (.ofText path) = some .directory := by
  by_cases empty : path = ""
  · simp [standsAt, empty] at stands
  · simpa [standsAt, empty, form, isDirectory] using stands

/-- Any other text but the empty one is the path of whatever is there. -/
theorem standsAt_eq_contains (some_ : path ≠ "") (file : Path.endsInDirectory path = false) :
    fs.standsAt path = fs.contains (.ofText path) := by
  simp [standsAt, some_, file]

theorem get?_of_standsAt (stands : fs.standsAt path = true)
    (file : Path.endsInDirectory path = false) : fs.get? (.ofText path) ≠ none := by
  have some_ : path ≠ "" := by
    rintro rfl
    simp at stands
  rw [standsAt_eq_contains some_ file] at stands
  simpa [contains, Option.isSome_iff_ne_none] using stands

end Files

/-- Nothing but directories is left at the paths of the files that show that a daemon runs. -/
theorem Config.get?_of_standsAt (c : Config) {fs : Files} {path : String}
    (mem : path ∈ c.markerPaths) (stands : (c.removeMarkers fs).standsAt path = true) :
    (c.removeMarkers fs).get? (.ofText path) = some .directory := by
  cases form : Path.endsInDirectory path with
  | true => exact Files.directory_of_standsAt stands form
  | false =>
      have there := Files.get?_of_standsAt stands form
      have among := mem_markers_of_mem mem form
      unfold removeMarkers at there ⊢
      rw [Files.get?_foldl_discard] at there ⊢
      split at there
      · exact absurd rfl there
      · rename_i kept
        rw [if_neg kept]
        simpa [show ∃ p ∈ c.markers, (Path.ofText path).place = p.place from ⟨_, among, rfl⟩]
          using kept

namespace Daemon

variable {c : Config} {pid : Nat} {fs gs : Files} {α β : Type}

/-! ## Steps -/

theorem run_withFiles (change : Files → Except FileError Files)
    (failed : String → LifecycleError) (fs : Files) :
    (withFiles change failed).run.run fs =
      match change fs with
      | .ok gs => (.ok (), gs)
      | .error e => (.error (failed e.message), fs) := by
  unfold withFiles
  rw [run_bind, run_get]
  dsimp only
  cases change fs with
  | ok gs => rfl
  | error e => rfl

/-- Wherever a step stops, the files are within bounds. -/
def Tame (c : Config) (x : Step α) : Prop :=
  ∀ fs, c.Bounds fs (x.run.run fs).2

theorem tame_get : Tame c get :=
  fun fs => .refl fs

theorem tame_withFiles {change : Files → Except FileError Files}
    {failed : String → LifecycleError}
    (bounds : ∀ {fs gs}, change fs = .ok gs → c.Bounds fs gs) :
    Tame c (withFiles change failed) := by
  intro fs
  rw [run_withFiles]
  split
  · rename_i made
    exact bounds made
  · exact .refl fs

theorem Tame.bind {x : Step α} {f : α → Step β} (first : Tame c x) (then_ : ∀ a, Tame c (f a)) :
    Tame c (x >>= f) := by
  intro fs
  have bounds := first fs
  rw [run_bind]
  generalize x.run.run fs = result at bounds ⊢
  obtain ⟨_ | a, gs⟩ := result
  · exact bounds
  · exact bounds.trans (then_ a gs)

theorem tame_replaceSocket (path : String) : Tame c (replaceSocket path pid) := by
  have clears : Tame c (withFiles (·.remove (.ofText path)) .file) :=
    tame_withFiles fun {fs gs} removed =>
      Files.discard_of_remove removed ▸ Files.bounds_discard fs _
  have binds : Tame c (withFiles (·.bind path pid) (.bindFailed path)) :=
    tame_withFiles Files.bounds_bind
  refine tame_get.bind fun files => ?_
  split
  · exact clears.bind fun _ => binds
  · exact binds

theorem tame_bindSocket : Tame c (bindSocket c.socketPath pid) := by
  unfold bindSocket
  cases way : (Path.ofText c.socketPath).parent? with
  | none => exact tame_replaceSocket c.socketPath
  | some parent =>
      refine Tame.bind (tame_withFiles fun made => ?_) fun _ => tame_replaceSocket c.socketPath
      exact Files.bounds_createDirectories (.inr way) made

theorem tame_occupy : Tame c (occupy c pid) :=
  (tame_withFiles Files.bounds_writeFile).bind fun _ => tame_bindSocket

theorem bounds_occupy {result : Except LifecycleError Unit}
    (outcome : (occupy c pid).run.run fs = (result, gs)) : c.Bounds fs gs := by
  have bounds : c.Bounds fs ((occupy c pid).run.run fs).2 := tame_occupy fs
  rw [outcome] at bounds
  exact bounds

/-- A step that goes through has gone through its parts. -/
theorem run_bind_of_ok {x : Step α} {f : α → Step β} {b : β}
    (done : (x >>= f).run.run fs = (.ok b, gs)) :
    ∃ a hs, x.run.run fs = (.ok a, hs) ∧ (f a).run.run hs = (.ok b, gs) := by
  rw [run_bind] at done
  generalize x.run.run fs = result at done ⊢
  obtain ⟨_ | a, hs⟩ := result
  · cases done
  · exact ⟨a, hs, rfl, done⟩

theorem withFiles_of_ok {change : Files → Except FileError Files}
    {failed : String → LifecycleError} {u : Unit}
    (done : (withFiles change failed).run.run fs = (.ok u, gs)) : change fs = .ok gs := by
  rw [run_withFiles] at done
  split at done
  · rename_i made
    cases done
    exact made
  · cases done

/-- A process has a socket at a path, unless the path is empty, and everything else is where it
was. -/
structure Binds (path : String) (pid : Nat) (fs gs : Files) : Prop where
  socket : path ≠ "" → gs.get? (.ofText path) = some (.socket pid)
  others : ∀ q e, q.place ≠ (Path.ofText path).place → fs.get? q = some e → gs.get? q = some e

section Binds

variable {path : String} {ready : Files}

/-- What was done before in the place of the socket does not matter. -/
theorem Binds.after (binds : Binds path pid ready gs)
    (others : ∀ q e, q.place ≠ (Path.ofText path).place → fs.get? q = some e →
      ready.get? q = some e) : Binds path pid fs gs :=
  ⟨binds.socket, fun q e ne at_ => binds.others q e ne (others q e ne at_)⟩

theorem binds_of_bind (bound : fs.bind path pid = .ok gs) : Binds path pid fs gs := by
  rcases Files.bind_of_ok bound with ⟨empty, rfl⟩ | ⟨-, free, rfl⟩
  · exact ⟨fun some_ => absurd empty some_, fun _ _ _ at_ => at_⟩
  · have named : (Path.ofText path).place.names ≠ [] := Files.named_of_get? (by rw [free]; nofun)
    refine ⟨fun _ => Files.get?_put_self fs _ named, fun q e ne at_ => ?_⟩
    rw [Files.get?_put_of_ne fs _ ne]
    exact at_

/-- What stands at the path of a socket has to be removed before that is bound. -/
theorem run_replaceSocket (path : String) (pid : Nat) (fs : Files) :
    (replaceSocket path pid).run.run fs =
      if fs.standsAt path then
        match fs.remove (.ofText path) with
        | .error e => (.error (.file e.message), fs)
        | .ok cleared => (withFiles (·.bind path pid) (.bindFailed path)).run.run cleared
      else (withFiles (·.bind path pid) (.bindFailed path)).run.run fs := by
  unfold replaceSocket
  rw [run_bind, run_get]
  dsimp only
  split
  · rw [run_bind, run_withFiles]
    cases fs.remove (.ofText path) with
    | ok cleared => rfl
    | error e => rfl
  · rfl

theorem run_bindSocket_of_made {parent : Path} (way : (Path.ofText path).parent? = some parent)
    (made : fs.createDirectories parent = .ok ready) :
    (bindSocket path pid).run.run fs = (replaceSocket path pid).run.run ready := by
  unfold bindSocket
  rw [way]
  dsimp only
  rw [run_bind, run_withFiles, made]

theorem replaceSocket_of_ok (done : (replaceSocket path pid).run.run fs = (.ok (), gs)) :
    Binds path pid fs gs := by
  rw [run_replaceSocket] at done
  split at done
  · split at done
    · cases done
    · rename_i cleared removed
      have discarded := Files.discard_of_remove removed
      subst discarded
      refine (binds_of_bind (withFiles_of_ok done)).after fun q e ne at_ => ?_
      rw [Files.get?_discard_of_ne _ ne]
      exact at_
  · exact binds_of_bind (withFiles_of_ok done)

theorem bindSocket_of_ok (done : (bindSocket path pid).run.run fs = (.ok (), gs)) :
    Binds path pid fs gs := by
  unfold bindSocket at done
  cases way : (Path.ofText path).parent? with
  | none =>
      rw [way] at done
      exact replaceSocket_of_ok done
  | some parent =>
      rw [way] at done
      obtain ⟨u, ready, made, done⟩ := run_bind_of_ok done
      have keeps := Files.keeps_createDirectories (withFiles_of_ok made)
      exact (replaceSocket_of_ok done).after fun q e _ at_ => keeps.entries q e at_

end Binds

/-- A process that has occupied its place has its socket, if that has a path, and its version,
unless the socket has taken its place; what stands anywhere else is still there. -/
theorem occupy_of_ok (done : (occupy c pid).run.run fs = (.ok (), gs)) :
    (c.socketPath ≠ "" → gs.get? (.ofText c.socketPath) = some (.socket pid)) ∧
      ((Path.ofText c.versionPath).place ≠ (Path.ofText c.socketPath).place →
        gs.textAt? c.versionPath = some daemonVersion) ∧
      ∀ q e, q.place ≠ (Path.ofText c.versionPath).place →
        q.place ≠ (Path.ofText c.socketPath).place → fs.get? q = some e → gs.get? q = some e := by
  obtain ⟨u, ready, written, done⟩ := run_bind_of_ok done
  have written := withFiles_of_ok written
  have binds := bindSocket_of_ok done
  refine ⟨binds.socket, fun apart => ?_, fun q e version apart at_ => ?_⟩
  · obtain ⟨number, at_⟩ := Files.textAt?_eq_some.1 (Files.textAt?_writeFile written)
    exact Files.textAt?_eq_some.2 ⟨number, binds.others _ _ apart at_⟩
  · exact binds.others q e apart (Files.get?_writeFile_of_ne written version at_)

/-- What a start has done that has the lock: nobody held it, and its process id is in the file. -/
structure Takes (c : Config) (pid : Nat) (fs : Files) (lock : Nat) (held : Files) : Prop where
  free : fs.isLocked lock = false
  locked : held.locked = lock :: fs.locked
  file : held.get? (.ofText c.lockPath) = some (.file lock (toString pid ++ "\n"))
  directories : c.Opens fs held

theorem takes_of_takeLock {lock : Nat} (taken : (takeLock c pid).run.run fs = (.ok lock, gs)) :
    Takes c pid fs lock gs := by
  rw [run_takeLock] at taken
  split at taken
  · cases taken
  · rename_i ready made
    split at taken
    · cases taken
    · rename_i opened number opens
      split at taken
      · cases taken
      · rename_i free
        cases taken
        have bounds : c.Bounds fs opened :=
          (Files.bounds_createDirectories (.inl rfl) made).trans (Files.bounds_openFile opens)
        obtain ⟨old, at_⟩ := Files.get?_openFile opens
        have named : (Path.ofText c.lockPath).place.names ≠ [] :=
          Files.named_of_get? (by rw [at_]; nofun)
        have put : c.Bounds (opened.lock lock)
            ((opened.lock lock).put (.ofText c.lockPath) (.file lock (toString pid ++ "\n"))) :=
          Files.bounds_put _ _ (by simp)
        refine ⟨?_, ?_, Files.get?_put_self _ _ named, bounds.directories.trans put.directories⟩
        · simpa [Files.isLocked_congr bounds.locked] using free
        · rw [put.locked]
          simp [Files.lock, bounds.locked]

/-- A start that misses the lock stays within bounds. -/
theorem Barred.bounds {why : LifecycleError} {left : Files} (barred : Barred c fs why left) :
    c.Bounds fs left := by
  cases barred with
  | stateDir e fails => exact .refl fs
  | lockFile e made fails => exact Files.bounds_createDirectories (.inl rfl) made
  | held made opens locked =>
      exact (Files.bounds_createDirectories (.inl rfl) made).trans (Files.bounds_openFile opens)

/-! ## Starts -/

variable {providers : List Provider} {lock : Nat} {held : Files} {why : LifecycleError}
  {d : Daemon}

theorem startup_of_occupied (taken : (takeLock c pid).run.run fs = (.ok lock, held))
    (done : (occupy c pid).run.run held = (.ok (), gs)) :
    startup c providers pid fs = (gs, .ok (idle c providers lock)) := by
  simp only [startup, taken, done]

theorem startup_of_unoccupied (taken : (takeLock c pid).run.run fs = (.ok lock, held))
    (fails : (occupy c pid).run.run held = (.error why, gs)) :
    startup c providers pid fs = (c.removeMarkers (gs.unlock lock), .error why) := by
  simp only [startup, taken, fails]

theorem startup_of_ok (starts : (startup c providers pid fs).2 = .ok d) :
    ∃ lock held, (takeLock c pid).run.run fs = (.ok lock, held) ∧
      (occupy c pid).run.run held = (.ok (), (startup c providers pid fs).1) ∧
      d = idle c providers lock := by
  cases taken : (takeLock c pid).run.run fs with
  | mk result held =>
      cases result with
      | error why =>
          unfold startup at starts
          rw [taken] at starts
          cases why <;> cases starts
      | ok lock =>
          cases done : (occupy c pid).run.run held with
          | mk outcome left =>
              cases outcome with
              | error why =>
                  rw [startup_of_unoccupied taken done] at starts
                  cases starts
              | ok u =>
                  rw [startup_of_occupied taken done] at starts ⊢
                  cases starts
                  exact ⟨lock, held, rfl, done, rfl⟩

theorem startup_of_taken (taken : (takeLock c pid).run.run fs = (.ok lock, held))
    (fails : (startup c providers pid fs).2 = .error why) :
    ∃ left, (occupy c pid).run.run held = (.error why, left) ∧
      (startup c providers pid fs).1 = c.removeMarkers (left.unlock lock) := by
  cases done : (occupy c pid).run.run held with
  | mk outcome left =>
      cases outcome with
      | error why' =>
          rw [startup_of_unoccupied taken done] at fails ⊢
          cases fails
          exact ⟨left, rfl, rfl⟩
      | ok u =>
          rw [startup_of_occupied taken done] at fails
          cases fails

/-- What a start has done to the files `fs` that failed with the lock: the other locks are held on,
and nothing but directories is left at the paths of its files. -/
structure Undoes (c : Config) (lock : Nat) (fs after : Files) : Prop where
  locked : ∀ other, other ≠ lock → after.isLocked other = fs.isLocked other
  directories : c.Opens fs after
  cleared : ∀ path ∈ c.markerPaths, after.standsAt path = true →
    after.get? (.ofText path) = some .directory

theorem undoes_of_taken (taken : (takeLock c pid).run.run fs = (.ok lock, held))
    (fails : (startup c providers pid fs).2 = .error why) :
    Undoes c lock fs (startup c providers pid fs).1 := by
  obtain ⟨left, outcome, eq⟩ := startup_of_taken taken fails
  have takes := takes_of_takeLock taken
  have bounds := bounds_occupy outcome
  have removed : c.Bounds (left.unlock lock) (c.removeMarkers (left.unlock lock)) :=
    Files.bounds_foldl_discard _ c.markers
  rw [eq]
  refine ⟨fun other ne => ?_, ?_, fun path mem => c.get?_of_standsAt mem⟩
  · rw [Files.isLocked_congr removed.locked, Files.isLocked_unlock ne,
      Files.isLocked_congr bounds.locked, Files.isLocked, takes.locked, List.contains_cons]
    simp [Files.isLocked, ne]
  · have unlocked : c.Opens left (left.unlock lock) := .refl left
    exact ((takes.directories.trans bounds.directories).trans unlocked).trans removed.directories

end Daemon
end BuildPipeline
