import BuildPipeline.Daemon.Startup
import BuildPipeline.Proofs.Paths

/-!
What a start leaves on disk that fails before it has the lock. There are three such failures: the
state directory cannot be made, the lock file cannot be opened, and the lock is held by another
daemon (`Daemon.Barred`). Until then nothing that was there is changed (`Files.Keeps`). Behind a
lock that is held the start stops there. Behind the other two it cleans up as if the files of the
configuration were its own: whatever stands at their paths is removed, unless it is a directory
(`Daemon.startup_of_barred`). A daemon that runs on the same socket loses it that way
(`Daemon.socket_removed`).
-/

namespace BuildPipeline

namespace Files

variable {fs gs hs : Files} {p q : Path} {e : Entry}

/-- What stands somewhere depends on the place only that a path leads to. -/
theorem get?_congr (fs : Files) (same : q.place = p.place) : fs.get? q = fs.get? p := by
  unfold get?
  rw [same]

/-! ## What is added -/

/-- Everything that stands somewhere still stands there, and the same files are locked. -/
structure Keeps (fs gs : Files) : Prop where
  entries : ∀ p e, fs.get? p = some e → gs.get? p = some e
  locked : gs.locked = fs.locked

theorem Keeps.refl (fs : Files) : Keeps fs fs :=
  ⟨fun _ _ at_ => at_, rfl⟩

theorem Keeps.trans (first : Keeps fs gs) (second : Keeps gs hs) : Keeps fs hs :=
  ⟨fun p e at_ => second.entries p e (first.entries p e at_), second.locked.trans first.locked⟩

theorem keeps_put (free : fs.get? p = none) (e : Entry) : Keeps fs (fs.put p e) := by
  refine ⟨fun q f at_ => ?_, rfl⟩
  have ne : q.place ≠ p.place := by
    intro same
    rw [fs.get?_congr same, free] at at_
    cases at_
  rw [get?_put_of_ne fs e ne, at_]

theorem keeps_addDirectory (fs : Files) (p : Path) : Keeps fs (fs.addDirectory p) := by
  unfold addDirectory
  split
  · exact .refl fs
  · rename_i free
    exact keeps_put (by simpa [contains] using free) _

theorem keeps_foldl_addDirectory (fs : Files) (paths : List Path) :
    Keeps fs (paths.foldl addDirectory fs) := by
  induction paths generalizing fs with
  | nil => exact .refl fs
  | cons p paths ih => exact (keeps_addDirectory fs p).trans (ih _)

theorem keeps_createDirectories (made : fs.createDirectories p = .ok gs) : Keeps fs gs := by
  unfold createDirectories at made
  split at made
  · cases made
  · split at made
    · cases made
      exact keeps_foldl_addDirectory fs p.steps
    · split at made <;> cases made

theorem keeps_openFile {path : String} {number : Nat}
    (opened : fs.openFile path = .ok (gs, number)) : Keeps fs gs := by
  unfold openFile at opened
  dsimp only at opened
  split at opened
  · cases opened
  · cases opened
    exact .refl fs
  · cases opened
  · cases opened
  · rename_i free
    split at opened
    · cases opened
    · cases opened
      exact ⟨(keeps_put free _).entries, rfl⟩

/-! ## What is removed -/

/-- What is removed is gone, unless it is a directory, and nothing else is touched. -/
theorem get?_discard (fs : Files) (p q : Path) :
    (fs.discard p).get? q =
      if q.place = p.place ∧ fs.get? q ≠ some .directory then none else fs.get? q := by
  by_cases same : q.place = p.place
  · rw [get?_congr _ same, fs.get?_congr same]
    unfold discard remove
    cases there : fs.get? p with
    | none => simp [there]
    | some e =>
        have gone : e ≠ .directory →
            ({ fs with entries := Keyed.erase p.place fs.entries } : Files).get? p = none := by
          intro plain
          unfold get? at there ⊢
          split at there
          · exact absurd (Option.some.inj there).symm plain
          · rename_i named
            rw [if_neg named]
            exact Keyed.get?_erase_self p.place fs.entries
        cases e with
        | directory => simp [there]
        | file number text => simp [same, gone (by simp)]
        | socket owner => simp [same, gone (by simp)]
  · rw [if_neg fun both => same both.1]
    exact get?_discard_of_ne fs same

theorem locked_discard (fs : Files) (p : Path) : (fs.discard p).locked = fs.locked := by
  unfold discard remove
  split
  · rename_i removed
    split at removed <;> cases removed
    rfl
  · rfl

/-- Of several paths. -/
theorem get?_foldl_discard (fs : Files) (paths : List Path) (q : Path) :
    (paths.foldl discard fs).get? q =
      if (∃ p ∈ paths, q.place = p.place) ∧ fs.get? q ≠ some .directory then none
      else fs.get? q := by
  induction paths generalizing fs with
  | nil => simp
  | cons p paths ih =>
      rw [List.foldl_cons, ih, get?_discard]
      by_cases here : q.place = p.place
      · by_cases directory : fs.get? q = some .directory <;> simp [here, directory]
      · simp [here]

theorem locked_foldl_discard (fs : Files) (paths : List Path) :
    (paths.foldl discard fs).locked = fs.locked := by
  induction paths generalizing fs with
  | nil => rfl
  | cons p paths ih => exact (ih _).trans (locked_discard fs p)

end Files

namespace Config

variable {c : Config} {fs : Files} {p : Path} {e : Entry}

/-- Whether a path leads to one of the files that show that a daemon runs. -/
def Marks (c : Config) (p : Path) : Prop :=
  ∃ q ∈ c.markers, p.place = q.place

theorem mem_markers_of_mem {path : String} (mem : path ∈ c.markerPaths)
    (file : Path.endsInDirectory path = false) : .ofText path ∈ c.markers :=
  List.mem_map_of_mem (List.mem_filter.2 ⟨mem, by simpa using file⟩)

theorem plain_lock : Path.Plain "daemon.pid" :=
  ⟨by decide, by decide, by decide, by decide⟩

theorem plain_version : Path.Plain "daemon.version" :=
  ⟨by decide, by decide, by decide, by decide⟩

/-- However the state directory is written, the lock file and the version file are among them. -/
theorem marks_lockPath (c : Config) : c.Marks (.ofText c.lockPath) := by
  have mem : c.lockPath ∈ c.markerPaths := by simp [markerPaths]
  exact ⟨_, mem_markers_of_mem mem (Path.endsInDirectory_join c.stateDir plain_lock), rfl⟩

theorem marks_versionPath (c : Config) : c.Marks (.ofText c.versionPath) := by
  have mem : c.versionPath ∈ c.markerPaths := by simp [markerPaths]
  exact ⟨_, mem_markers_of_mem mem (Path.endsInDirectory_join c.stateDir plain_version), rfl⟩

theorem get?_removeMarkers_of_marks (at_ : fs.get? p = some e) (marks : c.Marks p)
    (plain : e ≠ .directory) : (c.removeMarkers fs).get? p = none := by
  unfold removeMarkers
  rw [Files.get?_foldl_discard, if_pos ⟨marks, by simpa [at_] using plain⟩]

theorem get?_removeMarkers_of_aside (at_ : fs.get? p = some e)
    (aside : c.Marks p → e = .directory) : (c.removeMarkers fs).get? p = some e := by
  unfold removeMarkers
  rw [Files.get?_foldl_discard, if_neg, at_]
  rintro ⟨marks, plain⟩
  exact plain (by rw [at_, aside marks])

theorem locked_removeMarkers (c : Config) (fs : Files) : (c.removeMarkers fs).locked = fs.locked :=
  Files.locked_foldl_discard fs c.markers

end Config

namespace Daemon

variable {c : Config} {pid : Nat} {fs left : Files} {why : LifecycleError}

/-- Why a start does not get the lock, and what it has made of the files by then. -/
inductive Barred (c : Config) (fs : Files) : LifecycleError → Files → Prop
  | stateDir (e : FileError) (fails : fs.createDirectories (.ofText c.stateDir) = .error e) :
      Barred c fs (.file e.message) fs
  | lockFile {ready : Files} (e : FileError)
      (made : fs.createDirectories (.ofText c.stateDir) = .ok ready)
      (fails : ready.openFile c.lockPath = .error e) : Barred c fs (.file e.message) ready
  | held {ready opened : Files} {number : Nat}
      (made : fs.createDirectories (.ofText c.stateDir) = .ok ready)
      (opens : ready.openFile c.lockPath = .ok (opened, number))
      (locked : opened.isLocked number = true) :
      Barred c fs (.lockFailed "Resource temporarily unavailable (os error 11)") opened

/-- A step that follows another one starts from the files that the other one leaves. -/
theorem run_bind {α β : Type} (x : Step α) (f : α → Step β) (fs : Files) :
    (x >>= f).run.run fs =
      match x.run.run fs with
      | (.ok a, gs) => (f a).run.run gs
      | (.error e, gs) => (.error e, gs) := by
  simp only [ExceptT.run_bind, StateT.run_bind]
  rcases x.run.run fs with ⟨_ | _, gs⟩ <;> rfl

theorem run_get (fs : Files) : (get : Step Files).run.run fs = (.ok fs, fs) :=
  rfl

theorem run_set (fs gs : Files) : (set gs : Step PUnit).run.run fs = (.ok ⟨⟩, gs) :=
  rfl

/-- What taking the lock comes to: three checks, and the process id is written after the last. -/
theorem run_takeLock (c : Config) (pid : Nat) (fs : Files) :
    (takeLock c pid).run.run fs =
      match fs.createDirectories (.ofText c.stateDir) with
      | .error e => (.error (.file e.message), fs)
      | .ok ready =>
        match ready.openFile c.lockPath with
        | .error e => (.error (.file e.message), ready)
        | .ok (opened, number) =>
          if opened.isLocked number then
            (.error (.lockFailed "Resource temporarily unavailable (os error 11)"), opened)
          else
            (.ok number, (opened.lock number).put (.ofText c.lockPath)
              (.file number (toString pid ++ "\n"))) := by
  unfold takeLock withFiles
  simp only [run_bind, run_get]
  cases fs.createDirectories (.ofText c.stateDir) with
  | error e => rfl
  | ok ready =>
      simp only [run_set]
      cases ready.openFile c.lockPath with
      | error e => rfl
      | ok result =>
          simp only [run_bind, run_set]
          split <;> rfl

/-- There are no other ways to miss the lock. -/
theorem barred_of_takeLock (fails : (takeLock c pid).run.run fs = (.error why, left)) :
    Barred c fs why left := by
  rw [run_takeLock] at fails
  split at fails
  · rename_i e fails'
    cases fails
    exact .stateDir e fails'
  · rename_i ready made
    split at fails
    · rename_i e fails'
      cases fails
      exact .lockFile e made fails'
    · rename_i opened number opens
      split at fails
      · rename_i locked
        cases fails
        exact .held made opens locked
      · cases fails

/-- Up to then nothing is lost. -/
theorem Barred.keeps (barred : Barred c fs why left) : fs.Keeps left := by
  cases barred with
  | stateDir e fails => exact .refl fs
  | lockFile e made fails => exact Files.keeps_createDirectories made
  | held made opens locked =>
      exact (Files.keeps_createDirectories made).trans (Files.keeps_openFile opens)

/-- What a start that missed the lock for a reason `why` makes of what was there: the locks stay,
and so does everything, except that after any failure other than a lock that is held the files of
the configuration are gone. -/
structure Misses (c : Config) (why : LifecycleError) (fs after : Files) : Prop where
  locked : after.locked = fs.locked
  aside : ∀ p e, fs.get? p = some e → (c.Marks p → e = .directory) → after.get? p = some e
  held : ∀ reason, why = .lockFailed reason → ∀ p e, fs.get? p = some e → after.get? p = some e
  cleared : (∀ reason, why ≠ .lockFailed reason) →
    ∀ p e, fs.get? p = some e → c.Marks p → e ≠ .directory → after.get? p = none

theorem misses_of_keeps {reason : String} (kept : fs.Keeps left) :
    Misses c (.lockFailed reason) fs left where
  locked := kept.locked
  aside p e at_ _ := kept.entries p e at_
  held _ _ := kept.entries
  cleared other := absurd rfl (other reason)

theorem misses_removeMarkers (kept : fs.Keeps left) (other : ∀ reason, why ≠ .lockFailed reason) :
    Misses c why fs (c.removeMarkers left) where
  locked := (c.locked_removeMarkers left).trans kept.locked
  aside p e at_ aside := Config.get?_removeMarkers_of_aside (kept.entries p e at_) aside
  held reason same := absurd same (other reason)
  cleared _ p e at_ := Config.get?_removeMarkers_of_marks (kept.entries p e at_)

/-- A start that does not get the lock fails for one of three reasons, and what it leaves is told
by the reason: all that was there behind a lock that is held, and otherwise all but the files of
the configuration. -/
theorem startup_of_barred (c : Config) (providers : List Provider) (pid : Nat) (fs : Files)
    (fails : (takeLock c pid).run.run fs = (.error why, left)) :
    (startup c providers pid fs).2 = .error why ∧ Barred c fs why left ∧
      Misses c why fs (startup c providers pid fs).1 := by
  have barred := barred_of_takeLock fails
  unfold startup
  rw [fails]
  -- the clean-up goes by the kind of the error, not by whether the lock was taken
  cases why with
  | lockFailed reason => exact ⟨rfl, barred, misses_of_keeps barred.keeps⟩
  | noStateDir => exact ⟨rfl, barred, misses_removeMarkers barred.keeps nofun⟩
  | bindFailed path reason => exact ⟨rfl, barred, misses_removeMarkers barred.keeps nofun⟩
  | file reason => exact ⟨rfl, barred, misses_removeMarkers barred.keeps nofun⟩

/-- A daemon that is to have its state where a file stands. -/
def misled : Config where
  stateDir := "/f"
  socketPath := "/x"
  logPath := "/l"
  stepTimeout := none
  providers := []

/-- A file, and the socket of a daemon that runs. -/
def inUse : Files where
  entries := [(⟨true, ["f"]⟩, .file 0 ""), (⟨true, ["x"]⟩, .socket 1)]
  next := 1

theorem takeLock_misled :
    (takeLock misled 2).run.run inUse = (.error (.file "File exists (os error 17)"), inUse) := by
  have place : Path.ofText "/f" = ⟨true, ["f"]⟩ := by
    simp [Path.ofText, Path.splitOn_slash, List.splitOn_cons_eq_if_modifyHead]
  have name : Files.badName? "f" = none := by
    simp [Files.badName?]
    decide
  have fails : inUse.createDirectories (.ofText "/f") = .error .alreadyExists := by
    rw [place, Files.createDirectories]
    simp only [Files.badPath?, List.findSome?_cons, name, List.findSome?_nil]
    rfl
  rw [run_takeLock, show misled.stateDir = "/f" from rfl, fails]
  rfl

theorem startup_of_barred_misled :
    (takeLock misled 2).run.run inUse = (.error (.file "File exists (os error 17)"), inUse) ∧
      (startup misled [] 2 inUse).2 = .error (.file "File exists (os error 17)") ∧
      Barred misled inUse (.file "File exists (os error 17)") inUse ∧
      Misses misled (.file "File exists (os error 17)") inUse (startup misled [] 2 inUse).1 :=
  ⟨takeLock_misled, startup_of_barred misled [] 2 inUse takeLock_misled⟩

/-- Not having come as far as the lock, a start removes the socket of a daemon that runs. -/
theorem socket_removed :
    (takeLock misled 2).run.run inUse = (.error (.file "File exists (os error 17)"), inUse) ∧
      inUse.get? (.ofText misled.socketPath) = some (.socket 1) ∧
      (startup misled [] 2 inUse).2 = .error (.file "File exists (os error 17)") ∧
      (startup misled [] 2 inUse).1.get? (.ofText misled.socketPath) = none := by
  have place : Path.ofText misled.socketPath = ⟨true, ["x"]⟩ := by
    simp [misled, Path.ofText, Path.splitOn_slash, List.splitOn_cons_eq_if_modifyHead]
  have form : Path.endsInDirectory misled.socketPath = false := by
    simp [misled, Path.endsInDirectory, Path.splitOn_slash, List.splitOn_cons_eq_if_modifyHead]
  have there : inUse.get? (.ofText misled.socketPath) = some (.socket 1) := by
    rw [place]
    rfl
  have marks : misled.Marks (.ofText misled.socketPath) :=
    ⟨_, Config.mem_markers_of_mem List.mem_cons_self form, rfl⟩
  have cleaned : startup misled [] 2 inUse =
      (misled.removeMarkers inUse, .error (.file "File exists (os error 17)")) := by
    unfold startup
    rw [takeLock_misled]
  refine ⟨takeLock_misled, there, ?_, ?_⟩ <;> rw [cleaned]
  exact Config.get?_removeMarkers_of_marks there marks (by simp)

end Daemon
end BuildPipeline
