import BuildPipeline.Build
import BuildPipeline.Keyed

/-!
Where the copies of builds go. A store may keep the latest copy of every build, record every copy
in order, or drop them. Publishing never holds up a flow: a store that fails has still taken the
copy.
-/

namespace BuildPipeline

/-- Why a copy was not taken. -/
inductive StoreError where
  | unavailable (reason : String)
  | rejected (buildId reason : String)
  deriving DecidableEq, Repr

/-- The sentence reported for an error of the store. -/
def StoreError.message : StoreError → String
  | .unavailable reason => "store unavailable: " ++ reason
  | .rejected buildId reason => "snapshot rejected for build " ++ buildId ++ ": " ++ reason

/-- The latest copy of every build. -/
structure LatestStore where
  entries : List (BuildId × Build) := []
  deriving DecidableEq

namespace LatestStore

/-- The latest copy of a build. -/
def get? (s : LatestStore) (id : BuildId) : Option Build :=
  Keyed.get? id s.entries

/-- Takes a copy; it replaces the one that was there. -/
def publish (s : LatestStore) (b : Build) : LatestStore :=
  ⟨Keyed.put b.id b s.entries⟩

/-- Forgets a build. -/
def erase (s : LatestStore) (id : BuildId) : LatestStore :=
  ⟨Keyed.erase id s.entries⟩

/-- The number of builds that there are copies of. -/
def size (s : LatestStore) : Nat :=
  s.entries.length

end LatestStore

/-- All copies in the order in which they were published. While it is failing it reports an error
for every copy that it takes. -/
structure JournalStore where
  published : List Build := []
  failing : Bool := false
  deriving DecidableEq

namespace JournalStore

/-- Takes a copy. -/
def publish (s : JournalStore) (b : Build) : JournalStore × Except StoreError Unit :=
  ({ s with published := s.published ++ [b] },
    if s.failing then .error (.unavailable "fake store failing") else .ok ())

/-- The copies of one build. -/
def publishedFor (s : JournalStore) (id : BuildId) : List Build :=
  s.published.filter (·.id = id)

/-- The latest copy of a build. -/
def latest? (s : JournalStore) (id : BuildId) : Option Build :=
  (s.publishedFor id).getLast?

end JournalStore
end BuildPipeline
