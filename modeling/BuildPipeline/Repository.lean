/-!
Where the files of a build live and where its sources come from. A repository of repositories
holds its members as children, which behave as an ordered map from URI to repository; a child
without URI matches nothing, not even another such child.
-/

namespace BuildPipeline

/-- The directories of a build on the node that runs it. -/
structure Workspace where
  path : String := ""
  phasesPath : Option String := none
  buildContextPath : Option String := none
  deriving DecidableEq, Repr

/-- The version-control system behind a repository. -/
inductive RepositoryKind where
  | none
  | fs
  | git
  | multiGit
  | p4
  | multiP4
  deriving DecidableEq, Repr, Inhabited

namespace RepositoryKind

/-- Every kind in order. -/
def all : List RepositoryKind :=
  [.none, .fs, .git, .multiGit, .p4, .multiP4]

/-- The name under which a kind is written. -/
def name : RepositoryKind → String
  | .none => "NONE"
  | .fs => "FS"
  | .git => "GIT"
  | .multiGit => "MULTI_GIT"
  | .p4 => "P4"
  | .multiP4 => "MULTI_P4"

end RepositoryKind

/-- The sources of a build, or of one of its members. -/
structure Repository where
  kind : RepositoryKind := .none
  uri : Option String := none
  branch : Option String := none
  metadata : Option String := none
  children : List Repository := []
  deriving Repr

namespace Repository

mutual

/-- Equality of repositories, children included, is decidable. -/
def decEq : (r s : Repository) → Decidable (r = s)
  | ⟨kind, uri, branch, metadata, children⟩, ⟨kind', uri', branch', metadata', children'⟩ =>
    match decEqAll children children' with
    | isTrue h =>
      if same : kind = kind' ∧ uri = uri' ∧ branch = branch' ∧ metadata = metadata' then
        isTrue (by simp [same, h])
      else
        isFalse (by intro eq; injection eq; simp_all)
    | isFalse h => isFalse (by intro eq; injection eq; contradiction)

/-- Equality of lists of repositories is decidable. -/
def decEqAll : (rs ss : List Repository) → Decidable (rs = ss)
  | [], [] => isTrue rfl
  | [], _ :: _ => isFalse (by simp)
  | _ :: _, [] => isFalse (by simp)
  | r :: rs, s :: ss =>
    match decEq r s, decEqAll rs ss with
    | isTrue h, isTrue hs => isTrue (by rw [h, hs])
    | isFalse h, _ => isFalse (by intro eq; injection eq; contradiction)
    | _, isFalse hs => isFalse (by intro eq; injection eq; contradiction)

end

instance : DecidableEq Repository := decEq

/-- Adds a child at the end, whatever its URI. -/
def withChild (r : Repository) (child : Repository) : Repository :=
  { r with children := r.children ++ [child] }

/-- Two repositories are the same child of a parent when both have the same URI. -/
def sameChild (r s : Repository) : Bool :=
  r.uri.isSome && r.uri == s.uri

/-- The list with `child` in the place of the first child of the same URI, or at the end when
there is none. -/
def replaceOrAppend (child : Repository) : List Repository → List Repository
  | [] => [child]
  | r :: rs => if r.sameChild child then child :: rs else r :: replaceOrAppend child rs

/-- Replaces the child of the same URI, or appends it. -/
def updateChild (r : Repository) (child : Repository) : Repository :=
  { r with children := replaceOrAppend child r.children }

end Repository
end BuildPipeline
