import BuildPipeline.Message
import BuildPipeline.Time.Written
import BuildPipeline.Wire.Record

/-!
The wire form of the values of the model. A phase travels without its run results: they are not
written, and a phase that is read has none.
-/

namespace BuildPipeline.Wire

open Json (Draft)

/-- Statuses, by name. -/
def status : Codec Status :=
  .enumeration Status.all Status.name

/-- Capabilities, by name. -/
def capability : Codec Capability :=
  .enumeration Capability.all Capability.name

/-- Kinds of event, by name. -/
def eventKind : Codec EventKind :=
  .enumeration EventKind.all EventKind.name

/-- Kinds of repository, by name. -/
def repositoryKind : Codec RepositoryKind :=
  .enumeration RepositoryKind.all RepositoryKind.name

/-- Build ids, as strings. -/
def buildId : Codec BuildId :=
  Codec.text.imap BuildId.mk BuildId.text

/-- Tokens, as numbers. -/
def token : Codec Token :=
  Codec.word64.imap Token.mk Token.number

/-- Moments, in the form of a date and time. -/
def moment : Codec Time.Moment :=
  .spelled Time.Moment.parse? Time.Moment.text

/-- The fields of a phase. -/
def phaseFields : Fields [String, String, Nat, Status, Option String, Option String,
    Option UInt16, Option String, Option String] :=
  .cons (.required "id" .text) <|
  .cons (.defaulted "name" .text "") <|
  .cons (.defaulted "index" .word64 0) <|
  .cons (.defaulted "status" status .parked) <|
  .cons (.optional "container_id" .text) <|
  .cons (.optional "container_host" .text) <|
  .cons (.optional "container_port" .word16) <|
  .cons (.optional "pre_script" .text) <|
  .cons (.optional "main_script" .text) .nil

/-- Phases, without their run results. -/
def phase : Codec Phase :=
  .record phaseFields
    (fun (id, name, index, status, containerId, containerHost, containerPort, preScript,
        mainScript, ()) =>
      { id, name, index, status, containerId, containerHost, containerPort, preScript,
        mainScript })
    (fun p => (p.id, p.name, p.index, p.status, p.containerId, p.containerHost, p.containerPort,
      p.preScript, p.mainScript, ()))

/-- The fields of a phase patch. -/
def phasePatchFields : Fields [Nat, Option String, Option String, Option UInt16] :=
  .cons (.required "index" .word64) <|
  .cons (.optional "container_id" .text) <|
  .cons (.optional "container_host" .text) <|
  .cons (.optional "container_port" .word16) .nil

/-- Phase patches. -/
def phasePatch : Codec PhasePatch :=
  .record phasePatchFields
    (fun (index, containerId, containerHost, containerPort, ()) =>
      { index, containerId, containerHost, containerPort })
    (fun p => (p.index, p.containerId, p.containerHost, p.containerPort, ()))

/-- The fields of a workspace. -/
def workspaceFields : Fields [String, Option String, Option String] :=
  .cons (.required "path" .text) <|
  .cons (.optional "phases_path" .text) <|
  .cons (.optional "build_context_path" .text) .nil

/-- Workspaces. -/
def workspace : Codec Workspace :=
  .record workspaceFields
    (fun (path, phasesPath, buildContextPath, ()) => { path, phasesPath, buildContextPath })
    (fun w => (w.path, w.phasesPath, w.buildContextPath, ()))

/-- The fields of a repository, given how its children travel. -/
def repositoryFields {α : Type} (child : Codec α) : Fields [RepositoryKind, Option String,
    Option String, Option String, List α] :=
  .cons (.defaulted "type" repositoryKind .none) <|
  .cons (.optional "uri" .text) <|
  .cons (.optional "branch" .text) <|
  .cons (.optional "metadata" .text) <|
  .cons { name := "children", codec := .list child, absent := some [], short := some [],
          omits := List.isEmpty } .nil

/-- A JSON value that stands for itself; it is written only. -/
def verbatim : Codec Json where
  read _ _ _ := .error .malformed
  write := id

mutual

/-- A repository as a JSON value. -/
def writeRepository : Repository → Json
  | ⟨kind, uri, branch, metadata, children⟩ =>
    .object ((repositoryFields verbatim).members
      (kind, uri, branch, metadata, writeRepositories children, ()))

/-- The children of a repository as JSON values. -/
def writeRepositories : List Repository → List Json
  | [] => []
  | r :: rs => writeRepository r :: writeRepositories rs

end

/-- Repositories whose children nest at most `levels` deep. -/
def repositoryWithin : Nat → Codec Repository
  | 0 => { read := fun _ _ _ => .error .malformed, write := writeRepository }
  | levels + 1 =>
    { read := (Codec.record (repositoryFields (repositoryWithin levels))
        (fun (kind, uri, branch, metadata, children, ()) =>
          ({ kind, uri, branch, metadata, children } : Repository))
        (fun r => (r.kind, r.uri, r.branch, r.metadata, r.children, ()))).read
      write := writeRepository }

/-- Repositories. Every level of children takes two levels of the text, so the depth of the text
bounds theirs. -/
def repository : Codec Repository where
  read source room draft := (repositoryWithin room).read source room draft
  write := writeRepository

/-- The fields of a build. -/
def buildFields : Fields [BuildId, Option String, Status, List Phase, Workspace, Repository,
    Option String, Time.Moment, Option Time.Moment] :=
  .cons (.required "id" buildId) <|
  .cons (.optional "pipeline_id" .text) <|
  .cons (.defaulted "status" status .parked) <|
  .cons (.defaulted "phases" (.list phase) []) <|
  .cons (.defaulted "workspace" workspace {}) <|
  .cons (.defaulted "repository" repository {}) <|
  .cons (.optional "status_message" .text) <|
  .cons (.required "created_at" moment) <|
  .cons (.optional "end_date" moment) .nil

/-- Builds. -/
def build : Codec Build :=
  .record buildFields
    (fun (id, pipelineId, status, phases, workspace, repository, statusMessage, createdAt,
        endDate, ()) =>
      { id, pipelineId, status, phases, workspace, repository, statusMessage, createdAt,
        endDate })
    (fun b => (b.id, b.pipelineId, b.status, b.phases, b.workspace, b.repository,
      b.statusMessage, b.createdAt, b.endDate, ()))

/-- The fields of a command. -/
def commandFields : Fields [Capability, Token, Build, Option Phase, Option String] :=
  .cons (.required "kind" capability) <|
  .cons (.required "token" token) <|
  .cons (.required "build" build) <|
  .cons (.optional "phase" phase) <|
  .cons (.optional "script" .text) .nil

/-- Commands. -/
def command : Codec Command :=
  .record commandFields
    (fun (kind, token, build, phase, script, ()) => { kind, token, build, phase, script })
    (fun c => (c.kind, c.token, c.build, c.phase, c.script, ()))

/-- The fields of an event. -/
def eventFields : Fields [EventKind, BuildId, Token, UInt16, Option String, Option Workspace,
    Option Repository, Option Repository, Option PhasePatch, Option (List (List Phase))] :=
  .cons (.required "kind" eventKind) <|
  .cons (.required "build_id" buildId) <|
  .cons (.required "token" token) <|
  .cons (.defaulted "status_code" .word16 successCode) <|
  .cons (.optional "status_message" .text) <|
  .cons (.optional "workspace" workspace) <|
  .cons (.optional "repository" repository) <|
  .cons (.optional "child_repository" repository) <|
  .cons (.optional "phase" phasePatch) <|
  .cons (.optional "stages" (.list (.list phase))) .nil

/-- Events. -/
def event : Codec Event :=
  .record eventFields
    (fun (kind, buildId, token, statusCode, statusMessage, workspace, repository,
        childRepository, phase, stages, ()) =>
      { kind, buildId, token, statusCode, statusMessage, workspace, repository, childRepository,
        phase, stages })
    (fun e => (e.kind, e.buildId, e.token, e.statusCode, e.statusMessage, e.workspace,
      e.repository, e.childRepository, e.phase, e.stages, ()))

end BuildPipeline.Wire
