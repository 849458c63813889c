import BuildPipeline.Wire.Model

/-!
What clients ask of the daemon and what it answers. Requests and responses are records that name
their variant in the member `type`, or in the first element where an array is used. The whole
record is read into a buffer before the variant is looked at, so a text that is no JSON at all is
found out first; the name of the variant, however, is checked where it stands.
-/

namespace BuildPipeline

/-- What a client asks. -/
inductive Request where
  | ping
  | hello (version : String)
  | start (buildId : BuildId) (build : Build) (script : Option String)
  | abort (buildId : BuildId)
  | delete (build : Build)
  | status
  | getBuild (buildId : BuildId)
  | shutdown
  deriving DecidableEq

/-- What the daemon answers. -/
inductive Response where
  | pong
  | hello (version : String)
  | started (buildId : BuildId)
  | aborted (containerIds : List String) (build : Build)
  /-- No flow is active for the build. -/
  | notActive (buildId : BuildId)
  | deleteAccepted (buildId : BuildId)
  | status (uptimeSeconds flowsActive : Nat)
  | build (build : Option Build)
  | error (message : String)
  | shuttingDown
  deriving DecidableEq

namespace Wire

open Json (Draft)

/-- A variant of a tagged type: its name, and how it is read from the members or elements beside
the name. -/
structure Variant (α : Type) where
  name : String
  readObject : Nat → List (Option String × Draft) → Except Fault α
  readArray : Nat → List Draft → Except Fault α

/-- The variant with the given fields. -/
def Variant.of {α : Type} {row : List Type} (name : String) (fields : Fields row)
    (ofRow : Row row → α) : Variant α where
  name := name
  readObject room members := (fields.readObject .buffered room members).map ofRow
  readArray room drafts := (fields.readArray .buffered room drafts).map ofRow

/-- The variant without fields. -/
def Variant.plain {α : Type} (name : String) (value : α) : Variant α :=
  .of name .nil fun () => value

namespace Tagged

variable {α : Type}

/-- The name of the member that holds the variant. -/
def tag : String := "type"

/-- The variant that a tag names. -/
def variant (variants : List (Variant α)) : Draft → Except Fault (Variant α)
  | .text (some key) => Codec.lookup variants Variant.name key
  | _ => .error .malformed

/-- Takes the members of an object into the buffer, and the tag out of it. -/
def buffer (variants : List (Variant α)) (room : Nat) :
    List (Option String × Draft) → Option (Variant α) → List (Option String × Draft) →
      Except Fault (Variant α × List (Option String × Draft))
  | [], some found, content => .ok (found, content.reverse)
  | [], none, _ => .error (.missingField tag)
  | (none, _) :: _, _, _ => .error .malformed
  | (some name, draft) :: members, found, content =>
    if name = tag then
      if found.isSome then .error (.duplicateField tag)
      else (variant variants draft).bind fun v => buffer variants room members (some v) content
    else if draft.isSound room then
      buffer variants room members found ((some name, draft) :: content)
    else .error .malformed

/-- Reads a value by its tag. -/
def read (variants : List (Variant α)) : Reader α
  | _, room + 1, .object members => do
    let (found, content) ← buffer variants room members none []
    found.readObject room content
  | _, _ + 1, .array [] => .error (.missingField tag)
  | _, room + 1, .array (first :: drafts) => do
    let found ← variant variants first
    if drafts.all (·.isSound room) then found.readArray room drafts else throw .malformed
  | _, _, _ => .error .malformed

/-- The object of a variant. -/
def write {row : List Type} (name : String) (fields : Fields row) (values : Row row) : Json :=
  .object ((tag, .text name) :: fields.members values)

end Tagged

/-- The one field of a variant that carries a version. -/
def versionFields : Fields [String] :=
  .cons (.required "version" .text) .nil

/-- The one field of a variant about a build that it names. -/
def buildIdFields : Fields [BuildId] :=
  .cons (.required "build_id" buildId) .nil

/-- The fields of a request to start a build. -/
def startFields : Fields [BuildId, Build, Option String] :=
  .cons (.required "build_id" buildId) <|
  .cons (.required "build" build) <|
  .cons (.optional "script" .text) .nil

/-- The one field of a request about a build that it carries. -/
def deleteFields : Fields [Build] :=
  .cons (.required "build" build) .nil

/-- The variants of a request. -/
def requestVariants : List (Variant Request) :=
  [.plain "Ping" .ping,
   .of "Hello" versionFields fun (version, ()) => .hello version,
   .of "Start" startFields fun (buildId, build, script, ()) => .start buildId build script,
   .of "Abort" buildIdFields fun (buildId, ()) => .abort buildId,
   .of "Delete" deleteFields fun (build, ()) => .delete build,
   .plain "Status" .status,
   .of "GetBuild" buildIdFields fun (buildId, ()) => .getBuild buildId,
   .plain "Shutdown" .shutdown]

/-- Requests. -/
def request : Codec Request where
  read := Tagged.read requestVariants
  write
    | .ping => Tagged.write "Ping" .nil ()
    | .hello version => Tagged.write "Hello" versionFields (version, ())
    | .start buildId build script => Tagged.write "Start" startFields (buildId, build, script, ())
    | .abort buildId => Tagged.write "Abort" buildIdFields (buildId, ())
    | .delete build => Tagged.write "Delete" deleteFields (build, ())
    | .status => Tagged.write "Status" .nil ()
    | .getBuild buildId => Tagged.write "GetBuild" buildIdFields (buildId, ())
    | .shutdown => Tagged.write "Shutdown" .nil ()

/-- The fields of the response to an abort. -/
def abortedFields : Fields [List String, Build] :=
  .cons (.required "container_ids" (.list .text)) <|
  .cons (.required "build" build) .nil

/-- The fields of the response on the state of the daemon. -/
def statusFields : Fields [Nat, Nat] :=
  .cons (.required "uptime_secs" .word64) <|
  .cons (.required "flows_active" .word64) .nil

/-- The one field of the response with a build. It is written even when there is none, and an
array has to hold it. -/
def buildField : Fields [Option Build] :=
  .cons { name := "build", codec := build.optional, absent := some none } .nil

/-- The one field of the response with an error. -/
def messageFields : Fields [String] :=
  .cons (.required "message" .text) .nil

/-- The variants of a response. -/
def responseVariants : List (Variant Response) :=
  [.plain "Pong" .pong,
   .of "Hello" versionFields fun (version, ()) => .hello version,
   .of "Started" buildIdFields fun (buildId, ()) => .started buildId,
   .of "Aborted" abortedFields fun (containerIds, build, ()) => .aborted containerIds build,
   .of "NotActive" buildIdFields fun (buildId, ()) => .notActive buildId,
   .of "DeleteAccepted" buildIdFields fun (buildId, ()) => .deleteAccepted buildId,
   .of "Status" statusFields fun (uptimeSeconds, flowsActive, ()) =>
     .status uptimeSeconds flowsActive,
   .of "Build" buildField fun (build, ()) => .build build,
   .of "Error" messageFields fun (message, ()) => .error message,
   .plain "ShuttingDown" .shuttingDown]

/-- Responses. -/
def response : Codec Response where
  read := Tagged.read responseVariants
  write
    | .pong => Tagged.write "Pong" .nil ()
    | .hello version => Tagged.write "Hello" versionFields (version, ())
    | .started buildId => Tagged.write "Started" buildIdFields (buildId, ())
    | .aborted containerIds build => Tagged.write "Aborted" abortedFields (containerIds, build, ())
    | .notActive buildId => Tagged.write "NotActive" buildIdFields (buildId, ())
    | .deleteAccepted buildId => Tagged.write "DeleteAccepted" buildIdFields (buildId, ())
    | .status uptimeSeconds flowsActive =>
      Tagged.write "Status" statusFields (uptimeSeconds, flowsActive, ())
    | .build build => Tagged.write "Build" buildField (build, ())
    | .error message => Tagged.write "Error" messageFields (message, ())
    | .shuttingDown => Tagged.write "ShuttingDown" .nil ()

end Wire
end BuildPipeline
