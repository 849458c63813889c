import BuildPipeline.Path
import BuildPipeline.Provider.Basic
import BuildPipeline.Time.Quantity
import BuildPipeline.Toml.Document
import BuildPipeline.Toml.Shape

/-!
The configuration of the daemon. It is written as a TOML document in which every setting has a
default, so the empty document configures a daemon too. Where the document leaves a path open, the
environment decides.

A document with a mistake in form or content is refused as a whole. Only then are the providers
looked at, in their order: no name may be used twice, and each has to serve a capability.
-/

namespace BuildPipeline

open Time (Span)

/-- The kinds of provider that a document can ask for. -/
inductive ProviderKind where
  | echo
  deriving DecidableEq, Repr

namespace ProviderKind

/-- Every kind with its name. -/
def names : List (String × ProviderKind) :=
  [("echo", .echo)]

/-- What providers of a kind do with their commands. -/
def conduct : ProviderKind → Conduct
  | echo => .echo

end ProviderKind

/-- A provider that a document asks for. -/
structure ProviderSpec where
  name : String
  kind : ProviderKind
  order : Int
  capabilities : List Capability
  deriving DecidableEq, Repr

namespace ProviderSpec

/-- The provider that a daemon has when no other is asked for. -/
def standard : ProviderSpec where
  name := "echo"
  kind := .echo
  order := defaultOrder
  capabilities := Capability.all

/-- The provider itself. -/
def provider (s : ProviderSpec) : Provider where
  name := s.name
  capabilities := s.capabilities
  order := s.order
  conduct := s.kind.conduct

end ProviderSpec

/-- What a document says. -/
structure Settings where
  stateDir : Option String
  socketPath : Option String
  logPath : Option String
  stepTimeout : Option Span
  providers : List ProviderSpec
  deriving DecidableEq

namespace Settings

open Toml.Value

/-- The integers of 32 bits. -/
def inRange (n : Int) : Bool :=
  -2147483648 ≤ n && n ≤ 2147483647

/-- Reads the order of a provider. -/
def order? (v : Toml.Value) : Option Int :=
  v.integer?.filter inRange

/-- Reads a capability. -/
def capability? (v : Toml.Value) : Option Capability := do
  let name ← v.variant?
  Capability.all.find? (·.name = name)

/-- Reads the kind of a provider. -/
def kind? (v : Toml.Value) : Option ProviderKind := do
  Keyed.get? (← v.variant?) ProviderKind.names

/-- Reads a span of time. -/
def span? (v : Toml.Value) : Option Span := do
  Span.parse? (← v.text?)

/-- Reads a provider. -/
def provider? (v : Toml.Value) : Option ProviderSpec := do
  match ← v.fields? ["name", "kind", "order", "capabilities"] with
  | [some name, some kind, order, some capabilities] =>
    return {
      name := ← name.text?
      kind := ← kind? kind
      order := ← withDefault? defaultOrder order? order
      capabilities := ← listOf? capability? capabilities }
  | _ => none

/-- Reads the part of a document about the engine: how long a step may take. -/
def stepTimeout? (v : Toml.Value) : Option (Option Span) := do
  match ← v.fields? ["step_timeout"] with
  | [timeout] => optional? span? timeout
  | _ => none

/-- The settings of a document. -/
def ofEntries? (entries : Toml.Entries) : Option Settings := do
  match ← fieldsOf? ["state_dir", "socket_path", "log_path", "engine", "providers"] entries with
  | [stateDir, socketPath, logPath, engine, providers] =>
    return {
      stateDir := ← optional? text? stateDir
      socketPath := ← optional? text? socketPath
      logPath := ← optional? text? logPath
      stepTimeout := ← withDefault? none stepTimeout? engine
      providers := ← withDefault? [] (listOf? provider?) providers }
  | _ => none

/-- Reads settings. -/
def parse? (text : String) : Option Settings := do
  ofEntries? (← Toml.parse? text)

end Settings

/-- What the environment says about paths. -/
structure Environment where
  stateHome : Option String := none
  socketDir : Option String := none
  home : Option String := none
  /-- The home directory on record for the user's account. -/
  accountHome : Option String := none
  deriving DecidableEq, Repr

/-- The home directory of the user: the one that is set, unless it is empty, else the one on
record. -/
def Environment.homeDir? (env : Environment) : Option String :=
  env.home.filter (· ≠ "") <|> env.accountHome

/-- A resolved configuration. -/
structure Config where
  stateDir : String
  socketPath : String
  logPath : String
  stepTimeout : Option Span
  providers : List ProviderSpec
  deriving DecidableEq

/-- Why there is no configuration. -/
inductive ConfigError where
  /-- The document could not be read from its file. -/
  | unreadable
  /-- The document breaks a rule of the format, or does not have the shape of settings. -/
  | malformed
  | noStateDir
  | duplicateProvider (name : String)
  | noCapabilities (name : String)
  deriving DecidableEq, Repr

/-- The sentence reported for an error. -/
def ConfigError.message : ConfigError → String
  | .unreadable => "failed to read config"
  | .malformed => "invalid config"
  | .noStateDir => "could not determine state directory"
  | .duplicateProvider name => "provider name '" ++ name ++ "' is used twice"
  | .noCapabilities name => "provider '" ++ name ++ "' serves no capability"

/-- Where the document is: nowhere, or in a file, which may be impossible to read. -/
inductive ConfigSource where
  | nowhere
  | file (text : Option String)
  deriving DecidableEq, Repr

namespace Config

/-- The file that is locked while a daemon runs, with its process id in it. -/
def lockPath (c : Config) : String :=
  Path.join c.stateDir "daemon.pid"

/-- The file with the version of the daemon that runs. -/
def versionPath (c : Config) : String :=
  Path.join c.stateDir "daemon.version"

/-- The state directory of a document that names none. -/
def defaultStateDir? (env : Environment) : Option String :=
  match env.stateHome with
  | some dir => some (Path.join dir "kiln")
  | none => env.homeDir?.map fun home => Path.join home ".local/state/kiln"

/-- The socket of a document that names none. By default it is in a directory with a short name,
because the paths of sockets have to be short. -/
def defaultSocketPath (env : Environment) : String :=
  Path.join (env.socketDir.getD "/tmp/kiln") "kilnd.sock"

/-- Checks the providers in order, given the names that were used before. -/
def check (used : List String) : List ProviderSpec → Except ConfigError Unit
  | [] => .ok ()
  | s :: rest =>
    if s.name ∈ used then .error (.duplicateProvider s.name)
    else if s.capabilities.isEmpty then .error (.noCapabilities s.name)
    else check (s.name :: used) rest

/-- The configuration that settings make in an environment. -/
def ofSettings (env : Environment) (s : Settings) : Except ConfigError Config :=
  match s.stateDir <|> defaultStateDir? env with
  | none => .error .noStateDir
  | some stateDir =>
    let providers := if s.providers.isEmpty then [ProviderSpec.standard] else s.providers
    (check [] providers).map fun () =>
      { stateDir
        socketPath := s.socketPath.getD (defaultSocketPath env)
        logPath := s.logPath.getD (Path.join stateDir "daemon.log")
        stepTimeout := s.stepTimeout
        providers }

/-- Reads a configuration. -/
def parse (env : Environment) (text : String) : Except ConfigError Config :=
  match Settings.parse? text with
  | none => .error .malformed
  | some s => ofSettings env s

/-- Loads a configuration. -/
def load (env : Environment) : ConfigSource → Except ConfigError Config
  | .nowhere => parse env ""
  | .file none => .error .unreadable
  | .file (some text) => parse env text

end Config
end BuildPipeline
