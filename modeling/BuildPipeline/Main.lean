import BuildPipeline.Daemon.Connection
import BuildPipeline.Daemon.Startup

/-!
The daemon as a program. The first argument names the configuration; without one the variable
`KILN_CONFIG` does, and without that the defaults hold. Requests come in on standard input, one
message after the other, and the responses go to standard output behind a line that tells that the
daemon is ready. It stops when a client asks for that or when the input ends.
-/

namespace BuildPipeline.Program

/-- The configuration that arguments and environment ask for. -/
def loadConfig (args : List String) : IO (Except ConfigError Config) := do
  let env : Environment :=
    { stateHome := ← IO.getEnv "XDG_STATE_HOME"
      socketDir := ← IO.getEnv "KILN_SOCKET_DIR"
      home := ← IO.getEnv "HOME" }
  match args.head? <|> (← IO.getEnv "KILN_CONFIG") with
  | none => return Config.load env .nowhere
  | some path =>
    let text ← try some <$> IO.FS.readFile path catch _ => pure none
    return Config.load env (.file text)

/-- Reads bytes until there are enough of them or the input ends. -/
partial def readBytes (input : IO.FS.Stream) (count : Nat) (found : ByteArray) : IO ByteArray := do
  if count ≤ found.size then return found
  let more ← input.read (count - found.size).toUSize
  if more.isEmpty then return found else readBytes input count (found ++ more)

/-- Reads the bytes of one message, as far as they come. -/
def readMessage (input : IO.FS.Stream) : IO (List UInt8) := do
  let header ← readBytes input 4 .empty
  match header.data.toList with
  | [a, b, c, d] =>
    let size := Wire.Frame.size a b c d
    if Wire.Frame.limit < size then return [a, b, c, d]
    return (← readBytes input (4 + size) header).data.toList
  | cut => return cut

/-- Serves message after message. -/
partial def serveAll (input output : IO.FS.Stream) (d : Daemon) (since : Nat) : IO Unit := do
  let message ← readMessage input
  if message.isEmpty then return ()
  let now ← IO.monoNanosNow
  let (d, _) := (d.advance ⟨now - since⟩).checkDeadlines
  let (d, _) := d.run
  let (d, _, reply) := d.serve .closed message
  match reply with
  | .ok bytes => output.write ⟨bytes.toArray⟩; output.flush
  | .error e => IO.eprintln ("connection failed: " ++ e.message)
  let (d, _) := d.run
  if d.shutdownRequested then return ()
  serveAll input output d now

/-- Runs the daemon. -/
def run (args : List String) : IO UInt32 := do
  match ← loadConfig args with
  | .error e =>
    IO.eprintln ("Error: " ++ e.message)
    return 1
  | .ok c =>
    IO.println "READY"
    (← IO.getStdout).flush
    let d := Daemon.idle c c.instances 0
    serveAll (← IO.getStdin) (← IO.getStdout) d (← IO.monoNanosNow)
    return 0

end BuildPipeline.Program

/-- Runs the daemon. -/
def main (args : List String) : IO UInt32 :=
  BuildPipeline.Program.run args
