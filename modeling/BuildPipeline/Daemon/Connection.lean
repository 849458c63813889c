import BuildPipeline.Daemon.Basic
import BuildPipeline.Wire.Frame

/-!
Connections. On each a client sends one request and gets one response. A request that does not come
through changes nothing and gets no response.
-/

namespace BuildPipeline.Daemon

open Wire (Ending FrameError)

/-- Serves a connection on which some bytes came in, and gives the bytes to send back. -/
def serve (d : Daemon) (ending : Ending) (received : List UInt8) :
    Daemon × List Act × Except FrameError (List UInt8) :=
  match Wire.Frame.receive Wire.request ending received with
  | .error e => (d, [], .error e)
  | .ok request =>
    let (d, acts, response) := d.handle request
    (d, acts, Wire.Frame.send Wire.response response)

end BuildPipeline.Daemon
