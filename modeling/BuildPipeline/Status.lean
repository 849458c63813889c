import BuildPipeline.Defect

/-!
The life-cycle status that builds and phases share. `DONE`, `FAILED` and `CANCELED` are terminal;
every other status may still be flipped to `CANCELED` by an abort.
-/

namespace BuildPipeline

/-- Where a build or a phase stands in its life. -/
inductive Status where
  | parked
  | preFlight
  | inFlight
  | waiting
  | done
  | failed
  | canceled
  deriving DecidableEq, Repr, Inhabited

namespace Status

/-- Every status, in the order of a life. -/
def all : List Status :=
  [.parked, .preFlight, .inFlight, .waiting, .done, .failed, .canceled]

/-- The name under which a status is written. -/
def name : Status → String
  | .parked => "PARKED"
  | .preFlight => "PRE_FLIGHT"
  | .inFlight => "IN_FLIGHT"
  | .waiting => "WAITING"
  | .done => "DONE"
  | .failed => "FAILED"
  | .canceled => "CANCELED"

/-- A terminal status marks work that is over. -/
def isTerminal : Status → Bool
  | .done | .failed | .canceled => true
  | .parked | .preFlight | .inFlight | .waiting => false

/-- An abort may flip exactly the statuses that are not terminal. -/
def isCancellable (s : Status) : Bool :=
  !s.isTerminal

/-- Reads a name in any case, with hyphens for underscores and white space around it. -/
def parse (text : String) : Except Defect Status :=
  let name := Text.underscored (Text.trim text).toUpper
  match all.find? (·.name == name) with
  | some status => .ok status
  | none => .error (.unknownStatus text)

end Status
end BuildPipeline
