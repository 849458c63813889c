import BuildPipeline.Text.Blank

/-!
What makes a value of the model unacceptable where it enters the system, and the sentence that
says so.
-/

namespace BuildPipeline

/-- A reason to refuse a value. Events are named by what their kind is called in reports. -/
inductive Defect where
  | unknownStatus (text : String)
  | unknownCapability (text : String)
  | blank (field : String)
  | missingPhase (event build : String)
  | unexpectedStages (event build : String)
  | statusCodeOutOfRange (code : UInt16)
  deriving DecidableEq, Repr

/-- The sentence reported for a defect. -/
def Defect.message : Defect → String
  | .unknownStatus text => "unknown status: " ++ text
  | .unknownCapability text => "unknown capability: " ++ text
  | .blank field => field ++ " must not be blank"
  | .missingPhase event build => event ++ " event for build " ++ build ++ " carries no phase"
  | .unexpectedStages event build =>
    event ++ " event for build " ++ build ++ " cannot carry stages"
  | .statusCodeOutOfRange code => "status code " ++ toString code.toNat ++ " is out of range"

end BuildPipeline
