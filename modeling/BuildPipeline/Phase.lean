import BuildPipeline.Status

/-!
A phase is one unit of work inside a stage. It gathers one run result per pass through a provider,
and its final result, which decides whether its stage is over, is read off these results alone.
-/

namespace BuildPipeline

/-- Container fields reported for the phase at one index of a stage; a field that is not there
says nothing. -/
structure PhasePatch where
  index : Nat
  containerId : Option String := none
  containerHost : Option String := none
  containerPort : Option UInt16 := none
  deriving DecidableEq, Repr

/-- One unit of work. `index` is its position within its stage; `runResults` lives in memory only
and is never written. -/
structure Phase where
  id : String
  name : String := ""
  index : Nat := 0
  status : Status := .parked
  containerId : Option String := none
  containerHost : Option String := none
  containerPort : Option UInt16 := none
  preScript : Option String := none
  mainScript : Option String := none
  runResults : List Status := []
  deriving DecidableEq, Repr

namespace PhasePatch

/-- A patch reports a container when it names one. -/
def hasContainer (p : PhasePatch) : Bool :=
  p.containerId.isSome

end PhasePatch

namespace Phase

/-- A parked phase under an id that is not blank. -/
def create (id name : String) : Except Defect Phase :=
  if Text.isBlank id then .error (.blank "phase id") else .ok { id, name }

/-- The results that keep a phase from being done. -/
def isSetback : Status → Bool
  | .inFlight | .failed | .canceled => true
  | .parked | .preFlight | .waiting | .done => false

/-- In flight until a result exists; then the first setback among the results, else done. -/
def finalResult (p : Phase) : Status :=
  if p.runResults.isEmpty then .inFlight else (p.runResults.find? isSetback).getD .done

/-- Starts a fresh pass: the phase is in flight, and so is a new last result. -/
def beginRun (p : Phase) (index : Nat) : Phase :=
  { p with index, status := .inFlight, runResults := p.runResults ++ [.inFlight] }

/-- Resolves the pending last result; where none is pending the result is added. -/
def finishRun (p : Phase) (result : Status) : Phase :=
  { p with runResults :=
      if p.runResults.getLast? = some .inFlight then p.runResults.dropLast ++ [result]
      else p.runResults ++ [result] }

/-- Takes over every container field that the patch carries. -/
def applyContainer (p : Phase) (patch : PhasePatch) : Phase :=
  { p with
    containerId := patch.containerId <|> p.containerId
    containerHost := patch.containerHost <|> p.containerHost
    containerPort := patch.containerPort <|> p.containerPort }

/-- The file name of the script that runs first. -/
def preScriptFile (p : Phase) : String :=
  p.id ++ "_pre.sh"

/-- The file name of the main script. -/
def mainScriptFile (p : Phase) : String :=
  p.id ++ ".sh"

end Phase
end BuildPipeline
