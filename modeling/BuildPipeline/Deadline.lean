import BuildPipeline.Heap.Basic
import BuildPipeline.Message
import BuildPipeline.Time.Span

/-!
Deadlines of commands. Every command that is sent can arm a deadline; when it passes before the
reply has come, a failure event stands in for the reply. A deadline belongs to the pair of build id
and token of its command.

The deadlines are kept in a heap, so that the next one is at hand. Cancelling marks the pair and
leaves the deadline where it is; the mark is used up by the first deadline of the pair that comes
out of the heap, and withdrawn when the pair is scheduled again.
-/

namespace BuildPipeline

open Time (Span)

/-- The status code of a step that took too long. -/
def timeoutCode : UInt16 := 504

/-- A command that has to be answered before `fireAt`, in nanoseconds on the clock. -/
structure Deadline where
  buildId : BuildId
  token : Token
  capability : Capability
  phaseIndex : Option Nat := none
  fireAt : Nat
  timeout : Span
  deriving DecidableEq

namespace Deadline

/-- What a deadline is cancelled by. -/
abbrev Key : Type := BuildId × Token

/-- The pair that the deadline belongs to. -/
def key (d : Deadline) : Key :=
  (d.buildId, d.token)

/-- The failure that stands in for the reply. -/
def expiredEvent (d : Deadline) : Event :=
  { kind := d.capability.completion
    buildId := d.buildId
    token := d.token
    statusCode := timeoutCode
    statusMessage := some
      (d.capability.name ++ " step timed out after " ++ toString d.timeout.seconds ++ "s")
    phase :=
      if d.capability = .runPhase then some { index := d.phaseIndex.getD 0 } else none }

/-- Deadlines fall due in the order of their times, then of build ids, then of tokens. -/
def le (a b : Deadline) : Bool :=
  if a.fireAt = b.fireAt then
    if a.buildId = b.buildId then a.token.number ≤ b.token.number else a.buildId.le b.buildId
  else a.fireAt < b.fireAt

theorem le_total (a b : Deadline) : le a b || le b a := by
  unfold le BuildId.le
  by_cases time : a.fireAt = b.fireAt
  · by_cases build : a.buildId = b.buildId
    · simp [time, build, Nat.le_total]
    · simpa [time, build, Ne.symm build] using String.le_total a.buildId.text b.buildId.text
  · have : b.fireAt ≠ a.fireAt := Ne.symm time
    simp only [time, this, if_false, Bool.or_eq_true, decide_eq_true_eq]
    omega

theorem le_trans (a b c : Deadline) (ab : le a b) (bc : le b c) : le a c := by
  unfold le BuildId.le at *
  by_cases time : a.fireAt = b.fireAt <;> by_cases time' : b.fireAt = c.fireAt
  · rw [if_pos time] at ab
    rw [if_pos time'] at bc
    rw [if_pos (time.trans time')]
    by_cases build : a.buildId = b.buildId <;> by_cases build' : b.buildId = c.buildId
    · rw [if_pos build, decide_eq_true_eq] at ab
      rw [if_pos build', decide_eq_true_eq] at bc
      simpa [build.trans build'] using Nat.le_trans ab bc
    · simp_all
    · simp_all
    · rw [if_neg build, decide_eq_true_eq] at ab
      rw [if_neg build', decide_eq_true_eq] at bc
      split
      · rename_i same
        rw [same] at ab
        exact absurd (congrArg BuildId.mk (String.le_antisymm bc ab)) build'
      · simpa using String.le_trans ab bc
  · simp_all
  · simp_all
  · simp only [time, time', if_false, decide_eq_true_eq] at ab bc
    have : a.fireAt ≠ c.fireAt := by omega
    simp only [this, if_false, decide_eq_true_eq]
    omega

end Deadline

/-- The deadlines that are set, and the pairs that are marked as cancelled. -/
structure Deadlines where
  items : Heap Deadline := .empty
  cancelled : List Deadline.Key := []
  deriving DecidableEq

namespace Deadlines

/-- Sets a deadline. -/
def schedule (s : Deadlines) (d : Deadline) : Deadlines :=
  { items := s.items.push Deadline.le d, cancelled := s.cancelled.filter (· ≠ d.key) }

/-- Marks a pair as cancelled, if a deadline of it is set. -/
def cancel (s : Deadlines) (key : Deadline.Key) : Deadlines :=
  if s.items.toList.any (·.key = key) ∧ key ∉ s.cancelled then
    { s with cancelled := key :: s.cancelled }
  else s

/-- Drops everything about a build. -/
def cancelBuild (s : Deadlines) (id : BuildId) : Deadlines :=
  { items := s.items.filter Deadline.le (·.buildId ≠ id)
    cancelled := s.cancelled.filter (·.1 ≠ id) }

/-- Goes through deadlines that are due: a marked pair uses up its mark, any other deadline
fires. The result is what fires and the marks that are left. -/
def release (cancelled : List Deadline.Key) : List Deadline → List Deadline × List Deadline.Key
  | [] => ([], cancelled)
  | d :: due =>
    if d.key ∈ cancelled then release (cancelled.filter (· ≠ d.key)) due
    else
      let (fired, left) := release cancelled due
      (d :: fired, left)

/-- The deadlines up to `now` in the order in which they fall due, and those that are left. -/
def poll (s : Deadlines) (now : Nat) : List Deadline × Deadlines :=
  let (due, items) := s.items.popWhile Deadline.le (·.fireAt ≤ now)
  let (fired, cancelled) := release s.cancelled due
  (fired, { items, cancelled })

/-- The number of deadlines that are still to fire. -/
def size (s : Deadlines) : Nat :=
  s.items.size - s.cancelled.length

/-- Whether none is still to fire. -/
def isEmpty (s : Deadlines) : Bool :=
  s.size == 0

end Deadlines
end BuildPipeline
