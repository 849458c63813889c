import BuildPipeline.Proofs.Deadlines.Live
import BuildPipeline.Proofs.Engine.Settling

/-!
What settling does to the deadlines. Whatever a flow comes to while it settles, the deadlines have
no part in it; they take in the deadlines of the commands that went out, in the order in which these
went out (`Desk.settle_eq`).
-/

namespace BuildPipeline

/-- The command that was sent, if one was. -/
def Act.sent? : Act → Option (Address × Command)
  | .sent address command => some (address, command)
  | .published _ | .killed _ | .deleted _ | .ended _ => none

theorem Act.eq_sent {act : Act} {a : Address} {m : Command} (told : act.sent? = some (a, m)) :
    act = .sent a m := by
  cases act with
  | sent =>
      cases told
      rfl
  | published => cases told
  | killed => cases told
  | deleted => cases told
  | ended => cases told

/-- The commands that were sent, in order. -/
def sentBy (acts : List Act) : List Command :=
  (acts.filterMap Act.sent?).map (·.2)

@[simp]
theorem sentBy_append (one two : List Act) : sentBy (one ++ two) = sentBy one ++ sentBy two := by
  simp [sentBy]

@[simp]
theorem sentBy_nil : sentBy [] = [] :=
  rfl

@[simp]
theorem sentBy_sent (a : Address) (c : Command) (acts : List Act) :
    sentBy (.sent a c :: acts) = c :: sentBy acts :=
  rfl

@[simp]
theorem sentBy_published (b : Build) (acts : List Act) :
    sentBy (.published b :: acts) = sentBy acts :=
  rfl

@[simp]
theorem sentBy_ended (b : Build) (acts : List Act) : sentBy (.ended b :: acts) = sentBy acts :=
  rfl

namespace Desk

variable {desk : Desk} {f : Flow} {effects : List Effect}

/-- The deadlines of some commands that went out. -/
def deadlines (desk : Desk) (sent : List Command) : List Deadline :=
  match desk.stepTimeout with
  | some timeout => sent.map (desk.deadline timeout)
  | none => []

theorem key_of_mem_deadlines {sent : List Command} {d : Deadline}
    (mem : d ∈ desk.deadlines sent) :
    ∃ m ∈ sent, ∃ timeout, desk.stepTimeout = some timeout ∧ d = desk.deadline timeout m := by
  unfold deadlines at mem
  split at mem
  · rename_i timeout set_
    obtain ⟨m, sent, rfl⟩ := List.mem_map.1 mem
    exact ⟨m, sent, timeout, set_, rfl⟩
  · cases mem

theorem arm_eq (desk : Desk) (s : Deadlines) (m : Command) (sent : List Command) :
    (desk.arm s m).scheduleAll (desk.deadlines sent) =
      s.scheduleAll (desk.deadlines (m :: sent)) := by
  cases set_ : desk.stepTimeout with
  | none => simp only [arm, deadlines, set_]
  | some timeout =>
      simp only [arm, deadlines, set_]
      rfl

/-- Settling does not depend on the deadlines. -/
theorem settle_eq (desk : Desk) (f : Flow) (s s' : Deadlines) (effects : List Effect) :
    desk.settle f s effects =
      { desk.settle f s' effects with
        deadlines := s.scheduleAll (desk.deadlines (sentBy (desk.settle f s' effects).acts)) } := by
  fun_induction desk.settle f s effects generalizing s' with
  | case1 f s =>
      simp only [settle, sentBy_nil, deadlines, List.map_nil]
      split <;> rfl
  | case2 f s build rest settled ih =>
      have rest_ : settled = _ := ih s'
      rw [rest_]
      simp only [settle, sentBy_published]
  | case3 f s build rest settled ih =>
      have rest_ : settled = _ := ih s'
      rw [rest_]
      simp only [settle]
  | case4 f s a command rest free settled ih =>
      have rest_ : settled = _ := ih (desk.arm s' command)
      rw [rest_]
      simp only [settle, free, sentBy_sent, arm_eq]
  | case5 f s a command rest why full accepted ih =>
      rw [ih s']
      simp only [settle, full, accepted, dite_true]
  | case6 f s a command rest why full rejected ih =>
      rw [ih s']
      simp only [settle, full, dif_neg rejected]

end Desk
end BuildPipeline
