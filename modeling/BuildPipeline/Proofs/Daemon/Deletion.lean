import BuildPipeline.Proofs.Daemon.Lookup

/-!
What is left of a build that a client deletes. The store forgets it, so from then on the daemon
knows of the build what its flow has, if one is active, and the copies that are published after the
deletion (`Daemon.answer_after_deletion`). A build without a flow publishes nothing, so it stays
deleted until it is started again (`Daemon.Absent`). Only the word of the client is asked for
whether the build is finished, not the engine: a build whose flow is active is deleted as well, and
then the deletion does not last (`Daemon.deleted_returns`).
-/

namespace BuildPipeline

namespace Engine

variable {id : BuildId} {e e' : Engine} {acts : List Act}

/-- A build that has no flow gets none and publishes nothing as long as it is not started. -/
theorem Undergoes.idle (goes : Undergoes id e e' acts) (orderly : e.Orderly [])
    (none_ : e.flows.get? id = none) : e'.flows.get? id = none ∧ copiesFor id acts = [] := by
  induction goes with
  | stay => exact ⟨none_, rfl⟩
  | step r old rest ih =>
      obtain ⟨none_', copies, -⟩ := orderly.idle_step r none_ old
      obtain ⟨gone, more⟩ := ih (orderly.step (.request r)) none_'
      refine ⟨gone, ?_⟩
      rw [copiesFor_append, copies, more]
      rfl

end Engine

namespace Daemon

/-- A daemon knows nothing of a build: it has no flow of it, and no copy. -/
structure Absent (id : BuildId) (d : Daemon) : Prop where
  orderly : d.engine.Orderly []
  flow : d.engine.flows.get? id = none
  copy : d.store.get? id = none

/-- Some moves lead to a daemon. -/
def Reached (d : Daemon) : Prop :=
  ∃ c providers lock moves, d = (idle c providers lock).after moves

variable {id : BuildId} {d : Daemon} {b : Build}

theorem Reached.orderly (reached : d.Reached) (id : BuildId) : d.engine.Orderly [] := by
  obtain ⟨c, providers, lock, moves, rfl⟩ := reached
  exact (followed_idle c providers lock moves id).orderly

theorem answer_getBuild (d : Daemon) (id : BuildId) :
    (d.handle (.getBuild id)).2.2 = .build (d.engine.snapshot? id <|> d.store.get? id) :=
  rfl

/-! ## Deletions -/

/-- A deletion is accepted when the client says that the build is over. -/
theorem accepted_iff : (d.handle (.delete b)).2.2 = .deleteAccepted b.id ↔ b.canDelete = true := by
  rw [handle, handleDelete]
  cases b.canDelete with
  | true => exact iff_of_true rfl rfl
  | false =>
      refine iff_of_false (fun refused => ?_) Bool.false_ne_true
      cases refused

/-- An accepted deletion leaves the engine alone, and the store forgets the build. -/
theorem handle_delete (allowed : b.canDelete = true) :
    (d.handle (.delete b)).1 = { d with store := d.store.erase b.id } := by
  rw [handle, handleDelete, allowed]
  rfl

theorem store_handle_delete (allowed : b.canDelete = true) :
    (d.handle (.delete b)).1.store.get? b.id = none := by
  rw [handle_delete allowed]
  exact Keyed.get?_erase_self b.id d.store.entries

/-! ## What follows -/

theorem Absent.answer (absent : Absent id d) : (d.handle (.getBuild id)).2.2 = .build none := by
  rw [answer_getBuild, Engine.snapshot?, absent.flow, absent.copy]
  rfl

/-- A daemon that knows nothing of a build does not learn of it unless it is started. -/
theorem Absent.perform (absent : Absent id d) {m : Move} (old : (d.move m).starts id = false) :
    Absent id (d.perform m).1 := by
  have goes := undergoes_perform old
  obtain ⟨flow, copies⟩ := goes.idle absent.orderly absent.flow
  refine ⟨goes.orderly absent.orderly, flow, ?_⟩
  rw [get?_perform, copies, absent.copy]
  exact ite_self none

theorem Absent.after (absent : Absent id d) {moves : List Move}
    (old : ∀ m ∈ d.log moves, m.starts id = false) : Absent id (d.after moves) := by
  induction moves generalizing d with
  | nil => exact absent
  | cons m moves ih =>
      obtain ⟨first, rest⟩ := List.forall_mem_cons.1 old
      exact ih (absent.perform first) rest

/-- What the store has of a build that is not deleted meanwhile is the latest copy that was
published, or what it had before. -/
theorem get?_after (moves : List Move) (kept : ∀ m ∈ d.log moves, m.deletes id = false) :
    (d.after moves).store.get? id =
      ((copiesFor id (actsOf (d.log moves))).getLast? <|> d.store.get? id) := by
  induction moves generalizing d with
  | nil => rfl
  | cons m moves ih =>
      obtain ⟨first, rest⟩ := List.forall_mem_cons.1 kept
      have later : (d.after (m :: moves)).store.get? id = _ := ih rest
      have acts : actsOf (d.log (m :: moves)) =
          (d.perform m).2 ++ actsOf ((d.perform m).1.log moves) := rfl
      rw [later, get?_perform, first, if_neg Bool.false_ne_true, acts, copiesFor_append,
        List.getLast?_append]
      cases (copiesFor id (actsOf ((d.perform m).1.log moves))).getLast? <;> rfl

/-- What a daemon answers about a build that was deleted. -/
theorem answer_after_deletion (allowed : b.canDelete = true) (later : List Move)
    (kept : ∀ m ∈ (d.handle (.delete b)).1.log later, m.deletes b.id = false) :
    (((d.handle (.delete b)).1.after later).handle (.getBuild b.id)).2.2 =
      .build (((d.handle (.delete b)).1.after later).engine.snapshot? b.id <|>
        (copiesFor b.id (actsOf ((d.handle (.delete b)).1.log later))).getLast?) := by
  rw [answer_getBuild, get?_after later kept, store_handle_delete allowed]
  cases (copiesFor b.id (actsOf ((d.handle (.delete b)).1.log later))).getLast? <;> rfl

/-- A build that is deleted while it has no flow is unknown to the daemon. -/
theorem absent_delete (orderly : d.engine.Orderly []) (allowed : b.canDelete = true)
    (none_ : d.engine.flows.get? b.id = none) : Absent b.id (d.handle (.delete b)).1 := by
  refine ⟨?_, ?_, store_handle_delete allowed⟩
  · rw [handle_delete allowed]
    exact orderly
  · rw [handle_delete allowed]
    exact none_

/-- An accepted deletion lasts until the build is started again exactly if the build had no active
flow. In any case all that is answered about the build, until it is deleted again, is what its
active flow has, or else the latest copy that was published after the deletion. -/
theorem deleted_lasts_iff (reached : d.Reached)
    (accepted : (d.handle (.delete b)).2.2 = .deleteAccepted b.id) :
    let gone := (d.handle (.delete b)).1
    ((∀ later : List Move, (∀ m ∈ gone.log later, m.starts b.id = false) →
        ((gone.after later).handle (.getBuild b.id)).2.2 = .build none) ↔
      b.id ∉ d.engine.activeFlows) ∧
    ∀ later : List Move, (∀ m ∈ gone.log later, m.deletes b.id = false) →
      ((gone.after later).handle (.getBuild b.id)).2.2 =
        .build ((gone.after later).engine.snapshot? b.id <|>
          (copiesFor b.id (actsOf (gone.log later))).getLast?) := by
  intro gone
  have allowed := accepted_iff.1 accepted
  refine ⟨⟨fun lasts active => ?_, fun idle later old => ?_⟩, answer_after_deletion allowed⟩
  · obtain ⟨f, there⟩ := Engine.mem_activeFlows.1 active
    -- the flow was not asked, so it still has the build right behind the deletion
    have still : gone.engine.flows.get? b.id = some f := by
      rw [show gone = _ from handle_delete allowed]
      exact there
    have none_ := lasts [] (List.forall_mem_nil _)
    rw [answer_getBuild, Engine.snapshot?, show (gone.after []).engine = gone.engine from rfl,
      still] at none_
    cases none_
  · have none_ : d.engine.flows.get? b.id = none := by
      refine Option.eq_none_iff_forall_ne_some.2 fun f there => idle ?_
      exact Engine.mem_activeFlows.2 ⟨f, there⟩
    exact ((absent_delete (reached.orderly b.id) allowed none_).after old).answer

theorem reached_reluctant (moves : List Move) : (reluctant.after moves).Reached :=
  ⟨_, _, _, moves, rfl⟩

/-- A build that a client starts and that its provider has not answered yet. -/
def underway : List Move :=
  [.request (.start ⟨"b"⟩ { id := ⟨"b"⟩, createdAt := Time.Moment.origin } none), .run]

/-- A build that a client takes to be done. -/
def supposed : Build :=
  { id := ⟨"b"⟩, status := .done, createdAt := Time.Moment.origin }

/-- A build that was carried out is deleted, and stays deleted while the daemon runs on. -/
theorem deleted_lasts_iff_carried_out :
    let d := reluctant.after (underway ++ [.release "held"])
    let gone := (d.handle (.delete supposed)).1
    (d.handle (.delete supposed)).2.2 = .deleteAccepted supposed.id ∧
      (gone.handle (.getBuild supposed.id)).2.2 = .build none ∧
      ((gone.after [.run, .checkDeadlines]).handle (.getBuild supposed.id)).2.2 = .build none := by
  have none_ : (reluctant.after (underway ++ [.release "held"])).engine.activeFlows = [] := by cbv
  intro d gone
  have accepted : (d.handle (.delete supposed)).2.2 = .deleteAccepted supposed.id :=
    accepted_iff.2 rfl
  obtain ⟨lasts, -⟩ := deleted_lasts_iff (reached_reluctant _) accepted
  have idle : supposed.id ∉ d.engine.activeFlows := by
    rw [show d.engine.activeFlows = [] from none_]
    exact List.not_mem_nil
  have unstarted : ∀ m ∈ gone.log [.run, .checkDeadlines], m.starts supposed.id = false :=
    List.forall_mem_cons.2 ⟨rfl, List.forall_mem_singleton.2 rfl⟩
  exact ⟨accepted, lasts.2 idle [] (List.forall_mem_nil _), lasts.2 idle _ unstarted⟩

/-- A daemon that was told to delete a build on which it still works. -/
def misinformed : Daemon :=
  ((reluctant.after underway).handle (.delete supposed)).1

/-- The deletion of a build whose flow is active is accepted. The daemon still answers with the
build, and it does so when the flow has ended. -/
theorem deleted_returns :
    ((reluctant.after underway).handle (.delete supposed)).2.2 = .deleteAccepted ⟨"b"⟩ ∧
      (reluctant.after underway).engine.activeFlows = [⟨"b"⟩] ∧
      (∃ b, (misinformed.handle (.getBuild ⟨"b"⟩)).2.2 = .build (some b) ∧ b.status = .inFlight) ∧
      (misinformed.after [.release "held"]).engine.activeFlows = [] ∧
      ∃ b, ((misinformed.after [.release "held"]).handle (.getBuild ⟨"b"⟩)).2.2 =
        .build (some b) ∧ b.status = .done := by
  have running : (misinformed.lookUp ⟨"b"⟩).map (·.status) = some .inFlight := by cbv
  have ended : ((misinformed.after [.release "held"]).lookUp ⟨"b"⟩).map (·.status) =
      some .done := by cbv
  obtain ⟨now, found, inFlight⟩ := Option.map_eq_some_iff.1 running
  obtain ⟨last, stored, done⟩ := Option.map_eq_some_iff.1 ended
  refine ⟨accepted_iff.2 rfl, by cbv, ⟨now, ?_, inFlight⟩, by cbv, last, ?_, done⟩
  · exact congrArg Response.build found
  · exact congrArg Response.build stored

end Daemon
end BuildPipeline
