import BuildPipeline.Daemon.Basic
import BuildPipeline.Proofs.Engine.Closing

/-!
What a daemon answers when it is asked for a build. Whatever happens to a daemon, its engine is
asked one thing after the other (`Engine.Undergoes`) and all that it publishes is stored
(`Daemon.store_perform`). So a build whose flow has ended is answered as it was in the end, until it
is started again (`Daemon.Remembers`). A client can delete a build while its flow winds up, and then
the store has nothing to answer with if the flow publishes no further copy (`Daemon.forgotten_end`).
-/

namespace BuildPipeline

/-! ## What engines are asked -/

namespace Engine

/-- The engine is asked one thing after the other, and no request starts the build. -/
inductive Undergoes (id : BuildId) : Engine → Engine → List Act → Prop
  | stay (e : Engine) : Undergoes id e e []
  | step {e e' : Engine} {acts : List Act} (r : Request)
      (old : (e.step (.request r)).starts id = false)
      (rest : Undergoes id (e.step (.request r)).after e' acts) :
      Undergoes id e e' ((e.step (.request r)).acts ++ acts)

section Undergoes

variable {id : BuildId} {e e' e'' : Engine} {acts more life : List Act} {begun : Prop}

theorem Undergoes.one (r : Request) (old : (e.step (.request r)).starts id = false) :
    Undergoes id e (e.step (.request r)).after (e.step (.request r)).acts := by
  have one : Undergoes id e _ _ := .step r old (.stay _)
  rwa [List.append_nil] at one

theorem Undergoes.event (id : BuildId) (e : Engine) (event : Event) :
    Undergoes id e (e.onEvent event).1 (e.onEvent event).2.1 :=
  .one (.event event) rfl

theorem Undergoes.trans (one : Undergoes id e e' acts) (two : Undergoes id e' e'' more) :
    Undergoes id e e'' (acts ++ more) := by
  induction one with
  | stay => exact two
  | step r old rest ih =>
      rw [List.append_assoc]
      exact .step r old (ih two)

theorem Undergoes.orderly (goes : Undergoes id e e' acts) (orderly : e.Orderly []) :
    e'.Orderly [] := by
  induction goes with
  | stay => exact orderly
  | step r old rest ih => exact ih (orderly.step (.request r))

theorem Undergoes.flowState (goes : Undergoes id e e' acts) (orderly : e.Orderly [])
    (state : FlowState id e begun life) : FlowState id e' begun (life ++ acts) := by
  induction goes generalizing life with
  | stay =>
      rw [List.append_nil]
      exact state
  | step r old rest ih =>
      rw [← List.append_assoc]
      exact ih (orderly.step (.request r)) (state.step orderly old)

end Undergoes
end Engine

/-! ## Pipelines -/

namespace Pipeline

open Engine (Undergoes)

section Routing

variable (id : BuildId) (p : Pipeline)

/-- A pipeline asks nothing of its engine but to route events. -/
def Routes (moved : Pipeline × List Act) : Prop :=
  Undergoes id p.engine moved.1.engine moved.2

theorem routes_route (event : Event) : Routes id p (p.route event) :=
  .event id p.engine event

theorem routes_route? (event : Option Event) : Routes id p (p.route? event) := by
  cases event with
  | none => exact .stay _
  | some event => exact routes_route id p event

theorem routes_resume (script : Script) (c : Command) : Routes id p (p.resume script c) := by
  unfold resume
  split
  · exact .stay _
  · exact routes_route id p _

theorem routes_handleScripted (place : Nat) (host : Host) (script : Script) (c : Command) :
    Routes id p (p.handleScripted place host script c) := by
  have update := routes_route? id
    (p.modifyHost place fun h => { h with calls := h.calls ++ [c] }) (script.update? c)
  unfold handleScripted
  split
  · exact update.trans (routes_resume id _ script c)
  · exact update

theorem routes_deliver (d : Delivery) : Routes id p (p.deliver d) := by
  cases d with
  | handle place c =>
      simp only [deliver]
      split
      · exact .stay _
      · split
        · exact routes_route id p _
        · exact routes_route id p _
        · exact routes_handleScripted id p _ _ _ _
  | resume place c =>
      simp only [deliver]
      split
      · exact .stay _
      · split
        · exact routes_resume id p _ _
        · exact .stay _
        · exact .stay _

theorem routes_runFor (n : Nat) : Routes id p (p.runFor n) := by
  induction n generalizing p with
  | zero => exact .stay _
  | succ n ih =>
      unfold runFor
      split
      · exact .stay _
      · rename_i d rest _
        exact (routes_deliver id { p with queue := rest } d).trans (ih _)

theorem routes_release (name : String) : Routes id p (p.release name) := by
  have runs (q : Pipeline) (same : q.engine = p.engine) : Routes id p q.run := by
    unfold Routes
    rw [← same]
    exact routes_runFor id q _
  refine runs _ (List.foldlRecOn (motive := fun q : Pipeline => q.engine = p.engine) _ _ rfl ?_)
  intro q same host _
  dsimp only
  split
  · exact same
  · exact same

end Routing
end Pipeline

/-! ## The store -/

namespace LatestStore

theorem get?_publish (s : LatestStore) (b : Build) (id : BuildId) :
    (s.publish b).get? id = if b.id = id then some b else s.get? id := by
  split
  · rename_i own
    subst own
    exact Keyed.get?_put_self b.id b s.entries
  · rename_i other
    exact Keyed.get?_put_of_ne (Ne.symm other) b s.entries

/-- The store has the latest copy. -/
theorem get?_foldl_publish (s : LatestStore) (copies : List Build) (id : BuildId) :
    (copies.foldl publish s).get? id = ((copies.filter (·.id = id)).getLast? <|> s.get? id) := by
  induction copies generalizing s with
  | nil => rfl
  | cons b copies ih =>
      rw [List.foldl_cons, ih, get?_publish]
      by_cases own : b.id = id
      · rw [if_pos own, List.filter_cons_of_pos (by simpa using own), List.getLast?_cons]
        cases (copies.filter (·.id = id)).getLast? <;> rfl
      · rw [if_neg own, List.filter_cons_of_neg (by simpa using own)]

end LatestStore

/-! ## Daemons -/

namespace Daemon

/-- What can happen to a daemon: a client asks something, anything else is asked of the engine, such
as to route an event or to close a mailbox, time goes by, deadlines are checked, commands are
delivered, and gates of providers open. -/
inductive Move where
  | request (r : Request)
  | engine (r : Engine.Request)
  | advance (span : Time.Span)
  | checkDeadlines
  | run
  | release (name : String)

/-- What a move comes to: the daemon behind it, and what was done. -/
def perform (d : Daemon) : Move → Daemon × List Act
  | .request r =>
    let (d, acts, _) := d.handle r
    (d, acts)
  | .engine r =>
    let (e, acts, _) := d.engine.handle r
    (d.withEngine e acts, acts)
  | .advance span => (d.advance span, [])
  | .checkDeadlines => d.checkDeadlines
  | .run => d.run
  | .release name => d.release name

/-- A move and what was done. -/
structure Moved where
  before : Daemon
  move : Move
  acts : List Act

/-- A move starts a build. -/
def Moved.starts (id : BuildId) (m : Moved) : Bool :=
  match m.move with
  | .request (.start other b script) | .engine (.start other b script) =>
    (m.before.engine.step (.request (.start other b script))).starts id
  | _ => false

/-- A move deletes a build. -/
def Moved.deletes (id : BuildId) (m : Moved) : Bool :=
  match m.move with
  | .request (.delete b) => b.id = id && b.canDelete
  | _ => false

/-- One move. -/
def move (d : Daemon) (m : Move) : Moved where
  before := d
  move := m
  acts := (d.perform m).2

/-- The moves that were made. -/
def log (d : Daemon) : List Move → List Moved
  | [] => []
  | m :: moves => d.move m :: (d.perform m).1.log moves

/-- The daemon behind some moves. -/
def after (d : Daemon) (moves : List Move) : Daemon :=
  moves.foldl (fun d m => (d.perform m).1) d

/-- The moves since a build was started last, the start among them. -/
def sinceStart (id : BuildId) (log : List Moved) : List Moved :=
  log.foldl (fun life m => if m.starts id then [m] else life ++ [m]) []

/-- All that was done in some moves, in order. -/
def actsOf (log : List Moved) : List Act :=
  log.flatMap (·.acts)

/-- A build was deleted, and no copy of it was published behind. -/
def Forgotten (id : BuildId) (log : List Moved) : Prop :=
  ∃ past m rest, log = past ++ m :: rest ∧ m.deletes id = true ∧ copiesFor id (actsOf rest) = []

/-- A build whose flow ended since it was started last is answered as it was in the end, unless the
build was deleted since it was started and no copy of it was published behind. -/
def Remembers (id : BuildId) (log : List Moved) (d : Daemon) : Prop :=
  ∀ b ∈ endsFor id (actsOf (sinceStart id log)),
    (d.handle (.getBuild id)).2.2 = .build (some b) ∨ Forgotten id (sinceStart id log)

section Moves

variable {id : BuildId} {d : Daemon} {m : Move} {acts more : List Act} {moves : List Move}
  {past log : List Moved}

/-- The store of a daemon has the latest copy of what was published. -/
theorem get?_record (d : Daemon) (acts : List Act) (id : BuildId) :
    (d.record acts).store.get? id = ((copiesFor id acts).getLast? <|> d.store.get? id) := by
  have same : (d.record acts).store =
      (acts.filterMap Act.published?).foldl LatestStore.publish d.store := by
    rw [record, List.filterMap_congr (g := Act.published?) fun a _ => by cases a <;> rfl]
  rw [same, copiesFor, ← publishedFor_eq]
  exact d.store.get?_foldl_publish _ id

/-- A daemon that is asked to start a build. -/
theorem perform_start (d : Daemon) (other : BuildId) (b : Build) (script : Option String) :
    d.perform (.request (.start other b script)) =
      (d.withEngine (d.engine.start other b script).1 (d.engine.start other b script).2.1,
        (d.engine.start other b script).2.1) := by
  simp only [perform, handle, handleStart]
  split <;> rfl

/-- A daemon that is asked to abort a build asks its engine, or does nothing. -/
theorem perform_abort (d : Daemon) (other : BuildId) :
    d.perform (.request (.abort other)) = (d, []) ∨
      d.perform (.request (.abort other)) =
        (d.withEngine (d.engine.abort other).1 (d.engine.abort other).2.1,
          (d.engine.abort other).2.1) := by
  simp only [perform, handle, handleAbort]
  split
  · exact .inl rfl
  · split
    · exact .inl rfl
    · split <;> exact .inr rfl

/-- The engine of a daemon is asked one thing after the other. -/
theorem undergoes_perform (old : (d.move m).starts id = false) :
    Engine.Undergoes id d.engine (d.perform m).1.engine (d.perform m).2 := by
  cases m with
  | request r =>
      cases r with
      | start other b script =>
          rw [perform_start]
          exact .one (.start other b script) old
      | abort other =>
          rcases d.perform_abort other with idle | called
          · rw [idle]
            exact .stay _
          · rw [called]
            exact .one (.abort other) rfl
      | delete b =>
          change Engine.Undergoes id d.engine (d.handleDelete b).1.engine (d.handleDelete b).2.1
          unfold handleDelete
          split
          · exact .stay _
          · exact .one (.delete b) rfl
      | ping => exact .stay _
      | hello => exact .stay _
      | status => exact .stay _
      | getBuild => exact .stay _
      | shutdown => exact .stay _
  | engine r =>
      refine .one r ?_
      cases r with
      | start => exact old
      | event => rfl
      | abort => rfl
      | delete => rfl
      | advance => rfl
      | fire => rfl
      | close => rfl
  | advance span => exact .one (.advance span) rfl
  | checkDeadlines => exact .one .fire rfl
  | run => exact d.pipeline.routes_runFor id d.pipeline.workload
  | release name => exact d.pipeline.routes_release id name

/-- What the store of a daemon has of a build behind a move: nothing when the build was deleted, and
otherwise the latest copy that was published. -/
theorem get?_perform (d : Daemon) (m : Move) (id : BuildId) :
    (d.perform m).1.store.get? id =
      if (d.move m).deletes id then none
      else ((copiesFor id (d.perform m).2).getLast? <|> d.store.get? id) := by
  cases m with
  | request r =>
      cases r with
      | start other b script =>
          rw [perform_start]
          exact get?_record _ _ id
      | abort other =>
          rcases d.perform_abort other with idle | called
          · rw [idle]
            rfl
          · rw [called]
            exact get?_record _ _ id
      | delete b =>
          have told : (d.move (.request (.delete b))).deletes id = (b.id = id && b.canDelete) := rfl
          rw [told]
          simp only [perform, handle, handleDelete]
          cases allowed : b.canDelete with
          | false => simp [copiesFor, Engine.actsFor]
          | true =>
              have silent : copiesFor id (Engine.delete b) = [] :=
                (for_of_silent (Engine.silent_delete b).2).1
              by_cases own : b.id = id
              · subst own
                simp [LatestStore.erase, LatestStore.get?]
              · have kept := Keyed.get?_erase_of_ne (Ne.symm own) d.store.entries
                simp [own, silent, LatestStore.erase, LatestStore.get?, kept]
      | ping => rfl
      | hello => rfl
      | status => rfl
      | getBuild => rfl
      | shutdown => rfl
  | engine r => exact get?_record _ _ id
  | advance span => rfl
  | checkDeadlines => exact get?_record _ _ id
  | run => exact get?_record _ _ id
  | release name => exact get?_record _ _ id

/-! ## Runs -/

theorem log_append (d : Daemon) (moves : List Move) (m : Move) :
    d.log (moves ++ [m]) = d.log moves ++ [(d.after moves).move m] := by
  induction moves generalizing d with
  | nil => rfl
  | cons first moves ih => exact congrArg _ (ih _)

theorem after_append (d : Daemon) (moves : List Move) (m : Move) :
    d.after (moves ++ [m]) = ((d.after moves).perform m).1 :=
  List.foldl_append ..

theorem sinceStart_append (id : BuildId) (log : List Moved) (m : Moved) :
    sinceStart id (log ++ [m]) = if m.starts id then [m] else sinceStart id log ++ [m] := by
  rw [sinceStart, List.foldl_append]
  rfl

theorem actsOf_append (log more : List Moved) : actsOf (log ++ more) = actsOf log ++ actsOf more :=
  List.flatMap_append

/-- A build that is started is asked of the engine. -/
theorem starts_perform (starts : (d.move m).starts id = true) :
    ∃ r : Engine.Request, (d.engine.step (.request r)).starts id = true ∧
      (d.perform m).1.engine = (d.engine.step (.request r)).after ∧
      (d.perform m).2 = (d.engine.step (.request r)).acts := by
  cases m with
  | request r =>
      cases r with
      | start other b script =>
          rw [perform_start]
          exact ⟨.start other b script, starts, rfl, rfl⟩
      | ping => cases starts
      | hello => cases starts
      | abort => cases starts
      | delete => cases starts
      | status => cases starts
      | getBuild => cases starts
      | shutdown => cases starts
  | engine r =>
      cases r with
      | start other b script => exact ⟨.start other b script, starts, rfl, rfl⟩
      | event => cases starts
      | abort => cases starts
      | delete => cases starts
      | advance => cases starts
      | fire => cases starts
      | close => cases starts
  | advance => cases starts
  | checkDeadlines => cases starts
  | run => cases starts
  | release => cases starts

/-- A daemon has the latest copy of a build that was published since the build was started last, or
the build was deleted since and no copy was published behind. -/
def Keeps (id : BuildId) (log : List Moved) (d : Daemon) : Prop :=
  ∀ b, (copiesFor id (actsOf log)).getLast? = some b →
    d.store.get? id = some b ∨ Forgotten id log

theorem keeps_nil (d : Daemon) : Keeps id [] d := by
  intro b none_
  cases none_

theorem Forgotten.append (forgotten : Forgotten id log) {m : Moved}
    (silent : copiesFor id m.acts = []) : Forgotten id (log ++ [m]) := by
  obtain ⟨past, deletion, rest, rfl, deletes, quiet⟩ := forgotten
  have one : actsOf [m] = m.acts := List.flatMap_singleton ..
  refine ⟨past, deletion, rest ++ [m], ?_, deletes, ?_⟩
  · rw [List.append_assoc, List.cons_append]
  · rw [actsOf_append, copiesFor_append, quiet, one, silent]
    rfl

theorem Keeps.perform (keeps : Keeps id log d) (m : Move) :
    Keeps id (log ++ [d.move m]) (d.perform m).1 := by
  intro b last
  have one : actsOf [d.move m] = (d.perform m).2 := List.flatMap_singleton ..
  rw [actsOf_append, copiesFor_append, one, List.getLast?_append] at last
  rw [get?_perform]
  -- a deletion publishes nothing, so it has the last word until a copy is published behind it
  cases deletes : (d.move m).deletes id with
  | true => exact .inr ⟨log, d.move m, [], rfl, deletes, rfl⟩
  | false =>
      rw [if_neg Bool.false_ne_true]
      cases latest : (copiesFor id (d.perform m).2).getLast? with
      | some b' =>
          rw [latest] at last
          exact .inl last
      | none =>
          rw [latest] at last
          refine (keeps b last).imp (fun stored => stored) fun forgotten => forgotten.append ?_
          exact List.getLast?_eq_none_iff.1 latest

/-- What holds of a daemon behind some moves. -/
structure Followed (id : BuildId) (log : List Moved) (d : Daemon) : Prop where
  orderly : d.engine.Orderly []
  state : Engine.FlowState id d.engine (∃ m ∈ log, m.starts id = true) (actsOf (sinceStart id log))
  keeps : Keeps id (sinceStart id log) d

theorem Followed.perform (followed : Followed id log d) (m : Move) :
    Followed id (log ++ [d.move m]) (d.perform m).1 := by
  have one : actsOf [d.move m] = (d.perform m).2 := List.flatMap_singleton ..
  cases starts : (d.move m).starts id with
  | true =>
      obtain ⟨r, asked, engine, acts⟩ := starts_perform starts
      have begun : ∃ m' ∈ log ++ [d.move m], m'.starts id = true :=
        ⟨d.move m, List.mem_append_right _ (List.mem_singleton.2 rfl), starts⟩
      refine ⟨?_, ?_, ?_⟩
      · rw [engine]
        exact followed.orderly.step (.request r)
      · rw [sinceStart_append, if_pos starts, one, acts, engine]
        exact Engine.flowState_start followed.orderly asked begun
      · rw [sinceStart_append, if_pos starts]
        exact (keeps_nil d).perform m
  | false =>
      have goes := undergoes_perform starts
      have unstarted : ¬(d.move m).starts id = true := by rw [starts]; exact Bool.false_ne_true
      refine ⟨goes.orderly followed.orderly, ?_, ?_⟩
      · rw [sinceStart_append, if_neg unstarted, actsOf_append, one]
        refine (goes.flowState followed.orderly followed.state).congr ?_
        simp [or_and_right, exists_or, starts]
      · rw [sinceStart_append, if_neg unstarted]
        exact followed.keeps.perform m

/-- A daemon is followed from the beginning on. -/
theorem followed_idle (c : Config) (providers : List Provider) (lock : Nat) (moves : List Move)
    (id : BuildId) :
    Followed id ((idle c providers lock).log moves) ((idle c providers lock).after moves) := by
  induction moves using List.reverseRecOn with
  | nil =>
      refine ⟨Engine.orderly_new _ _ _ _, .idle ?_ rfl rfl, keeps_nil _⟩
      rintro ⟨m, mem, -⟩
      cases mem
  | append_singleton moves m ih =>
      rw [log_append, after_append]
      exact ih.perform m

/-- A daemon remembers how builds ended. -/
theorem Followed.remembers (followed : Followed id log d) : Remembers id log d := by
  intro b mem
  cases followed.state with
  | idle _ _ silent =>
      rw [silent] at mem
      cases mem
  | active f _ _ silent =>
      rw [silent] at mem
      cases mem
  | closed f started gone ran ended announced known =>
      rw [announced, List.mem_singleton] at mem
      subst mem
      refine (followed.keeps _ known).imp_left fun stored => ?_
      have answer : (d.handle (.getBuild id)).2.2 = .build (d.lookUp id) := rfl
      rw [answer, lookUp, Engine.snapshot?, gone, stored]
      rfl

end Moves

/-- How flows end. From its start on the flow of a build is active until its end is announced. This
happens once and in the call in which the flow tells its end, which is the last that it asks for;
then the flow is gone with all its deadlines, and its build was published as it ended. A daemon
answers with this build until the build is started again, unless the build was deleted since the
flow was started and nothing was published behind. -/
theorem concluded (chains : Chains) (mailboxes : Mailboxes) (stepTimeout : Option Time.Span)
    (clock : Time.Clock) (rs : List Engine.Request) (c : Config) (providers : List Provider)
    (lock : Nat) (moves : List Move) (id : BuildId) :
    let e : Engine := { chains, mailboxes, stepTimeout, clock }
    let d := idle c providers lock
    Engine.Accounted id (e.run (rs.map .request)) (e.after (rs.map .request)) ∧
      Remembers id (d.log moves) (d.after moves) :=
  ⟨(Engine.orderly_new chains mailboxes stepTimeout clock).accounted rfl rs,
    (followed_idle c providers lock moves id).remembers⟩

/-- A daemon with one provider, which holds its commands back. -/
def reluctant : Daemon :=
  idle { stateDir := "", socketPath := "", logPath := "", stepTimeout := none, providers := [] }
    [{ name := "held", capabilities := [.setup], conduct := .scripted { held := true } }] 0

/-- A build is started, aborted and deleted before its provider answers. -/
def abandoned : List Move :=
  let build : Build := { id := ⟨"b"⟩, createdAt := Time.Moment.origin }
  [.request (.start ⟨"b"⟩ build none), .run, .request (.abort ⟨"b"⟩),
    .request (.delete { build with status := .canceled })]

/-- The flow of a build that was aborted and deleted ends when its provider answers, and right
behind this end the daemon does not know the build any more. -/
theorem forgotten_end :
    let winding := reluctant.after abandoned
    (∃ b, endsFor ⟨"b"⟩ (winding.perform (.release "held")).2 = [b]) ∧
      ((winding.perform (.release "held")).1.handle (.getBuild ⟨"b"⟩)).2.2 = .build none := by
  intro winding
  have ended : (endsFor ⟨"b"⟩ (winding.perform (.release "held")).2).map (·.status) =
      [.canceled] := by cbv
  obtain ⟨b, one, -⟩ := List.map_eq_singleton_iff.1 ended
  exact ⟨⟨b, one⟩, by cbv⟩

end Daemon
end BuildPipeline
