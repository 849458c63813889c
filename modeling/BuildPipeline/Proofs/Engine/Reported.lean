import BuildPipeline.Proofs.Engine.Publishing

/-!
What the store knows of a build while its flow is active. A step that changes the build of a flow
publishes the build as it came to be, but for two kinds of steps (`Engine.informed`). A start puts
the build in flight and does not tell, and neither does the success of a phase whose stage goes on
(`Flow.Defers`); the store lags behind then until the next copy (`Engine.lagging`).
-/

namespace BuildPipeline

open Time (Clock Moment Span)

/-- What the store knows of a flow that a step leaves active: the last copy that the step published
is of the build as it is now, or the step published none. Then it left the build as it was, put it
in flight, or handed over the success of a phase whose stage goes on. -/
inductive Reported (id : BuildId) (s : Step) (g : Flow) : Prop
  | told (last : (copiesFor id s.acts).getLast? = some g.build)
  | same (f : Flow) (was : s.before.flows.get? id = some f) (same : g.build = f.build)
  | begun (b : Build) (script : Option String)
      (called : s.operation = .request (.start id b script))
      (was : s.before.flows.get? id = none) (quiet : copiesFor id s.acts = [])
      (build : g.build = { b with id, status := .inFlight })
  | deferred (event : Event) (f : Flow) (called : s.operation = .request (.event event))
      (own : event.buildId = id) (was : s.before.flows.get? id = some f)
      (quiet : copiesFor id s.acts = []) (defers : f.Defers event g)

/-- The store knows all flows that a step leaves active. -/
def Step.Reports (s : Step) : Prop :=
  ∀ id g, s.after.flows.get? id = some g → Reported id s g

namespace Engine

section Reported

variable {e : Engine} {id : BuildId} {f g : Flow}

theorem Orderly.reported (orderly : e.Orderly []) (r : Request) :
    (e.step (.request r)).Reports := by
  intro id g there
  cases was : e.flows.get? id with
  | some f =>
      cases (orderly.flowAfterCall_step r was).published there with
      | told last => exact .told last
      | mute _ _ same => exact .same f was same
      | untold quiet why =>
          rcases why with rfl | ⟨event, rfl, own, defers⟩
          · exact .same g was rfl
          · exact .deferred event f rfl own was quiet defers
  | none =>
      cases starts : (e.step (.request r)).starts id with
      | false => cases (orderly.idle_step r was starts).1.symm.trans there
      | true =>
          obtain ⟨b, script, called, parked, -⟩ := starts_iff.1 starts
          cases called
          cases (flowAfterCall_start parked was script).published there with
          | told last => exact .told last
          | mute aborted => cases aborted
          | untold quiet build => exact .begun b script rfl was quiet build

/-- A request that changes the build of a flow and leaves it active tells the store, unless it
starts the build or hands over the success of a phase whose stage goes on. -/
theorem informed (chains : Chains) (mailboxes : Mailboxes) (stepTimeout : Option Span)
    (clock : Clock) (ops : List Operation) (r : Request) :
    let e : Engine := { chains, mailboxes, stepTimeout, clock }
    ((e.after ops).step (.request r)).Reports :=
  ((orderly_new chains mailboxes stepTimeout clock).after ops).reported r

/-- A build as it is submitted. -/
def submitted : Build :=
  { id := ⟨"b"⟩, createdAt := Moment.origin }

/-- An engine of two providers for every phase, with a build of one phase. -/
def loaded : Engine :=
  ({ chains := Course.shortChains } : Engine).after
    [.request (.start ⟨"b"⟩ submitted none),
      .request (.event
        { kind := .setupEnd, buildId := ⟨"b"⟩, token := ⟨1⟩, stages := some [[{ id := "p" }]] })]

/-- The reply of the first provider of the phase, which gives it a container. -/
def contained : Operation :=
  .request (.event
    { kind := .phaseEnd, buildId := ⟨"b"⟩, token := ⟨2⟩, phase := some ⟨0, some "c", none, none⟩ })

/-- The start of a build and the reply of a phase change the build of a flow that is active behind
them, and publish nothing. -/
theorem lagging :
    let start := ({ chains := Course.shortChains } : Engine).step
      (.request (.start ⟨"b"⟩ submitted none))
    let reply := loaded.step contained
    (∃ g, start.after.flows.get? ⟨"b"⟩ = some g ∧ g.build ≠ submitted ∧
      copiesFor ⟨"b"⟩ start.acts = []) ∧
    ∃ f g, reply.before.flows.get? ⟨"b"⟩ = some f ∧ reply.after.flows.get? ⟨"b"⟩ = some g ∧
      g.build ≠ f.build ∧ copiesFor ⟨"b"⟩ reply.acts = [] := by
  intro start reply
  have begun : (start.after.flows.get? ⟨"b"⟩).map (·.build.status) = some .inFlight := by cbv
  have bare : (reply.before.flows.get? ⟨"b"⟩).map (·.build.phases.map (·.containerId)) =
      some [none] := by cbv
  have held : (reply.after.flows.get? ⟨"b"⟩).map (·.build.phases.map (·.containerId)) =
      some [some "c"] := by cbv
  obtain ⟨g, there, status⟩ := Option.map_eq_some_iff.1 begun
  obtain ⟨f, was, none_⟩ := Option.map_eq_some_iff.1 bare
  obtain ⟨h, there', some_⟩ := Option.map_eq_some_iff.1 held
  refine ⟨⟨g, there, fun same => ?_, by cbv⟩, f, h, was, there', fun same => ?_, by cbv⟩
  · rw [same] at status
    cases status
  · rw [same, none_] at some_
    cases some_

end Reported
end Engine
end BuildPipeline
