import BuildPipeline.Proofs.Flow.Aborting
import BuildPipeline.Proofs.Flow.Barrier

/-!
The life of a phase from the reply that loads it until another reply puts new stages in its place.
It begins parked, and a call only ever takes its status forward (`Status.Reaches`); its id, name and
scripts stay (`Phase.Ages`). Between these calls a phase is found at the same position of the build.

Where a call starts no stage, phases keep their indexes, and none gets under way (`Phase.Stays`). So
a phase that is done is of a stage that was started, and the phases of such a stage carry their
places in it (`Placed`). Both are kept from turn to turn (`Flow.Bare.ages`, `Flow.Fed.stays`).
-/

namespace BuildPipeline

open Time (Moment)

namespace Status

/-- The way of a status: `PARKED`, then `IN_FLIGHT`, then a terminal one, which stays. -/
def Reaches (s t : Status) : Prop :=
  t = s ∨ s = .parked ∧ t = .inFlight ∨ s.isTerminal = false ∧ t.isTerminal = true

/-- The statuses that only a phase has that was started. -/
def Underway (s : Status) : Prop :=
  s = .inFlight ∨ s = .done

theorem Reaches.trans {s t u : Status} (first : s.Reaches t) (second : t.Reaches u) :
    s.Reaches u := by
  rcases first with rfl | ⟨rfl, rfl⟩ | ⟨going, over_⟩
  · exact second
  · rcases second with rfl | ⟨parked, -⟩ | ⟨-, over_⟩
    · exact .inr (.inl ⟨rfl, rfl⟩)
    · cases parked
    · exact .inr (.inr ⟨rfl, over_⟩)
  · rcases second with rfl | ⟨rfl, -⟩ | ⟨going', -⟩
    · exact .inr (.inr ⟨going, over_⟩)
    · cases over_
    · rw [over_] at going'
      cases going'

end Status

namespace Phase

/-- A phase and what became of it. -/
structure Ages (p q : Phase) : Prop where
  id : q.id = p.id
  name : q.name = p.name
  preScript : q.preScript = p.preScript
  mainScript : q.mainScript = p.mainScript
  status : p.status.Reaches q.status

/-- A phase and what became of it without a start of its stage. -/
structure Stays (p q : Phase) : Prop extends Ages p q where
  index : q.index = p.index
  underway : q.status.Underway → p.status.Underway

variable {p q r : Phase} {s : Status}

theorem Ages.refl (p : Phase) : p.Ages p :=
  ⟨rfl, rfl, rfl, rfl, .inl rfl⟩

theorem Ages.trans (first : p.Ages q) (second : q.Ages r) : p.Ages r :=
  ⟨second.id.trans first.id, second.name.trans first.name,
    second.preScript.trans first.preScript, second.mainScript.trans first.mainScript,
    first.status.trans second.status⟩

theorem Stays.refl (p : Phase) : p.Stays p :=
  ⟨.refl p, rfl, fun underway => underway⟩

theorem Stays.trans (first : p.Stays q) (second : q.Stays r) : p.Stays r :=
  ⟨first.toAges.trans second.toAges, second.index.trans first.index,
    fun underway => first.underway (second.underway underway)⟩

/-- A phase that is given up. -/
theorem stays_givenUp (p : Phase) (given : s = .failed ∨ s = .canceled) :
    p.Stays (if p.status.isCancellable then { p with status := s } else p) := by
  split
  · rename_i open_
    have going : p.status.isTerminal = false := by simpa [Status.isCancellable] using open_
    have over_ : s.isTerminal = true := by rcases given with rfl | rfl <;> rfl
    refine ⟨⟨rfl, rfl, rfl, rfl, .inr (.inr ⟨going, over_⟩)⟩, rfl, fun underway => ?_⟩
    rcases given with rfl | rfl <;> rcases underway with same | same <;> cases same
  · exact .refl p

theorem stays_canceled (parked : p.status = .parked) : p.Stays { p with status := .canceled } := by
  have givenUp := p.stays_givenUp (.inr rfl)
  rwa [if_pos (by rw [parked]; rfl)] at givenUp

theorem stays_applyContainer (p : Phase) (patch : PhasePatch) : p.Stays (p.applyContainer patch) :=
  ⟨⟨rfl, rfl, rfl, rfl, .inl rfl⟩, rfl, fun underway => underway⟩

theorem ages_beginRun (parked : p.status = .parked) (index : Nat) : p.Ages (p.beginRun index) :=
  ⟨rfl, rfl, rfl, rfl, .inr (.inl ⟨parked, rfl⟩)⟩

/-- What the results of a run make of a phase that is under way. -/
theorem Stays.of_running (running : p.status = .inFlight)
    (named : q.id = p.id ∧ q.name = p.name ∧ q.preScript = p.preScript ∧
      q.mainScript = p.mainScript) (index : q.index = p.index)
    (goes : q.status = .inFlight ∨ q.status.isTerminal = true) : p.Stays q := by
  obtain ⟨id, name, preScript, mainScript⟩ := named
  refine ⟨⟨id, name, preScript, mainScript, ?_⟩, index, fun _ => .inl running⟩
  rcases goes with still | over_
  · exact .inl (still.trans running.symm)
  · exact .inr (.inr ⟨by rw [running]; rfl, over_⟩)

theorem named_passedRun (patch : PhasePatch) (p : Phase) :
    (Flow.passedRun patch p).id = p.id ∧ (Flow.passedRun patch p).name = p.name ∧
      (Flow.passedRun patch p).preScript = p.preScript ∧
      (Flow.passedRun patch p).mainScript = p.mainScript ∧
      (Flow.passedRun patch p).index = p.index := by
  unfold Flow.passedRun
  split <;> exact ⟨rfl, rfl, rfl, rfl, rfl⟩

end Phase

/-! ## All phases of a build -/

/-- The phases of a build and what became of them, position by position. -/
structure EachBy (R : Phase → Phase → Prop) (old new : List Phase) : Prop where
  size : new.length = old.length
  each : ∀ (position : Nat) (p q : Phase), old[position]? = some p → new[position]? = some q →
    R p q

section EachBy

variable {R S : Phase → Phase → Prop} {old new later : List Phase}

theorem EachBy.refl (refl : ∀ p, R p p) (all : List Phase) : EachBy R all all := by
  refine ⟨rfl, fun position p q at_p at_q => ?_⟩
  obtain rfl : p = q := Option.some.inj (at_p.symm.trans at_q)
  exact refl p

theorem EachBy.mono (by_ : EachBy R old new) (imp : ∀ p q, R p q → S p q) : EachBy S old new :=
  ⟨by_.size, fun position p q at_p at_q => imp p q (by_.each position p q at_p at_q)⟩

theorem EachBy.trans (trans : ∀ p q r, R p q → R q r → R p r) (first : EachBy R old new)
    (second : EachBy R new later) : EachBy R old later := by
  refine ⟨second.size.trans first.size, fun position p r at_p at_r => ?_⟩
  have inside : position < new.length := by
    rw [first.size]
    exact (List.getElem?_eq_some_iff.1 at_p).1
  have at_q := List.getElem?_eq_getElem inside
  exact trans _ _ _ (first.each position _ _ at_p at_q) (second.each position _ _ at_q at_r)

theorem EachBy.map {change : Phase → Phase} (by_ : ∀ p, R p (change p)) (all : List Phase) :
    EachBy R all (all.map change) := by
  refine ⟨List.length_map .., fun position p q at_p at_q => ?_⟩
  rw [List.getElem?_map, at_p] at at_q
  cases at_q
  exact by_ p

theorem EachBy.modify {change : Phase → Phase} (refl : ∀ p, R p p) {position : Nat}
    (here : ∀ p, old[position]? = some p → R p (change p)) :
    EachBy R old (old.modify position change) := by
  refine ⟨List.length_modify .., fun other p q at_p at_q => ?_⟩
  rw [List.getElem?_modify, at_p] at at_q
  cases at_q
  dsimp only
  split
  · rename_i same
    exact here p (same ▸ at_p)
  · exact refl p

end EachBy

/-- Where the phases stand in the stages of a plan of which `begun` were started: those of a stage
that was started carry their places in it, and only those have got under way. -/
structure Placed (plan : List Stage) (begun : Nat) (all : List Phase) : Prop where
  index : ∀ (n : Nat) (s : Stage), plan[n]? = some s → n < begun →
    ∀ (i position : Nat) (p : Phase), s.members[i]? = some position →
      all[position]? = some p → p.index = i
  underway : ∀ (n : Nat) (s : Stage), plan[n]? = some s →
    s.Holds all fun p => p.status.Underway → n < begun

section Placed

variable {plan : List Stage} {begun : Nat} {old new : List Phase} {stage : Stage}

theorem Placed.stays (placed : Placed plan begun old) (stay : EachBy Phase.Stays old new) :
    Placed plan begun new := by
  have before : ∀ {position : Nat} {q : Phase}, new[position]? = some q →
      ∃ p, old[position]? = some p ∧ p.Stays q := fun {position q} at_q => by
    have inside : position < old.length := by
      rw [← stay.size]
      exact (List.getElem?_eq_some_iff.1 at_q).1
    have at_p := List.getElem?_eq_getElem inside
    exact ⟨_, at_p, stay.each position _ q at_p at_q⟩
  refine ⟨fun n s at_ lt i position q place at_q => ?_, fun n s at_ position mem q at_q => ?_⟩
  · obtain ⟨p, at_p, stays⟩ := before at_q
    exact stays.index.trans (placed.index n s at_ lt i position p place at_p)
  · obtain ⟨p, at_p, stays⟩ := before at_q
    exact fun underway => placed.underway n s at_ position mem p at_p (stays.underway underway)

/-- The next stage is started. -/
theorem Placed.starts (placed : Placed plan begun old) (laid : Laid plan old)
    (at_ : plan[begun]? = some stage)
    (others : ∀ position, position ∉ stage.members → new[position]? = old[position]?)
    (indexed : ∀ (i position : Nat) (p : Phase), stage.members[i]? = some position →
      new[position]? = some p → p.index = i) : Placed plan (begun + 1) new := by
  have apart : ∀ {n : Nat} {s : Stage}, plan[n]? = some s → n ≠ begun → ∀ position ∈ s.members,
      new[position]? = old[position]? := fun at_s ne position mem =>
    others position fun here => laid.ne_of_stages at_s at_ ne mem here rfl
  refine ⟨fun n s at_s lt i position p place at_p => ?_, fun n s at_s position mem p at_p => ?_⟩
  · by_cases here : n = begun
    · subst here
      cases at_s.symm.trans at_
      exact indexed i position p place at_p
    · rw [apart at_s here position (List.mem_of_getElem? place)] at at_p
      exact placed.index n s at_s (by omega) i position p place at_p
  · by_cases here : n = begun
    · exact fun _ => by omega
    · rw [apart at_s here position mem] at at_p
      intro underway
      exact Nat.lt_succ_of_lt (placed.underway n s at_s position mem p at_p underway)

end Placed

namespace Flow

section Ageing

variable {plan : List Stage} {begun past : Nat} {f h : Flow} {leg : Leg} {rest : List Leg}
  {stage : Stage} {e : Event} {now : Moment} {t : Turn} {call : Call}

/-! ## Turns without an event -/

/-- The check of the running stage gives up the phases of the stages behind it, or none. -/
theorem OnRun.stays_checkStage (on : OnRun plan past (past + 1) f) (live : f.aborted = false)
    (at_ : plan[past]? = some stage) :
    EachBy Phase.Stays f.build.phases (f.checkStage stage).flow.build.phases := by
  have checked := checked f stage
  generalize f.checkStage stage = t at checked
  cases checked with
  | waits => exact .refl .refl _
  | passed => exact .refl .refl _
  | cut =>
      refine ⟨by simp [Turn.again, canceledAt], fun position p q at_p at_q => ?_⟩
      simp only [Turn.again, getElem?_canceledAt, at_p, Option.map_some] at at_q
      cases at_q
      split
      · rename_i behind
        rw [on.stages_eq at_, List.tail_cons, List.mem_flatMap] at behind
        obtain ⟨s, queued, mem⟩ := behind
        obtain ⟨n, at_s⟩ := List.mem_iff_getElem?.1 queued
        rw [List.getElem?_drop] at at_s
        have fresh := on.fresh (past + 1 + n) s at_s (Nat.le_add_right _ _) position mem p at_p
        exact Phase.stays_canceled (fresh.2 live)
      · exact .refl p

/-- The phases of a stage that is started with providers get under way. -/
theorem OnRun.ages_startStage {a : Address} (on : OnRun plan begun begun f)
    (live : f.aborted = false) (at_ : plan[begun]? = some stage)
    (head : f.chains.address? .runPhase 0 = some a)
    (placed : Placed plan begun f.build.phases) :
    Placed plan (begun + 1) (f.startStage stage).1.build.phases ∧
      EachBy Phase.Ages f.build.phases (f.startStage stage).1.build.phases := by
  obtain ⟨fan, -, -⟩ := on.startStage live at_ head
  have begins : ∀ (i position : Nat) (p q : Phase), stage.members[i]? = some position →
      f.build.phases[position]? = some p →
      (f.startStage stage).1.build.phases[position]? = some q → q = p.beginRun i := by
    intro i position p q place at_p at_q
    have begun := fan.begun i position p place at_p
    rw [Nat.zero_add] at begun
    exact Option.some.inj (at_q.symm.trans begun)
  refine ⟨placed.starts on.laid at_ fan.others fun i position q place at_q => ?_, fan.size,
    fun position p q at_p at_q => ?_⟩
  · have inside := on.laid.lt_of_mem at_ (List.mem_of_getElem? place)
    rw [begins i position _ q place (List.getElem?_eq_getElem inside) at_q]
    rfl
  · by_cases mem : position ∈ stage.members
    · obtain ⟨i, place⟩ := List.mem_iff_getElem?.1 mem
      have fresh := on.fresh begun stage at_ (Nat.le_refl begun) position mem p at_p
      rw [begins i position p q place at_p at_q]
      exact Phase.ages_beginRun (fresh.2 live) i
    · rw [fan.others position mem] at at_q
      cases at_p.symm.trans at_q
      exact .refl p

/-- The phases of a stage that is started without providers are done at once. -/
theorem OnRun.ages_skipped (on : OnRun plan begun begun f) (live : f.aborted = false)
    (at_ : plan[begun]? = some stage) (none_ : f.chains.count .runPhase = 0)
    (placed : Placed plan begun f.build.phases) :
    Placed plan (begun + 1) (f.startStage stage).1.build.phases ∧
      EachBy Phase.Ages f.build.phases (f.startStage stage).1.build.phases := by
  have skips := on.skips live at_ none_
  obtain ⟨all, eq, size, others, here⟩ := startPhases_of_no_provider (f.armed stage) 0 none_
    (on.laid.nodup at_) fun position mem => on.laid.lt_of_mem at_ mem
  have phases : (f.startStage stage).1.build.phases = all := by rw [startStage_eq, eq]
  have ends : ∀ (i position : Nat) (p q : Phase), stage.members[i]? = some position →
      f.build.phases[position]? = some p → all[position]? = some q → q = skipped i p := by
    intro i position p q place at_p at_q
    have done := here i position p place at_p
    rw [Nat.zero_add] at done
    exact Option.some.inj (at_q.symm.trans done)
  refine ⟨placed.starts on.laid at_ skips.others fun i position q place at_q => ?_, ?_⟩
  · have inside := on.laid.lt_of_mem at_ (List.mem_of_getElem? place)
    rw [phases] at at_q
    rw [ends i position _ q place (List.getElem?_eq_getElem inside) at_q]
    rfl
  · rw [phases]
    refine ⟨size, fun position p q at_p at_q => ?_⟩
    by_cases mem : position ∈ stage.members
    · obtain ⟨i, place⟩ := List.mem_iff_getElem?.1 mem
      have fresh := on.fresh begun stage at_ (Nat.le_refl begun) position mem p at_p
      have done := (skips.done position mem q (phases ▸ at_q)).2 rfl
      obtain rfl := ends i position p q place at_p at_q
      refine ⟨rfl, rfl, rfl, rfl, .inr (.inr ⟨?_, ?_⟩)⟩
      · rw [fresh.2 live]
        rfl
      · rw [done]
        rfl
    · rw [others position mem] at at_q
      cases at_p.symm.trans at_q
      exact .refl p

theorem TornDown.phases (turn : TornDown f now t) : t.flow.build.phases = f.build.phases := by
  cases turn with
  | sent => rfl
  | complete last live build eq =>
      rw [eq]
      rfl
  | ended => rfl

/-- What a turn without an event makes of the phases. -/
theorem Bare.ages (bare : Bare plan begun f now leg t) (placed : Placed plan begun f.build.phases) :
    Placed plan (begun + (f.starting? leg none).toList.length) t.flow.build.phases ∧
      EachBy Phase.Ages f.build.phases t.flow.build.phases := by
  have stays {g : Flow} {n : Nat} (stay : EachBy Phase.Stays f.build.phases g.build.phases)
      (none_ : n = begun) : Placed plan n g.build.phases ∧
        EachBy Phase.Ages f.build.phases g.build.phases :=
    ⟨none_ ▸ placed.stays stay, stay.mono fun _ _ stays => stays.toAges⟩
  cases bare with
  | left _ ne finished none_ => exact stays (.refl .refl _) (by rw [none_]; rfl)
  | opened => exact stays (.refl .refl _) (by simp [starting?])
  | started stage a live on at_ starts head =>
      rw [starts]
      obtain ⟨placed', ages⟩ := on.ages_startStage live at_ head placed
      obtain ⟨fan, onStage, -⟩ := on.startStage live at_ head
      have live' : (f.startStage stage).1.aborted = false :=
        (congrArg Flow.aborted fan.frame).trans live
      have stay := onStage.stays_checkStage live' at_
      exact ⟨placed'.stays stay,
        ages.trans (fun _ _ _ => .trans) (stay.mono fun _ _ stays => stays.toAges)⟩
  | skipped stage live on at_ starts none_ =>
      rw [starts]
      exact on.ages_skipped live at_ none_ placed
  | tornDown t turn =>
      refine stays ?_ (by simp [starting?])
      rw [turn.phases]
      exact .refl .refl _

/-- What a drive without an event makes of the phases. -/
theorem Passes.ages (passes : Passes plan begun f) (placed : Placed plan begun f.build.phases)
    (now : Moment) :
    Placed plan (begun + (f.startedBy none now).length) (f.drive none now).1.build.phases ∧
      EachBy Phase.Ages f.build.phases (f.drive none now).1.build.phases := by
  have driven : Placed plan (begun + ([] ++ f.startedBy none now).length)
        (f.drive none now).1.build.phases ∧
      EachBy Phase.Ages f.build.phases (f.drive none now).1.build.phases := by
    refine @drive_rule now
      (fun _ started h e => e = none ∧ Passes plan (begun + started.length) h ∧
        Placed plan (begun + started.length) h.build.phases ∧
        EachBy Phase.Ages f.build.phases h.build.phases)
      (fun _ started h => Placed plan (begun + started.length) h.build.phases ∧
        EachBy Phase.Ages f.build.phases h.build.phases)
      ?finished ?again ?stop [] [] f none ⟨rfl, passes, placed, .refl .refl _⟩
    case finished =>
      rintro done started h e legs ⟨rfl, passes, placed, ages⟩
      exact ⟨placed, ages⟩
    case again =>
      rintro done started h e leg rest legs ⟨rfl, passes, placed, ages⟩ goesOn
      have bare : Bare plan (begun + started.length) h now leg (h.turn leg none now) :=
        passes.bare legs
      obtain ⟨placed', more⟩ := bare.ages placed
      rw [List.length_append, ← Nat.add_assoc]
      exact ⟨rfl, (bare.leads passes legs).1 goesOn, placed', ages.trans (fun _ _ _ => .trans) more⟩
    case stop =>
      rintro done started h e leg rest legs ⟨rfl, passes, placed, ages⟩ waits
      have bare : Bare plan (begun + started.length) h now leg (h.turn leg none now) :=
        passes.bare legs
      obtain ⟨placed', more⟩ := bare.ages placed
      rw [List.length_append, ← Nat.add_assoc]
      exact ⟨placed', ages.trans (fun _ _ _ => .trans) more⟩
  rwa [List.nil_append] at driven

/-! ## Turns that take an event -/

/-- What a reply makes of the phases: the one that it answers goes on, or is over. -/
theorem Settled.stays {patch : PhasePatch} {position : Nat} {p : Phase} {lane : Lane}
    {sent : List (Address × Command)} (settled : Settled f e patch position p lane h sent)
    (awaited : lane.awaited = some e.token) (at_ : f.build.phases[position]? = some p)
    (running : p.status = .inFlight) (indexed : p.index = patch.index)
    (fits : lane.Fits (f.chains.count .runPhase) p) :
    EachBy Phase.Stays f.build.phases h.build.phases := by
  have one {change : Phase → Phase} (stays : p.Stays (change p)) :
      EachBy Phase.Stays f.build.phases (f.build.phases.modify position change) := by
    refine .modify .refl fun q at_q => ?_
    cases at_.symm.trans at_q
    exact stays
  obtain ⟨id, name, preScript, mainScript, index⟩ := Phase.named_passedRun patch p
  cases settled with
  | failed => exact one (.of_running running ⟨rfl, rfl, rfl, rfl⟩ rfl (.inr rfl))
  | last success sent =>
      obtain ⟨fits', status⟩ := keeps_settledRun patch awaited (Nat.le_of_eq sent.symm) p fits
      refine one (.of_running running ⟨id, name, preScript, mainScript⟩ index (.inr ?_))
      rw [status]
      exact fits'.isTerminal_iff.2 rfl
  | next =>
      exact one (.of_running running ⟨id, name, preScript, mainScript⟩ indexed.symm (.inl rfl))

theorem stays_failBuild (f : Flow) (e : Event) (now : Moment) :
    EachBy Phase.Stays f.build.phases (f.failBuild e now).build.phases :=
  .map (fun p => p.stays_givenUp (.inl rfl)) _

theorem phases_adopt_of_plain (f : Flow) (plain : e.stages = none) :
    (f.adopt e).build.phases = f.build.phases := by
  rw [adopt_of_plain f plain]

theorem Stepped.build (stepped : Stepped f leg t) : t.flow.build = f.build := by
  cases stepped with
  | sent => rfl
  | left => rfl

/-- What a turn that takes an event makes of the phases, if the event brings no stages. -/
theorem Fed.stays (fed : Fed f e now leg t) (rests : Rests plan begun f)
    (placed : Placed plan begun f.build.phases) (legs : f.legs = leg :: rest)
    (accepted : f.accepts e = true) (none_ : f.loading? (.process e now) = none) :
    EachBy Phase.Stays f.build.phases t.flow.build.phases := by
  have same {g : Flow} (phases : g.build.phases = f.build.phases) :
      EachBy Phase.Stays f.build.phases g.build.phases := phases ▸ .refl .refl _
  cases fed with
  | dropped => exact same rfl
  | adopted live success t turn =>
      have plain : e.stages = none := by
        rwa [loading?, if_pos ⟨leg?_of_legs legs, live, accepted, success⟩] at none_
      refine same ?_
      simp only [Turn.behind, turn.build]
      exact phases_adopt_of_plain f.clearStep plain
  | refused => exact stays_failBuild f.clearStep e now
  | phase stage' rest' patch lane position p live queue phase lane_at awaited place at_p fits t
      turn =>
      obtain ⟨past, stage, at_, last, on, inside, -⟩ := rests.on_run (leg?_of_legs legs)
      obtain rfl : stage = stage' := by
        rw [on.stages_eq at_] at queue
        exact (List.cons.inj queue).1
      have status := (inside.fits _ lane position p lane_at place at_p).2 live
      have running : p.status = .inFlight := by
        cases fits with
        | pending _ _ _ _ results => exact status.trans (Phase.finalResult_of_pending results)
        | passed none_ => cases none_.symm.trans awaited
        | failed none_ => cases none_.symm.trans awaited
      have indexed : p.index = patch.index :=
        placed.index past stage at_ (by omega) patch.index position p place at_p
      rcases turn.settled with ⟨h, told, settled, -, -, rfl⟩ | ⟨h, a, c, settled, -, rfl⟩
      · obtain ⟨onStage, -⟩ := settled.onStage awaited on live at_ inside lane_at place
        have live' : h.aborted = false := settled.frame.2.2.2.1.trans live
        exact (settled.stays awaited at_p running indexed fits).trans (fun _ _ _ => .trans)
          (onStage.stays_checkStage live' at_)
      · exact settled.stays awaited at_p running indexed fits
  | pressedOn aborted t turn => exact same turn.phases
  | cleaned live success plain t turn =>
      refine same ?_
      simp only [Turn.behind, turn.phases]
      exact phases_adopt_of_plain f.clearStep plain
  | failed => exact stays_failBuild f.clearStep e now

/-- A turn that takes stages over publishes them as they are loaded, and goes on with them. -/
theorem Fed.loads {stages : List (List Phase)} (fed : Fed f e now leg t)
    (legs : f.legs = leg :: rest) (loads : f.loading? (.process e now) = some stages) :
    t.flow.build.phases = stages.flatten.map fresh ∧
      ∃ b more, t.effects = .publish b :: more ∧ b.phases = stages.flatten.map fresh := by
  simp only [loading?] at loads
  split at loads
  · rename_i taken
    obtain ⟨on, live, -, success⟩ := taken
    have adopted : (f.clearStep.adopt e).build.phases = stages.flatten.map fresh := by
      rw [adopt, loads]
      rfl
    cases (leg?_of_legs legs).symm.trans on
    cases fed with
    | dropped _ ne aborted =>
        rw [live] at aborted
        cases aborted
    | adopted _ _ t turn =>
        refine ⟨?_, _, t.effects, rfl, adopted⟩
        simp only [Turn.behind, turn.build]
        exact adopted
    | refused _ fails =>
        rw [success] at fails
        cases fails
  · cases loads

/-! ## Calls -/

/-- What a call makes of the phases: stages that it loads begin with their phases parked, and
otherwise the phases go on. -/
structure Matures (f : Flow) (call : Call) (effects : List Effect) (g : Flow) : Prop where
  goesOn : f.loading? call = none → EachBy Phase.Ages f.build.phases g.build.phases
  loads : ∀ stages, f.loading? call = some stages →
    EachBy Phase.Ages (stages.flatten.map fresh) g.build.phases ∧
      ∃ b more, effects = .publish b :: more ∧ b.phases = stages.flatten.map fresh

theorem placed_consecutive (stages : List (List Phase)) (plan : List Stage) :
    Placed plan 0 (stages.flatten.map fresh) := by
  refine ⟨fun n s _ lt => absurd lt (Nat.not_lt_zero n), fun n s _ position _ p at_p => ?_⟩
  obtain ⟨q, -, rfl⟩ := List.mem_map.1 (List.mem_of_getElem? at_p)
  rintro (inFlight | done)
  · cases inFlight
  · cases done

theorem stays_abort (f : Flow) (now : Moment) :
    EachBy Phase.Stays f.build.phases (f.abort now).1.build.phases := by
  unfold abort
  split
  · exact .refl .refl _
  · exact .map (fun p => p.stays_givenUp (.inr rfl)) _

theorem Ignores.stays {r : Flow × List Effect} (ignores : Ignores f r) :
    EachBy Phase.Stays f.build.phases r.1.build.phases := by
  cases ignores with
  | same => exact .refl .refl _
  | updates position patch => exact .modify .refl fun p _ => p.stays_applyContainer patch

/-- What a drive that takes an event makes of the phases. -/
theorem Rests.matures_drive (rests : Rests plan begun f) (placed : Placed plan begun f.build.phases)
    (accepted : f.accepts e = true) (proper : e.Proper) (now : Moment) :
    Placed (planned plan (f.loading? (.process e now)))
        (begun + (f.startedBy (some e) now).length) (f.drive (some e) now).1.build.phases ∧
      Matures f (.process e now) (f.drive (some e) now).2 (f.drive (some e) now).1 := by
  obtain ⟨leg, rest, legs⟩ : ∃ leg rest, f.legs = leg :: rest := by
    cases legs : f.legs with
    | cons leg rest => exact ⟨leg, rest, rfl⟩
    | nil =>
        rcases accepts_inv accepted with ⟨-, ways⟩
        simp [leg?, legs] at ways
  have fed : Fed f e now leg (f.turn leg (some e) now) := rests.fed legs accepted proper
  have leads := fed.leads rests legs accepted
  -- the turn that takes the event, and what is driven behind it
  have turned : Placed (planned plan (f.loading? (.process e now))) begun
        (f.turn leg (some e) now).flow.build.phases ∧
      Matures f (.process e now) (f.turn leg (some e) now).effects
        (f.turn leg (some e) now).flow := by
    cases loading : f.loading? (.process e now) with
    | none =>
        have stay := fed.stays rests placed legs accepted loading
        refine ⟨placed.stays stay, fun _ => stay.mono fun _ _ stays => stays.toAges, ?_⟩
        intro stages loads
        cases loading.symm.trans loads
    | some stages =>
        obtain ⟨phases, published⟩ := fed.loads legs loading
        refine ⟨?_, fun none_ => ?_, fun stages' loads => ?_⟩
        · rw [rests.begun_of_loading loading, phases]
          exact placed_consecutive stages _
        · cases loading.symm.trans none_
        · cases loading.symm.trans loads
          exact ⟨phases ▸ .refl .refl _, published⟩
  obtain ⟨placed', matures⟩ := turned
  rw [startedBy_of_legs now legs, drive_of_legs now legs, starting?_of_event]
  cases goesOn : (f.turn leg (some e) now).goesOn with
  | false =>
      simp only [Bool.false_eq_true, if_false, Option.toList_none, List.nil_append]
      exact ⟨placed', matures⟩
  | true =>
      obtain ⟨placed'', ages⟩ := (leads.1 goesOn).ages placed' now
      simp only [if_true, Option.toList_none, List.nil_append]
      refine ⟨placed'', fun none_ => ?_, fun stages loads => ?_⟩
      · exact (matures.goesOn none_).trans (fun _ _ _ => .trans) ages
      · obtain ⟨begin_, b, more, effects, phases⟩ := matures.loads stages loads
        refine ⟨begin_.trans (fun _ _ _ => .trans) ages, b,
          more ++ ((f.turn leg (some e) now).flow.drive none now).2, ?_, phases⟩
        rw [effects]
        rfl

/-- What a call makes of the phases of a flow that rests. -/
theorem Rests.matures (rests : Rests plan begun f) (placed : Placed plan begun f.build.phases)
    (legal : call.Legal) :
    Placed (planned plan (f.loading? call)) (begun + (f.started call).length)
        (f.call call).1.build.phases ∧
      Matures f call (f.call call).2 (f.call call).1 := by
  have idle {g : Flow} (stay : EachBy Phase.Stays f.build.phases g.build.phases)
      (none_ : f.loading? call = none) (nothing : f.started call = []) (effects : List Effect) :
      Placed (planned plan (f.loading? call)) (begun + (f.started call).length) g.build.phases ∧
        Matures f call effects g := by
    rw [none_, nothing]
    refine ⟨placed.stays stay, fun _ => stay.mono fun _ _ stays => stays.toAges, ?_⟩
    intro stages loads
    cases none_.symm.trans loads
  cases call with
  | start => exact legal.elim
  | abort now => exact idle (stays_abort f now) rfl rfl _
  | process e now =>
      cases accepted : f.accepts e with
      | true =>
          have driven := rests.matures_drive placed accepted legal now
          simp only [Flow.call, started, accepted, if_true, process_of_accepted accepted]
          exact driven
      | false =>
          refine idle (ignores_of_rejected accepted now).stays (loading?_of_rejected accepted) ?_ _
          simp [started, accepted]

end Ageing

end Flow

/-! ## Courses -/

namespace Course

variable {build : Build} {script : Option String} {chains : Chains} {c : Course}

theorem placed_nil (all : List Phase) : Placed [] 0 all :=
  ⟨fun n s at_ => absurd at_ (by simp), fun n s at_ => absurd at_ (by simp)⟩

/-- In a course phases stand where the plan has them. -/
theorem Of.placed (of : Of build script chains c) :
    Placed c.plan c.begun.length c.flow.build.phases := by
  induction of with
  | start now =>
      have passes := Flow.passes_takeOff build script chains
      rw [begun_then_, List.length_append]
      exact (passes.ages (placed_nil _) now).1
  | step of call legal ih =>
      rw [begun_then_, List.length_append]
      exact (of.rests.matures ih legal).1

/-- How the phases of a build live. A call takes every phase on, unless it loads stages: then all
phases begin parked, as is published first, and the rest of the call takes them on. The plan has a
place for every phase that was loaded. A phase can be done only if its stage was started, and in a
stage that was started it carries its place as its index. -/
structure Lifelong (c : Course) : Prop where
  calls : ∀ n ∈ c.entries, Flow.Matures n.before n.call n.effects n.after
  laid : Laid c.plan c.flow.build.phases
  started : c.begun <+: c.plan
  done : ∀ (n : Nat) (s : Stage), c.plan[n]? = some s →
    s.Holds c.flow.build.phases fun p => p.status = .done → c.begun[n]? = some s
  index : ∀ (n : Nat) (s : Stage), c.begun[n]? = some s → ∀ i position : Nat,
    s.members[i]? = some position → ∃ p, c.flow.build.phases[position]? = some p ∧ p.index = i

/-- No course revives a phase that is over, whatever is handed to its flow. -/
theorem Of.lifelong (of : Of build script chains c) : Lifelong c := by
  have planned := of.planned
  have placed := of.placed
  have laid := of.rests.laid
  have same_stage {n : Nat} (lt : n < c.begun.length) : c.plan[n]? = c.begun[n]? := by
    obtain ⟨later, split⟩ := planned
    rw [← split, List.getElem?_append_left lt]
  refine ⟨of.forall_entries ?_ ?_, laid, planned, ?_, ?_⟩
  · intro now
    have passes := Flow.passes_takeOff build script chains
    refine ⟨fun _ => ?_, nofun⟩
    exact (passes.ages (placed_nil _) now).2
  · intro c call of legal
    exact (of.rests.matures of.placed legal).2
  · intro n s at_ position mem p at_p done
    have lt := placed.underway n s at_ position mem p at_p (.inr done)
    rw [← at_, same_stage lt]
  · intro n s at_ i position place
    have lt := (List.getElem?_eq_some_iff.1 at_).1
    have at_plan : c.plan[n]? = some s := (same_stage lt).trans at_
    have inside := laid.lt_of_mem at_plan (List.mem_of_getElem? place)
    have at_p := List.getElem?_eq_getElem inside
    exact ⟨_, at_p, placed.index n s at_plan lt i position _ place at_p⟩

theorem lifelong_brokenOff :
    brokenOff.flow.build.phases.map (fun p => (p.id, p.status, p.index)) =
        [("p", .failed, 0), ("q", .canceled, 0)] ∧
      brokenOff.begun = [⟨[0]⟩] ∧ Lifelong brokenOff :=
  ⟨by cbv, by cbv, Of.lifelong of_brokenOff⟩

end Course
end BuildPipeline
