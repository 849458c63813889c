import BuildPipeline.Proofs.Flow.Growth
import Mathlib.Computability.TuringMachine.StackTuringMachine
import Mathlib.Data.List.Permutation

/-!
The chain discipline. Whatever events arrive and whenever the build is aborted, the commands of a
course go along the chains: set-up before the run before tear-down, every line from the head of its
chain on without gaps, one command at a time, the next one only in answer to the last one, and
nothing on a line behind a failure (`Course.Disciplined`, `Course.Of.disciplined`).

What carries the proof is how the commands of a line go with the place of the line (`LineLog`), one
`Walk` after the other. The two imports of Mathlib are for the equations of `List.tail` and
`Prod.snd`, by which `cbv` runs the course of the example.
-/

namespace BuildPipeline

open Time (Moment)

/-- The line of a posting is the line of its command, and commands of the run name their phase. -/
def Posting.Fits (p : Posting) : Prop :=
  p.line.capability = p.command.kind ∧
    (∀ q, p.command.phase = some q → p.line.index = q.index) ∧
    (p.command.phase.isSome = true ↔ p.command.kind = .runPhase) ∧
    (p.command.kind ≠ .runPhase → p.line = { capability := p.command.kind })

namespace Course

/-- A command goes out in a call behind some others: it is the only one of its line, it answers the
reply to the command before it on its line, and the first command of a phase goes out when the stage
of the phase is started. The reply is a success, unless an aborted flow is on tear-down. -/
def Entry.Follows (n : Entry) (past : List Entry) (q : Posting) : Prop :=
  n.postings.filter (·.line = q.line) = [q] ∧
    (∀ p, (sentOn q.line past).getLast? = some p →
      n.Answers p ∧ (n.Succeeds ∨ q.command.kind = .tearDown ∧ n.before.aborted = true)) ∧
    (sentOn q.line past = [] → q.command.kind = .runPhase →
      n.begun ≤ q.line.stage ∧ q.line.stage < n.begun + n.started.length)

/-- A call hands over the failure of a command, and the flow does not make light of it. -/
def Entry.Fails (n : Entry) (p : Posting) : Prop :=
  n.Answers p ∧ ¬n.Succeeds ∧ ¬(p.command.kind = .tearDown ∧ n.before.aborted = true)

/-- The chain discipline. -/
structure Disciplined (chains : Chains) (c : Course) : Prop where
  planned : c.begun <+: c.plan
  order : (c.postings.map (·.command.kind.rank)).Pairwise (· ≤ ·)
  fits : ∀ p ∈ c.postings, p.Fits
  chain : ∀ l : Line, (sentOn l c.entries).map (·.address) <+: chains.chain l.capability
  follows : ∀ past n future, c.entries = past ++ n :: future → ∀ q ∈ n.postings,
    n.Follows past q
  fansOut : ∀ n ∈ c.entries, n.FansOut chains
  stops : ∀ past n future, c.entries = past ++ n :: future →
    ∀ p ∈ past.flatMap (·.postings), n.Fails p → sentOn p.line (n :: future) = []
  spoils : ∀ past n future, c.entries = past ++ n :: future →
    ∀ p ∈ past.flatMap (·.postings), p.command.kind = .setup → n.Answers p → ¬n.Succeeds →
      ∀ q ∈ (n :: future).flatMap (·.postings), q.command.kind = .tearDown

/-! ## The log of a line -/

/-- How the commands that went out on a line go with its place. -/
structure LineLog (chain : List Address) (p : Place) (log : List Posting) : Prop where
  chain : log.map (·.address) <+: chain
  ahead : p = .ahead → log = []
  on : ∀ sent awaited, p = .on sent awaited → log.length = sent ∧
    ∀ t, awaited = some t → ∃ q, log.getLast? = some q ∧ q.command.token = t

section LineLog

variable {chain : List Address} {n : Entry} {l : Line} {p q : Place} {log sent : List Posting}

theorem prefix_concat {log : List Posting} {r : Posting} (h : log.map (·.address) <+: chain)
    (next : chain[log.length]? = some r.address) :
    (log ++ [r]).map (·.address) <+: chain := by
  rw [List.prefix_iff_eq_take, List.length_map] at h
  rw [List.map_append, h, List.map_singleton]
  have grown : chain.take log.length ++ [r.address] = chain.take (log.length + 1) := by
    rw [List.take_add_one, next]
    rfl
  rw [grown]
  exact List.take_prefix _ _

theorem LineLog.walk (lineLog : LineLog chain p log) (walk : Walk chain n l p sent q) :
    LineLog chain q (log ++ sent) := by
  cases walk with
  | stay _ unanswered =>
      rw [List.append_nil]
      exact lineLog
  | leave =>
      rw [List.append_nil]
      exact ⟨lineLog.chain, nofun, nofun⟩
  | first r head opens =>
      have empty := lineLog.ahead rfl
      subst empty
      refine ⟨prefix_concat lineLog.chain head, nofun, ?_⟩
      rintro _ _ ⟨⟩
      refine ⟨rfl, ?_⟩
      rintro _ ⟨⟩
      exact ⟨r, rfl, rfl⟩
  | close count t answers =>
      rw [List.append_nil]
      refine ⟨lineLog.chain, nofun, ?_⟩
      rintro _ _ ⟨⟩
      exact ⟨(lineLog.on _ _ rfl).1, nofun⟩
  | next count t r answers may next =>
      have length := (lineLog.on _ _ rfl).1
      rw [← length] at next
      refine ⟨prefix_concat lineLog.chain next, nofun, ?_⟩
      rintro _ _ ⟨⟩
      refine ⟨by simp [length], ?_⟩
      rintro _ ⟨⟩
      exact ⟨r, List.getLast?_concat, rfl⟩

end LineLog

theorem closed_of_walk {chain : List Address} {n : Entry} {l : Line} {p q : Place}
    {sent : List Posting} (walk : Walk chain n l p sent q) (closed : p.Closed) :
    sent = [] ∧ q.Closed := by
  cases walk with
  | stay => exact ⟨rfl, closed⟩
  | leave => exact ⟨rfl, trivial⟩
  | first => exact closed.elim
  | close => exact closed.elim
  | next => exact closed.elim

theorem behind_of_walk {chain : List Address} {n : Entry} {l : Line} {q : Place}
    {sent : List Posting} (walk : Walk chain n l .behind sent q) : sent = [] ∧ q = .behind := by
  cases walk with
  | stay => exact ⟨rfl, rfl⟩
  | leave => exact ⟨rfl, rfl⟩

/-! ## The log of a course -/

theorem postings_then_ (c : Course) (call : Call) :
    (c.then_ call).postings = c.postings ++ (c.entry call).postings := by
  simp [postings, then_]

theorem sentOn_append (l : Line) (past future : List Entry) :
    sentOn l (past ++ future) = sentOn l past ++ sentOn l future := by
  simp [sentOn]

theorem sentOn_singleton (l : Line) (n : Entry) :
    sentOn l [n] = n.postings.filter (·.line = l) := by
  simp [sentOn]

theorem sentOn_then_ (l : Line) (c : Course) (call : Call) :
    sentOn l (c.then_ call).entries =
      sentOn l c.entries ++ (c.entry call).postings.filter (·.line = l) := by
  rw [then_, sentOn_append, sentOn_singleton]

theorem mem_sentOn {l : Line} {entries : List Entry} {p : Posting} :
    p ∈ sentOn l entries ↔ p ∈ entries.flatMap (·.postings) ∧ p.line = l := by
  simp [sentOn]

/-- A course one call longer, split at an entry: the entry is the new one or an old one. -/
theorem split_concat {entries past future : List Entry} {m n : Entry}
    (split : entries ++ [m] = past ++ n :: future) :
    (past = entries ∧ n = m ∧ future = []) ∨
      ∃ rest, future = rest ++ [m] ∧ entries = past ++ n :: rest := by
  rcases List.eq_nil_or_concat future with rfl | ⟨rest, last, rfl⟩
  · rcases List.append_inj' split rfl with ⟨same, single⟩
    cases single
    exact .inl ⟨same.symm, rfl, rfl⟩
  · rw [List.concat_eq_append, ← List.cons_append, ← List.append_assoc] at split
    rcases List.append_inj' split rfl with ⟨same, single⟩
    cases single
    exact .inr ⟨rest, List.concat_eq_append, same⟩

/-- What is recorded of a course goes with where its flow stands. -/
structure Logged (chains : Chains) (c : Course) : Prop where
  tokens : c.postings.map (·.command.token.number) = List.range' 1 c.flow.minted
  fits : ∀ p ∈ c.postings, p.Fits
  lines : ∀ l : Line, LineLog (chains.chain l.capability) (c.flow.place c.begun.length l)
    (sentOn l c.entries)

variable {build : Build} {script : Option String} {chains : Chains} {c : Course} {call : Call}

theorem fits_posting {stage : Nat} {sent : Address × Command}
    (phase : sent.2.phase.isSome = true ↔ sent.2.kind = .runPhase) :
    (Entry.posting stage sent).Fits := by
  unfold Entry.posting Entry.lineOf
  refine ⟨?_, ?_, phase, ?_⟩
  · cases sent.2.phase <;> rfl
  · intro q named
    simp only at named
    rw [named]
  · intro other
    cases named : sent.2.phase with
    | none => rfl
    | some q => exact absurd (phase.1 (by rw [named]; rfl)) other

theorem Grows.fits (grows : Grows chains c call) : ∀ p ∈ (c.entry call).postings, p.Fits := by
  intro p mem
  rcases List.mem_map.1 mem with ⟨sent, sends, rfl⟩
  exact fits_posting (grows.sending.phases sent sends)

theorem Logged.grow (logged : Logged chains c) (grows : Grows chains c call) :
    Logged chains (c.then_ call) := by
  refine ⟨?_, ?_, ?_⟩
  · have tokens : (c.entry call).postings.map (·.command.token.number) =
        (sends (c.entry call).effects).map (·.2.token.number) := by
      simp [Entry.postings, Entry.posting]
    rw [postings_then_, List.map_append, logged.tokens, tokens, grows.sending.tokens,
      grows.sending.minted, Nat.add_comm c.flow.minted 1, List.range'_append_1]
  · intro p mem
    rw [postings_then_, List.mem_append] at mem
    exact mem.elim (logged.fits p) (grows.fits p)
  · intro l
    rw [sentOn_then_]
    exact (logged.lines l).walk (grows.walks l)

theorem logged_idle : Logged chains (idle build script chains) := by
  refine ⟨rfl, by simp [idle, postings], ?_⟩
  intro l
  refine ⟨List.nil_prefix, fun _ => rfl, ?_⟩
  intro sent awaited on
  have empty : (idle build script chains).flow.place 0 l ≠ .on sent awaited := by
    unfold Flow.place Flow.stepPlace Flow.lanePlace idle
    split
    · nofun
    · split
      · split
        · simp
        · split <;> simp
      · nofun
  exact absurd on empty

theorem Of.logged (of : Of build script chains c) : Logged chains c :=
  of.grow logged_idle fun _ _ grows logged => logged.grow grows

/-- An induction over courses that knows how the log goes with the flow. -/
theorem Of.induct {motive : Course → Prop} (of : Of build script chains c)
    (empty : motive (idle build script chains))
    (grow : ∀ (c : Course) (call : Call), Logged chains c → Grows chains c call → motive c →
      motive (c.then_ call)) : motive c := by
  have both : Logged chains c ∧ motive c :=
    of.grow (motive := fun c => Logged chains c ∧ motive c) ⟨logged_idle, empty⟩
      fun c call grows h => ⟨h.1.grow grows, grow c call h.1 grows h.2⟩
  exact both.2

/-! ## The discipline -/

theorem Logged.unique (logged : Logged chains c) {p q : Posting} (hp : p ∈ c.postings)
    (hq : q ∈ c.postings) (same : p.command.token = q.command.token) : p = q := by
  have nodup : (c.postings.map (·.command.token.number)).Nodup := by
    rw [logged.tokens]
    exact List.nodup_range'
  exact List.inj_on_of_nodup_map nodup hp hq (congrArg Token.number same)

/-- The token that is waited on on a line is that of the last command of the line. -/
theorem Logged.last (logged : Logged chains c) {l : Line} {sent : Nat} {t : Token}
    (on : c.flow.place c.begun.length l = .on sent (some t)) :
    ∃ p, (sentOn l c.entries).getLast? = some p ∧ p.command.token = t :=
  ((logged.lines l).on sent (some t) on).2 t rfl

/-- A call that answers the command with a token on a line answers the posting of the command. -/
theorem answers_of_answersOn {n : Entry} {p : Posting} (fits : p.Fits)
    (answers : n.AnswersOn p.line p.command.token) : n.Answers p := by
  obtain ⟨e, now, call, accepted, kind, token, names⟩ := answers
  obtain ⟨capability, index, run, -⟩ := fits
  refine ⟨e, now, call, accepted, capability ▸ kind, token, ?_⟩
  intro q phase
  have names := names (capability.trans (run.1 (by rw [phase]; rfl)))
  rw [← index q phase]
  exact names

/-- A posting that is answered is the last one of a line that is waited on. -/
theorem Logged.answered (logged : Logged chains c) (grows : Grows chains c call) {p : Posting}
    (sent : p ∈ c.postings) (answers : (c.entry call).Answers p) :
    ∃ count, c.flow.place c.begun.length p.line = .on count (some p.command.token) ∧
      (c.entry call).AnswersOn p.line p.command.token := by
  obtain ⟨e, now, call_eq, accepted, -, token, -⟩ := answers
  rcases grows.answers e now call_eq accepted with ⟨l, count, on, own⟩
  rcases logged.last on with ⟨q, last, token'⟩
  rcases mem_sentOn.1 (List.mem_of_getLast? last) with ⟨mem, line⟩
  obtain rfl : q = p := logged.unique mem sent (token'.trans token)
  rw [line, ← token]
  exact ⟨count, on, own⟩

theorem rank_le_of_legs {f : Flow} (way : f.legs <:+ [.setup, .run, .tearDown])
    {k k' : Capability} (on : f.leg? = some k.leg) (lt : k.rank < k'.rank) :
    k'.leg ∈ f.legs.tail := by
  obtain ⟨rest, legs⟩ : ∃ rest, f.legs = k.leg :: rest := List.head?_eq_some_iff.1 on
  rw [legs] at way ⊢
  rw [List.tail_cons]
  rcases List.suffix_cons_iff.1 way with whole | way
  · rcases List.cons.inj whole with ⟨-, rfl⟩
    cases k' with
    | setup => exact absurd lt (Nat.not_lt_zero _)
    | runPhase => exact List.mem_cons_self
    | tearDown => exact List.mem_cons_of_mem _ List.mem_cons_self
  · rcases List.suffix_cons_iff.1 way with whole | way
    · rcases List.cons.inj whole with ⟨head, rfl⟩
      obtain rfl : k = .runPhase := (Capability.leg_eq_iff.1 head).symm
      cases k' with
      | setup => exact absurd lt (by decide)
      | runPhase => exact absurd lt (by decide)
      | tearDown => exact List.mem_cons_self
    · rcases List.suffix_cons_iff.1 way with whole | none_
      · rcases List.cons.inj whole with ⟨head, -⟩
        obtain rfl : k = .tearDown := (Capability.leg_eq_iff.1 head).symm
        cases k' <;> exact absurd lt (by decide)
      · simp at none_

theorem Of.order (of : Of build script chains c) :
    (c.postings.map (·.command.kind.rank)).Pairwise (· ≤ ·) := by
  refine of.induct (motive := fun c => (c.postings.map (·.command.kind.rank)).Pairwise (· ≤ ·))
    List.Pairwise.nil ?_
  intro c call logged grows order
  have legs : ∀ p ∈ (c.entry call).postings,
      (c.then_ call).flow.leg? = some p.command.kind.leg := by
    intro p mem
    rcases List.mem_map.1 mem with ⟨sent, sends, rfl⟩
    exact grows.sending.legs sent sends
  rw [postings_then_, List.map_append, List.pairwise_append]
  refine ⟨order, ?_, ?_⟩
  · rw [List.pairwise_map]
    refine List.pairwise_of_forall_mem_list fun p hp q hq => ?_
    have same := Option.some.inj ((legs p hp).symm.trans (legs q hq))
    have kinds : p.command.kind = q.command.kind :=
      (Capability.leg_eq_iff.1 same).symm.trans (Capability.leg_eq_iff.1 rfl)
    exact Nat.le_of_eq (congrArg Capability.rank kinds)
  · intro i hi j hj
    rcases List.mem_map.1 hi with ⟨p, hp, rfl⟩
    rcases List.mem_map.1 hj with ⟨q, hq, rfl⟩
    -- a line of a later leg is still ahead, so nothing went out on it
    refine Nat.le_of_not_lt fun lt => ?_
    have later := rank_le_of_legs grows.way (legs q hq) lt
    rw [← (logged.fits p hp).1] at later
    have nothing := ((logged.grow grows).lines p.line).ahead (Flow.place_of_later later)
    have sent : p ∈ sentOn p.line (c.then_ call).entries := by
      rw [sentOn_then_]
      exact List.mem_append_left _ (mem_sentOn.2 ⟨hp, rfl⟩)
    rw [nothing] at sent
    cases sent

theorem follows_of_walk (logged : Logged chains c) (grows : Grows chains c call) :
    ∀ q ∈ (c.entry call).postings, (c.entry call).Follows c.entries q := by
  intro q mem
  have walk := grows.walks q.line
  have log := logged.lines q.line
  have own : q ∈ (c.entry call).postings.filter (·.line = q.line) := by
    simp [mem]
  have capability := (grows.fits q mem).1
  unfold Entry.Follows
  generalize (c.entry call).postings.filter (·.line = q.line) = sent at walk own
  generalize (c.then_ call).flow.place (c.then_ call).begun.length q.line = place at walk
  generalize before : c.flow.place c.begun.length q.line = p at walk log
  cases walk with
  | stay => cases own
  | leave => cases own
  | close => cases own
  | first r head opens =>
      obtain rfl := List.mem_singleton.1 own
      have empty := log.ahead rfl
      refine ⟨rfl, ?_, ?_⟩
      · intro p last
        rw [empty] at last
        cases last
      · intro _ run
        exact opens (capability.trans run)
  | next count t r answers may next =>
      obtain rfl := List.mem_singleton.1 own
      rcases log.on _ _ rfl with ⟨length, last⟩
      rcases last t rfl with ⟨p', last, token⟩
      refine ⟨rfl, ?_, ?_⟩
      · intro p last'
        obtain rfl := Option.some.inj (last.symm.trans last')
        rcases mem_sentOn.1 (List.mem_of_getLast? last) with ⟨sent, line⟩
        rw [← token, ← line] at answers
        refine ⟨answers_of_answersOn (logged.fits p' sent) answers, ?_⟩
        rw [← capability]
        exact may
      · intro empty
        rw [empty] at last
        cases last

theorem Of.follows (of : Of build script chains c) :
    ∀ past n future, c.entries = past ++ n :: future → ∀ q ∈ n.postings, n.Follows past q := by
  refine of.induct (motive := fun c => ∀ past n future, c.entries = past ++ n :: future →
    ∀ q ∈ n.postings, n.Follows past q) ?_ ?_
  · intro past n future split
    simp [idle] at split
  · intro c call logged grows old past n future split
    rcases split_concat split with ⟨rfl, rfl, rfl⟩ | ⟨rest, rfl, shorter⟩
    · exact follows_of_walk logged grows
    · exact old past n rest shorter

theorem Of.fansOut (of : Of build script chains c) : ∀ n ∈ c.entries, n.FansOut chains := by
  refine of.grow (motive := fun c => ∀ n ∈ c.entries, n.FansOut chains) (by simp [idle]) ?_
  intro c call grows old n mem
  rcases List.mem_append.1 mem with before | now_
  · exact old n before
  · rw [List.mem_singleton.1 now_]
    exact grows.fansOut

/-- A failure closes its line. -/
theorem closed_of_fails (logged : Logged chains c) (grows : Grows chains c call) {p : Posting}
    (sent : p ∈ c.postings) (fails : (c.entry call).Fails p) :
    (c.entry call).postings.filter (·.line = p.line) = [] ∧
      ((c.then_ call).flow.place (c.then_ call).begun.length p.line).Closed := by
  obtain ⟨answers, unsuccessful, grave⟩ := fails
  rcases logged.answered grows sent answers with ⟨count, on, own⟩
  have capability := (logged.fits p sent).1
  have walk := grows.walks p.line
  rw [on] at walk
  generalize (c.entry call).postings.filter (·.line = p.line) = new at walk
  generalize (c.then_ call).flow.place (c.then_ call).begun.length p.line = place at walk
  cases walk with
  | stay _ unanswered => exact absurd own (unanswered count _ rfl)
  | leave => exact ⟨rfl, trivial⟩
  | close => exact ⟨rfl, trivial⟩
  | next _ _ _ _ may =>
      rcases may with success | ⟨tearDown, aborted⟩
      · exact absurd success unsuccessful
      · exact absurd ⟨capability.symm.trans tearDown, aborted⟩ grave

theorem Of.stops (of : Of build script chains c) :
    ∀ past n future, c.entries = past ++ n :: future →
      ∀ p ∈ past.flatMap (·.postings), n.Fails p → sentOn p.line (n :: future) = [] := by
  have kept : ∀ past n future, c.entries = past ++ n :: future →
      ∀ p ∈ past.flatMap (·.postings), n.Fails p → sentOn p.line (n :: future) = [] ∧
        (c.flow.place c.begun.length p.line).Closed := by
    refine of.induct (motive := fun c => ∀ past n future, c.entries = past ++ n :: future →
      ∀ p ∈ past.flatMap (·.postings), n.Fails p → sentOn p.line (n :: future) = [] ∧
        (c.flow.place c.begun.length p.line).Closed) ?_ ?_
    · intro past n future split
      simp [idle] at split
    · intro c call logged grows old past n future split p sent fails
      rcases split_concat split with ⟨rfl, rfl, rfl⟩ | ⟨rest, rfl, shorter⟩
      · rw [sentOn_singleton]
        exact closed_of_fails logged grows sent fails
      · rcases old past n rest shorter p sent fails with ⟨nothing, closed⟩
        rcases closed_of_walk (grows.walks p.line) closed with ⟨quiet, closed⟩
        refine ⟨?_, closed⟩
        rw [← List.cons_append, sentOn_append, nothing, sentOn_singleton, quiet, List.append_nil]
  intro past n future split p sent fails
  exact (kept past n future split p sent fails).1

/-- Once only tear-down is left, only commands of tear-down go out. -/
theorem Of.tearDown_only (of : Of build script chains c) :
    ∀ past n future, c.entries = past ++ n :: future → n.after.legs <:+ [.tearDown] →
      ∀ q ∈ (n :: future).flatMap (·.postings), q.command.kind = .tearDown := by
  have kept : ∀ past n future, c.entries = past ++ n :: future → n.after.legs <:+ [.tearDown] →
      (∀ q ∈ (n :: future).flatMap (·.postings), q.command.kind = .tearDown) ∧
        ∀ l : Line, l.capability ≠ .tearDown → c.flow.place c.begun.length l = .behind := by
    refine of.grow (motive := fun c => ∀ past n future, c.entries = past ++ n :: future →
      n.after.legs <:+ [.tearDown] →
      (∀ q ∈ (n :: future).flatMap (·.postings), q.command.kind = .tearDown) ∧
        ∀ l : Line, l.capability ≠ .tearDown → c.flow.place c.begun.length l = .behind) ?_ ?_
    · intro past n future split
      simp [idle] at split
    · intro c call grows old past n future split legs
      rcases split_concat split with ⟨rfl, rfl, rfl⟩ | ⟨rest, rfl, shorter⟩
      · have only : ∀ k : Capability, k.leg ∈ (c.then_ call).flow.legs → k = .tearDown := by
          intro k mem
          have leg := List.mem_singleton.1 (legs.subset mem)
          exact (Capability.leg_eq_iff.1 leg).symm
        refine ⟨?_, fun l other => Flow.place_of_left fun mem => other (only _ mem)⟩
        intro q mem
        have own : q ∈ (c.entry call).postings := by simpa using mem
        rcases List.mem_map.1 own with ⟨sent, sends, rfl⟩
        exact only _ (Flow.leg_mem_legs (grows.sending.legs sent sends))
      · rcases old past n rest shorter legs with ⟨before, behind⟩
        have walks : ∀ l : Line, l.capability ≠ .tearDown →
            (c.entry call).postings.filter (·.line = l) = [] ∧
              (c.then_ call).flow.place (c.then_ call).begun.length l = .behind := by
          intro l other
          have walk := grows.walks l
          rw [behind l other] at walk
          exact behind_of_walk walk
        refine ⟨?_, fun l other => (walks l other).2⟩
        intro q mem
        rw [← List.cons_append, List.flatMap_append, List.mem_append] at mem
        rcases mem with past_ | new
        · exact before q past_
        · have new : q ∈ (c.entry call).postings := by simpa using new
          apply Classical.byContradiction
          intro other
          have nothing := (walks q.line ((grows.fits q new).1 ▸ other)).1
          have own : q ∈ (c.entry call).postings.filter (·.line = q.line) := by simp [new]
          rw [nothing] at own
          cases own
  intro past n future split legs
  exact (kept past n future split legs).1

theorem spoiled_of_fails (grows : Grows chains c call) {p : Posting}
    (kind : p.command.kind = .setup)
    (answers : (c.entry call).Answers p) (fails : ¬(c.entry call).Succeeds) :
    (c.entry call).after.legs <:+ [.tearDown] := by
  obtain ⟨e, now, call_eq, accepted, completes, -⟩ := answers
  have failure : e.isSuccess = false := by
    cases success : e.isSuccess with
    | false => rfl
    | true => exact absurd ⟨e, now, call_eq, success⟩ fails
  rw [kind] at completes
  exact grows.spoils e now call_eq accepted completes failure

theorem Of.spoils (of : Of build script chains c) :
    ∀ past n future, c.entries = past ++ n :: future →
      ∀ p ∈ past.flatMap (·.postings), p.command.kind = .setup → n.Answers p → ¬n.Succeeds →
        ∀ q ∈ (n :: future).flatMap (·.postings), q.command.kind = .tearDown := by
  have legs : ∀ n ∈ c.entries, ∀ p : Posting, p.command.kind = .setup → n.Answers p →
      ¬n.Succeeds → n.after.legs <:+ [.tearDown] := by
    refine of.grow (motive := fun c => ∀ n ∈ c.entries, ∀ p : Posting, p.command.kind = .setup →
      n.Answers p → ¬n.Succeeds → n.after.legs <:+ [.tearDown]) (by simp [idle]) ?_
    intro c call grows old n mem p kind answers fails
    rcases List.mem_append.1 mem with before | now_
    · exact old n before p kind answers fails
    · obtain rfl := List.mem_singleton.1 now_
      exact spoiled_of_fails grows kind answers fails
  intro past n future split p _ kind answers fails
  have mem : n ∈ c.entries := by
    rw [split]
    exact List.mem_append_right _ List.mem_cons_self
  exact of.tearDown_only past n future split (legs n mem p kind answers fails)

theorem prefix_of_planned {begun started plan : List Stage} (old : begun <+: plan)
    (planned : ∀ (j : Nat) (s : Stage), started[j]? = some s → plan[begun.length + j]? = some s) :
    begun ++ started <+: plan := by
  obtain ⟨rest, rfl⟩ := old
  rw [List.prefix_append_right_inj, List.prefix_iff_getElem?]
  intro j lt
  have next := planned j _ (List.getElem?_eq_getElem lt)
  rw [List.getElem?_append_right (Nat.le_add_right _ _), Nat.add_sub_cancel_left] at next
  exact next

/-- Stages are loaded only as long as none was started. -/
theorem Of.begun_prefix_planned (of : Of build script chains c) (old : c.begun <+: c.plan)
    (call : Call) : c.begun <+: Flow.planned c.plan (c.flow.loading? call) := by
  cases loading : c.flow.loading? call with
  | none => exact old
  | some stages =>
      have none_ := of.rests.begun_of_loading loading
      rw [List.length_eq_zero_iff.1 none_]
      exact List.nil_prefix

/-- The stages are started as set-up planned them. -/
theorem Of.planned (of : Of build script chains c) : c.begun <+: c.plan := by
  induction of with
  | start now =>
      have lands := ((Flow.passes_takeOff build script chains).lands now).1
      rw [begun_then_]
      exact prefix_of_planned List.nil_prefix lands.planned
  | @step c of call legal ih =>
      have called := (of.rests.called legal).1
      rw [begun_then_, plan_then_]
      exact prefix_of_planned (of.begun_prefix_planned ih call) called.planned

/-- Every course keeps to the chain discipline. -/
theorem Of.disciplined (of : Of build script chains c) : c.Disciplined chains :=
  ⟨of.planned, of.order, of.logged.fits, fun l => (of.logged.lines l).chain, of.follows,
    of.fansOut, of.stops, of.spoils⟩

/-- One provider for set-up and two for the run. -/
def shortChains : Chains where
  setup := [⟨.setup, 0, 0⟩]
  runPhase := [⟨.runPhase, 0, 0⟩, ⟨.runPhase, 0, 1⟩]

/-- A build of two stages, the first of which fails at its second provider. -/
def brokenOff : Course :=
  let id : BuildId := ⟨"b"⟩
  let begun :=
    (idle { id, createdAt := Moment.origin } none shortChains).then_ (.start Moment.origin)
  let stages := [[{ id := "p" }], [{ id := "q" }]]
  let loaded := begun.then_ (.process
    { kind := .setupEnd, buildId := id, token := ⟨1⟩, stages := some stages } Moment.origin)
  let passed := loaded.then_ (.process
    { kind := .phaseEnd, buildId := id, token := ⟨2⟩, phase := some ⟨0, none, none, none⟩ }
    Moment.origin)
  passed.then_ (.process
    { kind := .phaseEnd, buildId := id, token := ⟨3⟩, statusCode := 500,
      phase := some ⟨0, none, none, none⟩ }
    Moment.origin)

theorem of_brokenOff :
    Of { id := ⟨"b"⟩, createdAt := Moment.origin } none shortChains brokenOff := by
  refine .step (.step (.step (.start Moment.origin) _ ?_) _ ?_) _ ?_
  · exact fun _ => rfl
  · exact fun stages => absurd rfl stages
  · exact fun stages => absurd rfl stages

theorem disciplined_brokenOff :
    brokenOff.postings.map (·.address) = shortChains.setup ++ shortChains.runPhase ∧
      brokenOff.Disciplined shortChains :=
  ⟨by cbv, Of.disciplined of_brokenOff⟩

end Course
end BuildPipeline
