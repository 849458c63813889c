import BuildPipeline.Proofs.Flow.Slots

/-!
How replies are bound to commands. No check of the events is needed for this: whatever a host hands
over, and however often (`Course.Unchecked`), what the flow waits on in a slot is the token of one
of its commands, which names the slot and is of the leg that the flow is on (`Course.Slotted`).
Tokens are dealt out in order, so a token that was answered is waited on never again
(`Slotted.stale`), and no command is answered twice (`Course.Unchecked.bound`).
-/

namespace BuildPipeline

open Time (Moment)

/-- The calls that may follow the start, whether the events were checked or not. -/
def Call.Later : Call → Prop
  | .start _ => False
  | .process .. | .abort _ => True

theorem Call.Legal.later {call : Call} (legal : call.Legal) : call.Later := by
  cases call with
  | start => exact legal
  | process => trivial
  | abort => trivial

namespace Course

/-- What becomes of a flow of a build whose host does not check the events that it hands over. -/
inductive Unchecked (build : Build) (script : Option String) (chains : Chains) : Course → Prop
  | start (now : Moment) :
      Unchecked build script chains ((idle build script chains).then_ (.start now))
  | step {c : Course} (run : Unchecked build script chains c) (call : Call) (later : call.Later) :
      Unchecked build script chains (c.then_ call)

/-- The event that a call hands over, if the flow accepts it. -/
def Entry.taken? (n : Entry) : Option Event :=
  match n.call with
  | .process e _ => if n.before.accepts e then some e else none
  | .start _ | .abort _ => none

/-- The events that were accepted among some entries, in order. -/
def taken (entries : List Entry) : List Event :=
  entries.filterMap (·.taken?)

/-- The commands that went out, in order. -/
def commands (c : Course) : List Command :=
  c.postings.map (·.command)

/-- What binds replies to commands. -/
structure Bound (c : Course) : Prop where
  increasing : (c.commands.map (·.token.number)).Pairwise (· < ·)
  distinct : (c.commands.map (·.token)).Nodup
  inert : ∀ e now, e.kind ≠ .phaseUpdate ∧ c.flow.accepts e = false ∨ c.flow.ended = true →
    c.flow.process e now = (c.flow, [])
  spent : ∀ past n future, c.entries = past ++ n :: future → ∀ e, n.taken? = some e →
    e.token ∈ n.before.outstanding ∧ ∀ m ∈ n :: future, e.token ∉ m.after.outstanding
  once : ((taken c.entries).map (·.token)).Nodup
  answers : ∀ e ∈ taken c.entries, ∃ m ∈ c.commands,
    e.token = m.token ∧ e.kind = m.kind.completion

section Unchecked

variable {build : Build} {script : Option String} {chains : Chains} {c : Course} {call : Call}
  {e : Event} {now : Moment} {t : Token}

theorem filter_of_nodup_map {α β : Type} [DecidableEq β] {f : α → β} {l : List α} {a : α}
    (nodup : (l.map f).Nodup) (mem : a ∈ l) : l.filter (f · = f a) = [a] := by
  obtain ⟨past, future, rfl⟩ := List.append_of_mem mem
  rw [List.map_append, List.map_cons, List.nodup_middle, List.nodup_cons,
    ← List.map_append] at nodup
  have apart : ∀ b ∈ past ++ future, ¬decide (f b = f a) = true := by
    intro b mem same
    rw [decide_eq_true_eq] at same
    exact nodup.1 (same ▸ List.mem_map_of_mem mem)
  rw [List.filter_append, List.filter_cons_of_pos (by simp),
    List.filter_eq_nil_iff.2 fun b mem => apart b (List.mem_append_left _ mem),
    List.filter_eq_nil_iff.2 fun b mem => apart b (List.mem_append_right _ mem), List.nil_append]

theorem Of.unchecked (of : Of build script chains c) : Unchecked build script chains c := by
  induction of with
  | start now => exact .start now
  | step _ call legal run => exact run.step call legal.later

theorem commands_then_ (c : Course) (call : Call) :
    (c.then_ call).commands = c.commands ++ BuildPipeline.commands (c.flow.call call).2 := by
  rw [commands, postings_then_, List.map_append]
  simp [commands, Entry.postings, Entry.posting, entry, BuildPipeline.commands]

theorem taken_concat (entries : List Entry) (n : Entry) :
    taken (entries ++ [n]) = taken entries ++ n.taken?.toList := by
  simp only [taken, List.filterMap_append]
  cases own : n.taken? with
  | none => simp [own]
  | some e => simp [own]

theorem taken_then_ (c : Course) (call : Call) :
    taken (c.then_ call).entries = taken c.entries ++ (c.entry call).taken?.toList :=
  taken_concat c.entries (c.entry call)

theorem taken?_eq_some {n : Entry} :
    n.taken? = some e ↔ ∃ now, n.call = .process e now ∧ n.before.accepts e = true := by
  unfold Entry.taken?
  constructor
  · intro taken
    split at taken
    · rename_i e' now call
      split at taken
      · rename_i accepted
        cases taken
        exact ⟨now, call, accepted⟩
      · cases taken
    · cases taken
    · cases taken
  · rintro ⟨now, call, accepted⟩
    rw [call]
    exact if_pos accepted

/-- What the flow waits on in a slot is the token of a command for the slot, on the leg where it
is. -/
structure Slotted (build : Build) (c : Course) : Prop where
  id : c.flow.build.id = build.id
  going : c.flow.legs ≠ [] → c.flow.ended = false
  numbered : c.commands.map (·.token.number) = List.range' 1 c.flow.minted
  made : ∀ m ∈ c.commands, m.build.id = build.id ∧ (m.phase.isSome = true ↔ m.kind = .runPhase)
  slots : ∀ slot t, c.flow.slot? slot = some t →
    ∃ m ∈ c.commands, m.slot = slot ∧ m.token = t ∧ c.flow.leg? = some m.kind.leg

theorem slotted_idle : Slotted build (idle build script chains) := by
  refine ⟨rfl, fun _ => rfl, rfl, fun m mem => absurd mem List.not_mem_nil, ?_⟩
  intro slot t filled
  rw [Flow.slot?_of_empty rfl rfl] at filled
  cases filled

theorem Slotted.then_ (slotted : Slotted build c) (call : Call) :
    Slotted build (c.then_ call) := by
  have fills := Flow.fills_call c.flow call
  refine ⟨fills.id.trans slotted.id, fun on => ?_, ?_, ?_, ?_⟩
  · rcases fills.going on with ⟨on, ended⟩
    exact ended.trans (slotted.going on)
  · rw [commands_then_, List.map_append, slotted.numbered, fills.tokens,
      Nat.add_comm c.flow.minted 1, List.range'_append_1, ← fills.minted]
    rfl
  · intro m mem
    rw [commands_then_, List.mem_append] at mem
    rcases mem with old | new
    · exact slotted.made m old
    · exact slotted.id ▸ fills.made m new
  · intro slot t filled
    rw [commands_then_]
    rcases fills.slots slot t filled with ⟨before, leg⟩ | ⟨m, mem, own, token, on⟩
    · rcases slotted.slots slot t before with ⟨m, mem, own, token, on⟩
      exact ⟨m, List.mem_append_left _ mem, own, token, leg.trans on⟩
    · exact ⟨m, List.mem_append_right _ mem, own, token, on⟩

theorem Unchecked.slotted (run : Unchecked build script chains c) : Slotted build c := by
  induction run with
  | start now => exact slotted_idle.then_ _
  | step _ call _ slotted => exact slotted.then_ call

theorem Slotted.distinct (slotted : Slotted build c) : (c.commands.map (·.token)).Nodup := by
  have numbers : ((c.commands.map (·.token)).map Token.number).Nodup := by
    rw [List.map_map]
    exact slotted.numbered ▸ List.nodup_range'
  exact numbers.of_map

theorem Slotted.unique (slotted : Slotted build c) {m m' : Command} (mem : m ∈ c.commands)
    (mem' : m' ∈ c.commands) (same : m.token = m'.token) : m = m' :=
  List.inj_on_of_nodup_map slotted.distinct mem mem' same

theorem Slotted.number_le (slotted : Slotted build c) {m : Command} (mem : m ∈ c.commands) :
    m.token.number ≤ c.flow.minted := by
  have number : m.token.number ∈ c.commands.map (·.token.number) := List.mem_map_of_mem mem
  rw [slotted.numbered, List.mem_range'_1] at number
  omega

/-- A token that is waited on is that of a command which was sent. -/
theorem Slotted.sent (slotted : Slotted build c) (waits : t ∈ c.flow.outstanding) :
    ∃ m ∈ c.commands, m.token = t := by
  rcases Flow.mem_outstanding_iff_slot.1 waits with ⟨slot, filled⟩
  rcases slotted.slots slot t filled with ⟨m, mem, -, token, -⟩
  exact ⟨m, mem, token⟩

/-- The slots of a flow are filled with different tokens. -/
theorem Slotted.slot_inj (slotted : Slotted build c) {slot slot' : Option Nat}
    (filled : c.flow.slot? slot = some t) (filled' : c.flow.slot? slot' = some t) :
    slot = slot' := by
  rcases slotted.slots slot t filled with ⟨m, mem, own, token, -⟩
  rcases slotted.slots slot' t filled' with ⟨m', mem', own', token', -⟩
  obtain rfl := slotted.unique mem mem' (token.trans token'.symm)
  exact own.symm.trans own'

/-- A token that was sent and is not waited on is not waited on behind more effects. -/
theorem Slotted.stale (slotted : Slotted build c) {m : Command} (mem : m ∈ c.commands)
    {f g : Flow} {effects : List Effect} (fills : Flow.Fills f effects g)
    (minted : f.minted = c.flow.minted) (settled : m.token ∉ f.outstanding) :
    m.token ∉ g.outstanding := by
  intro waits
  rcases Flow.mem_outstanding_iff_slot.1 waits with ⟨slot, filled⟩
  rcases fills.slots slot _ filled with ⟨before, -⟩ | ⟨m', mem', -, token, -⟩
  · exact settled (Flow.mem_outstanding_iff_slot.2 ⟨slot, before⟩)
  · have later : m'.token.number ∈ (BuildPipeline.commands effects).map (·.token.number) :=
      List.mem_map_of_mem mem'
    rw [fills.tokens, List.mem_range'_1, token, minted] at later
    have := slotted.number_le mem
    omega

/-- An event that is accepted has its token waited on, and not any more behind the call. -/
theorem Slotted.settles (slotted : Slotted build c) (accepted : c.flow.accepts e = true)
    (now : Moment) :
    e.token ∈ c.flow.outstanding ∧ e.token ∉ (c.flow.process e now).1.outstanding := by
  rcases Flow.fills_of_accepted accepted now with ⟨slot, filled, fills⟩
  have waits := Flow.mem_outstanding_iff_slot.2 ⟨slot, filled⟩
  rcases slotted.sent waits with ⟨m, mem, token⟩
  refine ⟨waits, token ▸ slotted.stale mem fills (Flow.fills_vacate c.flow slot).minted ?_⟩
  intro still
  rcases Flow.mem_outstanding_iff_slot.1 still with ⟨other, filled'⟩
  rcases Flow.slot?_vacate filled' with ⟨ne, before⟩
  exact ne (slotted.slot_inj before (token ▸ filled))

/-- An event that is accepted is a completion of the command with its token. -/
theorem Slotted.completes (slotted : Slotted build c) (accepted : c.flow.accepts e = true) :
    ∃ m ∈ c.commands, e.token = m.token ∧ e.kind = m.kind.completion := by
  have own : ∀ {slot leg}, c.flow.slot? slot = some e.token → c.flow.leg? = some leg →
      ∃ m ∈ c.commands, e.token = m.token ∧ m.kind.leg = leg := by
    intro slot leg filled on
    rcases slotted.slots slot _ filled with ⟨m, mem, -, token, on'⟩
    exact ⟨m, mem, token.symm, Option.some.inj (on'.symm.trans on)⟩
  rcases Flow.accepts_inv accepted with ⟨-, ⟨on, kind, waits⟩ | ⟨on, kind, waits⟩ | ⟨on, kind, way⟩⟩
  · rcases own (show c.flow.slot? none = some e.token from waits) on with ⟨m, mem, token, leg⟩
    exact ⟨m, mem, token, by rw [kind, ← Capability.leg_eq_iff.1 leg]; rfl⟩
  · rcases own (show c.flow.slot? none = some e.token from waits) on with ⟨m, mem, token, leg⟩
    exact ⟨m, mem, token, by rw [kind, ← Capability.leg_eq_iff.1 leg]; rfl⟩
  · obtain ⟨patch, lane, -, lane_at, awaited⟩ := way
    have filled : c.flow.slot? (some patch.index) = some e.token :=
      Option.bind_eq_some_iff.2 ⟨lane, lane_at, awaited⟩
    rcases own filled on with ⟨m, mem, token, leg⟩
    exact ⟨m, mem, token, by rw [kind, ← Capability.leg_eq_iff.1 leg]; rfl⟩

/-- Events that a flow does not take as replies leave it as it is. -/
theorem process_of_inert {f : Flow}
    (inert : e.kind ≠ .phaseUpdate ∧ f.accepts e = false ∨ f.ended = true) :
    f.process e now = (f, []) := by
  unfold Flow.process
  split
  · rfl
  · rename_i going
    rcases inert with ⟨kind, rejected⟩ | ended
    · rw [if_neg kind, rejected]
      rfl
    · exact absurd ended going

/-- Every event that was accepted belongs to a command, and its token is waited on no more. -/
structure Spent (c : Course) : Prop where
  spent : ∀ past n future, c.entries = past ++ n :: future → ∀ e, n.taken? = some e →
    e.token ∈ n.before.outstanding ∧ ∀ m ∈ n :: future, e.token ∉ m.after.outstanding
  once : ((taken c.entries).map (·.token)).Nodup
  answers : ∀ e ∈ taken c.entries, e.token ∉ c.flow.outstanding ∧
    ∃ m ∈ c.commands, e.token = m.token ∧ e.kind = m.kind.completion

theorem Spent.then_ (spent : Spent c) (slotted : Slotted build c) (call : Call) :
    Spent (c.then_ call) := by
  have fills := Flow.fills_call c.flow call
  have stale : ∀ e ∈ taken c.entries, e.token ∉ (c.then_ call).flow.outstanding := by
    intro e mem
    rcases spent.answers e mem with ⟨settled, m, sent, token, -⟩
    exact token ▸ slotted.stale sent fills rfl (token ▸ settled)
  have settles : ∀ e, (c.entry call).taken? = some e →
      c.flow.accepts e = true ∧ e.token ∈ c.flow.outstanding ∧
        e.token ∉ (c.then_ call).flow.outstanding := by
    intro e taken
    rcases taken?_eq_some.1 taken with ⟨now, call_eq, accepted⟩
    change call = _ at call_eq
    subst call_eq
    exact ⟨accepted, slotted.settles accepted now⟩
  refine ⟨?_, ?_, ?_⟩
  · intro past n future split e taken
    rcases split_concat split with ⟨rfl, rfl, rfl⟩ | ⟨rest, rfl, shorter⟩
    · rcases settles e taken with ⟨-, waits, settled⟩
      refine ⟨waits, fun m mem => ?_⟩
      obtain rfl := List.mem_singleton.1 mem
      exact settled
    · rcases spent.spent past n rest shorter e taken with ⟨waits, settled⟩
      refine ⟨waits, fun m mem => ?_⟩
      rw [← List.cons_append, List.mem_append, List.mem_singleton] at mem
      rcases mem with before | rfl
      · exact settled m before
      · refine stale e (List.mem_filterMap.2 ⟨n, ?_, taken⟩)
        rw [shorter]
        exact List.mem_append_right _ List.mem_cons_self
  · rw [taken_then_, List.map_append, List.nodup_append]
    refine ⟨spent.once, ?_, ?_⟩
    · cases (c.entry call).taken? <;> simp
    · rintro t old t' new rfl
      rcases List.mem_map.1 old with ⟨e, mem, rfl⟩
      rcases List.mem_map.1 new with ⟨e', mem', token⟩
      have waits := (settles e' (Option.mem_toList.1 mem')).2.1
      rw [token] at waits
      exact (spent.answers e mem).1 waits
  · intro e mem
    rw [taken_then_, List.mem_append] at mem
    rw [commands_then_]
    rcases mem with old | new
    · rcases spent.answers e old with ⟨-, m, sent, own⟩
      exact ⟨stale e old, m, List.mem_append_left _ sent, own⟩
    · rcases settles e (Option.mem_toList.1 new) with ⟨accepted, -, settled⟩
      rcases slotted.completes accepted with ⟨m, sent, own⟩
      exact ⟨settled, m, List.mem_append_left _ sent, own⟩

theorem Unchecked.spent (run : Unchecked build script chains c) : Spent c := by
  have idle_ : Spent (idle build script chains) := by
    refine ⟨fun past n future split => ?_, List.nodup_nil,
      fun e mem => absurd mem List.not_mem_nil⟩
    exact absurd split.symm (by simp [idle])
  induction run with
  | start now => exact idle_.then_ slotted_idle _
  | step run call _ spent => exact spent.then_ run.slotted call

/-- Whatever events arrive, a reply is bound to the one command that it answers. -/
theorem Unchecked.bound (run : Unchecked build script chains c) : c.Bound := by
  have slotted := run.slotted
  have spent := run.spent
  have increasing : (c.commands.map (·.token.number)).Pairwise (· < ·) := by
    rw [slotted.numbered]
    exact List.pairwise_lt_range'
  exact ⟨increasing, slotted.distinct, fun e now => process_of_inert, spent.spent, spent.once,
    fun e mem => (spent.answers e mem).2⟩

/-- The completion of set-up arrives twice, and stages come with the completion of a phase. -/
def misled : Course :=
  let id : BuildId := ⟨"b"⟩
  let stages := [[{ id := "p" }]]
  let loaded : Event := { kind := .setupEnd, buildId := id, token := ⟨1⟩, stages := some stages }
  let begun :=
    (idle { id, createdAt := Moment.origin } none shortChains).then_ (.start Moment.origin)
  let once := begun.then_ (.process loaded Moment.origin)
  let twice := once.then_ (.process loaded Moment.origin)
  twice.then_ (.process
    { kind := .phaseEnd, buildId := id, token := ⟨2⟩, phase := some ⟨0, none, none, none⟩,
      stages := some stages }
    Moment.origin)

theorem unchecked_misled :
    Unchecked { id := ⟨"b"⟩, createdAt := Moment.origin } none shortChains misled := by
  refine .step (.step (.step (.start Moment.origin) _ ?_) _ ?_) _ ?_ <;> trivial

theorem bound_misled : (taken misled.entries).map (·.token) = [⟨1⟩, ⟨2⟩] ∧ misled.Bound :=
  ⟨by cbv, Unchecked.bound unchecked_misled⟩

end Unchecked

end Course
end BuildPipeline
