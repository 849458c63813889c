import BuildPipeline.Proofs.Deadlines.Live

/-!
The deadlines are a finite map from pairs to deadlines. The map is an `Agenda`, a list in which no
two deadlines have the same pair: setting inserts, cancelling erases, and polling takes out what is
due, in order. As long as no pair is set again before its build has been dropped (`Spaced`), nothing
that is seen of a row of operations tells the heap and its marks from the agenda
(`seen_eq_agenda`).
-/

namespace BuildPipeline

/-- At most one deadline for each pair. -/
structure Agenda where
  entries : List Deadline
  distinct : (entries.map (·.key)).Nodup

namespace Agenda

variable {a : Agenda} {d : Deadline} {key : Deadline.Key}

def empty : Agenda :=
  ⟨[], List.nodup_nil⟩

/-- The deadline of a pair. -/
def get? (a : Agenda) (key : Deadline.Key) : Option Deadline :=
  a.entries.find? (·.key = key)

/-- The deadlines that pass a test. -/
def keep (a : Agenda) (p : Deadline → Bool) : Agenda :=
  ⟨a.entries.filter p, a.distinct.sublist (List.filter_sublist.map _)⟩

def erase (a : Agenda) (key : Deadline.Key) : Agenda :=
  a.keep (·.key ≠ key)

theorem not_mem_erase (a : Agenda) (key : Deadline.Key) :
    key ∉ (a.erase key).entries.map (·.key) := by
  rintro mem
  obtain ⟨d, kept, own⟩ := List.mem_map.1 mem
  exact of_decide_eq_true (List.mem_filter.1 kept).2 own

/-- Sets the deadline of a pair, in place of the one it had. -/
def insert (a : Agenda) (d : Deadline) : Agenda :=
  ⟨d :: (a.erase d.key).entries,
    List.nodup_cons.2 ⟨not_mem_erase a d.key, (a.erase d.key).distinct⟩⟩

def eraseBuild (a : Agenda) (id : BuildId) : Agenda :=
  a.keep (·.buildId ≠ id)

/-- What is due, in the order in which it falls due. -/
def due (a : Agenda) (now : Nat) : List Deadline :=
  (a.entries.filter (·.fireAt ≤ now)).mergeSort Deadline.le

/-- What is not due yet. -/
def ahead (a : Agenda) (now : Nat) : Agenda :=
  a.keep (now < ·.fireAt)

/-! ## The map -/

theorem get?_eq_some_iff : a.get? key = some d ↔ d ∈ a.entries ∧ d.key = key := by
  unfold get?
  constructor
  · intro found
    exact ⟨List.mem_of_find?_eq_some found, by simpa using List.find?_some found⟩
  · rintro ⟨mem, rfl⟩
    cases found : a.entries.find? (·.key = d.key) with
    | none => exact absurd (List.find?_eq_none.1 found d mem) (by simp)
    | some other =>
        have own : other.key = d.key := by simpa using List.find?_some found
        have same := List.inj_on_of_nodup_map a.distinct
          (List.mem_of_find?_eq_some found) mem own
        rw [same]

theorem get?_keep (p : Deadline → Bool) : (a.keep p).get? key = (a.get? key).filter p := by
  refine Option.ext fun d => ?_
  rw [get?_eq_some_iff, Option.filter_eq_some_iff, get?_eq_some_iff, keep, List.mem_filter]
  exact and_right_comm

theorem get?_insert : (a.insert d).get? key = if d.key = key then some d else a.get? key := by
  split
  · rename_i own
    exact get?_eq_some_iff.2 ⟨List.mem_cons_self, own⟩
  · rename_i other
    refine Option.ext fun e => ?_
    rw [get?_eq_some_iff, get?_eq_some_iff]
    refine and_congr_left fun own => ?_
    have ne : e.key ≠ d.key := fun same => other (same.symm.trans own)
    have ne' : e ≠ d := fun same => ne (congrArg _ same)
    simp [insert, erase, keep, ne, ne']

/-! ## What is due -/

theorem mem_due {now : Nat} : d ∈ a.due now ↔ a.get? d.key = some d ∧ d.fireAt ≤ now := by
  unfold due
  rw [List.mem_mergeSort, List.mem_filter, decide_eq_true_eq, get?_eq_some_iff, and_iff_left rfl]

theorem nodup_due (a : Agenda) (now : Nat) : (a.due now).Nodup :=
  (List.mergeSort_perm _ _).nodup_iff.2 ((List.Nodup.of_map _ a.distinct).filter _)

theorem pairwise_due (a : Agenda) (now : Nat) : (a.due now).Pairwise fun d e => d.le e = true :=
  List.pairwise_mergeSort Deadline.le_trans Deadline.le_total _

end Agenda

namespace Deadlines

/-- The operations on deadlines. -/
inductive Op
  | schedule (d : Deadline)
  | cancel (key : Deadline.Key)
  | cancelBuild (id : BuildId)
  | poll (now : Nat)
  deriving DecidableEq

/-- What is seen of an operation: what fires, and how much is set afterwards. -/
structure Seen where
  fired : List Deadline
  size : Nat
  isEmpty : Bool
  deriving DecidableEq

/-- The pair that an operation sets a deadline of. -/
def Op.sets : Op → Option Deadline.Key
  | .schedule d => some d.key
  | _ => none

/-- What is seen of the operations, one after the other, and what is behind them. -/
def Op.run {σ : Type} (step : σ → Op → Seen × σ) (s : σ) : List Op → List Seen × σ
  | [] => ([], s)
  | op :: ops =>
    let (seen, s') := step s op
    let (more, s'') := Op.run step s' ops
    (seen :: more, s'')

/-- What fires, and the deadlines behind an operation. -/
def apply (s : Deadlines) : Op → List Deadline × Deadlines
  | .schedule d => ([], s.schedule d)
  | .cancel key => ([], s.cancel key)
  | .cancelBuild id => ([], s.cancelBuild id)
  | .poll now => s.poll now

def step (s : Deadlines) (op : Op) : Seen × Deadlines :=
  let (fired, s') := s.apply op
  ({ fired, size := s'.size, isEmpty := s'.isEmpty }, s')

end Deadlines

namespace Agenda

/-- What an operation comes to on the map. -/
def apply (a : Agenda) : Deadlines.Op → List Deadline × Agenda
  | .schedule d => ([], a.insert d)
  | .cancel key => ([], a.erase key)
  | .cancelBuild id => ([], a.eraseBuild id)
  | .poll now => (a.due now, a.ahead now)

def step (a : Agenda) (op : Deadlines.Op) : Deadlines.Seen × Agenda :=
  let (fired, a') := a.apply op
  ({ fired, size := a'.entries.length, isEmpty := a'.entries.isEmpty }, a')

/-- What stands under a pair behind an operation. -/
theorem get?_apply (a : Agenda) (op : Deadlines.Op) (key : Deadline.Key) :
    (a.apply op).2.get? key =
      match op with
      | .schedule d => if d.key = key then some d else a.get? key
      | .cancel other => if key = other then none else a.get? key
      | .cancelBuild id => if key.1 = id then none else a.get? key
      | .poll now => (a.get? key).filter (now < ·.fireAt) := by
  have under : ∀ d, a.get? key = some d → d.key = key := fun d found =>
    (get?_eq_some_iff.1 found).2
  cases op with
  | schedule d => exact get?_insert
  | cancel other =>
      refine (get?_keep _).trans ?_
      cases found : a.get? key with
      | none => simp
      | some d => simp [Option.filter_some, under d found]
  | cancelBuild id =>
      refine (get?_keep _).trans ?_
      cases found : a.get? key with
      | none => simp
      | some d => simp [Option.filter_some, ← under d found, Deadline.key]
  | poll now => exact get?_keep _

end Agenda

namespace Deadlines

variable {s : Deadlines} {a : Agenda} {d : Deadline} {now : Nat}

/-! ## One operation -/

/-- The deadlines that are live are those of the map. -/
structure Shows (s : Deadlines) (a : Agenda) : Prop where
  sound : s.Sound
  entries : s.live.Perm a.entries

theorem shows_empty : Shows {} .empty :=
  ⟨sound_empty, .refl _⟩

theorem Shows.size_eq (shows_ : Shows s a) : s.size = a.entries.length :=
  shows_.sound.size_eq.trans shows_.entries.length_eq

theorem Shows.isEmpty_eq (shows_ : Shows s a) : s.isEmpty = a.entries.isEmpty := by
  unfold isEmpty
  rw [shows_.size_eq]
  cases a.entries <;> rfl

theorem Shows.has_iff (shows_ : Shows s a) : s.Has d ↔ a.get? d.key = some d := by
  rw [Agenda.get?_eq_some_iff, ← mem_live, shows_.entries.mem_iff, and_iff_left rfl]

/-- What fires is what is due on the map, in the same order. -/
theorem Shows.fired_eq (shows_ : Shows s a) (now : Nat) : (s.poll now).1 = a.due now := by
  have polled := shows_.sound.poll now
  have same : (s.poll now).1.Perm (a.due now) :=
    (polled.fired.trans (shows_.entries.filter _)).trans (List.mergeSort_perm _ _).symm
  refine same.eq_of_pairwise ?_ polled.sorted (a.pairwise_due now)
  -- two that are level have one pair, so they are one
  intro d other mem mem' le le'
  have live : ∀ {e}, e ∈ (s.poll now).1 → e ∈ s.live := fun fired =>
    (List.mem_filter.1 (polled.fired.mem_iff.1 fired)).1
  exact shows_.sound.live_inj (live mem) (live (same.mem_iff.2 mem'))
    (Deadline.key_eq_of_le_of_le le le')

/-- An operation that sets no pair a second time does the same to the deadlines and to the map. -/
theorem Shows.apply (shows_ : Shows s a) {op : Op} (fresh : ∀ key ∈ op.sets, key ∉ s.keys) :
    (s.apply op).1 = (a.apply op).1 ∧ Shows (s.apply op).2 (a.apply op).2 := by
  cases op with
  | schedule d =>
      obtain ⟨sound, live⟩ := shows_.sound.schedule (fresh d.key rfl)
      have others : (a.erase d.key).entries = a.entries := by
        refine List.filter_eq_self.2 fun e mem => ?_
        rw [decide_eq_true_eq]
        intro same
        have old := key_mem_keys (live_subset s (shows_.entries.mem_iff.2 mem))
        exact fresh d.key rfl (same ▸ old)
      refine ⟨rfl, sound, live.trans (List.Perm.cons _ ?_)⟩
      rw [others]
      exact shows_.entries
  | cancel key =>
      obtain ⟨sound, live⟩ := shows_.sound.cancel key
      exact ⟨rfl, sound, (List.Perm.of_eq live).trans (shows_.entries.filter _)⟩
  | cancelBuild id =>
      obtain ⟨sound, live⟩ := shows_.sound.cancelBuild id
      exact ⟨rfl, sound, live.trans (shows_.entries.filter _)⟩
  | poll now =>
      have polled := shows_.sound.poll now
      exact ⟨shows_.fired_eq now, polled.sound, polled.left.trans (shows_.entries.filter _)⟩

theorem Shows.step (shows_ : Shows s a) {op : Op} (fresh : ∀ key ∈ op.sets, key ∉ s.keys) :
    (s.step op).1 = (a.step op).1 ∧ Shows (s.step op).2 (a.step op).2 := by
  obtain ⟨fired, after⟩ := shows_.apply fresh
  refine ⟨?_, after⟩
  simp only [Deadlines.step, Agenda.step, Seen.mk.injEq]
  exact ⟨fired, after.size_eq, after.isEmpty_eq⟩

/-! ## Rows of operations -/

/-- The operations do not set the pair before they drop its build. -/
def Leaves (key : Deadline.Key) (ops : List Op) : Prop :=
  ∀ op ∈ ops.takeWhile (· ≠ .cancelBuild key.1), op.sets ≠ some key

instance (key : Deadline.Key) (ops : List Op) : Decidable (Leaves key ops) :=
  inferInstanceAs (Decidable (∀ op ∈ ops.takeWhile (· ≠ .cancelBuild key.1), op.sets ≠ some key))

/-- A pair is set again only after its build has been dropped. -/
def Spaced : List Op → Prop
  | [] => True
  | op :: ops => (∀ key ∈ op.sets, Leaves key ops) ∧ Spaced ops

instance decidableSpaced : (ops : List Op) → Decidable (Spaced ops)
  | [] => isTrue trivial
  | op :: ops =>
    have := decidableSpaced ops
    inferInstanceAs (Decidable ((∀ key ∈ op.sets, Leaves key ops) ∧ Spaced ops))

variable {op : Op} {ops : List Op} {key : Deadline.Key}

theorem Leaves.head (leaves : Leaves key (op :: ops)) : op.sets ≠ some key := by
  by_cases drops : op = .cancelBuild key.1
  · rw [drops]
    exact Option.some_ne_none _ ∘ Eq.symm
  · exact leaves op (by rw [List.takeWhile_cons_of_pos (by simpa using drops)]
                        exact List.mem_cons_self)

theorem Leaves.tail (leaves : Leaves key (op :: ops)) (goesOn : op ≠ .cancelBuild key.1) :
    Leaves key ops := by
  intro later mem
  refine leaves later ?_
  rw [List.takeWhile_cons_of_pos (by simpa using goesOn)]
  exact List.mem_cons_of_mem _ mem

/-- Where a pair that is set comes from: it has been set before, and its build was not dropped. -/
theorem mem_keys_apply (sound : s.Sound) (set_ : key ∈ (s.apply op).2.keys) :
    op ≠ .cancelBuild key.1 ∧ (key ∈ op.sets ∨ key ∈ s.keys) := by
  cases op with
  | schedule d =>
      refine ⟨nofun, ?_⟩
      rcases List.mem_cons.1 ((keys_schedule s d).mem_iff.1 set_) with rfl | old
      · exact .inl rfl
      · exact .inr old
  | cancel other =>
      have same : (s.cancel other).keys = s.keys := by
        unfold keys
        rw [items_cancel]
      exact ⟨nofun, .inr (same ▸ set_)⟩
  | cancelBuild id =>
      obtain ⟨d, mem, rfl⟩ := List.mem_map.1 set_
      obtain ⟨old, other⟩ := mem_items_cancelBuild.1 mem
      exact ⟨fun drops => other (Op.cancelBuild.inj drops).symm, .inr (key_mem_keys old)⟩
  | poll now =>
      obtain ⟨d, mem, rfl⟩ := List.mem_map.1 set_
      exact ⟨nofun, .inr (key_mem_keys ((sound.poll now).items mem))⟩

/-- The deadlines and the map stay level as long as what is set is left alone. -/
theorem Shows.run (shows_ : Shows s a) (left : ∀ key ∈ s.keys, Leaves key ops)
    (spaced : Spaced ops) :
    (Op.run Deadlines.step s ops).1 = (Op.run Agenda.step a ops).1 ∧
      Shows (Op.run Deadlines.step s ops).2 (Op.run Agenda.step a ops).2 := by
  induction ops generalizing s a with
  | nil => exact ⟨rfl, shows_⟩
  | cons op ops ih =>
      obtain ⟨leaves, spaced⟩ := spaced
      have fresh : ∀ key ∈ op.sets, key ∉ s.keys := fun key sets old =>
        (left key old).head sets
      obtain ⟨seen, after⟩ := shows_.step fresh
      have left' : ∀ key ∈ (s.step op).2.keys, Leaves key ops := by
        intro key set_
        obtain ⟨goesOn, new | old⟩ := mem_keys_apply shows_.sound set_
        · exact leaves key new
        · exact (left key old).tail goesOn
      obtain ⟨more, final⟩ := ih after left' spaced
      exact ⟨congrArg₂ _ seen more, final⟩

/-- The heap of deadlines is a finite map. What is seen of any row of operations that sets no pair
again before its build has been dropped (what fires, and how many deadlines are left) is what is
seen on the map, and the deadlines that are set afterwards are its entries. -/
theorem seen_eq_agenda (ops : List Op) (spaced : Spaced ops) :
    (Op.run step {} ops).1 = (Op.run Agenda.step .empty ops).1 ∧
      ∀ d, (Op.run step {} ops).2.Has d ↔
        (Op.run Agenda.step .empty ops).2.get? d.key = some d := by
  obtain ⟨seen, final⟩ := shows_empty.run (fun _ none_ => absurd none_ List.not_mem_nil) spaced
  exact ⟨seen, fun d => final.has_iff⟩

/-- Two deadlines that fall due together, one that is cancelled, and one whose pair is set again
after its build has been dropped. -/
def rescheduled : List Op :=
  let at_ (id : String) (token fireAt : Nat) : Deadline :=
    { buildId := ⟨id⟩, token := ⟨token⟩, capability := .setup, fireAt, timeout := .ofSeconds 1 0 }
  [.schedule (at_ "b" 1 10), .schedule (at_ "a" 2 10), .schedule (at_ "a" 1 5), .poll 4,
    .cancel (⟨"a"⟩, ⟨1⟩), .schedule (at_ "c" 1 30), .cancelBuild ⟨"c"⟩, .schedule (at_ "c" 1 20),
    .poll 20]

theorem seen_eq_agenda_rescheduled :
    Spaced rescheduled ∧
      (Op.run step {} rescheduled).1 = (Op.run Agenda.step .empty rescheduled).1 ∧
      (Op.run step {} rescheduled).1.map (·.size) = [1, 2, 3, 3, 2, 3, 2, 3, 0] ∧
      ((Op.run step {} rescheduled).1.flatMap (·.fired)).map (·.key) =
        [(⟨"a"⟩, ⟨2⟩), (⟨"b"⟩, ⟨1⟩), (⟨"c"⟩, ⟨1⟩)] :=
  ⟨by decide, (seen_eq_agenda rescheduled (by decide)).1, by decide, by decide⟩

end Deadlines
end BuildPipeline
