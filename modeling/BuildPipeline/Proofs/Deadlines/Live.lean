import BuildPipeline.Proofs.Deadlines
import Mathlib.Data.List.Nodup
import Mathlib.Data.List.Perm.Basic

/-!
The deadlines that are live: set, not cancelled and not fired (`Deadlines.live`). As long as no pair
is set twice (`Deadlines.Sound`), every operation does to the live deadlines what its name says.
Setting adds one, cancelling takes away those of a pair or of a build, and polling takes away those
that are due, which fire in order. The number of deadlines that are still to fire is the number of
those that are live.
-/

namespace BuildPipeline

namespace Deadline

/-- Two deadlines of one pair that fall due together in either order are level. -/
theorem key_eq_of_le_of_le {a b : Deadline} (ab : a.le b = true) (ba : b.le a = true) :
    a.key = b.key := by
  unfold le BuildId.le at ab ba
  by_cases time : a.fireAt = b.fireAt
  · by_cases build : a.buildId = b.buildId
    · simp only [time, build, if_true, decide_eq_true_eq] at ab ba
      have number := Nat.le_antisymm ab ba
      have token : a.token = b.token := by
        cases ta : a.token
        cases tb : b.token
        simp_all
      exact Prod.ext build token
    · simp only [time, build, Ne.symm build, if_true, if_false, decide_eq_true_eq] at ab ba
      exact absurd (congrArg BuildId.mk (String.le_antisymm ab ba)) build
  · simp only [time, Ne.symm time, if_false, decide_eq_true_eq] at ab ba
    omega

end Deadline

namespace Deadlines

/-- The pairs of the deadlines that are set, cancelled or not. -/
def keys (s : Deadlines) : List Deadline.Key :=
  s.items.toList.map (·.key)

/-- The deadlines that are set and not cancelled. -/
def live (s : Deadlines) : List Deadline :=
  s.items.toList.filter fun d => !s.cancelled.contains d.key

/-- No pair is set twice, and only what is set is marked as cancelled, and once. -/
structure Sound (s : Deadlines) : Prop where
  ordered : s.Ordered
  distinct : s.keys.Nodup
  marks : s.cancelled.Nodup
  marked : s.cancelled ⊆ s.keys

variable {s : Deadlines} {d : Deadline} {now : Nat}

theorem sound_empty : Sound {} :=
  ⟨ordered_empty, List.nodup_nil, List.nodup_nil, List.nil_subset _⟩

theorem live_eq (s : Deadlines) : s.live = s.items.toList.filter (·.key ∉ s.cancelled) :=
  List.filter_congr fun d _ => by simp

theorem mem_live : d ∈ s.live ↔ s.Has d := by
  rw [live_eq, List.mem_filter, decide_eq_true_eq]
  exact ⟨fun h => ⟨h.1, h.2⟩, fun h => ⟨h.set_, h.unmarked⟩⟩

theorem key_mem_keys (set_ : d ∈ s.items.toList) : d.key ∈ s.keys :=
  List.mem_map_of_mem set_

theorem live_subset (s : Deadlines) : s.live ⊆ s.items.toList :=
  List.filter_subset_self _

/-- Every pair has at most one live deadline. -/
theorem Sound.live_keys (sound : s.Sound) : (s.live.map (·.key)).Nodup :=
  sound.distinct.sublist (List.filter_sublist.map _)

theorem Sound.live_inj (sound : s.Sound) {other : Deadline} (mem : d ∈ s.live)
    (mem' : other ∈ s.live) (same : d.key = other.key) : d = other :=
  List.inj_on_of_nodup_map sound.live_keys mem mem' same

/-- The number of deadlines that are still to fire. -/
theorem Sound.size_eq (sound : s.Sound) : s.size = s.live.length := by
  have marked : (s.keys.filter (· ∈ s.cancelled)).Perm s.cancelled := by
    refine (List.perm_ext_iff_of_nodup (sound.distinct.filter _) sound.marks).2 fun key => ?_
    rw [List.mem_filter, decide_eq_true_eq]
    exact ⟨fun h => h.2, fun h => ⟨sound.marked h, h⟩⟩
  have split := List.length_eq_length_filter_add (l := s.keys) (· ∈ s.cancelled)
  have unmarked : (s.keys.filter fun key => !decide (key ∈ s.cancelled)).length =
      s.live.length := by
    rw [keys, List.filter_map, List.length_map, live]
    simp [Function.comp_def]
  rw [marked.length_eq, unmarked, keys, List.length_map, Heap.length_toList] at split
  unfold size
  omega

/-! ## Setting and cancelling -/

theorem keys_schedule (s : Deadlines) (d : Deadline) :
    (s.schedule d).keys.Perm (d.key :: s.keys) :=
  (Heap.push_perm Deadline.le s.items d).map _

theorem Sound.schedule (sound : s.Sound) (fresh : d.key ∉ s.keys) :
    (s.schedule d).Sound ∧ (s.schedule d).live.Perm (d :: s.live) := by
  have unmarked : d.key ∉ s.cancelled := fun marked => fresh (sound.marked marked)
  have cancelled : (s.schedule d).cancelled = s.cancelled := by
    refine List.filter_eq_self.2 fun key mem => ?_
    rw [decide_eq_true_eq]
    rintro rfl
    exact unmarked mem
  have keys := keys_schedule s d
  refine ⟨⟨sound.ordered.schedule d, ?_, cancelled ▸ sound.marks, ?_⟩, ?_⟩
  · exact keys.nodup_iff.2 (List.nodup_cons.2 ⟨fresh, sound.distinct⟩)
  · rw [cancelled]
    exact fun key mem => keys.mem_iff.2 (List.mem_cons_of_mem _ (sound.marked mem))
  · rw [live_eq, live_eq, cancelled]
    have set_ := (Heap.push_perm Deadline.le s.items d).filter (·.key ∉ s.cancelled)
    rwa [List.filter_cons_of_pos (by simpa using unmarked)] at set_

/-- The deadlines behind the setting of some more. -/
def scheduleAll (s : Deadlines) (more : List Deadline) : Deadlines :=
  more.foldl schedule s

theorem items_scheduleAll (s : Deadlines) (more : List Deadline) :
    (s.scheduleAll more).items.toList.Perm (more ++ s.items.toList) := by
  induction more generalizing s with
  | nil => exact .refl _
  | cons d more ih =>
      exact (ih (s.schedule d)).trans
        (((Heap.push_perm Deadline.le s.items d).append_left _).trans List.perm_middle)

theorem Sound.scheduleAll {more : List Deadline} (sound : s.Sound)
    (distinct : (more.map (·.key)).Nodup) (fresh : ∀ d ∈ more, d.key ∉ s.keys) :
    (s.scheduleAll more).Sound ∧ (s.scheduleAll more).live.Perm (more ++ s.live) := by
  induction more generalizing s with
  | nil => exact ⟨sound, .refl _⟩
  | cons d more ih =>
      obtain ⟨apart, distinct⟩ := List.nodup_cons.1 distinct
      obtain ⟨sound', live⟩ := sound.schedule (fresh d List.mem_cons_self)
      have fresh' : ∀ other ∈ more, other.key ∉ (s.schedule d).keys := by
        intro other mem old
        rcases List.mem_cons.1 ((keys_schedule s d).mem_iff.1 old) with same | old
        · exact apart (List.mem_map.2 ⟨other, mem, same⟩)
        · exact fresh other (List.mem_cons_of_mem _ mem) old
      obtain ⟨sound'', live'⟩ := ih sound' distinct fresh'
      exact ⟨sound'', live'.trans ((live.append_left _).trans List.perm_middle)⟩

theorem Sound.cancel (sound : s.Sound) (key : Deadline.Key) :
    (s.cancel key).Sound ∧ (s.cancel key).live = s.live.filter (·.key ≠ key) := by
  by_cases marks : s.items.toList.any (·.key = key) ∧ key ∉ s.cancelled
  · have cancelled : s.cancel key = { s with cancelled := key :: s.cancelled } := if_pos marks
    obtain ⟨set_, unmarked⟩ := marks
    rw [cancelled]
    refine ⟨⟨sound.ordered, sound.distinct, List.nodup_cons.2 ⟨unmarked, sound.marks⟩, ?_⟩, ?_⟩
    · refine List.cons_subset.2 ⟨?_, sound.marked⟩
      obtain ⟨d, mem, own⟩ := List.any_eq_true.1 set_
      exact of_decide_eq_true own ▸ key_mem_keys mem
    · simp only [live_eq, List.filter_filter]
      refine List.filter_congr fun d _ => ?_
      simp [not_or]
  · have same : s.cancel key = s := if_neg marks
    rw [same]
    refine ⟨sound, (List.filter_eq_self.2 fun d mem => ?_).symm⟩
    rw [decide_eq_true_eq]
    rintro rfl
    have has := mem_live.1 mem
    exact marks ⟨List.any_eq_true.2 ⟨d, has.set_, by simp⟩, has.unmarked⟩

theorem mem_items_cancelBuild {id : BuildId} :
    d ∈ (s.cancelBuild id).items.toList ↔ d ∈ s.items.toList ∧ d.buildId ≠ id := by
  refine (Heap.filter_perm Deadline.le _ s.items).mem_iff.trans ?_
  rw [List.mem_filter, decide_eq_true_eq]

theorem Sound.cancelBuild (sound : s.Sound) (id : BuildId) :
    (s.cancelBuild id).Sound ∧ (s.cancelBuild id).live.Perm (s.live.filter (·.buildId ≠ id)) := by
  have items : (s.cancelBuild id).items.toList.Perm
      (s.items.toList.filter (·.buildId ≠ id)) :=
    Heap.filter_perm Deadline.le _ s.items
  have keys : (s.cancelBuild id).keys.Perm (s.keys.filter (·.1 ≠ id)) := by
    refine (items.map _).trans ?_
    rw [Deadlines.keys, List.filter_map]
    exact .refl _
  refine ⟨⟨ordered_cancelBuild s id, ?_, sound.marks.filter _, ?_⟩, ?_⟩
  · exact keys.nodup_iff.2 (sound.distinct.filter _)
  · intro key mem
    obtain ⟨old, other⟩ := List.mem_filter.1 mem
    exact keys.mem_iff.2 (List.mem_filter.2 ⟨sound.marked old, other⟩)
  · rw [live_eq, live_eq]
    refine (items.filter _).trans ?_
    simp only [Deadlines.cancelBuild, List.filter_filter]
    refine List.Perm.of_eq (List.filter_congr fun d _ => ?_)
    rw [Bool.eq_iff_iff, Bool.and_eq_true, Bool.and_eq_true]
    simp only [decide_eq_true_eq, List.mem_filter]
    exact ⟨fun h => ⟨h.2, fun marked => h.1 ⟨marked, h.2⟩⟩, fun h => ⟨fun h' => h.2 h'.1, h.1⟩⟩

/-! ## Firing -/

/-- Where no pair is due twice, a deadline fires unless its pair is marked, and the marks of what is
due are used up. -/
theorem release_eq {due : List Deadline} (nodup : (due.map (·.key)).Nodup)
    (cancelled : List Deadline.Key) :
    release cancelled due =
      (due.filter (·.key ∉ cancelled), cancelled.filter (· ∉ due.map (·.key))) := by
  induction due generalizing cancelled with
  | nil => simp [release]
  | cons d due ih =>
      obtain ⟨apart, nodup⟩ := List.nodup_cons.1 nodup
      unfold release
      split
      · rename_i marked
        rw [ih nodup, List.filter_cons_of_neg (by simpa using marked), List.filter_filter]
        refine Prod.ext ?_ ?_
        · refine List.filter_congr fun other mem => ?_
          have ne : other.key ≠ d.key := fun same => apart (List.mem_map.2 ⟨other, mem, same⟩)
          simp [ne]
        · refine List.filter_congr fun key _ => ?_
          simp [not_or, Bool.and_comm]
      · rename_i unmarked
        rw [ih nodup, List.filter_cons_of_pos (by simpa using unmarked)]
        refine Prod.ext rfl (List.filter_congr fun key mem => ?_)
        have ne : key ≠ d.key := by
          rintro rfl
          exact unmarked mem
        simp [ne]

/-- What polling gives, and what it leaves. -/
structure Polled (s : Deadlines) (now : Nat) (fired : List Deadline) (left : Deadlines) :
    Prop where
  sound : left.Sound
  items : left.items.toList ⊆ s.items.toList
  sorted : fired.Pairwise fun a b => a.le b = true
  fired : fired.Perm (s.live.filter (·.fireAt ≤ now))
  left : left.live.Perm (s.live.filter (now < ·.fireAt))

theorem Sound.poll (sound : s.Sound) (now : Nat) : Polled s now (s.poll now).1 (s.poll now).2 := by
  have popped := Heap.popWhile_perm Deadline.le (·.fireAt ≤ now) s.items
  have early : ∀ d ∈ (s.items.popWhile Deadline.le (·.fireAt ≤ now)).1, d.fireAt ≤ now :=
    fun d mem => by simpa using Heap.of_mem_popWhile mem
  have late : ∀ d ∈ (s.items.popWhile Deadline.le (·.fireAt ≤ now)).2.toList, now < d.fireAt :=
    fun d mem => late_of_left sound.ordered mem
  obtain ⟨sorted, -, ordered⟩ := Heap.pairwise_popWhile Deadline.le_total Deadline.le_trans
    (fun d : Deadline => decide (d.fireAt ≤ now)) sound.ordered
  unfold Deadlines.poll
  generalize s.items.popWhile Deadline.le (·.fireAt ≤ now) = split at *
  obtain ⟨due, items⟩ := split
  have keys : s.keys.Perm (due.map (·.key) ++ items.toList.map (·.key)) := by
    rw [← List.map_append]
    exact popped.map _
  obtain ⟨dueKeys, itemKeys, apart⟩ := List.nodup_append'.1 (keys.nodup_iff.1 sound.distinct)
  simp only [release_eq dueKeys]
  have live : s.live.Perm (due.filter (·.key ∉ s.cancelled) ++
      items.toList.filter (·.key ∉ s.cancelled)) := by
    rw [← List.filter_append, live_eq]
    exact popped.filter _
  refine ⟨⟨ordered, itemKeys, sound.marks.filter _, ?_⟩, ?_, sorted.filter _, ?_, ?_⟩
  · intro key mem
    obtain ⟨marked, left⟩ := List.mem_filter.1 mem
    exact (List.mem_append.1 (keys.mem_iff.1 (sound.marked marked))).resolve_left
      (of_decide_eq_true left)
  · exact fun d mem => popped.mem_iff.2 (List.mem_append_right _ mem)
  · refine ((live.filter _).trans (List.Perm.of_eq ?_)).symm
    have all : (due.filter (·.key ∉ s.cancelled)).filter (·.fireAt ≤ now) =
        due.filter (·.key ∉ s.cancelled) :=
      List.filter_eq_self.2 fun d mem => decide_eq_true (early d (List.mem_filter.1 mem).1)
    have none_ : (items.toList.filter (·.key ∉ s.cancelled)).filter (·.fireAt ≤ now) = [] :=
      List.filter_eq_nil_iff.2 fun d mem => by simpa using late d (List.mem_filter.1 mem).1
    rw [List.filter_append, all, none_, List.append_nil]
  · -- what is left keeps its marks, as no pair is set twice
    have marks : Deadlines.live
        { items, cancelled := s.cancelled.filter (· ∉ due.map (·.key)) } =
          items.toList.filter (·.key ∉ s.cancelled) := by
      rw [live_eq]
      refine List.filter_congr fun d mem => ?_
      have other : d.key ∉ due.map (·.key) :=
        fun now_ => apart now_ (List.mem_map_of_mem mem)
      rw [Bool.eq_iff_iff]
      simp only [decide_eq_true_eq, List.mem_filter]
      exact ⟨fun left marked => left ⟨marked, other⟩, fun left h => left h.1⟩
    rw [marks]
    refine ((live.filter _).trans (List.Perm.of_eq ?_)).symm
    have none_ : (due.filter (·.key ∉ s.cancelled)).filter (now < ·.fireAt) = [] :=
      List.filter_eq_nil_iff.2 fun d mem => by simpa using early d (List.mem_filter.1 mem).1
    have all : (items.toList.filter (·.key ∉ s.cancelled)).filter (now < ·.fireAt) =
        items.toList.filter (·.key ∉ s.cancelled) :=
      List.filter_eq_self.2 fun d mem => decide_eq_true (late d (List.mem_filter.1 mem).1)
    rw [List.filter_append, none_, all, List.nil_append]

end Deadlines
end BuildPipeline
