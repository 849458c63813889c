import BuildPipeline.Proofs.Flow.Addressed
import BuildPipeline.Provider.Registry
import Mathlib.Data.List.Nodup

/-!
How the registry ranks its providers and under which addresses they are reached. The providers that
serve a capability stand in one line, from the least order to the greatest and, where the orders are
equal, in the order of registration (`Lined`). The addresses of the chain number this line, so no
two mailboxes share an address and each leads to the provider at its place, and a flow over these
chains never sends a command to a mailbox that is not there (`Registry.addressed`).
-/

namespace BuildPipeline

namespace Keyed

variable {κ α : Type} [DecidableEq κ]

/-- Where the keys are all different, a pair of the list is what its key leads to. -/
theorem get?_of_mem {key : κ} {value : α} {entries : List (κ × α)}
    (distinct : (entries.map (·.1)).Nodup) (mem : (key, value) ∈ entries) :
    get? key entries = some value := by
  induction entries with
  | nil => cases mem
  | cons entry rest ih =>
      rw [List.map_cons, List.nodup_cons] at distinct
      rcases List.mem_cons.1 mem with rfl | behind
      · simp [get?]
      · have other : entry.1 ≠ key := by
          intro same
          subst same
          exact distinct.1 (List.mem_map.2 ⟨_, behind, rfl⟩)
        simp [get?, other, ih distinct.2 behind]

end Keyed

namespace Chains

theorem capability_of_mem_addresses {capability : Capability} {orders : List Int} {a : Address}
    (mem : a ∈ addresses capability orders) : a.capability = capability := by
  obtain ⟨n, lt, rfl⟩ := List.mem_mapIdx.1 mem
  rfl

/-- The addresses of one chain differ by their ranks. -/
theorem nodup_addresses (capability : Capability) (orders : List Int) :
    (addresses capability orders).Nodup := by
  rw [List.nodup_iff_getElem?_ne_getElem?]
  intro i j before inside same
  have lt : j < orders.length := by simpa [addresses] using inside
  simp only [addresses, List.getElem?_mapIdx, List.getElem?_eq_getElem lt,
    List.getElem?_eq_getElem (Nat.lt_trans before lt), Option.map_some, Option.some.injEq,
    Address.mk.injEq] at same
  exact absurd same.2.2 (Nat.ne_of_lt before)

end Chains

namespace Registry

variable (r : Registry) (capability : Capability)

/-- The providers that serve a capability in the order of registration, each with its place. -/
def registered : List (Provider × Nat) :=
  r.providers.zipIdx.filter (·.1.serves capability)

/-- The orders of the providers that serve a capability, in the order of registration. -/
def orders : List Int :=
  (r.providers.filter (·.serves capability)).map (·.order)

/-- A provider stands before another one: by its order, or by its place where the orders are
equal. -/
def Before (a b : Provider × Nat) : Prop :=
  a.1.order < b.1.order ∨ a.1.order = b.1.order ∧ a.2 < b.2

/-! ## The line of a capability -/

theorem serving_eq :
    r.serving capability = (r.registered capability).mergeSort (·.1.order ≤ ·.1.order) :=
  rfl

theorem serving_perm : (r.serving capability).Perm (r.registered capability) :=
  List.mergeSort_perm _ _

/-- Places are given in the order of registration. -/
theorem pairwise_registered : (r.registered capability).Pairwise (·.2 < ·.2) := by
  have placed : r.providers.zipIdx.Pairwise (·.2 < ·.2) := by
    rw [← List.pairwise_map (f := Prod.snd) (R := (· < ·)), List.zipIdx_map_snd]
    exact List.pairwise_lt_range'
  exact placed.filter _

theorem pairwise_order_serving :
    (r.serving capability).Pairwise (·.1.order ≤ ·.1.order) := by
  have sorted : (r.serving capability).Pairwise
      fun a b => decide (a.1.order ≤ b.1.order) = true :=
    List.pairwise_mergeSort (fun _ _ _ => by simpa using Int.le_trans)
      (fun _ _ => by simpa using Int.le_total _ _) _
  simpa using sorted

/-- The sort is stable: the providers of one order stand as they were registered. -/
theorem filter_order_serving (order : Int) :
    (r.serving capability).filter (·.1.order = order) =
      (r.registered capability).filter (·.1.order = order) := by
  have level : ((r.registered capability).filter (·.1.order = order)).Pairwise
      fun a b => decide (a.1.order ≤ b.1.order) = true :=
    List.pairwise_of_forall_mem_list fun a ha b hb => by
      have ha : a.1.order = order := by simpa using (List.mem_filter.1 ha).2
      have hb : b.1.order = order := by simpa using (List.mem_filter.1 hb).2
      simp [ha, hb]
  have kept := List.sublist_mergeSort
    (fun _ _ _ => by simpa using Int.le_trans) (fun _ _ => by simpa using Int.le_total _ _)
    level List.filter_sublist
  have within := kept.filter (·.1.order = order)
  rw [List.filter_filter, ← serving_eq] at within
  simp only [Bool.and_self] at within
  exact (within.eq_of_length ((r.serving_perm capability).filter _).length_eq.symm).symm

theorem pairwise_serving : (r.serving capability).Pairwise Before := by
  rw [List.pairwise_iff_forall_sublist]
  intro a b stands
  have le : a.1.order ≤ b.1.order := by
    simpa using (r.pairwise_order_serving capability).sublist stands
  rcases Int.lt_or_eq_of_le le with lt | same
  · exact .inl lt
  · refine .inr ⟨same, ?_⟩
    have level : [a, b].Sublist ((r.registered capability).filter (·.1.order = b.1.order)) := by
      rw [← filter_order_serving]
      simpa [same] using stands.filter (·.1.order = b.1.order)
    simpa using ((r.pairwise_registered capability).filter _).sublist level

/-- Sorted by itself, a row of orders is the one that the line of the providers shows. -/
theorem map_order_serving :
    (r.serving capability).map (·.1.order) = Chains.sorted (r.orders capability) := by
  have registered : (r.registered capability).map (·.1.order) = r.orders capability := by
    have split : ∀ x : Provider × Nat, x.1.serves capability =
        ((fun p : Provider => p.serves capability) ∘ Prod.fst) x := fun _ => rfl
    have named : (r.registered capability).map Prod.fst =
        r.providers.filter (·.serves capability) := by
      simp only [Registry.registered, split]
      rw [← List.filter_map, List.zipIdx_map_fst]
    simp only [orders, ← named, List.map_map]
    rfl
  rw [serving_eq, Chains.sorted, ← registered]
  exact List.map_mergeSort fun _ _ _ _ => rfl

theorem chain_eq :
    r.chain capability = Chains.addresses capability (Chains.sorted (r.orders capability)) := by
  rw [chain, map_order_serving]

theorem length_chain : (r.chain capability).length = (r.serving capability).length := by
  simp [chain, Chains.addresses]

theorem chains_eq :
    r.chains = Chains.ofOrders (r.orders .setup) (r.orders .runPhase) (r.orders .tearDown) := by
  simp only [chains, chain_eq, Chains.ofOrders]

theorem chain_chains : r.chains.chain capability = r.chain capability := by
  cases capability <;> rfl

/-! ## The mailboxes -/

theorem map_slots :
    r.slots.map (·.1) = r.chain .setup ++ r.chain .runPhase ++ r.chain .tearDown := by
  have keys : ∀ k, ((r.chain k).zip (r.serving k)).map (·.1) = r.chain k :=
    fun k => List.map_fst_zip (Nat.le_of_eq (r.length_chain k))
  simp [slots, Capability.all, keys]

/-- The chains share no address, for an address names its capability. -/
theorem nodup_slots : (r.slots.map (·.1)).Nodup := by
  have own : ∀ {k a}, a ∈ r.chain k → a.capability = k := Chains.capability_of_mem_addresses
  have apart : ∀ {k l}, k ≠ l → (r.chain k).Disjoint (r.chain l) :=
    fun ne _ first second => ne ((own first).symm.trans (own second))
  rw [map_slots, List.nodup_append', List.nodup_append', List.disjoint_append_left]
  refine ⟨⟨Chains.nodup_addresses _ _, Chains.nodup_addresses _ _, apart (by decide)⟩,
    Chains.nodup_addresses _ _, apart (by decide), apart (by decide)⟩

theorem mem_slots {a : Address} : a ∈ r.slots.map (·.1) ↔ ∃ k, a ∈ r.chain k := by
  rw [map_slots]
  constructor
  · intro mem
    rcases List.mem_append.1 mem with early | late
    · exact (List.mem_append.1 early).elim (⟨_, ·⟩) (⟨_, ·⟩)
    · exact ⟨_, late⟩
  · rintro ⟨k, mem⟩
    cases k <;> simp [mem]

variable {r capability}

theorem getElem?_chain {n : Nat} {x : Provider × Nat}
    (at_ : (r.serving capability)[n]? = some x) :
    (r.chain capability)[n]? = some ⟨capability, x.1.order, n⟩ := by
  simp [chain, Chains.addresses, at_]

/-- The address of a rank leads to the provider at this place of the line. -/
theorem slot?_of_serving {n : Nat} {x : Provider × Nat}
    (at_ : (r.serving capability)[n]? = some x) :
    r.slot? ⟨capability, x.1.order, n⟩ = some x := by
  refine Keyed.get?_of_mem r.nodup_slots (List.mem_flatMap.2 ⟨capability, ?_, ?_⟩)
  · cases capability <;> simp [Capability.all]
  · exact List.mem_of_getElem? (List.getElem?_zip_eq_some.2 ⟨getElem?_chain at_, at_⟩)

/-- `ranks` has the providers that serve a capability, each with its place of registration, as the
chain ranks them. -/
structure Lined (r : Registry) (capability : Capability) (ranks : List (Provider × Nat)) :
    Prop where
  all : ranks.Perm (r.registered capability)
  sorted : ranks.Pairwise Before
  ranked : r.chains.chain capability =
    ranks.mapIdx fun rank x => { capability, order := x.1.order, rank }
  reached : ∀ (n : Nat) (a : Address), (r.chains.chain capability)[n]? = some a →
    r.slot? a = ranks[n]? ∧ r.provider? a = ranks[n]?.map (·.1)

theorem lined (r : Registry) (capability : Capability) :
    Lined r capability (r.serving capability) := by
  have ranked : r.chain capability =
      (r.serving capability).mapIdx fun rank x => { capability, order := x.1.order, rank } := by
    simp [chain, Chains.addresses, List.mapIdx_eq_zipIdx_map, List.zipIdx_map]
  refine ⟨r.serving_perm capability, r.pairwise_serving capability,
    (r.chain_chains capability).trans ranked, ?_⟩
  intro n a there
  rw [chain_chains, ranked, List.getElem?_mapIdx, Option.map_eq_some_iff] at there
  obtain ⟨x, at_, rfl⟩ := there
  have slot := slot?_of_serving at_
  rw [at_]
  exact ⟨slot, congrArg (Option.map Prod.fst) slot⟩

/-- The chains and the mailboxes of a registry. -/
structure Addressed (r : Registry) : Prop where
  lined : ∀ capability, ∃ ranks, Lined r capability ranks
  chains : r.chains = Chains.ofOrders (r.orders .setup) (r.orders .runPhase) (r.orders .tearDown)
  distinct : (r.slots.map (·.1)).Nodup
  slots : ∀ a, a ∈ r.slots.map (·.1) ↔ ∃ capability, a ∈ r.chains.chain capability
  /-- A command of a flow finds its mailbox, whichever mailboxes are closed by then. -/
  delivers : ∀ (f : Flow) (call : Call), f.chains = r.chains →
    (f.call call).1.chains = r.chains ∧
      ∀ x ∈ sends (f.call call).2, ∀ closed,
        { r.mailboxes with closed }.refusal? x.1 =
          if x.1 ∈ closed then some (.closed x.1) else none

/-- The registry gives every provider one place in the chain of each capability that it serves, and
a mailbox at it. -/
theorem addressed (r : Registry) : r.Addressed := by
  refine ⟨fun k => ⟨r.serving k, lined r k⟩, r.chains_eq, r.nodup_slots, ?_, ?_⟩
  · intro a
    simp only [r.mem_slots, chain_chains]
  · intro f call same
    refine ⟨(Course.chains_call f call).trans same, ?_⟩
    intro x sent closed
    have served := Flow.serves_call f call x sent
    rw [same, chain_chains] at served
    have there : x.1 ∈ r.slots.map (·.1) := r.mem_slots.2 ⟨_, served⟩
    simp [Mailboxes.refusal?, mailboxes, there]

/-- Of two providers of one order the one that was registered first stands first. -/
example :
    let provider (name : String) (capabilities : List Capability) (order : Int) : Provider :=
      { name, capabilities, order }
    let r : Registry := ⟨[provider "late" [.setup, .setup] 5, provider "idle" [] 0,
      provider "last" [.tearDown, .setup] 5, provider "early" [.setup] (-1)]⟩
    (r.serving .setup).map (·.1.name) = ["early", "late", "last"] := by
  cbv

end Registry
end BuildPipeline
