import ContextFree.Engine.Worklist
import ContextFree.Proofs.Engine.BitSet
import Mathlib.Data.List.Nodup
import Mathlib.Tactic.Tauto
import Std.Data.HashSet.Lemmas

/-!
# What the worklist holds

`Queued` says that a descriptor has been queued at some time, whether it is still pending or not.
The two ways in which a run changes a worklist are relations between the worklist before and after:
`Pushed` for queueing descriptors, each unless it was queued before, and `Taken` for taking off one
pending descriptor, whichever. Both orders take one off in this sense (`taken_of_pop?`), so what is
shown of `Taken` is shown of every order of work. Which one it is that an order takes off, the first
or the last of those pending, is told by `Order.next?` (`pending_of_pop?`).
-/

namespace ContextFree

namespace Order

variable {α : Type} {order : Order} {pending : List α} {next : α}

/-- The element of a list that leaves next. -/
def next? : Order → List α → Option α
  | .fifo, pending => pending.head?
  | .lifo, pending => pending.getLast?

/-- What is left of a list when the next element has left. -/
def rest : Order → List α → List α
  | .fifo, pending => pending.tail
  | .lifo, pending => pending.dropLast

theorem next?_eq_none_iff : order.next? pending = none ↔ pending = [] := by
  cases order with
  | fifo => exact List.head?_eq_none_iff
  | lifo => exact List.getLast?_eq_none_iff

theorem mem_of_next? (h : order.next? pending = some next) : next ∈ pending := by
  cases order with
  | fifo => exact List.mem_of_head? h
  | lifo => exact List.mem_of_getLast? h

theorem perm_of_next? (h : order.next? pending = some next) :
    (next :: order.rest pending).Perm pending := by
  cases order with
  | fifo => rw [rest, List.cons_head?_tail h]
  | lifo =>
    obtain ⟨initial, rfl⟩ := List.getLast?_eq_some_iff.mp h
    rw [rest, List.dropLast_concat]
    exact (List.perm_append_singleton next initial).symm

/-- Where no element is twice, the rest is all the others. -/
theorem rest_eq_filter [DecidableEq α] (h : order.next? pending = some next)
    (hnodup : pending.Nodup) : order.rest pending = pending.filter (· ≠ next) := by
  cases order with
  | fifo =>
    obtain ⟨others, rfl⟩ := List.head?_eq_some_iff.mp h
    have hnew := (List.nodup_cons.mp hnodup).1
    rw [List.filter_cons_of_neg (by simp), rest, List.tail_cons, eq_comm, List.filter_eq_self]
    exact fun other hother => decide_eq_true fun heq => hnew (heq ▸ hother)
  | lifo =>
    obtain ⟨others, rfl⟩ := List.getLast?_eq_some_iff.mp h
    have hnew := (List.nodup_append.mp hnodup).2.2
    rw [List.filter_append, List.filter_cons_of_neg (by simp), List.filter_nil, List.append_nil,
      rest, List.dropLast_concat, eq_comm, List.filter_eq_self]
    exact fun other hother => decide_eq_true (hnew other hother next List.mem_cons_self)

end Order

namespace Worklist

variable {worklist after : Worklist} {descriptor : Descriptor}

/-- A descriptor has been queued at some time. -/
def Queued (worklist : Worklist) : Descriptor → Prop
  | .expand node => worklist.expanded.contains node = true
  | .resume node pos slot => (node, pos, slot) ∈ worklist.resumed

/-- There is room to queue a descriptor: only the numbers of expanded calls are bounded. -/
def HasRoom (worklist : Worklist) : Descriptor → Prop
  | .expand node => node < worklist.expanded.capacity
  | .resume _ _ _ => True

theorem hasRoom_congr (h : after.expanded.capacity = worklist.expanded.capacity) :
    after.HasRoom descriptor ↔ worklist.HasRoom descriptor := by
  cases descriptor with
  | expand node => rw [HasRoom, HasRoom, h]
  | resume node pos slot => rfl

/-- What is pending has been queued, and is pending once. -/
structure Consistent (worklist : Worklist) : Prop where
  queued_of_pending : ∀ {descriptor}, descriptor ∈ worklist.pending.toList →
    worklist.Queued descriptor
  nodup_pending : worklist.pending.toList.Nodup

theorem not_queued_create (order : Order) (nonterminals length : Nat) (descriptor : Descriptor) :
    ¬ (create order nonterminals length).Queued descriptor := by
  cases descriptor with
  | expand node =>
    simp only [Queued, create, empty, BitSet.contains_roomFor, Bool.false_eq_true, not_false_eq_true]
  | resume node pos slot => exact Std.HashSet.not_mem_empty

theorem consistent_create (order : Order) (nonterminals length : Nat) :
    (create order nonterminals length).Consistent where
  queued_of_pending h := by simp [create, empty] at h
  nodup_pending := by simp [create, empty]

/-- A worklist for a stated length is that for an input of this length, if the calls that there can
be are so few that they are counted, and the count rounded up, in machine words. -/
theorem ofLength_eq_create (order : Order) {nonterminals length : UInt64}
    (h : nonterminals.toNat * (length.toNat + 1) + 63 < UInt64.size) :
    ofLength order nonterminals length = create order nonterminals.toNat length.toNat := by
  have hcount : (nonterminals * (length + 1)).toNat =
      nonterminals.toNat * (length.toNat + 1) := by
    rw [UInt64.toNat_mul, UInt64.toNat_add, Nat.mul_mod_mod]
    exact Nat.mod_eq_of_lt (Nat.lt_of_le_of_lt (Nat.le_add_right _ 63) h)
  rw [ofLength, BitSet.withCapacity_eq_roomFor (hcount ▸ h), hcount, create]

/-! ## Queueing descriptors -/

/-- `after` is the worklist once `descriptors` have been queued in it, each unless it was before. -/
structure Pushed (worklist : Worklist) (descriptors : List Descriptor) (after : Worklist) :
    Prop where
  consistent : after.Consistent
  order_eq : after.order = worklist.order
  capacity_eq : after.expanded.capacity = worklist.expanded.capacity
  processed_eq : after.processed = worklist.processed
  queued_iff : ∀ {descriptor}, after.Queued descriptor ↔
    worklist.Queued descriptor ∨ descriptor ∈ descriptors
  pending_iff : ∀ {descriptor}, descriptor ∈ after.pending.toList ↔
    descriptor ∈ worklist.pending.toList ∨ descriptor ∈ descriptors ∧ ¬ worklist.Queued descriptor

theorem Pushed.nil (h : worklist.Consistent) : worklist.Pushed [] worklist where
  consistent := h
  order_eq := rfl
  capacity_eq := rfl
  processed_eq := rfl
  queued_iff := by simp
  pending_iff := by simp

theorem Pushed.hasRoom {descriptors : List Descriptor} (h : worklist.Pushed descriptors after)
    (hroom : worklist.HasRoom descriptor) : after.HasRoom descriptor :=
  (hasRoom_congr h.capacity_eq).mpr hroom

theorem Pushed.cons {middle : Worklist} {descriptors : List Descriptor}
    (h : worklist.Pushed [descriptor] middle) (h' : middle.Pushed descriptors after) :
    worklist.Pushed (descriptor :: descriptors) after where
  consistent := h'.consistent
  order_eq := h'.order_eq.trans h.order_eq
  capacity_eq := h'.capacity_eq.trans h.capacity_eq
  processed_eq := h'.processed_eq.trans h.processed_eq
  queued_iff := by
    intro other
    rw [h'.queued_iff, h.queued_iff, List.mem_singleton, List.mem_cons, or_assoc]
  pending_iff := by
    intro other
    rw [h'.pending_iff, h.pending_iff, h.queued_iff, List.mem_singleton, List.mem_cons]
    by_cases hother : other = descriptor <;> by_cases hqueued : worklist.Queued other <;>
      simp [hother, hqueued]

/-- Nothing changes where a descriptor is refused. -/
theorem Pushed.refused (h : worklist.Consistent) (hqueued : worklist.Queued descriptor) :
    worklist.Pushed [descriptor] worklist where
  consistent := h
  order_eq := rfl
  capacity_eq := rfl
  processed_eq := rfl
  queued_iff := by
    intro other
    rw [List.mem_singleton]
    exact (or_iff_left_of_imp fun heq => heq ▸ hqueued).symm
  pending_iff := by
    intro other
    rw [List.mem_singleton]
    refine (or_iff_left_of_imp fun h => ?_).symm
    exact absurd (h.1 ▸ hqueued) h.2

/-- `after` is the worklist with one descriptor more at the back of the queue. -/
structure Queues (worklist : Worklist) (descriptor : Descriptor) (after : Worklist) : Prop where
  order_eq : after.order = worklist.order
  capacity_eq : after.expanded.capacity = worklist.expanded.capacity
  processed_eq : after.processed = worklist.processed
  pending_eq : after.pending.toList = worklist.pending.toList ++ [descriptor]
  queued_iff : ∀ other, after.Queued other ↔ worklist.Queued other ∨ other = descriptor

/-- A descriptor that was not queued before has been queued once it is at the back of the queue. -/
theorem Queues.pushed (hqueues : worklist.Queues descriptor after) (h : worklist.Consistent)
    (hnew : ¬ worklist.Queued descriptor) : worklist.Pushed [descriptor] after where
  consistent :=
    { queued_of_pending := fun {other} hpending => by
        rw [hqueues.pending_eq, List.mem_append, List.mem_singleton] at hpending
        exact (hqueues.queued_iff other).mpr (hpending.imp_left h.queued_of_pending)
      nodup_pending := by
        rw [hqueues.pending_eq]
        refine List.nodup_append.mpr ⟨h.nodup_pending, by simp, ?_⟩
        intro a ha b hb heq
        obtain rfl := heq
        rw [List.mem_singleton] at hb
        exact hnew (hb ▸ h.queued_of_pending ha) }
  order_eq := hqueues.order_eq
  capacity_eq := hqueues.capacity_eq
  processed_eq := hqueues.processed_eq
  queued_iff := by simp [hqueues.queued_iff]
  pending_iff := by
    intro other
    rw [hqueues.pending_eq, List.mem_append, List.mem_singleton]
    constructor
    · intro h'
      rcases h' with hpending | rfl
      · exact .inl hpending
      · exact .inr ⟨rfl, hnew⟩
    · exact fun h => h.imp_right And.left

/-- A descriptor that was queued before is refused, and the worklist stays as it is. -/
theorem push_of_queued (h : worklist.Queued descriptor) :
    worklist.push descriptor = .ok (false, worklist) := by
  obtain ⟨order, pending, expanded, resumed, processed⟩ := worklist
  cases descriptor with
  | expand node => simp only [push, BitSet.insert?_of_contains h, Bool.false_eq_true, if_false]
  | resume node pos slot => simp only [push, Std.HashSet.mem_iff_contains.mp h, if_true]

/-- With room for it, a descriptor that was not queued before goes to the back of the queue. -/
theorem push_of_not_queued (hnew : ¬ worklist.Queued descriptor)
    (hroom : worklist.HasRoom descriptor) :
    ∃ after, worklist.push descriptor = .ok (true, after) ∧ worklist.Queues descriptor after := by
  obtain ⟨order, pending, expanded, resumed, processed⟩ := worklist
  cases descriptor with
  | expand node =>
    obtain ⟨expanded', hinsert, hcapacity, hcontains⟩ := BitSet.insert?_of_lt hroom
    have hnode : expanded.contains node = false := eq_false_of_ne_true hnew
    refine ⟨⟨order, pending.pushBack (.expand node), expanded', resumed, processed⟩,
      ?_, rfl, hcapacity, rfl, Deque.toList_pushBack .., fun other => ?_⟩
    · simp [push, hinsert, hnode]
    · cases other with
      | expand other => simp [Queued, hcontains]
      | resume other pos slot => simp [Queued]
  | resume node pos slot =>
    have hmem : (node, pos, slot) ∉ resumed := hnew
    refine ⟨⟨order, pending.pushBack (.resume node pos slot), expanded,
      resumed.insert (node, pos, slot), processed⟩, ?_, rfl, rfl, rfl, Deque.toList_pushBack ..,
      fun other => ?_⟩
    · simp [push, hmem]
    · cases other with
      | expand other => simp [Queued]
      | resume node' pos' slot' =>
        rw [Queued, Queued, Std.HashSet.mem_insert, beq_iff_eq, Prod.mk.injEq, Prod.mk.injEq,
          Descriptor.resume.injEq, or_comm, eq_comm (a := node), eq_comm (a := pos),
          eq_comm (a := slot)]

/-- With room for it, a descriptor is queued, and it is told whether it is new. -/
theorem push_of_hasRoom (h : worklist.Consistent) (hroom : worklist.HasRoom descriptor) :
    ∃ fresh after, worklist.push descriptor = .ok (fresh, after) ∧
      (fresh = true ↔ ¬ worklist.Queued descriptor) ∧ worklist.Pushed [descriptor] after := by
  by_cases hqueued : worklist.Queued descriptor
  · exact ⟨false, worklist, push_of_queued hqueued, by simp [hqueued], .refused h hqueued⟩
  · obtain ⟨after, hpush, hqueues⟩ := push_of_not_queued hqueued hroom
    exact ⟨true, after, hpush, by simp [hqueued], hqueues.pushed h hqueued⟩

/-- With room for all of them, descriptors are queued one after the other. -/
theorem pushAll_of_hasRoom {descriptors : List Descriptor} (h : worklist.Consistent)
    (hroom : ∀ descriptor ∈ descriptors, worklist.HasRoom descriptor) :
    ∃ answers after, worklist.pushAll descriptors = .ok (answers, after) ∧
      worklist.Pushed descriptors after := by
  induction descriptors generalizing worklist with
  | nil => exact ⟨[], worklist, rfl, .nil h⟩
  | cons descriptor rest ih =>
    obtain ⟨fresh, middle, hpush, -, hmiddle⟩ :=
      push_of_hasRoom h (hroom descriptor List.mem_cons_self)
    obtain ⟨answers, after, hrest, hafter⟩ := ih hmiddle.consistent fun other hother =>
      hmiddle.hasRoom (hroom other (List.mem_cons_of_mem _ hother))
    exact ⟨(descriptor, fresh) :: answers, after, by simp only [pushAll, hpush, hrest],
      hmiddle.cons hafter⟩

/-! ## Taking a descriptor off -/

/-- `after` is the worklist once one of its pending descriptors, whichever, has been taken off. -/
structure Taken (worklist : Worklist) (descriptor : Descriptor) (after : Worklist) : Prop where
  pending_eq : ∃ front back, worklist.pending.toList = front ++ descriptor :: back ∧
    after.pending.toList = front ++ back
  order_eq : after.order = worklist.order
  expanded_eq : after.expanded = worklist.expanded
  resumed_eq : after.resumed = worklist.resumed
  processed_eq : after.processed = worklist.processed + 1

theorem Taken.queued_iff (h : worklist.Taken descriptor after) {other : Descriptor} :
    after.Queued other ↔ worklist.Queued other := by
  cases other with
  | expand node => rw [Queued, Queued, h.expanded_eq]
  | resume node pos slot => rw [Queued, Queued, h.resumed_eq]

theorem Taken.mem_pending (h : worklist.Taken descriptor after) :
    descriptor ∈ worklist.pending.toList := by
  obtain ⟨front, back, hbefore, -⟩ := h.pending_eq
  simp [hbefore]

/-- What is pending after one has been taken off is all the rest. -/
theorem Taken.pending_iff (h : worklist.Taken descriptor after) (hc : worklist.Consistent)
    {other : Descriptor} :
    other ∈ after.pending.toList ↔ other ∈ worklist.pending.toList ∧ other ≠ descriptor := by
  obtain ⟨front, back, hbefore, hafter⟩ := h.pending_eq
  have hnodup := hc.nodup_pending
  rw [hbefore, List.nodup_middle, List.nodup_cons] at hnodup
  rw [hbefore, hafter]
  constructor
  · intro hother
    refine ⟨by simp only [List.mem_append, List.mem_cons] at hother ⊢; tauto, ?_⟩
    intro heq
    obtain rfl := heq
    exact hnodup.1 hother
  · intro h
    obtain ⟨hother, hne⟩ := h
    simp only [List.mem_append, List.mem_cons] at hother ⊢
    tauto

theorem Taken.consistent (h : worklist.Taken descriptor after) (hc : worklist.Consistent) :
    after.Consistent where
  queued_of_pending hother :=
    h.queued_iff.mpr (hc.queued_of_pending ((h.pending_iff hc).mp hother).1)
  nodup_pending := by
    obtain ⟨front, back, hbefore, hafter⟩ := h.pending_eq
    have hnodup := hc.nodup_pending
    rw [hbefore, List.nodup_middle, List.nodup_cons] at hnodup
    rw [hafter]
    exact hnodup.2

/-- Either order takes a pending descriptor off. -/
theorem taken_of_pop? (h : worklist.pop? = some (descriptor, after)) :
    worklist.Taken descriptor after := by
  obtain ⟨order, pending, expanded, resumed, processed⟩ := worklist
  cases order with
  | fifo =>
    simp only [pop?, Option.map_eq_some_iff] at h
    obtain ⟨⟨first, rest⟩, hpop, heq⟩ := h
    cases heq
    exact ⟨⟨[], rest.toList, Deque.toList_of_popFront? hpop, rfl⟩, rfl, rfl, rfl, rfl⟩
  | lifo =>
    simp only [pop?, Option.map_eq_some_iff] at h
    obtain ⟨⟨last, rest⟩, hpop, heq⟩ := h
    cases heq
    exact ⟨⟨rest.toList, [], Deque.toList_of_popBack? hpop, by simp⟩, rfl, rfl, rfl, rfl⟩

/-- The one that is taken off is the first or the last of those pending. -/
theorem pending_of_pop? (h : worklist.pop? = some (descriptor, after)) :
    worklist.order.next? worklist.pending.toList = some descriptor ∧
      after.pending.toList = worklist.order.rest worklist.pending.toList := by
  obtain ⟨order, pending, expanded, resumed, processed⟩ := worklist
  cases order with
  | fifo =>
    simp only [pop?, Option.map_eq_some_iff] at h
    obtain ⟨⟨first, rest⟩, hpop, heq⟩ := h
    cases heq
    simp only [Deque.toList_of_popFront? hpop, Order.next?, Order.rest, List.head?_cons,
      List.tail_cons, and_self]
  | lifo =>
    simp only [pop?, Option.map_eq_some_iff] at h
    obtain ⟨⟨last, rest⟩, hpop, heq⟩ := h
    cases heq
    simp only [Deque.toList_of_popBack? hpop, Order.next?, Order.rest, List.getLast?_concat,
      List.dropLast_concat, and_self]

/-- Nothing is taken off only when nothing is pending. -/
theorem pop?_eq_none_iff : worklist.pop? = none ↔ worklist.pending.toList = [] := by
  obtain ⟨order, pending, expanded, resumed, processed⟩ := worklist
  cases order with
  | fifo =>
    have hfront := Deque.popFront?_map_toList pending
    simp only [pop?, Option.map_eq_none_iff]
    rw [← Option.map_eq_none_iff, hfront, ite_eq_left_iff]
    simp
  | lifo =>
    have hback := Deque.popBack?_map_toList pending
    simp only [pop?, Option.map_eq_none_iff]
    rw [← Option.map_eq_none_iff, hback, ite_eq_left_iff]
    simp

end Worklist

end ContextFree
