import ContextFree.Proofs.Engine.Worklist
import ContextFree.Proofs.History.Basic
import ContextFree.Proofs.Places

/-!
# What a worklist has been used for

A worklist is used by pushing descriptors and by popping the next one. Its history tells which are
waiting: those that were pushed, each where it was pushed first, without those that were popped
(`waiting`). The worklist keeps to a law that speaks of nothing else: a pushed descriptor is fresh if
it was not pushed before, and the one that is popped is the first or the last that is waiting
(`Lawful`). That no descriptor is lost and none leaves twice follows from the law alone.
-/

namespace ContextFree

namespace Worklist

/-- What a worklist is used for. -/
inductive Request where
  | push (descriptor : Descriptor)
  | pop

/-- What comes of a request. -/
inductive Event where
  /-- A descriptor was pushed, and it was told whether it is fresh. -/
  | pushed (descriptor : Descriptor) (fresh : Bool)
  /-- A descriptor was popped, or there was none. -/
  | popped (left : Option Descriptor)

/-- The request that an event comes of. -/
def Event.request : Event → Request
  | .pushed descriptor _ => .push descriptor
  | .popped _ => .pop

/-- What comes of a request to a worklist, and the worklist after it. -/
def answer (worklist : Worklist) : Request → Except Fault (Event × Worklist)
  | .push descriptor =>
    (worklist.push descriptor).map fun (fresh, after) => (.pushed descriptor fresh, after)
  | .pop =>
    match worklist.pop? with
    | none => .ok (.popped none, worklist)
    | some (descriptor, after) => .ok (.popped (some descriptor), after)

/-- The descriptor that was pushed, if one was. -/
def Event.pushed? : Event → Option Descriptor
  | .pushed descriptor _ => some descriptor
  | .popped _ => none

/-- The descriptor that was popped, if one was. -/
def Event.popped? : Event → Option Descriptor
  | .pushed _ _ => none
  | .popped left => left

/-- The descriptors that were pushed, in the order of the pushes. -/
def pushedIn (history : List Event) : List Descriptor :=
  history.filterMap Event.pushed?

/-- The descriptors that were popped, in the order of the pops. -/
def poppedIn (history : List Event) : List Descriptor :=
  history.filterMap Event.popped?

/-- The descriptors that were pushed and not popped, in the order of their first pushes. -/
def waiting (history : List Event) : List Descriptor :=
  (pushedIn history).eraseDups.filter (· ∉ poppedIn history)

variable {order : Order} {history : List Event} {descriptor : Descriptor} {fresh : Bool}
  {left : Option Descriptor}

@[simp]
theorem pushedIn_pushed : pushedIn (history ++ [.pushed descriptor fresh]) =
    pushedIn history ++ [descriptor] :=
  List.filterMap_append

@[simp]
theorem pushedIn_popped : pushedIn (history ++ [.popped left]) = pushedIn history := by
  simp [pushedIn, Event.pushed?]

@[simp]
theorem poppedIn_pushed :
    poppedIn (history ++ [.pushed descriptor fresh]) = poppedIn history := by
  simp [poppedIn, Event.popped?]

@[simp]
theorem poppedIn_popped :
    poppedIn (history ++ [.popped left]) = poppedIn history ++ left.toList := by
  cases left <;> simp [poppedIn, Event.popped?]

theorem mem_waiting_iff :
    descriptor ∈ waiting history ↔ descriptor ∈ pushedIn history ∧ descriptor ∉ poppedIn history := by
  simp [waiting]

theorem nodup_waiting (history : List Event) : (waiting history).Nodup :=
  (nodup_eraseDups _).filter _

/-! ## The law -/

/-- What comes of a request, given what came of those before it. -/
def law (order : Order) (before : List Event) : Event → Prop
  | .pushed descriptor fresh => (fresh = true ↔ descriptor ∉ pushedIn before)
  | .popped left => left = order.next? (waiting before)

/-- A history as it is to be. -/
def Lawful (order : Order) : List Event → Prop :=
  History.Follows (law order)

theorem lawful_concat_iff {event : Event} :
    Lawful order (history ++ [event]) ↔ Lawful order history ∧ law order history event :=
  History.follows_concat_iff

/-- A descriptor is popped only after a push of it. -/
theorem Lawful.mem_pushedIn (h : Lawful order history) (hpopped : descriptor ∈ poppedIn history) :
    descriptor ∈ pushedIn history := by
  induction history using List.reverseRecOn with
  | nil => exact hpopped
  | append_singleton history event ih =>
    obtain ⟨hlawful, hlaw⟩ := lawful_concat_iff.mp h
    cases event with
    | pushed other fresh =>
      rw [poppedIn_pushed] at hpopped
      rw [pushedIn_pushed]
      exact List.mem_append_left _ (ih hlawful hpopped)
    | popped left =>
      rw [poppedIn_popped, List.mem_append, Option.mem_toList] at hpopped
      rw [pushedIn_popped]
      rcases hpopped with hbefore | hleft
      · exact ih hlawful hbefore
      · subst hleft
        exact (mem_waiting_iff.mp (Order.mem_of_next? (Eq.symm hlaw))).1

/-- A pushed descriptor waits behind the others if it is fresh. -/
theorem Lawful.waiting_pushed (h : Lawful order history) :
    waiting (history ++ [.pushed descriptor fresh]) =
      if descriptor ∈ pushedIn history then waiting history
      else waiting history ++ [descriptor] := by
  rw [waiting, pushedIn_pushed, poppedIn_pushed, eraseDups_concat]
  split
  · rfl
  · next hpushed =>
    -- A descriptor that has left is not taken for fresh: it was pushed before it left.
    have hpopped : descriptor ∉ poppedIn history := fun hpopped => hpushed (h.mem_pushedIn hpopped)
    rw [List.filter_append, List.filter_cons_of_pos (by simpa using hpopped), List.filter_nil,
      waiting]

@[simp]
theorem waiting_popped_none : waiting (history ++ [.popped none]) = waiting history := by
  rw [waiting, pushedIn_popped, poppedIn_popped, Option.toList_none, List.append_nil, waiting]

/-- The descriptor that is next waits no more when it has been popped, and all others do. -/
theorem waiting_popped_next (h : order.next? (waiting history) = some descriptor) :
    waiting (history ++ [.popped (some descriptor)]) = order.rest (waiting history) := by
  rw [Order.rest_eq_filter h (nodup_waiting history), waiting, pushedIn_popped, poppedIn_popped,
    waiting, List.filter_filter]
  refine List.filter_congr fun other _ => ?_
  simp [not_or, and_comm]

/-- No descriptor is lost, and none is there twice: what was pushed was popped or is waiting. -/
theorem Lawful.perm (h : Lawful order history) :
    (poppedIn history ++ waiting history).Perm (pushedIn history).eraseDups := by
  induction history using List.reverseRecOn with
  | nil => exact .nil
  | append_singleton history event ih =>
    obtain ⟨hlawful, hlaw⟩ := lawful_concat_iff.mp h
    cases event with
    | pushed descriptor fresh =>
      rw [pushedIn_pushed, poppedIn_pushed, eraseDups_concat, hlawful.waiting_pushed]
      split
      · exact ih hlawful
      · rw [← List.append_assoc]
        exact (ih hlawful).append_right _
    | popped left =>
      rw [pushedIn_popped, poppedIn_popped]
      cases left with
      | none => simpa using ih hlawful
      | some descriptor =>
        have hnext : order.next? (waiting history) = some descriptor := Eq.symm hlaw
        rw [waiting_popped_next hnext, List.append_assoc]
        exact ((Order.perm_of_next? hnext).append_left _).trans (ih hlawful)

theorem Lawful.nodup_poppedIn (h : Lawful order history) : (poppedIn history).Nodup :=
  (List.nodup_append.mp (h.perm.nodup_iff.mpr (nodup_eraseDups _))).1

/-- In the order of the queue, descriptors are popped as they were pushed first. -/
theorem Lawful.append_eq (h : Lawful .fifo history) :
    poppedIn history ++ waiting history = (pushedIn history).eraseDups := by
  induction history using List.reverseRecOn with
  | nil => rfl
  | append_singleton history event ih =>
    obtain ⟨hlawful, hlaw⟩ := lawful_concat_iff.mp h
    cases event with
    | pushed descriptor fresh =>
      rw [pushedIn_pushed, poppedIn_pushed, eraseDups_concat, hlawful.waiting_pushed]
      split
      · exact ih hlawful
      · rw [← List.append_assoc, ih hlawful]
    | popped left =>
      rw [pushedIn_popped, poppedIn_popped]
      cases left with
      | none => simpa using ih hlawful
      | some descriptor =>
        have hnext : Order.fifo.next? (waiting history) = some descriptor := Eq.symm hlaw
        rw [waiting_popped_next hnext, List.append_assoc, Option.toList_some, List.singleton_append,
          Order.rest, List.cons_head?_tail hnext]
        exact ih hlawful

/-! ## What the worklist holds -/

/-- A worklist holds what its history says. -/
structure Holds (order : Order) (capacity : Nat) (history : List Event) (worklist : Worklist) :
    Prop where
  lawful : Lawful order history
  order_eq : worklist.order = order
  capacity_eq : worklist.expanded.capacity = capacity
  queued_iff : ∀ descriptor, worklist.Queued descriptor ↔ descriptor ∈ pushedIn history
  pending_eq : worklist.pending.toList = waiting history
  processed_eq : worklist.processed = (poppedIn history).length

variable {capacity : Nat} {worklist : Worklist}

theorem holds_create (order : Order) (nonterminals length : Nat) :
    Holds order (create order nonterminals length).expanded.capacity []
      (create order nonterminals length) where
  lawful := History.follows_nil
  order_eq := rfl
  capacity_eq := rfl
  queued_iff descriptor := by simp [not_queued_create, pushedIn]
  pending_eq := rfl
  processed_eq := rfl

theorem Holds.push (h : Holds order capacity history worklist)
    (hroom : worklist.HasRoom descriptor) :
    ∃ fresh after, worklist.push descriptor = .ok (fresh, after) ∧
      Holds order capacity (history ++ [.pushed descriptor fresh]) after := by
  by_cases hpushed : descriptor ∈ pushedIn history
  · have hlaw : law order history (.pushed descriptor false) := by simp [law, hpushed]
    refine ⟨false, worklist, push_of_queued ((h.queued_iff _).mpr hpushed),
      lawful_concat_iff.mpr ⟨h.lawful, hlaw⟩, h.order_eq, h.capacity_eq, fun other => ?_, ?_, ?_⟩
    · rw [h.queued_iff, pushedIn_pushed, List.mem_append, List.mem_singleton]
      exact (or_iff_left_of_imp fun heq => heq ▸ hpushed).symm
    · rw [h.pending_eq, h.lawful.waiting_pushed, if_pos hpushed]
    · rw [h.processed_eq, poppedIn_pushed]
  · have hlaw : law order history (.pushed descriptor true) := by simp [law, hpushed]
    obtain ⟨after, hpush, hqueues⟩ :=
      push_of_not_queued (fun hqueued => hpushed ((h.queued_iff _).mp hqueued)) hroom
    refine ⟨true, after, hpush, lawful_concat_iff.mpr ⟨h.lawful, hlaw⟩,
      hqueues.order_eq.trans h.order_eq, hqueues.capacity_eq.trans h.capacity_eq,
      fun other => ?_, ?_, ?_⟩
    · rw [hqueues.queued_iff, h.queued_iff, pushedIn_pushed, List.mem_append, List.mem_singleton]
    · rw [hqueues.pending_eq, h.pending_eq, h.lawful.waiting_pushed, if_neg hpushed]
    · rw [hqueues.processed_eq, h.processed_eq, poppedIn_pushed]

theorem Holds.popped_none (h : Holds order capacity history worklist)
    (hpop : worklist.pop? = none) :
    Holds order capacity (history ++ [.popped none]) worklist where
  lawful := by
    refine lawful_concat_iff.mpr ⟨h.lawful, Eq.symm (Order.next?_eq_none_iff.mpr ?_)⟩
    rw [← h.pending_eq]
    exact pop?_eq_none_iff.mp hpop
  order_eq := h.order_eq
  capacity_eq := h.capacity_eq
  queued_iff := by simpa using h.queued_iff
  pending_eq := by simpa using h.pending_eq
  processed_eq := by simpa using h.processed_eq

theorem Holds.popped_some {after : Worklist} (h : Holds order capacity history worklist)
    (hpop : worklist.pop? = some (descriptor, after)) :
    Holds order capacity (history ++ [.popped (some descriptor)]) after := by
  obtain ⟨hnext, hrest⟩ := pending_of_pop? hpop
  rw [h.order_eq, h.pending_eq] at hnext hrest
  have htaken := taken_of_pop? hpop
  exact
    { lawful := lawful_concat_iff.mpr ⟨h.lawful, Eq.symm hnext⟩
      order_eq := htaken.order_eq.trans h.order_eq
      capacity_eq := by rw [htaken.expanded_eq, h.capacity_eq]
      queued_iff := fun other => by rw [htaken.queued_iff, h.queued_iff, pushedIn_popped]
      pending_eq := by rw [hrest, waiting_popped_next hnext]
      processed_eq := by rw [htaken.processed_eq, h.processed_eq]; simp }

/-- Every request to a worklist with room is answered as the law has it. -/
theorem Holds.answer (h : Holds order capacity history worklist) {request : Request}
    (hroom : ∀ descriptor, request = .push descriptor → worklist.HasRoom descriptor) :
    ∃ event after, worklist.answer request = .ok (event, after) ∧ event.request = request ∧
      Holds order capacity (history ++ [event]) after := by
  cases request with
  | push descriptor =>
    obtain ⟨fresh, after, hpush, hholds⟩ := h.push (hroom descriptor rfl)
    refine ⟨.pushed descriptor fresh, after, ?_, rfl, hholds⟩
    rw [Worklist.answer, hpush]
    rfl
  | pop =>
    cases hpop : worklist.pop? with
    | none =>
      exact ⟨.popped none, worklist, by simp only [Worklist.answer, hpop], rfl, h.popped_none hpop⟩
    | some popped =>
      obtain ⟨descriptor, after⟩ := popped
      exact ⟨.popped (some descriptor), after, by simp only [Worklist.answer, hpop], rfl,
        h.popped_some hpop⟩

/-! ## No descriptor is lost or run twice -/

/-- What the history of a worklist tells, and what the worklist tells after it. -/
structure Accounted (order : Order) (history : List Event) (worklist : Worklist) : Prop where
  /-- A push is of a fresh descriptor just if there was none of it before. -/
  fresh_iff : ∀ before descriptor fresh after,
    history = before ++ .pushed descriptor fresh :: after →
    (fresh = true ↔ descriptor ∉ pushedIn before)
  /-- No descriptor is popped twice. -/
  nodup_poppedIn : (poppedIn history).Nodup
  /-- A descriptor is popped only after a push of it. -/
  pushed_of_popped : ∀ before descriptor after,
    history = before ++ .popped (some descriptor) :: after → descriptor ∈ pushedIn before
  /-- The descriptors pushed, each counted once, are processed or pending. -/
  processed_add_pendingCount :
    worklist.processed + worklist.pendingCount = (pushedIn history).eraseDups.length
  /-- First in, first out: descriptors are popped in the order of their first pushes. -/
  popped_oldest : order = .fifo → poppedIn history <+: (pushedIn history).eraseDups
  /-- Last in, first out: the one popped is, of those not popped before, the one first pushed last. -/
  popped_newest : order = .lifo → ∀ before descriptor after,
    history = before ++ .popped (some descriptor) :: after →
    (waiting before).getLast? = some descriptor
  /-- When there is none to pop, all that were pushed have been popped. -/
  popped_all : ∀ before after, history = before ++ .popped none :: after →
    ∀ descriptor ∈ pushedIn before, descriptor ∈ poppedIn before

theorem Holds.accounted (h : Holds order capacity history worklist) :
    Accounted order history worklist where
  fresh_iff before descriptor fresh after heq := h.lawful before _ after heq
  nodup_poppedIn := h.lawful.nodup_poppedIn
  pushed_of_popped before descriptor after heq :=
    (mem_waiting_iff.mp (Order.mem_of_next? (Eq.symm (h.lawful before _ after heq)))).1
  processed_add_pendingCount := by
    rw [h.processed_eq, pendingCount, Deque.size_eq_length_toList, h.pending_eq,
      ← List.length_append, h.lawful.perm.length_eq]
  popped_oldest horder := by
    subst horder
    exact ⟨waiting history, h.lawful.append_eq⟩
  popped_newest horder before descriptor after heq := by
    subst horder
    exact Eq.symm (h.lawful before _ after heq)
  popped_all before after heq descriptor hpushed := by
    have hnext : none = order.next? (waiting before) := h.lawful before _ after heq
    have hnil := Order.next?_eq_none_iff.mp hnext.symm
    by_contra hpopped
    have hwaiting := mem_waiting_iff.mpr ⟨hpushed, hpopped⟩
    rw [hnil] at hwaiting
    cases hwaiting

/-- However a fresh worklist is pushed to and popped from, in either order and with calls to expand
within its capacity, no descriptor is lost, and none leaves twice. -/
theorem accounted_of_hasRoom (order : Order) (nonterminals length : Nat) (requests : List Request)
    (hroom : ∀ descriptor, .push descriptor ∈ requests →
      (create order nonterminals length).HasRoom descriptor) :
    ∃ history worklist,
      History.perform answer (create order nonterminals length) requests =
        .ok (history, worklist) ∧
      history.map Event.request = requests ∧ Accounted order history worklist := by
  have hadmits : History.Follows (fun _ request => ∀ descriptor, request = .push descriptor →
      (create order nonterminals length).HasRoom descriptor) requests := by
    rintro before request after rfl descriptor rfl
    exact hroom descriptor (by simp)
  obtain ⟨history, worklist, hperform, hrequests, hholds⟩ :=
    History.exists_perform (holds_create order nonterminals length)
      (fun history middle request hholds hrequest => hholds.answer fun descriptor heq =>
        (hasRoom_congr hholds.capacity_eq).mpr (hrequest descriptor heq)) hadmits
  exact ⟨history, worklist, hperform, hrequests, hholds.accounted⟩

/-- Two descriptors, each pushed once more: one while it is pending, the other when it has left. -/
def comeAgain : List Request :=
  [.push (.expand 0), .push (.expand 0), .push (.resume 0 2 1), .pop, .push (.resume 0 2 1), .pop,
    .pop]

theorem comeAgain_accounted :
    (∀ descriptor, .push descriptor ∈ comeAgain → (create .lifo 1 0).HasRoom descriptor) ∧
    ∃ history worklist,
      History.perform answer (create .lifo 1 0) comeAgain = .ok (history, worklist) ∧
      history.map Event.request = comeAgain ∧ Accounted .lifo history worklist := by
  have hroom : ∀ descriptor, .push descriptor ∈ comeAgain →
      (create .lifo 1 0).HasRoom descriptor := by
    intro descriptor hpush
    have hcases : descriptor = .expand 0 ∨ descriptor = .resume 0 2 1 := by
      simpa [comeAgain] using hpush
    rcases hcases with rfl | rfl
    · show 0 < 64
      decide
    · trivial
  exact ⟨hroom, accounted_of_hasRoom .lifo 1 0 comeAgain hroom⟩

end Worklist

end ContextFree
