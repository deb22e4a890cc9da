/-!
# Queues open at both ends

New elements go to the back; elements leave at the front or at the back. The queue is kept as its
front and its reversed back, so each end is at hand, and the ends are turned over only when the
one asked for is empty. `toList` is the queue from front to back.
-/

namespace ContextFree

/-- A queue open at both ends. -/
structure Deque (α : Type) where
  front : List α
  /-- The last element first. -/
  back : List α

namespace Deque

variable {α : Type}

/-- The queue without elements. -/
def empty : Deque α :=
  ⟨[], []⟩

/-- The elements from front to back. -/
def toList (queue : Deque α) : List α :=
  queue.front ++ queue.back.reverse

/-- How many elements there are. -/
def size (queue : Deque α) : Nat :=
  queue.front.length + queue.back.length

/-- Whether there are no elements. -/
def isEmpty (queue : Deque α) : Bool :=
  queue.front.isEmpty && queue.back.isEmpty

/-- One element more, at the back. -/
def pushBack (queue : Deque α) (x : α) : Deque α :=
  ⟨queue.front, x :: queue.back⟩

/-- The element at the front and the queue without it. -/
def popFront? (queue : Deque α) : Option (α × Deque α) :=
  match queue.front with
  | x :: front => some (x, ⟨front, queue.back⟩)
  | [] =>
    match queue.back.reverse with
    | x :: front => some (x, ⟨front, []⟩)
    | [] => none

/-- The element at the back and the queue without it. -/
def popBack? (queue : Deque α) : Option (α × Deque α) :=
  match queue.back with
  | x :: back => some (x, ⟨queue.front, back⟩)
  | [] =>
    match queue.front.reverse with
    | x :: back => some (x, ⟨[], back⟩)
    | [] => none

@[simp]
theorem toList_empty : (empty : Deque α).toList = [] :=
  rfl

@[simp]
theorem toList_pushBack (queue : Deque α) (x : α) :
    (queue.pushBack x).toList = queue.toList ++ [x] := by
  simp [pushBack, toList]

theorem size_eq_length_toList (queue : Deque α) : queue.size = queue.toList.length := by
  simp [size, toList]

/-- Leaving at the front takes the first element of the list. -/
theorem popFront?_map_toList (queue : Deque α) :
    queue.popFront?.map (fun (x, rest) => x :: rest.toList) =
      if queue.toList = [] then none else some queue.toList := by
  obtain ⟨front, back⟩ := queue
  cases front with
  | cons x front => simp [popFront?, toList]
  | nil =>
    cases h : back.reverse with
    | nil => simp [popFront?, toList, h]
    | cons x rest => simp [popFront?, toList, h]

theorem toList_of_popFront? {queue rest : Deque α} {x : α}
    (h : queue.popFront? = some (x, rest)) : queue.toList = x :: rest.toList := by
  have hlist := popFront?_map_toList queue
  rw [h, Option.map_some, eq_comm, Option.ite_none_left_eq_some] at hlist
  exact Option.some.inj hlist.2

/-- Leaving at the back takes the last element of the list. -/
theorem popBack?_map_toList (queue : Deque α) :
    queue.popBack?.map (fun (x, rest) => rest.toList ++ [x]) =
      if queue.toList = [] then none else some queue.toList := by
  obtain ⟨front, back⟩ := queue
  cases back with
  | cons x back => simp [popBack?, toList]
  | nil =>
    cases h : front.reverse with
    | nil =>
      have : front = [] := by simpa using h
      simp [popBack?, toList, this]
    | cons x rest =>
      have : front = rest.reverse ++ [x] := by
        rw [← List.reverse_reverse front, h, List.reverse_cons]
      simp [popBack?, toList, this]

theorem toList_of_popBack? {queue rest : Deque α} {x : α}
    (h : queue.popBack? = some (x, rest)) : queue.toList = rest.toList ++ [x] := by
  have hlist := popBack?_map_toList queue
  rw [h, Option.map_some, eq_comm, Option.ite_none_left_eq_some] at hlist
  exact Option.some.inj hlist.2

end Deque

end ContextFree
