import ContextFree.Proofs.Engine.CallGraph
import ContextFree.Proofs.History.Basic
import ContextFree.Proofs.Places
import Mathlib.Algebra.GroupWithZero.Nat

/-!
# What a graph of calls has been used for

A graph of calls is used by entering calls and by waiting for those that it has. What it holds is
told by the requests alone: its nodes are the calls that were entered, each where it was entered first
(`created`), and at each node wait those that were to wait there, each where it first was
(`waitersAt`). Both lists only ever grow at their ends, so a number that was given out stays good
(`GrowsTo`).
-/

namespace ContextFree.CallGraph

/-- What a graph of calls is used for. -/
inductive Request where
  | enter (call : Call)
  | await (node : Nat) (waiter : Waiter)

/-- What comes of a request. -/
inductive Event where
  /-- A call was entered, and it was told its number. -/
  | entered (call : Call) (node : Nat)
  /-- A waiter was to wait for a call, and it was told whether it is new there. -/
  | awaited (node : Nat) (waiter : Waiter) (fresh : Bool)

/-- The request that an event comes of. -/
@[simp]
def Event.request : Event → Request
  | .entered call _ => .enter call
  | .awaited node waiter _ => .await node waiter

/-- What comes of a request to a graph, and the graph after it. -/
def answer (graph : CallGraph) : Request → Except Fault (Event × CallGraph)
  | .enter call => .ok (.entered call (graph.enter call).1, (graph.enter call).2)
  | .await node waiter =>
    (graph.await node waiter).map fun (fresh, after) => (.awaited node waiter fresh, after)

/-- The call that a request enters. -/
def Request.call? : Request → Option Call
  | .enter call => some call
  | .await _ _ => none

/-- Who is to wait at a node by a request. -/
def Request.waiterAt? (node : Nat) : Request → Option Waiter
  | .enter _ => none
  | .await other waiter => if other = node then some waiter else none

/-- The calls that were entered, in the order in which they were entered first. -/
def created (requests : List Request) : List Call :=
  (requests.filterMap Request.call?).eraseDups

/-- Who was to wait for a call, in the order in which they first were. -/
def waitersAt (requests : List Request) (node : Nat) : List Waiter :=
  (requests.filterMap (Request.waiterAt? node)).eraseDups

/-- A request makes use of no call but those entered before it. -/
def Admits (earlier : List Request) : Request → Prop
  | .enter _ => True
  | .await node _ => node < (created earlier).length

section Requests

variable {requests : List Request} {call : Call} {node : Nat} {waiter : Waiter}

theorem nodup_created (requests : List Request) : (created requests).Nodup :=
  nodup_eraseDups _

theorem created_enter : created (requests ++ [.enter call]) =
    if call ∈ created requests then created requests else created requests ++ [call] := by
  simp only [created, List.mem_eraseDups]
  exact eraseDups_filterMap_of_some rfl

@[simp]
theorem created_await : created (requests ++ [.await node waiter]) = created requests :=
  eraseDups_filterMap_of_none rfl

@[simp]
theorem waitersAt_enter (other : Nat) :
    waitersAt (requests ++ [.enter call]) other = waitersAt requests other :=
  eraseDups_filterMap_of_none rfl

theorem waitersAt_await (other : Nat) : waitersAt (requests ++ [.await node waiter]) other =
    if node ≠ other ∨ waiter ∈ waitersAt requests node then waitersAt requests other
    else waitersAt requests other ++ [waiter] := by
  by_cases hnode : node = other
  · subst hnode
    have hfound : (Request.await node waiter).waiterAt? node = some waiter := if_pos rfl
    simp only [waitersAt, List.mem_eraseDups, ne_eq, not_true_eq_false, false_or]
    exact eraseDups_filterMap_of_some hfound
  · rw [if_pos (.inl hnode)]
    exact eraseDups_filterMap_of_none (if_neg hnode)

theorem created_mono {earlier : List Request} (h : earlier <+: requests) :
    created earlier <+: created requests :=
  eraseDups_mono (h.filterMap _)

theorem waitersAt_mono {earlier : List Request} (h : earlier <+: requests) (node : Nat) :
    waitersAt earlier node <+: waitersAt requests node :=
  eraseDups_mono (h.filterMap _)

end Requests

/-! ## What the graph holds -/

/-- What comes of a request, given what came of those before it. -/
def law (before : List Event) : Event → Prop
  | .entered call node => node = (created (before.map Event.request)).idxOf call
  | .awaited node waiter fresh =>
    (fresh = true ↔ waiter ∉ waitersAt (before.map Event.request) node)

/-- A graph holds what its history says. -/
structure Holds (history : List Event) (graph : CallGraph) : Prop where
  lawful : History.Follows law history
  calls_eq : graph.calls.toList = created (history.map Event.request)
  numbered : graph.Numbered
  entered_iff : ∀ call node, .entered call node ∈ history ↔ graph.find? call = some node
  size_waiters : graph.waiters.size = graph.nodeCount
  waiters_eq : ∀ node,
    (graph.waiters[node]?.getD #[]).toList = waitersAt (history.map Event.request) node
  edgeCount_eq : graph.edgeCount = (graph.waiters.toList.map Array.size).sum

theorem holds_empty : Holds [] empty where
  lawful := History.follows_nil
  calls_eq := rfl
  numbered call node := by simp [empty, find?]
  entered_iff call node := by simp [empty, find?]
  size_waiters := rfl
  waiters_eq node := by simp [empty, waitersAt]
  edgeCount_eq := rfl

variable {history : List Event} {graph : CallGraph} {call : Call} {node : Nat} {waiter : Waiter}
  {fresh : Bool}

theorem requests_entered : (history ++ [Event.entered call node]).map Event.request =
    history.map Event.request ++ [.enter call] := by
  simp

theorem requests_awaited : (history ++ [Event.awaited node waiter fresh]).map Event.request =
    history.map Event.request ++ [.await node waiter] := by
  simp

theorem Holds.getElem?_calls (h : Holds history graph) (node : Nat) :
    graph.calls[node]? = (created (history.map Event.request))[node]? := by
  rw [← h.calls_eq, Array.getElem?_toList]

theorem Holds.nodeCount_eq (h : Holds history graph) :
    graph.nodeCount = (created (history.map Event.request)).length := by
  rw [← h.calls_eq, Array.length_toList, nodeCount]

theorem Holds.find?_eq_some_iff (h : Holds history graph) :
    graph.find? call = some node ↔ (created (history.map Event.request))[node]? = some call := by
  rw [h.numbered, h.getElem?_calls]

theorem Holds.not_mem_created (h : Holds history graph) (hfind : graph.find? call = none) :
    call ∉ created (history.map Event.request) := by
  intro hmem
  obtain ⟨node, hnode⟩ := List.mem_iff_getElem?.mp hmem
  rw [← h.find?_eq_some_iff, hfind] at hnode
  cases hnode

/-! ### Entering a call -/

/-- A call that the graph has is told the number that it has there. -/
theorem Holds.entered_again (h : Holds history graph) (hfind : graph.find? call = some node) :
    Holds (history ++ [.entered call node]) graph where
  lawful := by
    obtain ⟨hlt, hcall⟩ := List.getElem?_eq_some_iff.mp (h.find?_eq_some_iff.mp hfind)
    refine History.follows_concat_iff.mpr ⟨h.lawful, ?_⟩
    rw [law, ← hcall, (nodup_created _).idxOf_getElem node hlt]
  calls_eq := by
    have hmem := List.mem_of_getElem? (h.find?_eq_some_iff.mp hfind)
    rw [requests_entered, created_enter, if_pos hmem, h.calls_eq]
  numbered := h.numbered
  entered_iff other number := by
    rw [List.mem_append, h.entered_iff, List.mem_singleton, Event.entered.injEq]
    refine or_iff_left_of_imp fun heq => ?_
    rw [heq.1, heq.2, hfind]
  size_waiters := h.size_waiters
  waiters_eq := by simpa using h.waiters_eq
  edgeCount_eq := h.edgeCount_eq

/-- A call that the graph does not have yet is told the next number, and nobody waits for it. -/
theorem Holds.entered_first (h : Holds history graph) (hfind : graph.find? call = none) :
    Holds (history ++ [.entered call graph.nodeCount]) ⟨graph.index.insert call graph.nodeCount,
      graph.calls.push call, graph.waiters.push #[], graph.edgeCount⟩ where
  lawful := by
    refine History.follows_concat_iff.mpr ⟨h.lawful, ?_⟩
    rw [law, List.idxOf_of_notMem (h.not_mem_created hfind), h.nodeCount_eq]
  calls_eq := by
    rw [requests_entered, created_enter, if_neg (h.not_mem_created hfind), Array.toList_push,
      h.calls_eq]
  numbered := by
    have hnumbered := h.numbered.enter call
    rwa [enter_of_find?_none hfind] at hnumbered
  entered_iff other number := by
    have hother : (graph.enter call).2.find? other = _ := find?_enter call other
    rw [enter_of_find?_none hfind] at hother
    rw [hother, List.mem_append, h.entered_iff, List.mem_singleton, Event.entered.injEq]
    split
    · next heq => simp [heq, hfind, eq_comm]
    · next hne => simp [hne]
  size_waiters := by simp only [nodeCount, Array.size_push, h.size_waiters]
  waiters_eq other := by
    rw [requests_entered, waitersAt_enter, ← h.waiters_eq, Array.getElem?_push]
    -- The list of the new node is empty, which is also what no list at all counts as.
    split
    · next heq => simp [heq]
    · rfl
  edgeCount_eq := by simp [h.edgeCount_eq]

/-! ### Waiting for a call -/

/-- One waiter more at some node is one more at all nodes together. -/
theorem sum_size_modify {waiters : Array (Array Waiter)} (hnode : node < waiters.size)
    (waiter : Waiter) : ((waiters.modify node (·.push waiter)).toList.map Array.size).sum =
      (waiters.toList.map Array.size).sum + 1 := by
  obtain ⟨before, present, after, heq, -, hmodify⟩ :=
    List.exists_of_modify (·.push waiter) (by simpa using hnode : node < waiters.toList.length)
  rw [Array.toList_modify, hmodify, heq]
  simp only [List.map_append, List.map_cons, List.sum_append, List.sum_cons, Array.size_push]
  omega

theorem Holds.waits_iff (h : Holds history graph) :
    graph.Waits node waiter ↔ waiter ∈ waitersAt (history.map Event.request) node := by
  rw [← h.waiters_eq, Array.mem_toList_iff, Waits]
  cases graph.waiters[node]? with
  | none => simp
  | some waiters => simp

/-- Waiting changes nothing but who waits. -/
theorem Holds.awaited {after : CallGraph} (h : Holds history graph)
    (hlaw : law history (.awaited node waiter fresh))
    (hcalls : after.index = graph.index ∧ after.calls = graph.calls)
    (hsize : after.waiters.size = graph.waiters.size)
    (hwaiters : ∀ other, (after.waiters[other]?.getD #[]).toList =
      waitersAt (history.map Event.request ++ [.await node waiter]) other)
    (hedges : after.edgeCount = (after.waiters.toList.map Array.size).sum) :
    Holds (history ++ [.awaited node waiter fresh]) after where
  lawful := History.follows_concat_iff.mpr ⟨h.lawful, hlaw⟩
  calls_eq := by rw [requests_awaited, created_await, hcalls.2, h.calls_eq]
  numbered call node := by
    rw [find?, hcalls.1, hcalls.2]
    exact h.numbered call node
  entered_iff call node := by
    rw [find?, hcalls.1, List.mem_append, h.entered_iff, List.mem_singleton]
    exact or_iff_left Event.noConfusion
  size_waiters := by rw [hsize, h.size_waiters, nodeCount, nodeCount, hcalls.2]
  waiters_eq other := by rw [requests_awaited, hwaiters]
  edgeCount_eq := hedges

theorem Holds.await (h : Holds history graph) (hnode : node < graph.nodeCount)
    (waiter : Waiter) : ∃ fresh after, graph.await node waiter = .ok (fresh, after) ∧
      Holds (history ++ [.awaited node waiter fresh]) after := by
  have hlt : node < graph.waiters.size := by
    rw [h.size_waiters]
    exact hnode
  by_cases hmem : waiter ∈ waitersAt (history.map Event.request) node
  · refine ⟨false, graph, await_of_waits (h.waits_iff.mpr hmem), ?_⟩
    refine h.awaited (by simp [law, hmem]) ⟨rfl, rfl⟩ rfl (fun other => ?_) h.edgeCount_eq
    rw [waitersAt_await, if_pos (.inr hmem), h.waiters_eq]
  · refine ⟨true, _, await_of_not_waits hlt fun hwaits => hmem (h.waits_iff.mp hwaits), ?_⟩
    refine h.awaited (by simp [law, hmem]) ⟨rfl, rfl⟩ (Array.size_modify ..) (fun other => ?_) ?_
    · rw [waitersAt_await, Array.getElem?_modify]
      by_cases hother : node = other
      · subst hother
        rw [if_pos rfl, if_neg (by simp [hmem]), ← h.waiters_eq, Array.getElem?_eq_getElem hlt,
          Option.map_some, Option.getD_some, Option.getD_some, Array.toList_push]
      · rw [if_neg hother, if_pos (.inl hother), h.waiters_eq]
    · rw [sum_size_modify hlt, h.edgeCount_eq]

/-- Every admitted request to a graph is answered as the law has it. -/
theorem Holds.answer (h : Holds history graph) {request : Request}
    (hadmits : Admits (history.map Event.request) request) :
    ∃ event after, graph.answer request = .ok (event, after) ∧ event.request = request ∧
      Holds (history ++ [event]) after := by
  cases request with
  | enter call =>
    cases hfind : graph.find? call with
    | some node =>
      refine ⟨.entered call node, graph, ?_, rfl, h.entered_again hfind⟩
      rw [CallGraph.answer, enter_of_find? hfind]
    | none =>
      refine ⟨.entered call graph.nodeCount, _, ?_, rfl, h.entered_first hfind⟩
      rw [CallGraph.answer, enter_of_find?_none hfind]
  | await node waiter =>
    have hnode : node < graph.nodeCount := by
      rw [h.nodeCount_eq]
      exact hadmits
    obtain ⟨fresh, after, hawait, hholds⟩ := h.await hnode waiter
    refine ⟨.awaited node waiter fresh, after, ?_, rfl, hholds⟩
    rw [CallGraph.answer, hawait]
    rfl

/-! ## Numbers that stay good -/

/-- What the history of a graph tells, and what the graph holds after it. -/
structure Recorded (history : List Event) (graph : CallGraph) : Prop where
  /-- The numbers up to the count are those of the calls that were entered, in the order in which
  they were entered first. -/
  call_eq_ok_iff : ∀ node call, graph.call node = .ok call ↔
    (created (history.map Event.request))[node]? = some call
  nodeCount_eq : graph.nodeCount = (created (history.map Event.request)).length
  /-- No two numbers are of one call. -/
  call_unique : ∀ node node' call, graph.call node = .ok call → graph.call node' = .ok call →
    node = node'
  /-- A call that was entered before is told the number that it has, any other the next one. -/
  entered_eq : ∀ before call node after, history = before ++ .entered call node :: after →
    node = (created (before.map Event.request)).idxOf call
  /-- The number that is found for a call is what every entering of it was told. -/
  find?_eq_some_iff : ∀ call node, graph.find? call = some node ↔ .entered call node ∈ history
  /-- At each node there wait those that were to, each once, in the order in which they came. -/
  waitersOf_eq : ∀ node < graph.nodeCount, ∃ waiters, graph.waitersOf node = .ok waiters ∧
    waiters.toList = waitersAt (history.map Event.request) node ∧ waiters.toList.Nodup
  /-- A waiter is new at a node just if it did not wait there before. -/
  fresh_iff : ∀ before node waiter fresh after,
    history = before ++ .awaited node waiter fresh :: after →
    (fresh = true ↔ waiter ∉ waitersAt (before.map Event.request) node)
  /-- The count of edges is how many wait at all nodes together. -/
  edgeCount_eq : graph.edgeCount = (graph.waiters.toList.map Array.size).sum

/-- A later graph has all that an earlier one has, by the same numbers and in the same places. -/
structure GrowsTo (graph after : CallGraph) : Prop where
  call_eq : ∀ node call, graph.call node = .ok call → after.call node = .ok call
  find?_eq : ∀ call node, graph.find? call = some node → after.find? call = some node
  waitersOf_grows : ∀ node waiters, graph.waitersOf node = .ok waiters →
    ∃ waiters', after.waitersOf node = .ok waiters' ∧ waiters.toList <+: waiters'.toList

theorem call_eq_ok_iff :
    graph.call node = .ok call ↔ graph.calls[node]? = some call := by
  unfold CallGraph.call
  split
  · next h => rw [h, Except.ok.injEq, Option.some.injEq]
  · next h => simp [h]

theorem waitersOf_eq_ok_iff {waiters : Array Waiter} :
    graph.waitersOf node = .ok waiters ↔ graph.waiters[node]? = some waiters := by
  unfold waitersOf
  split
  · next h => rw [h, Except.ok.injEq, Option.some.injEq]
  · next h => simp [h]

theorem Holds.toList_of_waitersOf (h : Holds history graph) {waiters : Array Waiter}
    (hwaiters : graph.waitersOf node = .ok waiters) :
    waiters.toList = waitersAt (history.map Event.request) node := by
  rw [← h.waiters_eq, waitersOf_eq_ok_iff.mp hwaiters, Option.getD_some]

theorem Holds.exists_waitersOf (h : Holds history graph) (hnode : node < graph.nodeCount) :
    ∃ waiters, graph.waitersOf node = .ok waiters := by
  rw [← h.size_waiters] at hnode
  exact ⟨_, waitersOf_eq_ok_iff.mpr (Array.getElem?_eq_getElem hnode)⟩

theorem Holds.recorded (h : Holds history graph) : Recorded history graph where
  call_eq_ok_iff node call := by rw [call_eq_ok_iff, h.getElem?_calls]
  nodeCount_eq := h.nodeCount_eq
  call_unique node node' call hcall hcall' := by
    rw [call_eq_ok_iff, ← h.numbered] at hcall hcall'
    exact Option.some.inj (hcall.symm.trans hcall')
  entered_eq before call node after heq := h.lawful before _ after heq
  find?_eq_some_iff call node := (h.entered_iff call node).symm
  waitersOf_eq node hnode := by
    obtain ⟨waiters, hwaiters⟩ := h.exists_waitersOf hnode
    have htoList := h.toList_of_waitersOf hwaiters
    exact ⟨waiters, hwaiters, htoList, htoList ▸ nodup_eraseDups _⟩
  fresh_iff before node waiter fresh after heq := h.lawful before _ after heq
  edgeCount_eq := h.edgeCount_eq

theorem Holds.growsTo {history' : List Event} {after : CallGraph} (h : Holds history graph)
    (h' : Holds history' after) (hearlier : history <+: history') : graph.GrowsTo after := by
  have hrequests := hearlier.map Event.request
  have hcall : ∀ node call, graph.call node = .ok call → after.call node = .ok call := by
    intro node call
    rw [call_eq_ok_iff, call_eq_ok_iff, h.getElem?_calls, h'.getElem?_calls]
    exact getElem?_mono (created_mono hrequests)
  refine ⟨hcall, fun call node => ?_, fun node waiters hwaiters => ?_⟩
  · rw [h.numbered, h'.numbered, ← call_eq_ok_iff, ← call_eq_ok_iff]
    exact hcall node call
  · have hnode : node < after.nodeCount := by
      have hlt := (Array.getElem?_eq_some_iff.mp (waitersOf_eq_ok_iff.mp hwaiters)).1
      rw [h.size_waiters, h.nodeCount_eq] at hlt
      rw [h'.nodeCount_eq]
      exact Nat.lt_of_lt_of_le hlt (created_mono hrequests).length_le
    obtain ⟨waiters', hwaiters'⟩ := h'.exists_waitersOf hnode
    refine ⟨waiters', hwaiters', ?_⟩
    rw [h.toList_of_waitersOf hwaiters, h'.toList_of_waitersOf hwaiters']
    exact waitersAt_mono hrequests node

theorem exists_holds {requests : List Request} (h : History.Follows Admits requests) :
    ∃ history graph, History.perform answer empty requests = .ok (history, graph) ∧
      history.map Event.request = requests ∧ Holds history graph :=
  History.exists_perform holds_empty (fun _ _ _ hholds hadmits => hholds.answer hadmits) h

/-- However calls are entered in a fresh graph and waited for, only those that it has being waited
for, the graph and the answers are told by the requests, and each time it goes on from what it was
before. -/
theorem recorded_of_admits (requests : List Request) (h : History.Follows Admits requests) :
    ∃ history graph, History.perform answer empty requests = .ok (history, graph) ∧
      history.map Event.request = requests ∧ Recorded history graph ∧
      ∀ earlier later, requests = earlier ++ later →
        ∃ history' graph', History.perform answer empty earlier = .ok (history', graph') ∧
          history' <+: history ∧ Recorded history' graph' ∧ graph'.GrowsTo graph := by
  obtain ⟨history, graph, hperform, hrequests, hholds⟩ := exists_holds h
  refine ⟨history, graph, hperform, hrequests, hholds.recorded, ?_⟩
  rintro earlier later rfl
  obtain ⟨history', graph', hperform', -, hholds'⟩ := exists_holds h.of_append
  have hearlier : history' <+: history := History.history_mono hperform' hperform
  exact ⟨history', graph', hperform', hearlier, hholds'.recorded, hholds'.growsTo hholds hearlier⟩

/-- Two calls, the first of which waits for the second, twice, and for itself. -/
def waitTwice : List Request :=
  [.enter ⟨0, 0⟩, .enter ⟨1, 0⟩, .await 1 ⟨0, 3⟩, .await 1 ⟨0, 3⟩, .await 0 ⟨0, 1⟩, .enter ⟨0, 0⟩]

theorem waitTwice_recorded : History.Follows Admits waitTwice ∧
    ∃ history graph, History.perform answer empty waitTwice = .ok (history, graph) ∧
      history.map Event.request = waitTwice ∧ Recorded history graph ∧
      ∀ earlier later, waitTwice = earlier ++ later →
        ∃ history' graph', History.perform answer empty earlier = .ok (history', graph') ∧
          history' <+: history ∧ Recorded history' graph' ∧ graph'.GrowsTo graph := by
  have hadmits : History.Follows Admits waitTwice := by
    show History.Follows Admits ([] ++ [.enter ⟨0, 0⟩] ++ [.enter ⟨1, 0⟩] ++ [.await 1 ⟨0, 3⟩] ++
      [.await 1 ⟨0, 3⟩] ++ [.await 0 ⟨0, 1⟩] ++ [.enter ⟨0, 0⟩])
    simp only [History.follows_concat_iff, History.follows_nil, Admits, true_and, and_true]
    decide
  exact ⟨hadmits, recorded_of_admits waitTwice hadmits⟩

end ContextFree.CallGraph
