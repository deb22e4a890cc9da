import ContextFree.Proofs.Budget
import ContextFree.Proofs.Renaming.Basic

/-!
# Runs under other numbers

Two grammars with a renaming from one to the other are run in lockstep: each step of a run with the
first is a step of the run with the second under the new numbers, on states that are the same up to
those. There is a relation for each table of the engine, and a lemma for each operation on it, which
says that the operation keeps the relation and answers alike. Calls are numbered as they come up, so
their numbers are the same on both sides; so are positions, and with them all that is known about
where calls end.

No report mentions a nonterminal or a slot, so the reports are equal (`Renaming.exists_run`), also
where a budget ends the runs.
-/

namespace ContextFree

/-- The queue with each element changed. -/
def Deque.map {α β : Type} (f : α → β) (queue : Deque α) : Deque β :=
  ⟨queue.front.map f, queue.back.map f⟩

theorem Deque.popFront?_map {α β : Type} (f : α → β) (queue : Deque α) :
    (queue.map f).popFront? = queue.popFront?.map fun (x, rest) => (f x, rest.map f) := by
  obtain ⟨front, back⟩ := queue
  cases front with
  | cons x front => rfl
  | nil =>
    simp only [map, popFront?, List.map_nil, ← List.map_reverse]
    cases back.reverse <;> rfl

theorem Deque.popBack?_map {α β : Type} (f : α → β) (queue : Deque α) :
    (queue.map f).popBack? = queue.popBack?.map fun (x, rest) => (f x, rest.map f) := by
  obtain ⟨front, back⟩ := queue
  cases back with
  | cons x back => rfl
  | nil =>
    simp only [map, popBack?, List.map_nil, ← List.map_reverse]
    cases front.reverse <;> rfl

theorem Deque.isEmpty_map {α β : Type} (f : α → β) (queue : Deque α) :
    (queue.map f).isEmpty = queue.isEmpty := by
  simp only [isEmpty, map, List.isEmpty_map]

/-- A change of all elements goes past a change of one. -/
theorem map_modify {α β : Type} {f : α → β} {change : α → α} {change' : β → β}
    (h : ∀ x, f (change x) = change' (f x)) (xs : Array α) (place : Nat) :
    (xs.modify place change).map f = (xs.map f).modify place change' := by
  apply Array.ext_getElem?
  intro other
  simp only [Array.getElem?_modify, Array.getElem?_map]
  split
  · rw [Option.map_map, Option.map_map]
    exact congrArg (Option.map · _) (funext h)
  · rfl

namespace Renaming

variable {a b : Grammar} (numbers : Renaming a b)

/-! ## States under other numbers -/

/-- A call under the new numbers. -/
def call (call : Call) : Call :=
  ⟨numbers.nonterminal call.nonterminal, call.start⟩

/-- A waiter under the new numbers. -/
def waiter (waiter : Waiter) : Waiter :=
  ⟨waiter.caller, numbers.slot waiter.resume⟩

/-- A descriptor under the new numbers. -/
def descriptor : Descriptor → Descriptor
  | .expand node => .expand node
  | .resume node pos slot => .resume node pos (numbers.slot slot)

/-- A round under the new numbers. -/
def round (round : Round) : Round :=
  ⟨numbers.descriptor round.taken, round.produced.map (Prod.map numbers.descriptor id)⟩

/-- Two graphs have the same calls and waiters, up to the numbers of nonterminals and slots. -/
structure SameCalls (graph graph' : CallGraph) : Prop where
  calls_eq : graph'.calls = graph.calls.map numbers.call
  waiters_eq : graph'.waiters = graph.waiters.map (Array.map numbers.waiter)
  find?_eq : ∀ call, graph'.find? (numbers.call call) = graph.find? call
  edgeCount_eq : graph'.edgeCount = graph.edgeCount

/-- What two runs have found out is the same, up to the numbers. -/
structure SameFacts (facts facts' : Facts) : Prop where
  graph : numbers.SameCalls facts.graph facts'.graph
  completions_eq : facts'.completions = facts.completions

/-- Two worklists queue the same descriptors and have queued the same, up to the numbers. -/
structure SameQueue (worklist worklist' : Worklist) : Prop where
  order_eq : worklist'.order = worklist.order
  pending_eq : worklist'.pending = worklist.pending.map numbers.descriptor
  expanded_eq : worklist'.expanded = worklist.expanded
  resumed_eq : ∀ node pos slot,
    worklist'.resumed.contains (node, pos, numbers.slot slot) =
      worklist.resumed.contains (node, pos, slot)
  processed_eq : worklist'.processed = worklist.processed

/-- The same descriptor has left two worklists, and what is left of them is the same. -/
def SameTaken (left left' : Descriptor × Worklist) : Prop :=
  left'.1 = numbers.descriptor left.1 ∧ numbers.SameQueue left.2 left'.2

/-- Two runs are in the same state, up to the numbers. -/
structure SameState (engine engine' : Engine) : Prop where
  facts : numbers.SameFacts engine.facts engine'.facts
  worklist : numbers.SameQueue engine.worklist engine'.worklist
  expansions_eq : engine'.expansions = engine.expansions

variable {numbers}

theorem call_injective : Function.Injective numbers.call := by
  intro first second heq
  obtain ⟨hnonterminal, hstart⟩ := Call.mk.inj heq
  exact congrArg₂ Call.mk (numbers.nonterminal_injective hnonterminal) hstart

theorem waiter_injective : Function.Injective numbers.waiter := by
  intro first second heq
  obtain ⟨hcaller, hresume⟩ := Waiter.mk.inj heq
  exact congrArg₂ Waiter.mk hcaller (numbers.slot_injective hresume)

/-- A slot of one grammar is one of the other, in front of the same symbol. -/
theorem exists_slot? {n : Nat} {found : Slot} (h : a.slot? n = some found) :
    ∃ found', b.slot? (numbers.slot n) = some found' ∧
      found'.next = found.next.map (Symbol.map numbers.nonterminal) := by
  have hnext := numbers.next n
  rw [h, Option.map_some, Option.map_eq_some_iff] at hnext
  exact hnext

/-! ## The graph -/

section Graph

variable {graph graph' after : CallGraph} (h : numbers.SameCalls graph graph')

include h

theorem SameCalls.nodeCount_eq : graph'.nodeCount = graph.nodeCount := by
  rw [CallGraph.nodeCount, CallGraph.nodeCount, h.calls_eq, Array.size_map]

theorem SameCalls.call {node : Nat} {call : Call} (hcall : graph.call node = .ok call) :
    graph'.call node = .ok (numbers.call call) := by
  unfold CallGraph.call at hcall ⊢
  rw [h.calls_eq, Array.getElem?_map]
  cases hnode : graph.calls[node]? with
  | none =>
    rw [hnode] at hcall
    cases hcall
  | some found =>
    rw [hnode] at hcall
    obtain rfl := Except.ok.inj hcall
    rfl

theorem SameCalls.waitersOf {node : Nat} {waiters : Array Waiter}
    (hwaiters : graph.waitersOf node = .ok waiters) :
    graph'.waitersOf node = .ok (waiters.map numbers.waiter) := by
  unfold CallGraph.waitersOf at hwaiters ⊢
  rw [h.waiters_eq, Array.getElem?_map]
  cases hnode : graph.waiters[node]? with
  | none =>
    rw [hnode] at hwaiters
    cases hwaiters
  | some found =>
    rw [hnode] at hwaiters
    obtain rfl := Except.ok.inj hwaiters
    rfl

/-- A call gets the same number on both sides. -/
theorem SameCalls.enter (call : Call) :
    (graph'.enter (numbers.call call)).1 = (graph.enter call).1 ∧
      numbers.SameCalls (graph.enter call).2 (graph'.enter (numbers.call call)).2 := by
  have hfind' := h.find?_eq call
  cases hfind : graph.find? call with
  | some node =>
    rw [hfind] at hfind'
    rw [CallGraph.enter_of_find? hfind, CallGraph.enter_of_find? hfind']
    exact ⟨rfl, h⟩
  | none =>
    rw [hfind] at hfind'
    have hnumber : (graph'.enter (numbers.call call)).1 = (graph.enter call).1 := by
      rw [CallGraph.enter_of_find?_none hfind, CallGraph.enter_of_find?_none hfind']
      exact h.nodeCount_eq
    refine ⟨hnumber, ?_, ?_, ?_, ?_⟩
    · rw [CallGraph.enter_of_find?_none hfind, CallGraph.enter_of_find?_none hfind']
      show graph'.calls.push _ = (graph.calls.push _).map _
      rw [Array.map_push, h.calls_eq]
    · rw [CallGraph.enter_of_find?_none hfind, CallGraph.enter_of_find?_none hfind']
      show graph'.waiters.push _ = (graph.waiters.push _).map _
      rw [Array.map_push, h.waiters_eq, Array.map_empty]
    · intro other
      simp only [CallGraph.find?_enter, hnumber, h.find?_eq, call_injective.eq_iff]
    · rw [CallGraph.edgeCount_enter, CallGraph.edgeCount_enter]
      exact h.edgeCount_eq

/-- A waiter is new on both sides or on neither. -/
theorem SameCalls.await {node : Nat} {waiter : Waiter} {fresh : Bool}
    (hawait : graph.await node waiter = .ok (fresh, after)) :
    ∃ after', graph'.await node (numbers.waiter waiter) = .ok (fresh, after') ∧
      numbers.SameCalls after after' := by
  have hnode' : graph'.waiters[node]? = graph.waiters[node]?.map (Array.map numbers.waiter) := by
    rw [h.waiters_eq, Array.getElem?_map]
  unfold CallGraph.await at hawait ⊢
  cases hnode : graph.waiters[node]? with
  | none =>
    rw [hnode] at hawait
    cases hawait
  | some present =>
    have hcontains : (present.map numbers.waiter).contains (numbers.waiter waiter) =
        present.contains waiter := by
      rw [Bool.eq_iff_iff, Array.contains_iff_mem, Array.contains_iff_mem, Array.mem_map]
      constructor
      · intro hmem
        obtain ⟨other, hother, heq⟩ := hmem
        exact waiter_injective heq ▸ hother
      · intro hmem
        exact ⟨waiter, hmem, rfl⟩
    rw [hnode] at hawait hnode'
    simp only [hnode', Option.map_some, hcontains]
    dsimp only at hawait
    split at hawait
    · next hpresent =>
      obtain ⟨rfl, rfl⟩ := Prod.mk.inj (Except.ok.inj hawait)
      exact ⟨graph', if_pos hpresent, h⟩
    · next hnew =>
      obtain ⟨rfl, rfl⟩ := Prod.mk.inj (Except.ok.inj hawait)
      rw [if_neg hnew]
      refine ⟨_, rfl, h.calls_eq, ?_, h.find?_eq, congrArg (· + 1) h.edgeCount_eq⟩
      show graph'.waiters.modify node (·.push (numbers.waiter waiter)) =
        (graph.waiters.modify node (·.push waiter)).map (Array.map numbers.waiter)
      rw [h.waiters_eq]
      exact (map_modify (fun _ => Array.map_push) _ _).symm

end Graph

/-! ## One step -/

section Step

variable {τ : Type} [Token τ] {input : Array τ} {facts facts' after : Facts}
  {produced : List Descriptor} {node pos slot : Nat} {found : Slot}

/-- A call is expanded to the entry slots of its nonterminal on both sides. -/
theorem SameFacts.step_expand (h : numbers.SameFacts facts facts')
    (hstep : facts.step a input (.expand node) = .ok (produced, after)) :
    ∃ after', facts'.step b input (.expand node) =
        .ok (produced.map numbers.descriptor, after') ∧ numbers.SameFacts after after' := by
  cases hcall : facts.graph.call node with
  | error fault => simp only [Facts.step, hcall, reduceCtorEq] at hstep
  | ok call =>
    have hentries' := numbers.entrySlots? call.nonterminal
    cases hentries : a.entrySlots? call.nonterminal with
    | none => simp only [Facts.step, hcall, hentries, reduceCtorEq] at hstep
    | some slots =>
      simp only [Facts.step, hcall, hentries, Except.ok.injEq, Prod.mk.injEq] at hstep
      obtain ⟨rfl, rfl⟩ := hstep
      rw [hentries, Option.map_some] at hentries'
      refine ⟨facts', ?_, h⟩
      simp only [Facts.step, h.graph.call hcall, Renaming.call, hentries', List.map_map]
      rfl

/-- The end of an alternative wakes the same waiters on both sides, if it is new. -/
theorem SameFacts.step_end (h : numbers.SameFacts facts facts') (hslot : a.slot? slot = some found)
    (hnext : found.next = none)
    (hstep : facts.step a input (.resume node pos slot) = .ok (produced, after)) :
    ∃ after', facts'.step b input (.resume node pos (numbers.slot slot)) =
        .ok (produced.map numbers.descriptor, after') ∧ numbers.SameFacts after after' := by
  obtain ⟨found', hslot', hnext'⟩ := numbers.exists_slot? hslot
  rw [hnext, Option.map_none] at hnext'
  simp only [Facts.step, hslot, hnext] at hstep
  simp only [Facts.step, hslot', hnext', h.completions_eq]
  generalize facts.completions.record node pos = recorded at hstep ⊢
  obtain ⟨fresh, completions⟩ := recorded
  cases fresh with
  | false =>
    obtain ⟨rfl, rfl⟩ := Prod.mk.inj (Except.ok.inj hstep)
    exact ⟨_, rfl, h.graph, rfl⟩
  | true =>
    cases hwaiters : facts.graph.waitersOf node with
    | error fault => simp only [hwaiters, reduceCtorEq] at hstep
    | ok waiters =>
      simp only [hwaiters, Except.ok.injEq, Prod.mk.injEq] at hstep
      obtain ⟨rfl, rfl⟩ := hstep
      refine ⟨⟨facts'.graph, completions⟩, ?_, h.graph, rfl⟩
      simp only [h.graph.waitersOf hwaiters, Array.toList_map, List.map_map]
      rfl

/-- A terminal is matched on both sides or on neither. -/
theorem SameFacts.step_terminal (h : numbers.SameFacts facts facts')
    (hslot : a.slot? slot = some found) {text : String} (hnext : found.next = some (.terminal text))
    (hstep : facts.step a input (.resume node pos slot) = .ok (produced, after)) :
    ∃ after', facts'.step b input (.resume node pos (numbers.slot slot)) =
        .ok (produced.map numbers.descriptor, after') ∧ numbers.SameFacts after after' := by
  obtain ⟨found', hslot', hnext'⟩ := numbers.exists_slot? hslot
  have hsucc := numbers.slot_succ hslot (hnext ▸ Option.some_ne_none _)
  rw [hnext, Option.map_some, Symbol.map] at hnext'
  simp only [Facts.step, hslot, hnext] at hstep
  simp only [Facts.step, hslot', hnext']
  split at hstep
  · obtain ⟨rfl, rfl⟩ := Prod.mk.inj (Except.ok.inj hstep)
    refine ⟨_, ?_, h⟩
    split
    · simp only [List.map_cons, List.map_nil, descriptor, hsucc]
    · rfl
  · obtain ⟨rfl, rfl⟩ := Prod.mk.inj (Except.ok.inj hstep)
    exact ⟨_, rfl, h⟩

/-- A call is entered and awaited alike on both sides, and goes on from the same known ends. -/
theorem SameFacts.step_call (h : numbers.SameFacts facts facts') (hslot : a.slot? slot = some found)
    {callee : Nat} (hnext : found.next = some (.nonterminal callee))
    (hstep : facts.step a input (.resume node pos slot) = .ok (produced, after)) :
    ∃ after', facts'.step b input (.resume node pos (numbers.slot slot)) =
        .ok (produced.map numbers.descriptor, after') ∧ numbers.SameFacts after after' := by
  obtain ⟨found', hslot', hnext'⟩ := numbers.exists_slot? hslot
  have hsucc := numbers.slot_succ hslot (hnext ▸ Option.some_ne_none _)
  rw [hnext, Option.map_some, Symbol.map] at hnext'
  obtain ⟨hchild, hentered⟩ := h.graph.enter ⟨callee, pos⟩
  simp only [Facts.step, hslot, hnext] at hstep
  cases hawait : (facts.graph.enter ⟨callee, pos⟩).2.await (facts.graph.enter ⟨callee, pos⟩).1
      ⟨node, slot + 1⟩ with
  | error fault => simp only [hawait, reduceCtorEq] at hstep
  | ok awaited =>
    obtain ⟨fresh, graph⟩ := awaited
    obtain ⟨graph', hawait', hgraph⟩ := hentered.await hawait
    simp only [call, waiter, hsucc] at hchild hawait'
    simp only [hawait, Except.ok.injEq, Prod.mk.injEq] at hstep
    obtain ⟨rfl, rfl⟩ := hstep
    refine ⟨⟨graph', facts'.completions⟩, ?_, hgraph, h.completions_eq⟩
    simp only [Facts.step, hslot', hnext', hchild, hawait', h.completions_eq, List.map_append,
      List.map_map, Function.comp_def, descriptor, hsucc, List.map_cons, List.map_nil]

/-- What a descriptor asks for is the same on both sides. -/
theorem SameFacts.step (h : numbers.SameFacts facts facts') {descriptor : Descriptor}
    (hstep : facts.step a input descriptor = .ok (produced, after)) :
    ∃ after', facts'.step b input (numbers.descriptor descriptor) =
        .ok (produced.map numbers.descriptor, after') ∧ numbers.SameFacts after after' := by
  cases descriptor with
  | expand node => exact h.step_expand hstep
  | resume node pos slot =>
    cases hslot : a.slot? slot with
    | none => simp only [Facts.step, hslot, reduceCtorEq] at hstep
    | some found =>
      cases hnext : found.next with
      | none => exact h.step_end hslot hnext hstep
      | some symbol =>
        cases symbol with
        | terminal text => exact h.step_terminal hslot hnext hstep
        | nonterminal callee => exact h.step_call hslot hnext hstep

end Step

/-! ## The worklist -/

section Queue

variable {worklist worklist' after : Worklist} (h : numbers.SameQueue worklist worklist')

include h

/-- A descriptor is queued on both sides or refused on both. -/
theorem SameQueue.push {descriptor : Descriptor} {fresh : Bool}
    (hpush : worklist.push descriptor = .ok (fresh, after)) :
    ∃ after', worklist'.push (numbers.descriptor descriptor) = .ok (fresh, after') ∧
      numbers.SameQueue after after' := by
  cases descriptor with
  | expand node =>
    simp only [Worklist.push, Renaming.descriptor, h.expanded_eq] at hpush ⊢
    cases hinsert : worklist.expanded.insert? node with
    | none => simp only [hinsert, reduceCtorEq] at hpush
    | some inserted =>
      obtain ⟨fresh, expanded⟩ := inserted
      simp only [hinsert, Except.ok.injEq, Prod.mk.injEq] at hpush
      obtain ⟨rfl, rfl⟩ := hpush
      refine ⟨_, rfl, h.order_eq, ?_, rfl, h.resumed_eq, h.processed_eq⟩
      cases fresh with
      | false => exact h.pending_eq
      | true =>
        show worklist'.pending.pushBack _ = (worklist.pending.pushBack _).map _
        rw [h.pending_eq]
        rfl
  | resume node pos slot =>
    simp only [Worklist.push, Renaming.descriptor, h.resumed_eq] at hpush ⊢
    split at hpush
    · next hqueued =>
      obtain ⟨rfl, rfl⟩ := Prod.mk.inj (Except.ok.inj hpush)
      exact ⟨worklist', if_pos hqueued, h⟩
    · next hnew =>
      obtain ⟨rfl, rfl⟩ := Prod.mk.inj (Except.ok.inj hpush)
      rw [if_neg hnew]
      refine ⟨_, rfl, h.order_eq, ?_, h.expanded_eq, ?_, h.processed_eq⟩
      · show worklist'.pending.pushBack _ = (worklist.pending.pushBack _).map _
        rw [h.pending_eq]
        rfl
      · intro node' pos' slot'
        have hsame : ((node, pos, numbers.slot slot) == (node', pos', numbers.slot slot')) =
            ((node, pos, slot) == (node', pos', slot')) := by
          rw [Bool.eq_iff_iff, beq_iff_eq, beq_iff_eq]
          simp only [Prod.mk.injEq, numbers.slot_injective.eq_iff]
        rw [Std.HashSet.contains_insert, Std.HashSet.contains_insert, hsame, h.resumed_eq]

/-- Descriptors are queued or refused alike on both sides. -/
theorem SameQueue.pushAll {descriptors : List Descriptor} {answers : List (Descriptor × Bool)}
    (hpush : worklist.pushAll descriptors = .ok (answers, after)) :
    ∃ after', worklist'.pushAll (descriptors.map numbers.descriptor) =
        .ok (answers.map (Prod.map numbers.descriptor id), after') ∧
      numbers.SameQueue after after' := by
  induction descriptors generalizing worklist worklist' answers with
  | nil =>
    obtain ⟨rfl, rfl⟩ := Prod.mk.inj (Except.ok.inj hpush)
    exact ⟨worklist', rfl, h⟩
  | cons descriptor rest ih =>
    cases hfirst : worklist.push descriptor with
    | error fault => simp only [Worklist.pushAll, hfirst, reduceCtorEq] at hpush
    | ok pushed =>
      obtain ⟨fresh, middle⟩ := pushed
      obtain ⟨middle', hfirst', hmiddle⟩ := h.push hfirst
      cases hrest : middle.pushAll rest with
      | error fault => simp only [Worklist.pushAll, hfirst, hrest, reduceCtorEq] at hpush
      | ok pushed =>
        obtain ⟨later, last⟩ := pushed
        simp only [Worklist.pushAll, hfirst, hrest, Except.ok.injEq, Prod.mk.injEq] at hpush
        obtain ⟨rfl, rfl⟩ := hpush
        obtain ⟨last', hrest', hlast⟩ := ih hmiddle hrest
        refine ⟨last', ?_, hlast⟩
        simp only [List.map_cons, Worklist.pushAll, hfirst', hrest']
        rfl

/-- The same descriptor leaves on both sides, or none does. -/
theorem SameQueue.pop? : Option.Rel numbers.SameTaken worklist.pop? worklist'.pop? := by
  obtain ⟨order, pending, expanded, resumed, processed⟩ := worklist
  obtain ⟨order', pending', expanded', resumed', processed'⟩ := worklist'
  obtain ⟨horder, hpending, hexpanded, hresumed, hprocessed⟩ := h
  obtain rfl : order' = order := horder
  obtain rfl : pending' = pending.map numbers.descriptor := hpending
  obtain rfl : expanded' = expanded := hexpanded
  obtain rfl : processed' = processed := hprocessed
  have hleft : ∀ left : Option (Descriptor × Deque Descriptor), Option.Rel numbers.SameTaken
      (left.map fun (x, rest) => (x, ⟨order', rest, expanded', resumed, processed' + 1⟩))
      ((left.map fun (x, rest) => (numbers.descriptor x, rest.map numbers.descriptor)).map
        fun (x, rest) => (x, ⟨order', rest, expanded', resumed', processed' + 1⟩)) := by
    intro left
    cases left with
    | none => exact .none
    | some left => exact .some ⟨rfl, rfl, rfl, rfl, hresumed, rfl⟩
  cases order' with
  | fifo =>
    have hfront := hleft pending.popFront?
    rwa [← Deque.popFront?_map] at hfront
  | lifo =>
    have hback := hleft pending.popBack?
    rwa [← Deque.popBack?_map] at hback

end Queue

/-! ## Runs -/

section Run

variable {τ : Type} [Token τ] {input : Array τ} {engine engine' after : Engine}

/-- A descriptor is processed alike on both sides. -/
theorem SameState.process (h : numbers.SameState engine engine') {descriptor : Descriptor}
    {answers : List (Descriptor × Bool)}
    (hprocess : engine.process a input descriptor = .ok (answers, after)) :
    ∃ after', engine'.process b input (numbers.descriptor descriptor) =
        .ok (answers.map (Prod.map numbers.descriptor id), after') ∧
      numbers.SameState after after' := by
  unfold Engine.process at hprocess ⊢
  cases hstep : engine.facts.step a input descriptor with
  | error fault => simp only [hstep, reduceCtorEq] at hprocess
  | ok told =>
    obtain ⟨produced, facts⟩ := told
    obtain ⟨facts', hstep', hfacts⟩ := h.facts.step hstep
    cases hpush : engine.worklist.pushAll produced with
    | error fault => simp only [hstep, hpush, reduceCtorEq] at hprocess
    | ok pushed =>
      obtain ⟨fresh, worklist⟩ := pushed
      obtain ⟨worklist', hpush', hworklist⟩ := h.worklist.pushAll hpush
      simp only [hstep, hpush, Except.ok.injEq, Prod.mk.injEq] at hprocess
      obtain ⟨rfl, rfl⟩ := hprocess
      simp only [hstep', hpush', h.expansions_eq]
      refine ⟨_, rfl, hfacts, hworklist, ?_⟩
      cases descriptor <;> rfl

/-- A round is the same on both sides, or there is nothing left to do on either. -/
theorem SameState.advance (h : numbers.SameState engine engine') {round : Option Round}
    (hadvance : engine.advance a input = .ok (round, after)) :
    ∃ after', engine'.advance b input = .ok (round.map numbers.round, after') ∧
      numbers.SameState after after' := by
  obtain ⟨facts, worklist, expansions⟩ := engine
  obtain ⟨facts', worklist', expansions'⟩ := engine'
  have hpop := h.worklist.pop?
  simp only [Engine.advance] at hadvance hpop ⊢
  cases hleft : worklist.pop? with
  | none =>
    rw [hleft] at hpop hadvance
    obtain ⟨rfl, rfl⟩ := Prod.mk.inj (Except.ok.inj hadvance)
    generalize worklist'.pop? = left' at hpop ⊢
    cases hpop
    exact ⟨_, rfl, h⟩
  | some left =>
    obtain ⟨descriptor, rest⟩ := left
    rw [hleft] at hpop hadvance
    generalize worklist'.pop? = left' at hpop ⊢
    cases hpop with
    | @some left left' htaken =>
    obtain ⟨descriptor', rest'⟩ := left'
    obtain ⟨hdescriptor, hrest⟩ := htaken
    obtain rfl : descriptor' = numbers.descriptor descriptor := hdescriptor
    have hmiddle : numbers.SameState ⟨facts, rest, expansions⟩ ⟨facts', rest', expansions'⟩ :=
      ⟨h.facts, hrest, h.expansions_eq⟩
    cases hprocess : Engine.process a input ⟨facts, rest, expansions⟩ descriptor with
    | error fault => simp only [hprocess, reduceCtorEq] at hadvance
    | ok processed =>
      obtain ⟨answers, last⟩ := processed
      obtain ⟨last', hprocess', hlast⟩ := hmiddle.process hprocess
      simp only [hprocess, Except.ok.injEq, Prod.mk.injEq] at hadvance
      obtain ⟨rfl, rfl⟩ := hadvance
      simp only [hprocess']
      exact ⟨last', rfl, hlast⟩

/-- Runs of the same length end in the same state. -/
theorem SameState.drain (limit : Nat) (h : numbers.SameState engine engine')
    (hdrain : engine.drain a input limit = .ok after) :
    ∃ after', engine'.drain b input limit = .ok after' ∧ numbers.SameState after after' := by
  induction limit generalizing engine engine' with
  | zero =>
    obtain rfl := Except.ok.inj hdrain
    exact ⟨engine', rfl, h⟩
  | succ limit ih =>
    unfold Engine.drain at hdrain ⊢
    cases hadvance : engine.advance a input with
    | error fault => simp only [hadvance, reduceCtorEq] at hdrain
    | ok advanced =>
      obtain ⟨round, next⟩ := advanced
      obtain ⟨next', hadvance', hnext⟩ := h.advance hadvance
      simp only [hadvance] at hdrain
      simp only [hadvance']
      cases round with
      | none =>
        obtain rfl := Except.ok.inj hdrain
        exact ⟨next', rfl, hnext⟩
      | some round => exact ih hnext hdrain

/-- Runs start in the same state. -/
theorem sameState_start {order : Order} {length nonterminal root : Nat}
    (hstart : Engine.start a order length nonterminal = .ok (root, engine)) :
    ∃ engine', Engine.start b order length (numbers.nonterminal nonterminal) = .ok (root, engine') ∧
      numbers.SameState engine engine' := by
  have hcalls : numbers.SameCalls .empty .empty :=
    { calls_eq := Array.map_empty.symm
      waiters_eq := Array.map_empty.symm
      find?_eq := fun call => by rw [Facts.find?_empty, Facts.find?_empty]
      edgeCount_eq := rfl }
  have hqueue : numbers.SameQueue (.create order a.nonterminalCount length)
      (.create order b.nonterminalCount length) :=
    { order_eq := rfl
      pending_eq := rfl
      expanded_eq := by rw [numbers.nonterminalCount_eq]
      resumed_eq := fun _ _ _ => Std.HashSet.contains_empty.trans Std.HashSet.contains_empty.symm
      processed_eq := rfl }
  obtain ⟨hroot, hgraph⟩ := hcalls.enter ⟨nonterminal, 0⟩
  unfold Engine.start at hstart ⊢
  cases hpush : (Worklist.create order a.nonterminalCount length).push
      (.expand (CallGraph.empty.enter ⟨nonterminal, 0⟩).1) with
  | error fault => simp only [hpush, reduceCtorEq] at hstart
  | ok pushed =>
    obtain ⟨fresh, worklist⟩ := pushed
    obtain ⟨worklist', hpush', hworklist⟩ := hqueue.push hpush
    simp only [hpush, Except.ok.injEq, Prod.mk.injEq] at hstart
    obtain ⟨rfl, rfl⟩ := hstart
    simp only [Renaming.call, Renaming.descriptor] at hroot hpush'
    simp only [hroot, hpush']
    exact ⟨_, rfl, ⟨hgraph, rfl⟩, hworklist, rfl⟩

/-- The reports on runs in the same state are equal. -/
theorem SameState.report_eq (h : numbers.SameState engine engine') (root length : Nat) :
    engine'.report root length = engine.report root length := by
  simp only [Engine.report, h.facts.completions_eq, h.worklist.pending_eq, Deque.isEmpty_map,
    h.worklist.processed_eq, h.expansions_eq, h.facts.graph.nodeCount_eq,
    h.facts.graph.edgeCount_eq]

variable (numbers) {id : Nat} (hlt : id < a.nonterminalCount)
  (hlt' : numbers.nonterminal id < b.nonterminalCount) (config : Config) (input)

omit [Token τ] in
/-- Runs take equally many rounds at the most. -/
theorem roundLimit_eq (budget : Option Nat) :
    Recognizer.roundLimit ⟨b, numbers.nonterminal id, hlt', config⟩ input budget =
      Recognizer.roundLimit ⟨a, id, hlt, config⟩ input budget := by
  simp only [Recognizer.roundLimit, workLimit, numbers.slotCount_eq, numbers.nonterminalCount_eq]

/-- Runs from the same nonterminal come to the same report, and to no fault. -/
theorem exists_run : ∃ report,
    Recognizer.run ⟨a, id, hlt, config⟩ input = .ok report ∧
      Recognizer.run ⟨b, numbers.nonterminal id, hlt', config⟩ input = .ok report := by
  obtain ⟨last, hexecute, -⟩ :=
    (Recognizer.mk a id hlt config).exists_execute_within input config.budget
  refine ⟨last.report 0 input.size, by simp only [Recognizer.run, hexecute], ?_⟩
  unfold Recognizer.execute at hexecute
  cases hstart : Engine.start a config.order input.size id with
  | error fault => simp only [hstart, reduceCtorEq] at hexecute
  | ok started =>
    obtain ⟨root, first⟩ := started
    obtain ⟨first', hstart', hfirst⟩ := numbers.sameState_start hstart
    cases hdrain : first.drain a input
        (Recognizer.roundLimit ⟨a, id, hlt, config⟩ input config.budget) with
    | error fault => simp only [hstart, hdrain, reduceCtorEq] at hexecute
    | ok drained =>
      obtain ⟨last', hdrain', hlast⟩ := hfirst.drain _ hdrain
      simp only [hstart, hdrain, Except.ok.injEq, Prod.mk.injEq] at hexecute
      obtain ⟨rfl, rfl⟩ := hexecute
      simp only [Recognizer.run, Recognizer.execute, hstart', hdrain',
        numbers.roundLimit_eq input hlt hlt', hlast.report_eq]

end Run

end Renaming

end ContextFree
