import ContextFree.Proofs.EveryState

/-!
# Every number is in range

The tables of a run refer to each other by number and are read without looking whether the number is
one of theirs. That this comes to no fault is not for any single step to see: the room for calls queued
for expansion is set aside before the run, by a count of what there can be, and a slot is advanced by
adding one to its number. Both are right because of what holds in every state: there is at most one
call for each nonterminal and position, and a descriptor's slot is one of the nonterminal of its call.

`Engine.InRange` goes through the numbers in the tables, each with the table that it is for. It holds
in every state of every run, and whatever is pending can be processed then
(`Recognizer.inRange_throughout`).
-/

namespace ContextFree

namespace Grammar

variable {grammar : Grammar} {n id : Nat}

/-- A slot by its number: it is one of a nonterminal's, in one of its alternatives, with the dot
somewhere from the start to the end. -/
structure SlotAt (grammar : Grammar) (n id alternative dot : Nat) (symbols : Alternative Nat) :
    Prop where
  lt_slotCount : n < grammar.slotCount
  slot?_eq : grammar.slot? n = some ⟨id, alternative, dot, symbols[dot]?⟩
  symbols_eq : (grammar.alternatives id)[alternative]? = some symbols
  dot_le : dot ≤ symbols.length
  callee_lt : ∀ {callee : Nat}, .nonterminal callee ∈ symbols → callee < grammar.nonterminalCount

/-- A number is that of a slot of a nonterminal. -/
def HasSlot (grammar : Grammar) (n id : Nat) : Prop :=
  ∃ alternative dot symbols, grammar.SlotAt n id alternative dot symbols

theorem exists_slotAt_of_slot? {found : Slot} (h : grammar.slot? n = some found) :
    ∃ symbols, grammar.SlotAt n found.nonterminal found.alternative found.dot symbols ∧
      found.next = symbols[found.dot]? := by
  obtain ⟨symbols, -, -, hsymbols, -, -, hdot, -, hnext⟩ := slot?_eq_some_iff.mp h
  exact ⟨symbols,
    { lt_slotCount := (Array.getElem?_eq_some_iff.mp h).1
      slot?_eq := hnext ▸ h
      symbols_eq := hsymbols
      dot_le := hdot
      callee_lt := lt_of_nonterminal_mem (List.mem_of_getElem? hsymbols) }, hnext⟩

/-- The number after that of a slot that is not at the end is that of the slot one symbol further in
the same alternative. -/
theorem SlotAt.advance {alternative dot : Nat} {symbols : Alternative Nat}
    (h : grammar.SlotAt n id alternative dot symbols) (hlt : dot < symbols.length) :
    grammar.SlotAt (n + 1) id alternative (dot + 1) symbols := by
  obtain ⟨symbols', entries, entry, hsymbols, hentries, hentry, -, hplace, -⟩ :=
    slot?_eq_some_iff.mp h.slot?_eq
  have hslot : grammar.slot? (n + 1) = some ⟨id, alternative, dot + 1, symbols[dot + 1]?⟩ :=
    slot?_eq_some_iff.mpr ⟨symbols, entries, entry, h.symbols_eq, hentries, hentry, hlt,
      congrArg (· + 1) hplace, rfl⟩
  exact
    { lt_slotCount := (Array.getElem?_eq_some_iff.mp hslot).1
      slot?_eq := hslot
      symbols_eq := h.symbols_eq
      dot_le := hlt
      callee_lt := h.callee_lt }

theorem Dotted.exists_slotAt {before after : Alternative Nat}
    (h : grammar.Dotted n id before after) :
    ∃ alternative, grammar.SlotAt n id alternative before.length (before ++ after) := by
  obtain ⟨alternative, hsymbols, hslot⟩ := h
  obtain ⟨symbols, hat, -⟩ := exists_slotAt_of_slot? hslot
  obtain rfl : before ++ after = symbols := Option.some.inj (hsymbols.symm.trans hat.symbols_eq)
  exact ⟨alternative, hat⟩

theorem Dotted.hasSlot {before after : Alternative Nat} (h : grammar.Dotted n id before after) :
    grammar.HasSlot n id := by
  obtain ⟨alternative, hat⟩ := h.exists_slotAt
  exact ⟨alternative, _, _, hat⟩

end Grammar

/-! ## The slots that a step hands out -/

namespace Facts

variable {τ : Type} [Token τ] {grammar : Grammar} {input : Array τ} {facts facts' : Facts}
  {descriptor : Descriptor} {produced : List Descriptor}

/-- Where a step for a descriptor may take a slot from: the entries of a nonterminal, the number
after that of a slot that is not at the end of its alternative, and whoever waits. -/
inductive SlotFrom (grammar : Grammar) (facts : Facts) : Descriptor → Nat → Prop where
  | entry {node slot : Nat} {call : Call} {entries : List Nat} :
      facts.graph.calls[node]? = some call → grammar.entrySlots? call.nonterminal = some entries →
      slot ∈ entries → SlotFrom grammar facts (.expand node) slot
  | advance {node pos slot id alternative dot : Nat} {symbols : Alternative Nat} :
      grammar.SlotAt slot id alternative dot symbols → dot < symbols.length →
      SlotFrom grammar facts (.resume node pos slot) (slot + 1)
  | waiter {node pos slot : Nat} {found : Slot} {waiter : Waiter} :
      grammar.slot? slot = some found → found.next = none → facts.graph.Waits node waiter →
      SlotFrom grammar facts (.resume node pos slot) waiter.resume

/-- At a symbol a step only moves the dot over it. -/
theorem SlotFrom.of_next {node pos slot : Nat} {found : Slot} {symbol : Symbol Nat}
    (hfound : grammar.slot? slot = some found) (hnext : found.next = some symbol) :
    facts.SlotFrom grammar (.resume node pos slot) (slot + 1) := by
  obtain ⟨symbols, hat, hsymbol⟩ := Grammar.exists_slotAt_of_slot? hfound
  rw [hnext] at hsymbol
  exact .advance hat (List.getElem?_eq_some_iff.mp hsymbol.symm).1

/-- A step makes up no slot. -/
theorem slotFrom_of_step (hstep : facts.step grammar input descriptor = .ok (produced, facts'))
    {node pos slot : Nat} (hmem : .resume node pos slot ∈ produced) :
    facts.SlotFrom grammar descriptor slot := by
  cases descriptor with
  | expand called =>
    simp only [step, CallGraph.call] at hstep
    cases hcall : facts.graph.calls[called]? with
    | none => simp only [hcall, reduceCtorEq] at hstep
    | some call =>
      cases hentries : grammar.entrySlots? call.nonterminal with
      | none => simp only [hcall, hentries, reduceCtorEq] at hstep
      | some entries =>
        simp only [hcall, hentries, Except.ok.injEq, Prod.mk.injEq] at hstep
        rw [← hstep.1] at hmem
        obtain ⟨entry, hentry, heq⟩ := List.mem_map.mp hmem
        obtain ⟨-, -, rfl⟩ := Descriptor.resume.inj heq
        exact .entry hcall hentries hentry
  | resume called stop dotted =>
    simp only [step] at hstep
    cases hfound : grammar.slot? dotted with
    | none => simp only [hfound, reduceCtorEq] at hstep
    | some found =>
      simp only [hfound] at hstep
      split at hstep
      · next hnext =>
        split at hstep
        · obtain ⟨rfl, -⟩ := Prod.mk.inj (Except.ok.inj hstep)
          cases hmem
        · cases hwaiters : facts.graph.waiters[called]? with
          | none => simp only [CallGraph.waitersOf, hwaiters, reduceCtorEq] at hstep
          | some waiters =>
            simp only [CallGraph.waitersOf, hwaiters, Except.ok.injEq, Prod.mk.injEq] at hstep
            rw [← hstep.1] at hmem
            obtain ⟨waiter, hwaiter, heq⟩ := List.mem_map.mp hmem
            obtain ⟨-, -, rfl⟩ := Descriptor.resume.inj heq
            exact .waiter hfound hnext ⟨waiters, hwaiters, Array.mem_toList_iff.mp hwaiter⟩
      · next text hnext =>
        split at hstep
        · obtain ⟨rfl, -⟩ := Prod.mk.inj (Except.ok.inj hstep)
          split at hmem
          · obtain ⟨-, -, rfl⟩ := Descriptor.resume.inj (List.mem_singleton.mp hmem)
            exact .of_next hfound hnext
          · cases hmem
        · obtain ⟨rfl, -⟩ := Prod.mk.inj (Except.ok.inj hstep)
          cases hmem
      · next callee hnext =>
        split at hstep
        · cases hstep
        · obtain ⟨rfl, -⟩ := Prod.mk.inj (Except.ok.inj hstep)
          rcases List.mem_append.mp hmem with hreplay | hexpand
          · obtain ⟨known, -, heq⟩ := List.mem_map.mp hreplay
            obtain ⟨-, -, rfl⟩ := Descriptor.resume.inj heq
            exact .of_next hfound hnext
          · cases List.mem_singleton.mp hexpand

end Facts

/-! ## Every state -/

variable {τ : Type} [Token τ] {grammar : Grammar} {input : Array τ} {start : Nat} {engine : Engine}

/-- The numbers of a descriptor are in range: the call is one of the graph, the position one of the
input or its end, and the slot one of the call's nonterminal. -/
def Descriptor.InRange (grammar : Grammar) (input : Array τ) (graph : CallGraph) :
    Descriptor → Prop
  | .expand node => node < graph.nodeCount
  | .resume node pos slot => pos ≤ input.size ∧
      ∃ call, graph.calls[node]? = some call ∧ grammar.HasSlot slot call.nonterminal

/-- A task that is due has its numbers in range. -/
theorem CallGraph.Consistent.inRange_of_due {graph : CallGraph} (hc : graph.Consistent)
    {descriptor : Descriptor} {task : Task} (hdenotes : graph.Denotes descriptor task)
    (hdue : Due grammar input start task) : descriptor.InRange grammar input graph := by
  cases hdenotes with
  | expand hfind => exact hc.lt_nodeCount hfind
  | resume hfind =>
    obtain ⟨hdemanded, before, after, hdotted, hspans⟩ := hdue
    exact ⟨hspans.le_size hdemanded.start_le, _, hc.find?_eq_some_iff.mp hfind, hdotted.hasSlot⟩

namespace Engine

/-- Each number in the tables of an engine is in the range of the table that it is for, and so is
each that a step for a queued descriptor comes up with. -/
structure InRange (grammar : Grammar) (input : Array τ) (engine : Engine) : Prop where
  /-- Room was set aside for as many calls as there can be, and there are no more. -/
  room : grammar.nonterminalCount * (input.size + 1) ≤ engine.worklist.expanded.capacity
  nodeCount_le :
    engine.facts.graph.nodeCount ≤ grammar.nonterminalCount * (input.size + 1)
  size_waiters : engine.facts.graph.waiters.size = engine.facts.graph.nodeCount
  call_in_range : ∀ {node : Nat} {call : Call}, engine.facts.graph.calls[node]? = some call →
    call.nonterminal < grammar.nonterminalCount ∧ call.start ≤ input.size
  queued_in_range : ∀ {descriptor : Descriptor}, engine.worklist.Queued descriptor →
    descriptor.InRange grammar input engine.facts.graph
  /-- A waiter goes on one slot after an occurrence of a nonterminal, so in the same alternative. -/
  waiter_in_range : ∀ {node : Nat} {waiter : Waiter}, engine.facts.graph.Waits node waiter →
    node < engine.facts.graph.nodeCount ∧ ∃ caller slot alternative dot symbols,
      engine.facts.graph.calls[waiter.caller]? = some caller ∧
      grammar.SlotAt slot caller.nonterminal alternative dot symbols ∧ waiter.resume = slot + 1 ∧
      grammar.SlotAt waiter.resume caller.nonterminal alternative (dot + 1) symbols
  end_in_range : ∀ {node stop : Nat}, stop ∈ engine.facts.completions.endsOf node →
    node < engine.facts.graph.nodeCount ∧ stop ≤ input.size
  /-- A step for a queued descriptor makes no more calls than there can be. Whatever it produces is
  in range then, and each slot is an entry, the next in its alternative, or a waiter's. -/
  produced_in_range : ∀ {descriptor : Descriptor}, engine.worklist.Queued descriptor →
    ∃ produced facts, engine.facts.step grammar input descriptor = .ok (produced, facts) ∧
      facts.graph.nodeCount ≤ grammar.nonterminalCount * (input.size + 1) ∧
      (∀ other ∈ produced, other.InRange grammar input facts.graph) ∧
      ∀ node pos slot, .resume node pos slot ∈ produced →
        engine.facts.SlotFrom grammar descriptor slot

theorem Invariant.call_in_range (h : Invariant grammar input start engine)
    (hstart : start < grammar.nonterminalCount) {node : Nat} {call : Call}
    (hcall : engine.facts.graph.calls[node]? = some call) :
    call.nonterminal < grammar.nonterminalCount ∧ call.start ≤ input.size := by
  have hdemanded : Demanded grammar input start call :=
    h.le_exact.calls ⟨node, h.facts.graph.find?_eq_some_iff.mpr hcall⟩
  exact ⟨hdemanded.nonterminal_lt hstart, hdemanded.start_le⟩

/-- What is in the tables is justified, and what is justified is in range. A step keeps within that,
so no count made in advance is ever exceeded. -/
theorem Invariant.inRange (h : Invariant grammar input start engine)
    (hstart : start < grammar.nonterminalCount) : engine.InRange grammar input where
  room := h.room
  nodeCount_le := h.facts.nodeCount_le hstart h.le_exact.calls
  size_waiters := h.facts.graph.size_waiters
  call_in_range := h.call_in_range hstart
  queued_in_range := by
    intro descriptor hqueued
    obtain ⟨task, hdenotes, -, hdue⟩ := h.exists_task_of_queued hqueued
    exact h.facts.graph.inRange_of_due hdenotes hdue
  waiter_in_range := by
    intro node waiter hwaits
    obtain ⟨callee, caller, -, hcaller, hedge⟩ := h.facts.exists_edge hwaits
    obtain ⟨-, slot, before, after, hdotted, hresume, -⟩ := h.le_exact.edges hedge
    obtain ⟨alternative, hat⟩ := hdotted.exists_slotAt
    have hresume' : waiter.resume = slot + 1 := hresume
    refine ⟨h.facts.graph.node_lt hwaits, caller, slot, alternative, _, _,
      h.facts.graph.find?_eq_some_iff.mp hcaller, hat, hresume', ?_⟩
    rw [hresume']
    exact hat.advance (by simp)
  end_in_range := by
    intro node stop hstop
    have hhas := (h.facts.completions.mem_endsOf_iff _ _).mp hstop
    obtain ⟨call, hcall, symbols, -, hspans⟩ := h.exists_derives hhas
    exact ⟨h.facts.node_lt_of_has hhas, hspans.le_size (h.call_in_range hstart hcall).2⟩
  produced_in_range := by
    intro descriptor hqueued
    obtain ⟨task, hdenotes, -, hdue⟩ := h.exists_task_of_queued hqueued
    obtain ⟨produced, facts, hstep, htold⟩ := Facts.step_told h.facts hstart hdenotes hdue
    have hexact := h.learn_le_exact hdue
    refine ⟨produced, facts, hstep, ?_, ?_, fun _ _ _ => Facts.slotFrom_of_step hstep⟩
    · exact htold.consistent.nodeCount_le hstart (htold.calls_eq ▸ hexact.calls)
    · intro other hother
      obtain ⟨task', htask', hdenotes'⟩ := htold.task_of_produced other hother
      rw [htold.edges_eq, htold.ends_eq] at htask'
      have hlearned : task' ∈ (engine.chart.learn (task.news grammar input)).queued :=
        htask'.elim (fun hnews => .inl (.inr hnews)) .inr
      exact htold.consistent.graph.inRange_of_due hdenotes' (hexact.queued hlearned)

end Engine

/-- In every state of every run all numbers are in range, and no run comes to a fault. -/
theorem Recognizer.inRange_throughout (recognizer : Recognizer) (input : Array τ) :
    recognizer.Throughout input (Engine.InRange recognizer.grammar input) :=
  recognizer.throughout_of_invariant input fun _ h => h.inRange recognizer.start_lt

end ContextFree
