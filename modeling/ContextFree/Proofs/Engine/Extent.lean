import ContextFree.Engine.Run
import ContextFree.Proofs.Engine.Chart
import Mathlib.Algebra.BigOperators.Intervals
import Mathlib.Data.Set.Card

/-!
# How much there is to do

The exact chart of a grammar and an input is finite, and small: a slot settles the nonterminal of
the call that comes to it, so a task is settled by a slot and two positions, of which the first is
not after the second. Hence no run has more to do than `workLimit` allows for.
-/

namespace ContextFree

/-- The intervals of an input of `length` tokens: two positions, the first not after the second. -/
def intervals (length : Nat) : Finset (Nat × Nat) :=
  (Finset.range (length + 1) ×ˢ Finset.range (length + 1)).filter fun pair => pair.1 ≤ pair.2

theorem mem_intervals {length i j : Nat} : (i, j) ∈ intervals length ↔ i ≤ j ∧ j ≤ length := by
  simp only [intervals, Finset.mem_filter, Finset.mem_product, Finset.mem_range]
  omega

/-- As many intervals end at a position as there are positions up to it. -/
theorem card_intervals (length : Nat) :
    (intervals length).card = (length + 1) * (length + 2) / 2 := by
  have hstops : ∀ stop ∈ Finset.range (length + 1),
      ((Finset.range (length + 1)).filter (· ≤ stop)).card = stop + 1 := by
    intro stop hstop
    have hstarts : (Finset.range (length + 1)).filter (· ≤ stop) = Finset.range (stop + 1) := by
      ext start
      simp only [Finset.mem_filter, Finset.mem_range] at hstop ⊢
      omega
    rw [hstarts, Finset.card_range]
  have hsum : (intervals length).card = ∑ stop ∈ Finset.range (length + 1), (stop + 1) := by
    rw [intervals, Finset.card_filter, Finset.sum_product_right, ← Finset.sum_congr rfl hstops]
    simp only [Finset.card_filter]
  have hgauss := Finset.sum_range_id_mul_two (length + 2)
  rw [Finset.sum_range_succ', ← hsum] at hgauss
  rw [Nat.add_sub_cancel (length + 1) 1, Nat.mul_comm (length + 2)] at hgauss
  omega

/-- There are no more intervals than pairs of positions. -/
theorem card_intervals_le (length : Nat) :
    (intervals length).card ≤ (length + 1) * (length + 1) := by
  refine (Finset.card_filter_le _ _).trans_eq ?_
  rw [Finset.card_product, Finset.card_range]

/-- A set whose members are told apart by their images in a finite set is no larger than that. -/
theorem encard_le_card_of_injOn {α β : Type} {s : Set α} {t : Finset β} (f : α → β)
    (hmem : ∀ a ∈ s, f a ∈ t) (hinj : s.InjOn f) : s.encard ≤ t.card := by
  rw [← Set.encard_coe_eq_coe_finsetCard]
  exact Set.encard_le_encard_of_injOn hmem hinj

variable {τ : Type} [Token τ] {grammar : Grammar} {input : Array τ} {start : Nat}

/-- There is at most one call for each nonterminal and position. -/
theorem encard_calls_exact_le (hstart : start < grammar.nonterminalCount) :
    (Chart.exact grammar input start).calls.encard ≤
      ((grammar.nonterminalCount * (input.size + 1) : Nat) : ℕ∞) := by
  have hle := encard_le_card_of_injOn (s := (Chart.exact grammar input start).calls)
    (t := Finset.range grammar.nonterminalCount ×ˢ Finset.range (input.size + 1))
    (fun call => (call.nonterminal, call.start)) ?_ ?_
  · rwa [Finset.card_product, Finset.card_range, Finset.card_range] at hle
  · intro call hcall
    have hlt := hcall.nonterminal_lt hstart
    have hle := hcall.start_le
    simp only [Finset.mem_product, Finset.mem_range]
    omega
  · intro call _ call' _ heq
    obtain ⟨id, pos⟩ := call
    obtain ⟨id', pos'⟩ := call'
    obtain ⟨rfl, rfl⟩ := Prod.mk.inj heq
    rfl

/-- A call has an end at most once for each position that is not before its start. -/
theorem encard_ends_exact_le (hstart : start < grammar.nonterminalCount) :
    (Chart.exact grammar input start).ends.encard ≤
      ((grammar.nonterminalCount * (intervals input.size).card : Nat) : ℕ∞) := by
  have hle := encard_le_card_of_injOn (s := (Chart.exact grammar input start).ends)
    (t := Finset.range grammar.nonterminalCount ×ˢ intervals input.size)
    (fun fact => (fact.1.nonterminal, fact.1.start, fact.2)) ?_ ?_
  · rwa [Finset.card_product, Finset.card_range] at hle
  · intro fact hfact
    obtain ⟨hdemanded, symbols, -, hspans⟩ := hfact
    simp only [Finset.mem_product, Finset.mem_range, mem_intervals]
    exact ⟨hdemanded.nonterminal_lt hstart, hspans.start_le, hspans.le_size hdemanded.start_le⟩
  · intro fact _ fact' _ heq
    obtain ⟨⟨id, pos⟩, stop⟩ := fact
    obtain ⟨⟨id', pos'⟩, stop'⟩ := fact'
    obtain ⟨rfl, hpositions⟩ := Prod.mk.inj heq
    obtain ⟨rfl, rfl⟩ := Prod.mk.inj hpositions
    rfl

/-- The slot at which a caller goes on settles whom it waits for, but for the two positions. -/
theorem encard_edges_exact_le : (Chart.exact grammar input start).edges.encard ≤
    ((grammar.slotCount * (intervals input.size).card : Nat) : ℕ∞) := by
  have hle := encard_le_card_of_injOn (s := (Chart.exact grammar input start).edges)
    (t := Finset.range grammar.slotCount ×ˢ intervals input.size)
    (fun edge => (edge.resume, edge.caller.start, edge.callee.start)) ?_ ?_
  · rwa [Finset.card_product, Finset.card_range] at hle
  · intro edge hedge
    obtain ⟨hdemanded, slot, before, after, hdotted, hresume, hspans⟩ := hedge
    simp only [Finset.mem_product, Finset.mem_range, mem_intervals, hresume]
    exact ⟨hdotted.advance.lt_slotCount, hspans.start_le, hspans.le_size hdemanded.start_le⟩
  · intro edge hedge edge' hedge' heq
    obtain ⟨⟨callee, pos⟩, ⟨caller, first⟩, resume⟩ := edge
    obtain ⟨⟨callee', pos'⟩, ⟨caller', first'⟩, resume'⟩ := edge'
    obtain ⟨rfl, hpositions⟩ := Prod.mk.inj heq
    obtain ⟨rfl, rfl⟩ := Prod.mk.inj hpositions
    obtain ⟨-, slot, before, after, hdotted, rfl, -⟩ := hedge
    obtain ⟨-, slot', before', after', hdotted', hresume', -⟩ := hedge'
    obtain rfl := Nat.succ.inj hresume'
    obtain ⟨rfl, -, hsymbols⟩ := hdotted.unique hdotted'
    obtain rfl : callee = callee' := Symbol.nonterminal.inj (List.cons.inj hsymbols).1
    rfl

/-- What tells one task from another: for an expansion its call, for a resumption its slot, the
start of its call and its position. -/
def Task.key : Task → (Nat × Nat × Nat) ⊕ (Nat × Nat)
  | .expand call => .inr (call.nonterminal, call.start)
  | .resume call pos slot => .inl (slot, call.start, pos)

theorem key_injOn : {task | Due grammar input start task}.InjOn Task.key := by
  intro task hdue task' hdue' heq
  cases task with
  | expand call =>
    cases task' with
    | expand call' =>
      obtain ⟨id, pos⟩ := call
      obtain ⟨id', pos'⟩ := call'
      obtain ⟨rfl, rfl⟩ := Prod.mk.inj (Sum.inr.inj heq)
      rfl
    | resume call' pos' slot' => cases heq
  | resume call pos slot =>
    cases task' with
    | expand call' => cases heq
    | resume call' pos' slot' =>
      obtain ⟨id, first⟩ := call
      obtain ⟨id', first'⟩ := call'
      obtain ⟨rfl, hpositions⟩ := Prod.mk.inj (Sum.inl.inj heq)
      obtain ⟨rfl, rfl⟩ := Prod.mk.inj hpositions
      obtain ⟨-, before, after, hdotted, -⟩ := hdue
      obtain ⟨-, before', after', hdotted', -⟩ := hdue'
      obtain ⟨rfl, -⟩ := hdotted.unique hdotted'
      rfl

/-- There are no more tasks than slots in intervals, and calls. -/
theorem encard_queued_exact_le (hstart : start < grammar.nonterminalCount) :
    (Chart.exact grammar input start).queued.encard ≤
      ((grammar.slotCount * (intervals input.size).card +
        grammar.nonterminalCount * (input.size + 1) : Nat) : ℕ∞) := by
  have hle := encard_le_card_of_injOn (s := (Chart.exact grammar input start).queued)
    (t := (Finset.range grammar.slotCount ×ˢ intervals input.size).disjSum
      (Finset.range grammar.nonterminalCount ×ˢ Finset.range (input.size + 1)))
    Task.key ?_ key_injOn
  · rwa [Finset.card_disjSum, Finset.card_product, Finset.card_product, Finset.card_range,
      Finset.card_range, Finset.card_range] at hle
  · intro task hdue
    cases task with
    | expand call =>
      have hlt := hdue.nonterminal_lt hstart
      have hle := hdue.start_le
      simp only [Task.key, Finset.inr_mem_disjSum, Finset.mem_product, Finset.mem_range]
      omega
    | resume call pos slot =>
      obtain ⟨hdemanded, before, after, hdotted, hspans⟩ := hdue
      have hlt := hdotted.lt_slotCount
      simp only [Task.key, Finset.inl_mem_disjSum, Finset.mem_product, Finset.mem_range,
        mem_intervals]
      exact ⟨hlt, hspans.start_le, hspans.le_size hdemanded.start_le⟩

/-- No run has more to do than it may take rounds. -/
theorem encard_queued_exact_le_workLimit (hstart : start < grammar.nonterminalCount) :
    (Chart.exact grammar input start).queued.encard ≤ (workLimit grammar input.size : ℕ∞) := by
  refine (encard_queued_exact_le hstart).trans (Nat.cast_le.mpr ?_)
  exact Nat.add_le_add_right (Nat.mul_le_mul_left _ (card_intervals_le _)) _

end ContextFree
