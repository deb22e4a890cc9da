import ContextFree.Analysis.LeftRecursion
import ContextFree.Proofs.Analysis.Nullable
import Mathlib.Algebra.BigOperators.Fin
import Mathlib.Logic.Relation

/-!
# Left recursion is found where it is

A search that comes back empty has been through a set of nonterminals that is closed under left
calls and does not hold the target, so nothing that was ever stacked reaches the target
(`Search.not_reflTransGen`), provided that the search was not stopped by its limit. It never is: a
nonterminal taken off the stack either is seen for the first time, and then leaves as much less to
be stacked as it stacks itself, or makes the stack shorter.

In the other direction a search that does not come back empty has found a way to the target. So a
nonterminal is told to reach itself along left calls just if it does (`isLeftRecursive_iff_transGen`),
and in a grammar that is told to be without left recursion none does (`not_transGen_leftCall`).

Left calls are just the calls that can be made before anything is consumed (`leftCall_iff`). So a
grammar is told to be without left recursion just if it is (`leftRecursive?_eq_none_iff`).
-/

namespace ContextFree

/-- One nonterminal may call another before it consumes any input: what stands in front of the call
derives the empty word. -/
def Grammar.CallsFirst (grammar : Grammar) (id callee : Nat) : Prop :=
  ∃ before after, before ++ .nonterminal callee :: after ∈ grammar.alternatives id ∧
    Spans grammar (#[] : Array Char) before 0 0

/-- A nonterminal may come back to itself before it consumes any input. -/
def Grammar.LeftRecursive (grammar : Grammar) (id : Nat) : Prop :=
  Relation.TransGen grammar.CallsFirst id id

namespace Analysis

/-- One nonterminal may call another before it consumes any input, as a table of left calls has
it. -/
def LeftCall (calls : Array (List Nat)) (id callee : Nat) : Prop :=
  callee ∈ calls.getD id []

/-- How much the nonterminals not seen yet have to stack. -/
def ahead (calls : Array (List Nat)) (seen : Array Bool) : Nat :=
  ∑ id ∈ Finset.range calls.size, if seen.getD id false then 0 else (calls.getD id []).length

/-- A search under way, with the nonterminals it has been through: what they call has been through
as well or is stacked, and the target is not among them. -/
structure Search (calls : Array (List Nat)) (target : Nat) (stack : List Nat) (seen : Array Bool)
    (visited : Set Nat) : Prop where
  size_seen : seen.size = calls.size
  mem_visited : ∀ {id : Nat}, seen.getD id false = true → id ∈ visited
  target_notMem : target ∉ visited
  mem_or_stacked : ∀ {id callee : Nat}, id ∈ visited → LeftCall calls id callee →
    callee ∈ visited ∨ callee ∈ stack

variable {calls : Array (List Nat)} {target id : Nat} {stack : List Nat} {seen : Array Bool}
  {visited : Set Nat}

/-- Only nonterminals of the table call any. -/
theorem LeftCall.lt_size {callee : Nat} (h : LeftCall calls id callee) : id < calls.size := by
  by_contra hid
  rw [LeftCall, Array.getD_eq_getD_getElem?, Array.getElem?_eq_none (Nat.le_of_not_lt hid)] at h
  cases h

/-- What a nonterminal stacks when it is seen for the first time is no longer ahead. -/
theorem length_add_ahead (id : Nat) (hsize : seen.size = calls.size)
    (hnew : seen.getD id false = false) :
    (calls.getD id []).length + ahead calls (seen.setIfInBounds id true) = ahead calls seen := by
  by_cases hid : id < calls.size
  · have hmem := Finset.mem_range.mpr hid
    unfold ahead
    rw [← Finset.add_sum_erase _ _ hmem, ← Finset.add_sum_erase _ _ hmem]
    have hself : (seen.setIfInBounds id true).getD id false = true := by
      simp [hsize, hid]
    have hothers : ∀ other ∈ (Finset.range calls.size).erase id,
        (seen.setIfInBounds id true).getD other false = seen.getD other false := by
      intro other hother
      have hne := (Finset.ne_of_mem_erase hother).symm
      simp [Array.getElem?_setIfInBounds_ne hne]
    rw [Finset.sum_congr rfl fun other hother => by rw [hothers other hother], hself, hnew]
    simp
  · have hseen : seen.setIfInBounds id true = seen := by
      rw [Array.setIfInBounds_def, dif_neg (hsize ▸ hid)]
    have hcalls : calls.getD id [] = [] := by
      simp [Array.getElem?_eq_none (Nat.le_of_not_lt hid)]
    rw [hseen, hcalls, List.length_nil, Nat.zero_add]

/-- At the start of a search everything is ahead. -/
theorem ahead_replicate (calls : Array (List Nat)) :
    ahead calls (Array.replicate calls.size false) = calls.toList.flatten.length := by
  rw [ahead, Finset.sum_range, List.length_flatten, ← Fin.sum_univ_fun_getElem]
  refine Finset.sum_congr rfl fun id _ => ?_
  rw [getD_replicate_false]
  simp

/-- Taking a nonterminal that was seen before off the stack loses nothing. -/
theorem Search.kept_of_skip (h : Search calls target (id :: stack) seen visited)
    (hseen : seen.getD id false = true) {other : Nat}
    (hother : other ∈ visited ∨ other ∈ id :: stack) : other ∈ visited ∨ other ∈ stack := by
  rw [List.mem_cons] at hother
  rcases hother with hvisited | rfl | hstacked
  · exact .inl hvisited
  · exact .inl (h.mem_visited hseen)
  · exact .inr hstacked

/-- Taking a nonterminal off the stack and stacking what it calls loses nothing. -/
theorem kept_of_visit (calls : Array (List Nat)) {other : Nat}
    (hother : other ∈ visited ∨ other ∈ id :: stack) :
    other ∈ insert id visited ∨ other ∈ calls.getD id [] ++ stack := by
  rw [List.mem_cons] at hother
  rcases hother with hvisited | rfl | hstacked
  · exact .inl (.inr hvisited)
  · exact .inl (.inl rfl)
  · exact .inr (List.mem_append_right _ hstacked)

/-- A nonterminal that was seen before is taken off the stack and nothing more. -/
theorem Search.skip (h : Search calls target (id :: stack) seen visited)
    (hseen : seen.getD id false = true) : Search calls target stack seen visited where
  size_seen := h.size_seen
  mem_visited := h.mem_visited
  target_notMem := h.target_notMem
  mem_or_stacked hmem hcall := h.kept_of_skip hseen (h.mem_or_stacked hmem hcall)

/-- A nonterminal that was not seen before has been through once what it calls is stacked. -/
theorem Search.visit (h : Search calls target (id :: stack) seen visited) (hne : id ≠ target) :
    Search calls target (calls.getD id [] ++ stack) (seen.setIfInBounds id true)
      (insert id visited) where
  size_seen := Array.size_setIfInBounds.trans h.size_seen
  mem_visited := by
    intro other hother
    by_cases heq : id = other
    · exact .inl heq.symm
    · rw [Array.getD_eq_getD_getElem?, Array.getElem?_setIfInBounds_ne heq,
        ← Array.getD_eq_getD_getElem?] at hother
      exact .inr (h.mem_visited hother)
  target_notMem := by
    intro h'
    rcases h' with rfl | hmem
    · exact hne rfl
    · exact h.target_notMem hmem
  mem_or_stacked := by
    intro other callee hother hcall
    rcases hother with rfl | hmem
    · exact .inr (List.mem_append_left _ hcall)
    · exact kept_of_visit calls (h.mem_or_stacked hmem hcall)

/-- With nothing left on the stack, what has been visited does not reach the target. -/
theorem Search.not_reflTransGen_of_nil (h : Search calls target [] seen visited)
    (hmem : id ∈ visited) : ¬ Relation.ReflTransGen (LeftCall calls) id target := by
  have hclosed : ∀ {other}, Relation.ReflTransGen (LeftCall calls) id other → other ∈ visited := by
    intro other hreach
    induction hreach with
    | refl => exact hmem
    | tail _ hcall ih => exact (h.mem_or_stacked ih hcall).resolve_right List.not_mem_nil
  intro hreach
  exact h.target_notMem (hclosed hreach)

/-- If a search that has rounds enough comes back empty, then nothing that was visited or stacked
reaches the target. -/
theorem Search.not_reflTransGen (limit : Nat) : ∀ {stack seen visited},
    Search calls target stack seen visited → stack.length + ahead calls seen ≤ limit →
    reaches calls target limit stack seen = false →
    ∀ {id}, id ∈ visited ∨ id ∈ stack → ¬ Relation.ReflTransGen (LeftCall calls) id target := by
  -- each round takes at least one off the stack's length and what is ahead together
  induction limit with
  | zero =>
    intro stack seen visited h hlimit _ id hid
    obtain rfl : stack = [] := List.eq_nil_of_length_eq_zero (by omega)
    exact h.not_reflTransGen_of_nil (hid.resolve_right List.not_mem_nil)
  | succ limit ih =>
    intro stack seen visited h hlimit hfalse id hid
    cases stack with
    | nil => exact h.not_reflTransGen_of_nil (hid.resolve_right List.not_mem_nil)
    | cons first stack =>
      rw [List.length_cons] at hlimit
      unfold reaches at hfalse
      split at hfalse
      · cases hfalse
      · next hne =>
        split at hfalse
        · next hseen => exact ih (h.skip hseen) (by omega) hfalse (h.kept_of_skip hseen hid)
        · next hseen =>
          have hahead := length_add_ahead first h.size_seen (eq_false_of_ne_true hseen)
          have hlimit' : (calls.getD first [] ++ stack).length +
              ahead calls (seen.setIfInBounds first true) ≤ limit := by
            rw [List.length_append]
            omega
          exact ih (h.visit hne) hlimit' hfalse (kept_of_visit calls hid)

/-- A search starts with nothing seen, from what the target itself calls. -/
theorem search_start (calls : Array (List Nat)) (id : Nat) :
    Search calls id (calls.getD id []) (Array.replicate calls.size false) ∅ where
  size_seen := Array.size_replicate
  mem_visited := by
    intro other hseen
    rw [getD_replicate_false] at hseen
    cases hseen
  target_notMem := Set.notMem_empty _
  mem_or_stacked hmem := absurd hmem (Set.notMem_empty _)

/-- A search that is not empty has found a way to the target from something that was stacked. -/
theorem exists_reflTransGen_of_reaches (limit : Nat) : ∀ {stack seen},
    reaches calls target limit stack seen = true →
    ∃ id ∈ stack, Relation.ReflTransGen (LeftCall calls) id target := by
  induction limit with
  | zero => exact fun h => Bool.noConfusion h
  | succ limit ih =>
    intro stack seen h
    cases stack with
    | nil => cases h
    | cons first stack =>
      unfold reaches at h
      split at h
      · next heq => exact ⟨first, List.mem_cons_self, heq ▸ .refl⟩
      split at h
      · obtain ⟨id, hid, hreach⟩ := ih h
        exact ⟨id, List.mem_cons_of_mem _ hid, hreach⟩
      · obtain ⟨id, hid, hreach⟩ := ih h
        rcases List.mem_append.mp hid with hcall | hid
        · exact ⟨first, List.mem_cons_self, .head hcall hreach⟩
        · exact ⟨id, List.mem_cons_of_mem _ hid, hreach⟩

/-- A search that has rounds enough finds the nonterminal it starts from just if that reaches
itself. -/
theorem reaches_iff_transGen {limit : Nat} (hlimit : reachLimit calls ≤ limit) :
    reaches calls id limit (calls.getD id []) (Array.replicate calls.size false) = true ↔
      Relation.TransGen (LeftCall calls) id id := by
  constructor
  · intro h
    obtain ⟨first, hfirst, hreach⟩ := exists_reflTransGen_of_reaches _ h
    exact Relation.TransGen.head'_iff.mpr ⟨first, hfirst, hreach⟩
  · intro hcycle
    obtain ⟨first, hfirst, hreach⟩ := Relation.TransGen.head'_iff.mp hcycle
    have hsearch := search_start calls id
    have hahead := length_add_ahead id hsearch.size_seen (getD_replicate_false _ _)
    have hrounds : (calls.getD id []).length + ahead calls (Array.replicate calls.size false) ≤
        limit := by
      rw [ahead_replicate] at hahead ⊢
      unfold reachLimit at hlimit
      omega
    by_contra hfalse
    exact hsearch.not_reflTransGen _ hrounds (eq_false_of_ne_true hfalse) (.inr hfirst) hreach

theorem isLeftRecursive_iff_transGen :
    isLeftRecursive calls id = true ↔ Relation.TransGen (LeftCall calls) id id :=
  reaches_iff_transGen (Nat.le_refl _)

/-- In a grammar that is told to be without left recursion no nonterminal comes back to itself along
left calls. -/
theorem not_transGen_leftCall {grammar : Grammar} (h : leftRecursive? grammar = none) (id : Nat) :
    ¬ Relation.TransGen (LeftCall (leftCalls grammar)) id id := by
  intro hcycle
  obtain ⟨first, hfirst, -⟩ := Relation.TransGen.head'_iff.mp hcycle
  rw [leftRecursive?, Option.map_eq_none_iff, List.find?_eq_none] at h
  exact h id (List.mem_range.mpr hfirst.lt_size) (isLeftRecursive_iff_transGen.mpr hcycle)

/-- A nonterminal behind nullable symbols only is among those that an alternative may call first. -/
theorem mem_alternativeLeftCalls {known : Array Bool} {before : Alternative Nat} (callee : Nat)
    (after : Alternative Nat) (h : alternativeNullable known before = true) :
    callee ∈ alternativeLeftCalls known (before ++ .nonterminal callee :: after) := by
  induction before with
  | nil => exact List.mem_cons_self
  | cons symbol before ih =>
    simp only [alternativeNullable, List.all_cons, Bool.and_eq_true] at h
    obtain ⟨hsymbol, hbefore⟩ := h
    cases symbol with
    | terminal text => cases hsymbol
    | nonterminal id =>
      unfold symbolNullable at hsymbol
      simp only [List.cons_append, alternativeLeftCalls, hsymbol, if_true]
      exact List.mem_cons_of_mem _ (ih hbefore)

/-- A call that is made before anything is consumed is a left call. -/
theorem leftCall_of_spans {τ : Type} [Token τ] {grammar : Grammar} {input : Array τ}
    {id callee i : Nat} {before after : Alternative Nat}
    (hmem : before ++ .nonterminal callee :: after ∈ grammar.alternatives id)
    (hspans : Spans grammar input before i i) : LeftCall (leftCalls grammar) id callee := by
  have hcallee := mem_alternativeLeftCalls callee after (alternativeNullable_of_spans hspans rfl)
  rw [LeftCall, leftCalls, Array.getD_eq_getD_getElem?, Array.getElem?_map]
  unfold Grammar.alternatives at hmem
  cases halternatives : grammar.numbering.alternatives[id]? with
  | none =>
    rw [halternatives] at hmem
    cases hmem
  | some alternatives =>
    rw [halternatives] at hmem
    exact List.mem_flatMap.mpr ⟨_, hmem, hcallee⟩

/-- What an alternative may call first stands behind nullable symbols only. -/
theorem exists_of_mem_alternativeLeftCalls {known : Array Bool} {symbols : Alternative Nat}
    {callee : Nat} (h : callee ∈ alternativeLeftCalls known symbols) :
    ∃ before after, symbols = before ++ .nonterminal callee :: after ∧
      alternativeNullable known before = true := by
  induction symbols with
  | nil => exact absurd h List.not_mem_nil
  | cons symbol rest ih =>
    cases symbol with
    | terminal text => exact absurd h List.not_mem_nil
    | nonterminal id =>
      rcases List.mem_cons.mp h with rfl | h
      · exact ⟨[], rest, rfl, rfl⟩
      · split at h
        · next hknown =>
          obtain ⟨before, after, rfl, hbefore⟩ := ih h
          refine ⟨.nonterminal id :: before, after, rfl, ?_⟩
          simp only [alternativeNullable, List.all_cons, Bool.and_eq_true]
          exact ⟨hknown, hbefore⟩
        · exact absurd h List.not_mem_nil

/-- The table of left calls has just the calls that can be made before anything is consumed. -/
theorem leftCall_iff {grammar : Grammar} {id callee : Nat} :
    LeftCall (leftCalls grammar) id callee ↔ grammar.CallsFirst id callee := by
  constructor
  · intro h
    rw [LeftCall, leftCalls, Array.getD_eq_getD_getElem?, Array.getElem?_map] at h
    cases halternatives : grammar.numbering.alternatives[id]? with
    | none =>
      rw [halternatives] at h
      exact absurd h List.not_mem_nil
    | some alternatives =>
      rw [halternatives] at h
      obtain ⟨symbols, hmem, hcallee⟩ := List.mem_flatMap.mp h
      obtain ⟨before, after, rfl, hbefore⟩ := exists_of_mem_alternativeLeftCalls hcallee
      refine ⟨before, after, ?_, spans_of_alternativeNullable
        (fun other hother => derives_of_nullable hother _ _) hbefore⟩
      rw [Grammar.alternatives, halternatives]
      exact hmem
  · rintro ⟨before, after, hmem, hspans⟩
    exact leftCall_of_spans hmem hspans

theorem leftCall_eq (grammar : Grammar) : LeftCall (leftCalls grammar) = grammar.CallsFirst := by
  ext id callee
  exact leftCall_iff

theorem size_leftCalls (grammar : Grammar) :
    (leftCalls grammar).size = grammar.nonterminalCount := by
  rw [leftCalls, Array.size_map, Grammar.nonterminalCount]

/-- A nonterminal is told to reach itself along left calls just if it is left-recursive. -/
theorem isLeftRecursive_iff {grammar : Grammar} {id : Nat} :
    isLeftRecursive (leftCalls grammar) id = true ↔ grammar.LeftRecursive id := by
  rw [Grammar.LeftRecursive, ← leftCall_eq]
  exact isLeftRecursive_iff_transGen

/-- A grammar is told to be without left recursion just if it is. -/
theorem leftRecursive?_eq_none_iff {grammar : Grammar} :
    leftRecursive? grammar = none ↔ ∀ id, ¬ grammar.LeftRecursive id := by
  constructor
  · intro h id
    rw [Grammar.LeftRecursive, ← leftCall_eq]
    exact not_transGen_leftCall h id
  · intro h
    rw [leftRecursive?, Option.map_eq_none_iff, List.find?_eq_none]
    exact fun id _ hfound => h id (isLeftRecursive_iff.mp hfound)

end Analysis

end ContextFree
