import ContextFree.Proofs.Analysis.LeftRecursion
import Mathlib.Data.List.Perm.Basic

/-!
# A search comes to its end in any order

`Analysis.reaches` always takes the first nonterminal off the stack, and stops at a limit. Neither
matters. With a higher limit the answer is the same (`reaches_of_reachLimit_le`). `Advances` leaves
open which of the stacked nonterminals is taken, and knows no limit: each round still takes something
off the length of the stack and what is ahead together, so a search comes to an end, and the end tells
the same whatever the order was (`decides_isLeftRecursive`).
-/

namespace ContextFree.Analysis

variable {calls : Array (List Nat)} {target id : Nat} {stack stack' : List Nat}
  {seen seen' : Array Bool} {visited : Set Nat}

/-- One round of a search: some nonterminal that is not the target is taken off the stack, and if it
was not seen before, what it calls is stacked, in whatever places. -/
inductive Advances (calls : Array (List Nat)) (target : Nat) :
    List Nat × Array Bool → List Nat × Array Bool → Prop where
  | skip {stack rest : List Nat} {seen : Array Bool} {id : Nat} :
      stack.Perm (id :: rest) → id ≠ target → seen.getD id false = true →
      Advances calls target (stack, seen) (rest, seen)
  | visit {stack rest stack' : List Nat} {seen : Array Bool} {id : Nat} :
      stack.Perm (id :: rest) → id ≠ target → seen.getD id false = false →
      stack'.Perm (calls.getD id [] ++ rest) →
      Advances calls target (stack, seen) (stack', seen.setIfInBounds id true)

/-- Any number of rounds. -/
def Searches (calls : Array (List Nat)) (target : Nat) :
    List Nat × Array Bool → List Nat × Array Bool → Prop :=
  Relation.ReflTransGen (Advances calls target)

/-- A search comes to an end whatever is taken off the stack, and its answer is the same at each end:
that the target was stacked, or that nothing is left. -/
structure Decides (calls : Array (List Nat)) (target : Nat) (stack : List Nat) (seen : Array Bool)
    (answer : Bool) : Prop where
  /-- There is no search without end. -/
  ends : Acc (fun later earlier => Advances calls target earlier later) (stack, seen)
  /-- Whatever else is stacked can be taken. -/
  goes_on : ∀ {stack' : List Nat} {seen' : Array Bool} {id : Nat},
    Searches calls target (stack, seen) (stack', seen') → id ∈ stack' → id ≠ target →
    ∃ next, Advances calls target (stack', seen') next
  found : ∀ {stack' : List Nat} {seen' : Array Bool},
    Searches calls target (stack, seen) (stack', seen') → target ∈ stack' → answer = true
  exhausted : ∀ {seen' : Array Bool},
    Searches calls target (stack, seen) ([], seen') → answer = false

/-- Whatever is stacked can be taken unless it is the target. -/
theorem exists_advances (seen : Array Bool) (hmem : id ∈ stack) (hne : id ≠ target) :
    ∃ next, Advances calls target (stack, seen) next := by
  have hperm := List.perm_cons_erase hmem
  cases hseen : seen.getD id false with
  | false => exact ⟨_, .visit hperm hne hseen (.refl _)⟩
  | true => exact ⟨_, .skip hperm hne hseen⟩

/-- A search does not depend on how the stack is ordered. -/
theorem Search.perm (h : Search calls target stack seen visited) (hperm : stack.Perm stack') :
    Search calls target stack' seen visited :=
  { h with mem_or_stacked := fun hmem hcall =>
      (h.mem_or_stacked hmem hcall).imp_right hperm.mem_iff.mp }

/-- A round keeps a search going: nothing that was visited or stacked is lost, and less is left to
be done. -/
theorem Search.advances (h : Search calls target stack seen visited)
    (hadvances : Advances calls target (stack, seen) (stack', seen')) :
    ∃ visited', Search calls target stack' seen' visited' ∧
      (∀ id, id ∈ visited ∨ id ∈ stack → id ∈ visited' ∨ id ∈ stack') ∧
      stack'.length + ahead calls seen' < stack.length + ahead calls seen := by
  cases hadvances with
  | @skip _ rest _ first hperm hne hseen =>
    have h' := h.perm hperm
    refine ⟨visited, h'.skip hseen, fun id hid => ?_, ?_⟩
    · exact h'.kept_of_skip hseen (hid.imp_right hperm.mem_iff.mp)
    · rw [hperm.length_eq, List.length_cons]
      omega
  | @visit _ rest _ _ first hperm hne hseen hperm' =>
    have h' := (h.perm hperm).visit hne
    refine ⟨insert first visited, h'.perm hperm'.symm, fun id hid => ?_, ?_⟩
    · have hkept := kept_of_visit calls (hid.imp_right hperm.mem_iff.mp)
      exact hkept.imp_right hperm'.mem_iff.mpr
    · have hahead := length_add_ahead first h.size_seen hseen
      rw [hperm.length_eq, hperm'.length_eq, List.length_cons, List.length_append]
      omega

/-- There is no search without end, as each round leaves less to be done. -/
theorem Search.acc (h : Search calls target stack seen visited) :
    Acc (fun later earlier => Advances calls target earlier later) (stack, seen) := by
  induction hmeasure : stack.length + ahead calls seen using Nat.strong_induction_on
    generalizing stack seen visited with
  | _ measure ih =>
    refine ⟨_, fun later hadvances => ?_⟩
    obtain ⟨stack', seen'⟩ := later
    obtain ⟨visited', h', -, hlt⟩ := h.advances hadvances
    exact ih _ (hmeasure ▸ hlt) h' rfl

/-- A search is still one after any number of rounds, and has lost nothing. -/
theorem Search.searches (h : Search calls target stack seen visited) {state : List Nat × Array Bool}
    (hsearches : Searches calls target (stack, seen) state) :
    ∃ visited', Search calls target state.1 state.2 visited' ∧
      ∀ id, id ∈ visited ∨ id ∈ stack → id ∈ visited' ∨ id ∈ state.1 := by
  induction hsearches with
  | refl => exact ⟨visited, h, fun _ hid => hid⟩
  | tail _ hadvances ih =>
    obtain ⟨visited', h', hkept⟩ := ih
    obtain ⟨visited'', h'', hkept', -⟩ := h'.advances hadvances
    exact ⟨visited'', h'', fun id hid => hkept' id (hkept id hid)⟩

/-- Whatever comes to be stacked is reached from something that was stacked at the start. -/
theorem Searches.exists_reflTransGen {state : List Nat × Array Bool}
    (h : Searches calls target (stack, seen) state) :
    ∀ id ∈ state.1, ∃ first ∈ stack, Relation.ReflTransGen (LeftCall calls) first id := by
  induction h with
  | refl => exact fun id hid => ⟨id, hid, .refl⟩
  | tail _ hadvances ih =>
    intro id hid
    cases hadvances with
    | skip hperm => exact ih id (hperm.mem_iff.mpr (List.mem_cons_of_mem _ hid))
    | visit hperm _ _ hperm' =>
      rcases List.mem_append.mp (hperm'.mem_iff.mp hid) with hcall | hrest
      · obtain ⟨first, hfirst, hreach⟩ := ih _ (hperm.mem_iff.mpr List.mem_cons_self)
        exact ⟨first, hfirst, hreach.tail hcall⟩
      · exact ih id (hperm.mem_iff.mpr (List.mem_cons_of_mem _ hrest))

/-- The limit of a search is not what decides it: with more rounds it would tell the same. -/
theorem reaches_of_reachLimit_le {limit : Nat} (hlimit : reachLimit calls ≤ limit) :
    reaches calls id limit (calls.getD id []) (Array.replicate calls.size false) =
      isLeftRecursive calls id := by
  rw [Bool.eq_iff_iff, reaches_iff_transGen hlimit, isLeftRecursive_iff_transGen]

/-- The search for a nonterminal among what it calls comes to an end in any order, and its answer is
always the one that is given. -/
theorem decides_isLeftRecursive (calls : Array (List Nat)) (id : Nat) :
    Decides calls id (calls.getD id []) (Array.replicate calls.size false)
      (isLeftRecursive calls id) where
  ends := (search_start calls id).acc
  goes_on _ := exists_advances _
  found := by
    intro stack' seen' hsearches hmem
    obtain ⟨first, hfirst, hreach⟩ := hsearches.exists_reflTransGen id hmem
    apply isLeftRecursive_iff_transGen.mpr
    exact Relation.TransGen.head'_iff.mpr ⟨first, hfirst, hreach⟩
  exhausted := by
    intro seen' hsearches
    obtain ⟨visited, hsearch, hkept⟩ := (search_start calls id).searches hsearches
    by_contra htrue
    have hcycle := isLeftRecursive_iff_transGen.mp (eq_true_of_ne_false htrue)
    obtain ⟨first, hfirst, hreach⟩ := Relation.TransGen.head'_iff.mp hcycle
    have hvisited := (hkept first (.inr hfirst)).resolve_right List.not_mem_nil
    exact hsearch.not_reflTransGen_of_nil hvisited hreach

end ContextFree.Analysis
