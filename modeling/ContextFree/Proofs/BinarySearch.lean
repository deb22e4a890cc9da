import Mathlib.Data.Nat.Basic

/-!
# Searching by halves

In a list of ascending numbers a search may look at the middle first and leave out a half each time.
Lean's own `Array.binSearch` does so, and it finds a number just if it is in the list
(`binSearch_isSome_iff`): what is greater stands further on (`lt_of_getElem?_lt`), so the half that
is left out does not have the number.
-/

namespace ContextFree

variable {numbers : Array Nat} {sought : Nat}

/-- In ascending order a greater number stands further on. -/
theorem lt_of_getElem?_lt (hascending : numbers.toList.Pairwise (· < ·)) {i j a b : Nat}
    (hi : numbers[i]? = some a) (hj : numbers[j]? = some b) (hlt : a < b) : i < j := by
  rw [← Array.getElem?_toList, List.getElem?_eq_some_iff] at hi hj
  obtain ⟨hi, rfl⟩ := hi
  obtain ⟨hj, rfl⟩ := hj
  rcases Nat.lt_trichotomy i j with hij | rfl | hji
  · exact hij
  · exact absurd hlt (Nat.lt_irrefl _)
  · have hgt := List.pairwise_iff_getElem.mp hascending j i hj hi hji
    exact absurd hlt (Nat.lt_asymm hgt)

/-- The search between two places finds a number just if it stands there. -/
theorem binSearchAux_isSome_iff (hascending : numbers.toList.Pairwise (· < ·))
    (low : Fin (numbers.size + 1)) (high : Fin numbers.size) (hle : low.1 ≤ high.1) :
    (numbers.binSearchAux (fun a b => decide (a < b)) id sought low high hle).isSome = true ↔
      ∃ place, low.1 ≤ place ∧ place ≤ high.1 ∧ numbers[place]? = some sought := by
  have hbetween : ∀ {low high : Nat}, low ≤ high →
      low ≤ (low + high) / 2 ∧ (low + high) / 2 ≤ high := fun hle => ⟨by omega, by omega⟩
  fun_induction Array.binSearchAux with
  | case1 low high hle middle a hbelow hnext _ ih =>
    -- the middle is too small, and so is all before it
    have hmiddle : numbers[middle]? = some a := Array.getElem?_eq_getElem _
    obtain ⟨hlow, -⟩ := hbetween hle
    refine Iff.trans ih (exists_congr fun place => ?_)
    refine and_congr_left fun hplace => ⟨fun hnext => ?_, fun _ => ?_⟩
    · exact Nat.le_trans hlow (Nat.le_of_succ_le hnext)
    · exact lt_of_getElem?_lt hascending hmiddle hplace.2 (of_decide_eq_true hbelow)
  | case2 low high hle middle a hbelow hlast =>
    have hmiddle : numbers[middle]? = some a := Array.getElem?_eq_getElem _
    refine iff_of_false Bool.false_ne_true fun h => ?_
    obtain ⟨place, -, hhigh, hplace⟩ := h
    have hlt := lt_of_getElem?_lt hascending hmiddle hplace (of_decide_eq_true hbelow)
    exact hlast (Nat.le_trans hlt hhigh)
  | case3 low high hle middle a _ habove hfirst =>
    have hmiddle : numbers[middle]? = some a := Array.getElem?_eq_getElem _
    refine iff_of_false Bool.false_ne_true fun h => ?_
    obtain ⟨place, hlow, -, hplace⟩ := h
    have hlt := lt_of_getElem?_lt hascending hplace hmiddle (of_decide_eq_true habove)
    omega
  | case4 low high hle middle a _ habove hnext _ ih =>
    -- the middle is too great, and so is all behind it
    have hmiddle : numbers[middle]? = some a := Array.getElem?_eq_getElem _
    obtain ⟨-, hhigh⟩ := hbetween hle
    refine Iff.trans ih (exists_congr fun place => and_congr_right fun hlow => ?_)
    refine and_congr_left fun hplace => ?_
    have hlt := lt_of_getElem?_lt hascending hplace hmiddle (of_decide_eq_true habove)
    exact ⟨fun _ => Nat.le_trans (Nat.le_of_lt hlt) hhigh, fun _ => Nat.le_sub_one_of_lt hlt⟩
  | case5 low high hle middle a hbelow habove =>
    have hmiddle : numbers[middle]? = some a := Array.getElem?_eq_getElem _
    obtain ⟨hlow, hhigh⟩ := hbetween hle
    have ha : a = sought := by
      simp only [decide_eq_true_eq, Nat.not_lt] at hbelow habove
      exact Nat.le_antisymm habove hbelow
    exact iff_of_true rfl ⟨middle, hlow, hhigh, ha ▸ hmiddle⟩

/-- Binary search finds a number just if it is in the list. -/
theorem binSearch_isSome_iff (hascending : numbers.toList.Pairwise (· < ·)) :
    (numbers.binSearch sought (· < ·)).isSome = true ↔ sought ∈ numbers.toList := by
  have hplace : sought ∈ numbers.toList ↔ ∃ place : Nat, numbers[place]? = some sought := by
    simp only [List.mem_iff_getElem?, Array.getElem?_toList]
  rw [hplace]
  unfold Array.binSearch
  split
  · next hpos =>
    rw [dif_pos (Nat.zero_le _)]
    refine (binSearchAux_isSome_iff hascending _ _ _).trans (exists_congr fun place => ?_)
    refine ⟨fun h => h.2.2, fun hplace => ⟨Nat.zero_le _, ?_, hplace⟩⟩
    obtain ⟨hlt, -⟩ := Array.getElem?_eq_some_iff.mp hplace
    simp only [ite_self]
    exact Nat.le_sub_one_of_lt hlt
  · next hempty =>
    refine iff_of_false Bool.false_ne_true fun h => ?_
    obtain ⟨place, hplace⟩ := h
    obtain ⟨hlt, -⟩ := Array.getElem?_eq_some_iff.mp hplace
    exact hempty (Nat.lt_of_le_of_lt (Nat.zero_le _) hlt)

end ContextFree
