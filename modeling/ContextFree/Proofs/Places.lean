import Mathlib.Data.List.Basic
import Mathlib.Data.List.Nodup

/-!
# What stands where in a list

`atPlaces f xs` is what `f` finds in a list, each with its place. So places are strictly ascending
in it (`pairwise_atPlaces`), and what is found at a place is told by the element there
(`mem_atPlaces_iff`). Both together say which list it is.

`List.eraseDups` is what comes up in a list, each element where it comes up first. So it grows at its
end when the list does (`eraseDups_concat`, `eraseDups_mono`), and so does what `f` finds in a list
that grows (`eraseDups_filterMap_of_none`, `eraseDups_filterMap_of_some`).
-/

namespace ContextFree

variable {α β γ : Type} {f : α → Option β} {xs : List α} {place : Nat} {value : β}

/-- What is found in a list, with the places of it. -/
def atPlaces (f : α → Option β) (xs : List α) : List (Nat × β) :=
  xs.zipIdx.filterMap fun element => (f element.1).map (element.2, ·)

theorem mem_atPlaces_iff : (place, value) ∈ atPlaces f xs ↔
    ∃ x, xs[place]? = some x ∧ f x = some value := by
  simp only [atPlaces, List.mem_filterMap, Prod.exists, List.mk_mem_zipIdx_iff_getElem?,
    Option.map_eq_some_iff, Prod.mk.injEq]
  constructor
  · rintro ⟨x, i, hx, found, hfound, rfl, rfl⟩
    exact ⟨x, hx, hfound⟩
  · rintro ⟨x, hx, hvalue⟩
    exact ⟨x, place, hx, value, hvalue, rfl, rfl⟩

theorem mem_drop_zipIdx_iff {n : Nat} {x : α} :
    (x, place) ∈ xs.zipIdx.drop n ↔ xs[place]? = some x ∧ n ≤ place := by
  simp only [List.mem_iff_getElem?, List.getElem?_drop, List.getElem?_zipIdx,
    Option.map_eq_some_iff, Prod.mk.injEq]
  constructor
  · rintro ⟨i, y, hy, rfl, rfl⟩
    exact ⟨by simpa using hy, by omega⟩
  · rintro ⟨hx, hle⟩
    obtain ⟨i, rfl⟩ := Nat.exists_eq_add_of_le hle
    exact ⟨i, x, hx, rfl, by omega⟩

theorem pairwise_zipIdx (xs : List α) (n : Nat) : (xs.zipIdx n).Pairwise (·.2 < ·.2) := by
  rw [← List.pairwise_map, List.zipIdx_map_snd]
  exact List.pairwise_lt_range' 1

theorem pairwise_atPlaces (f : α → Option β) (xs : List α) :
    (atPlaces f xs).Pairwise (·.1 < ·.1) := by
  refine (pairwise_zipIdx xs 0).filterMap _ ?_
  intro element element' hlt found hfound found' hfound'
  obtain ⟨_, -, rfl⟩ := Option.map_eq_some_iff.mp hfound
  obtain ⟨_, -, rfl⟩ := Option.map_eq_some_iff.mp hfound'
  exact hlt

theorem map_snd_atPlaces (f : α → Option β) (xs : List α) :
    (atPlaces f xs).map Prod.snd = xs.filterMap f := by
  conv_rhs => rw [← List.zipIdx_map_fst 0 xs, List.filterMap_map]
  rw [atPlaces, List.map_filterMap]
  refine List.filterMap_congr fun element _ => ?_
  simp only [Option.map_map, Function.comp_def, Option.map_id_fun', id_eq]

theorem flatMap_zipIdx_fst (f : α → List γ) (xs : List α) :
    (xs.zipIdx.flatMap fun element => f element.1) = xs.flatMap f := by
  conv_rhs => rw [← List.zipIdx_map_fst 0 xs, List.flatMap_map]

/-- Only what is found counts, not where it is found in. -/
theorem atPlaces_congr {ys : List α} (h : xs.map f = ys.map f) : atPlaces f xs = atPlaces f ys := by
  have hmap : ∀ zs : List α, atPlaces f zs = atPlaces id (zs.map f) := by
    intro zs
    simp only [atPlaces, List.zipIdx_map, List.filterMap_map]
    rfl
  rw [hmap, hmap, h]

/-- What stands at a place of a list stands there when the list goes on. -/
theorem getElem?_mono {ys : List α} {x : α} (h : xs <+: ys) (hx : xs[place]? = some x) :
    ys[place]? = some x := by
  obtain ⟨rest, rfl⟩ := h
  rwa [List.getElem?_append_left (List.getElem?_eq_some_iff.mp hx).1]

/-! ## What comes up first -/

section Firsts

variable [BEq α] [LawfulBEq α]

theorem nodup_eraseDups (xs : List α) : xs.eraseDups.Nodup := by
  induction hlength : xs.length using Nat.strongRecOn generalizing xs with
  | ind _ ih =>
    cases xs with
    | nil => exact .nil
    | cons first rest =>
      rw [List.eraseDups_cons, List.nodup_cons, List.mem_eraseDups, List.mem_filter]
      refine ⟨fun h => by simp at h, ih _ ?_ _ rfl⟩
      rw [← hlength, List.length_cons]
      exact Nat.lt_succ_of_le (List.length_filter_le _ _)

/-- An element at the end is left out if it has come up before. -/
theorem eraseDups_concat [DecidableEq α] (xs : List α) (x : α) :
    (xs ++ [x]).eraseDups = if x ∈ xs then xs.eraseDups else xs.eraseDups ++ [x] := by
  rw [List.eraseDups_append]
  by_cases hmem : x ∈ xs <;> simp [List.removeAll, hmem, List.eraseDups_cons]

/-- What has come up first stays there. -/
theorem eraseDups_mono {ys : List α} (h : xs <+: ys) : xs.eraseDups <+: ys.eraseDups := by
  obtain ⟨rest, rfl⟩ := h
  rw [List.eraseDups_append]
  exact List.prefix_append _ _

end Firsts

section Found

variable [BEq β] {x : α}

/-- An element in which nothing is found brings up nothing. -/
theorem eraseDups_filterMap_of_none (h : f x = none) :
    ((xs ++ [x]).filterMap f).eraseDups = (xs.filterMap f).eraseDups := by
  rw [List.filterMap_append, List.filterMap_cons_none h, List.filterMap_nil, List.append_nil]

/-- What is found in an element at the end is left out if it has been found before. -/
theorem eraseDups_filterMap_of_some [LawfulBEq β] [DecidableEq β] (h : f x = some value) :
    ((xs ++ [x]).filterMap f).eraseDups =
      if value ∈ xs.filterMap f then (xs.filterMap f).eraseDups
      else (xs.filterMap f).eraseDups ++ [value] := by
  rw [List.filterMap_append, List.filterMap_cons_some h, List.filterMap_nil, eraseDups_concat]

end Found

end ContextFree
