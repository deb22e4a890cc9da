import ContextFree.Location
import Mathlib.Data.List.Forall2

/-!
# When results are values

A computation with errors comes to a value just if each of its steps does. For a list of results
there are two ways to ask for all values: in turn, where the first error ends it (`mapM_eq_ok_iff`,
`mapM_eq_error_iff`), and side by side, where all errors are kept (`errorsOf_map_eq_nil_iff`). Both
say the same of the values.
-/

namespace ContextFree

variable {ε α β γ : Type}

theorem map_eq_ok_iff {f : α → β} {result : Except ε α} {value : β} :
    result.map f = .ok value ↔ ∃ a, result = .ok a ∧ f a = value := by
  cases result <;> simp [Except.map]

theorem map_eq_error_iff {f : α → β} {result : Except ε α} {error : ε} :
    result.map f = .error error ↔ result = .error error := by
  cases result <;> simp [Except.map]

theorem map_map (f : α → β) (g : β → γ) (result : Except ε α) :
    (result.map f).map g = result.map (g ∘ f) := by
  cases result <;> rfl

theorem map_nil_append (result : Except ε (List α)) : result.map ([] ++ ·) = result := by
  cases result <;> rfl

theorem bind_eq_ok_iff {f : α → Except ε β} {result : Except ε α} {value : β} :
    result >>= f = .ok value ↔ ∃ a, result = .ok a ∧ f a = .ok value := by
  cases result <;> simp [bind, Except.bind]

/-! ## Lists of results -/

variable {R : α → β → Prop} {xs : List α} {ys : List β}

theorem exists_of_mem_left (h : List.Forall₂ R xs ys) {x : α} (hx : x ∈ xs) :
    ∃ y ∈ ys, R x y := by
  induction h with
  | nil => exact absurd hx List.not_mem_nil
  | cons hfirst _ ih =>
    rcases List.mem_cons.mp hx with rfl | hx
    · exact ⟨_, List.mem_cons_self, hfirst⟩
    · obtain ⟨y, hy, hR⟩ := ih hx
      exact ⟨y, List.mem_cons_of_mem _ hy, hR⟩

theorem exists_of_mem_right (h : List.Forall₂ R xs ys) {y : β} (hy : y ∈ ys) :
    ∃ x ∈ xs, R x y :=
  exists_of_mem_left h.flip hy

/-- Choices for each of a list make a list of choices. -/
theorem exists_forall₂ (h : ∀ x ∈ xs, ∃ y, R x y) : ∃ ys, List.Forall₂ R xs ys := by
  induction xs with
  | nil => exact ⟨[], .nil⟩
  | cons x xs ih =>
    obtain ⟨⟨y, hfirst⟩, hothers⟩ := List.forall_mem_cons.mp h
    obtain ⟨ys, hys⟩ := ih hothers
    exact ⟨y :: ys, .cons hfirst hys⟩

theorem mapM_congr {f g : α → Except ε β} (h : ∀ x ∈ xs, f x = g x) : xs.mapM f = xs.mapM g := by
  induction xs with
  | nil => rfl
  | cons x xs ih =>
    obtain ⟨hfirst, hothers⟩ := List.forall_mem_cons.mp h
    rw [List.mapM_cons, List.mapM_cons, hfirst, ih hothers]

/-- Results in turn are values just if each is. -/
theorem mapM_eq_ok_iff {f : α → Except ε β} {values : List β} :
    xs.mapM f = .ok values ↔ List.Forall₂ (fun x value => f x = .ok value) xs values := by
  induction xs generalizing values with
  | nil =>
    rw [List.mapM_nil, List.forall₂_nil_left_iff]
    exact ⟨fun h => (Except.ok.inj h).symm, fun h => congrArg Except.ok h.symm⟩
  | cons x xs ih =>
    simp only [List.mapM_cons, bind_eq_ok_iff, ih, List.forall₂_cons_left_iff]
    constructor
    · rintro ⟨value, hvalue, others, hothers, hcons⟩
      exact ⟨value, others, hvalue, hothers, (Except.ok.inj hcons).symm⟩
    · rintro ⟨value, others, hvalue, hothers, rfl⟩
      exact ⟨value, hvalue, others, hothers, rfl⟩

/-- Results in turn come to the error of the first that is one. -/
theorem mapM_eq_error_iff {xs : List α} {f : α → Except ε β} {error : ε} :
    xs.mapM f = .error error ↔ ∃ (place : Nat) (x : α), xs[place]? = some x ∧ f x = .error error ∧
      ∀ earlier < place, ∀ y, xs[earlier]? = some y → ∃ value, f y = .ok value := by
  induction xs with
  | nil => simp [pure, Except.pure]
  | cons x xs ih =>
    rw [List.mapM_cons]
    cases hx : f x with
    | error first =>
      simp only [bind, Except.bind, Except.error.injEq]
      constructor
      · rintro rfl
        exact ⟨0, x, rfl, hx, fun _ hlt => absurd hlt (Nat.not_lt_zero _)⟩
      · rintro ⟨place, y, hy, herror, hearlier⟩
        cases place with
        | zero =>
          obtain rfl := Option.some.inj hy
          rw [hx] at herror
          exact Except.error.inj herror
        | succ place =>
          obtain ⟨value, hvalue⟩ := hearlier 0 (Nat.succ_pos _) x rfl
          rw [hx] at hvalue
          cases hvalue
    | ok value =>
      have hrest : (do let v ← Except.ok value; let vs ← xs.mapM f; pure (v :: vs)) =
          (.error error : Except ε (List β)) ↔ xs.mapM f = .error error := by
        cases xs.mapM f <;> simp [bind, Except.bind, pure, Except.pure]
      rw [hrest, ih]
      constructor
      · rintro ⟨place, y, hy, herror, hearlier⟩
        refine ⟨place + 1, y, hy, herror, fun earlier hlt z hz => ?_⟩
        cases earlier with
        | zero => exact ⟨value, Option.some.inj hz ▸ hx⟩
        | succ earlier => exact hearlier earlier (Nat.lt_of_succ_lt_succ hlt) z hz
      · rintro ⟨place, y, hy, herror, hearlier⟩
        cases place with
        | zero =>
          obtain rfl := Option.some.inj hy
          cases hx.symm.trans herror
        | succ place =>
          exact ⟨place, y, hy, herror,
            fun earlier hlt => hearlier (earlier + 1) (Nat.succ_lt_succ hlt)⟩

theorem mem_valuesOf_iff {results : List (Except ε α)} {value : α} :
    value ∈ valuesOf results ↔ .ok value ∈ results := by
  rw [valuesOf, List.mem_filterMap]
  constructor
  · intro h
    obtain ⟨result, hresult, hvalue⟩ := h
    cases result with
    | error => cases hvalue
    | ok => exact Option.some.inj hvalue ▸ hresult
  · exact fun h => ⟨_, h, rfl⟩

theorem mem_errorsOf_iff {results : List (Except ε α)} {error : ε} :
    error ∈ errorsOf results ↔ .error error ∈ results := by
  rw [errorsOf, List.mem_filterMap]
  constructor
  · intro h
    obtain ⟨result, hresult, herror⟩ := h
    cases result with
    | error => exact Option.some.inj herror ▸ hresult
    | ok => cases herror
  · exact fun h => ⟨_, h, rfl⟩

/-- Results side by side have no errors just if each is a value. -/
theorem errorsOf_map_eq_nil_iff {f : α → Except ε β} {values : List β} :
    errorsOf (xs.map f) = [] ∧ valuesOf (xs.map f) = values ↔
      List.Forall₂ (fun x value => f x = .ok value) xs values := by
  induction xs generalizing values with
  | nil =>
    rw [List.forall₂_nil_left_iff]
    exact ⟨fun h => h.2.symm, fun h => ⟨rfl, h.symm⟩⟩
  | cons x xs ih =>
    simp only [List.forall₂_cons_left_iff, ← ih]
    cases h : f x with
    | error error => simp [errorsOf, h]
    | ok value =>
      simp only [errorsOf, valuesOf, List.map_cons, h, List.filterMap_cons]
      constructor
      · rintro ⟨herrors, rfl⟩
        exact ⟨value, _, rfl, ⟨herrors, rfl⟩, rfl⟩
      · rintro ⟨value', others, hvalue, ⟨herrors, rfl⟩, rfl⟩
        obtain rfl := Except.ok.inj hvalue
        exact ⟨herrors, rfl⟩

/-- Results without errors are all values. -/
theorem errorsOf_eq_nil_iff {results : List (Except ε α)} {values : List α} :
    errorsOf results = [] ∧ valuesOf results = values ↔ results = values.map .ok := by
  have hvalues : errorsOf (results.map id) = [] ∧ valuesOf (results.map id) = values ↔ _ :=
    errorsOf_map_eq_nil_iff
  rw [List.map_id] at hvalues
  rw [hvalues, ← List.forall₂_eq_eq_eq, List.forall₂_map_right_iff]
  rfl

end ContextFree
