import ContextFree.Analysis.Settle
import Mathlib.Logic.Function.Iterate

/-!
# Rounds come to rest

A table whose entries only ever improve, and can improve so many times only, comes to rest. How
often it has been improved is told by a measure that goes up with every change and is bounded. With
more rounds than the bound allows for, the last one changed nothing (`round_settle`), and a round
that changes nothing has found nothing to improve at any entry (`improve_settle`).

The limit is not what ends the rounds: where `settle` comes to a table that a round does not change,
rounds without any limit come to the same table (`settle_comesToRest`).
-/

namespace ContextFree.Analysis

/-- With more rounds than there can be changes, what `settle` comes to is left alone by a round, and
has every property that a round keeps. -/
theorem round_settle {α : Type} [BEq α] [LawfulBEq α] (round : α → α) {measure : α → Nat}
    {property : α → Prop} {bound : Nat} (hkept : ∀ table, property table → property (round table))
    (hbound : ∀ table, property table → measure table ≤ bound)
    (hgain : ∀ table, round table = table ∨ measure table < measure (round table)) (limit : Nat) :
    ∀ {table}, property table → bound < measure table + limit →
      property (settle round limit table) ∧
        round (settle round limit table) = settle round limit table := by
  induction limit with
  | zero =>
    -- there have been more changes than the bound allows for
    intro table hproperty hlimit
    have hle := hbound table hproperty
    omega
  | succ limit ih =>
    intro table hproperty hlimit
    simp only [settle]
    split
    · next heq => exact ⟨hproperty, beq_iff_eq.mp heq⟩
    · next hne =>
      have hlt := (hgain table).resolve_left fun heq => hne (beq_iff_eq.mpr heq)
      exact ih (hkept table hproperty) (by omega)

/-- Where each round advances a family of properties by one, `settle` advances it by as many as it may
take rounds. If it stops early, the rounds left out would have changed nothing. -/
theorem settle_reaches {α : Type} [BEq α] [LawfulBEq α] {round : α → α} {property : Nat → α → Prop}
    (hround : ∀ n table, property n table → property (n + 1) (round table)) (limit : Nat) :
    ∀ {n table}, property n table → property (n + limit) (settle round limit table) := by
  induction limit with
  | zero => exact fun hproperty => hproperty
  | succ limit ih =>
    intro n table hproperty
    simp only [settle]
    split
    · next heq =>
      have hsame : ∀ more, property (n + more) table := by
        intro more
        induction more with
        | zero => exact hproperty
        | succ more ih => exact beq_iff_eq.mp heq ▸ hround _ _ ih
      exact hsame (limit + 1)
    · rw [Nat.add_comm limit, ← Nat.add_assoc]
      exact ih (hround n table hproperty)

/-- Rounds that are repeated until one changes nothing come to an end: from `first` each of them
changes something, until `last` is there. -/
def ComesToRest {α : Type} (round : α → α) (first last : α) : Prop :=
  ∃ rounds, round^[rounds] first = last ∧ round last = last ∧
    ∀ earlier < rounds, round (round^[earlier] first) ≠ round^[earlier] first

/-- What `settle` comes to is what rounds without a limit come to, if a round does not change it. -/
theorem settle_comesToRest {α : Type} [BEq α] [LawfulBEq α] {round : α → α} (limit : Nat) :
    ∀ {table}, round (settle round limit table) = settle round limit table →
      ComesToRest round table (settle round limit table) := by
  induction limit with
  | zero => exact fun hrest => ⟨0, rfl, hrest, fun _ hlt => absurd hlt (Nat.not_lt_zero _)⟩
  | succ limit ih =>
    intro table hrest
    simp only [settle] at hrest ⊢
    split at hrest
    · next heq =>
      rw [if_pos heq]
      exact ⟨0, rfl, hrest, fun _ hlt => absurd hlt (Nat.not_lt_zero _)⟩
    · next hne =>
      rw [if_neg hne]
      obtain ⟨rounds, hlast, -, hchanges⟩ := ih hrest
      refine ⟨rounds + 1, hlast, hrest, fun earlier hlt => ?_⟩
      cases earlier with
      | zero => exact fun heq => hne (beq_iff_eq.mpr heq)
      | succ earlier => exact hchanges earlier (Nat.lt_of_succ_lt_succ hlt)

variable {α : Type} {improve : Array α → Nat → Array α}

/-- A look at one entry after the other keeps what each look keeps. -/
theorem foldl_improve_kept {property : Array α → Prop}
    (hkept : ∀ table id, property table → property (improve table id))
    (ids : List Nat) : ∀ {table}, property table → property (ids.foldl improve table) := by
  induction ids with
  | nil => exact fun hproperty => hproperty
  | cons first rest ih => exact fun hproperty => ih (hkept _ first hproperty)

/-- Looks that do not raise the measure change nothing, all together and each of them. -/
theorem foldl_improve_gain {measure : Array α → Nat}
    (hgain : ∀ table id, improve table id = table ∨ measure table < measure (improve table id))
    (ids : List Nat) : ∀ table,
      (ids.foldl improve table = table ∧ ∀ id ∈ ids, improve table id = table) ∨
        measure table < measure (ids.foldl improve table) := by
  induction ids with
  | nil => exact fun table => .inl ⟨rfl, List.forall_mem_nil _⟩
  | cons first rest ih =>
    intro table
    rw [List.foldl_cons]
    rcases hgain table first with hfirst | hfirst
    · rw [hfirst]
      refine (ih table).imp_left fun ⟨hfold, hall⟩ => ⟨hfold, ?_⟩
      intro id hid
      rcases List.mem_cons.mp hid with rfl | hid
      · exact hfirst
      · exact hall id hid
    · right
      rcases ih (improve table first) with ⟨hfold, -⟩ | hrest
      · rwa [hfold]
      · exact Nat.lt_trans hfirst hrest

/-- With more rounds over a table than there can be improvements, nothing is left to be improved. -/
theorem improve_settle [BEq α] [LawfulBEq α] (property : Array α → Prop) (measure : Array α → Nat)
    (bound : Nat) {count limit : Nat} {table : Array α}
    (hkept : ∀ table id, property table → property (improve table id))
    (hbound : ∀ table, property table → measure table ≤ bound)
    (hgain : ∀ table id, improve table id = table ∨ measure table < measure (improve table id))
    (hproperty : property table) (hlimit : bound < measure table + limit) :
    property (settle (sweep count improve) limit table) ∧ ∀ id < count,
      improve (settle (sweep count improve) limit table) id =
        settle (sweep count improve) limit table := by
  obtain ⟨hsettled, hround⟩ := round_settle (sweep count improve)
    (fun _ => foldl_improve_kept hkept _) hbound
    (fun table => (foldl_improve_gain hgain _ table).imp_left And.left) limit hproperty hlimit
  refine ⟨hsettled, fun id hid => ?_⟩
  rcases foldl_improve_gain hgain (List.range count)
    (settle (sweep count improve) limit table) with ⟨-, hall⟩ | hlt
  · exact hall id (List.mem_range.mpr hid)
  · exact absurd hlt (by rw [← sweep, hround]; exact Nat.lt_irrefl _)

end ContextFree.Analysis
