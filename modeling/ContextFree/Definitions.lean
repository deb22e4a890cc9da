/-!
# Named definitions

`Definitions β` gives names to values and remembers the order in which the names first came up.
Altering a name that is already there leaves it in its place, so the order of a list of
definitions is the order of its first mentions, and a name's place in it is a stable number.

Two lists of definitions are `==` when they give the same names the same values, in whatever
order. Equality of structures, `=`, tells orders apart.
-/

namespace ContextFree

/-- Values by name, in the order in which the names were first defined. -/
structure Definitions (β : Type) where
  entries : List (String × β)
  /-- A name is defined once. -/
  names_nodup : (entries.map Prod.fst).Nodup

namespace Definitions

variable {β γ : Type}

/-- No definitions. -/
def empty : Definitions β :=
  ⟨[], .nil⟩

/-- The defined names, in order. -/
def names (defs : Definitions β) : List String :=
  defs.entries.map Prod.fst

/-- How many names are defined. -/
def size (defs : Definitions β) : Nat :=
  defs.entries.length

/-- What a name stands for, if it is defined. -/
def get? (defs : Definitions β) (name : String) : Option β :=
  defs.entries.lookup name

/-- Whether a name is defined. -/
def contains (defs : Definitions β) (name : String) : Bool :=
  defs.names.contains name

/-- The place of a name in the order of definition. -/
def indexOf? (defs : Definitions β) (name : String) : Option Nat :=
  defs.names.idxOf? name

/-- The entries with one name's value changed, or with the name added at the end. The change is
told the value so far. -/
def alterEntries (name : String) (change : Option β → β) :
    List (String × β) → List (String × β)
  | [] => [(name, change none)]
  | (key, value) :: rest =>
    if key = name then (key, change (some value)) :: rest
    else (key, value) :: alterEntries name change rest

/-- Altering never moves a name and adds at most the one it was asked for. -/
theorem map_fst_alterEntries (name : String) (change : Option β → β)
    (entries : List (String × β)) :
    (alterEntries name change entries).map Prod.fst =
      if name ∈ entries.map Prod.fst then entries.map Prod.fst
      else entries.map Prod.fst ++ [name] := by
  induction entries with
  | nil => simp [alterEntries]
  | cons entry rest ih =>
    obtain ⟨key, value⟩ := entry
    by_cases h : key = name
    · simp [alterEntries, h]
    · have h' : ¬ name = key := fun e => h e.symm
      by_cases hm : name ∈ rest.map Prod.fst
      · simp only [hm, if_true] at ih
        simp [alterEntries, h, ih, -List.mem_map, hm]
      · simp only [hm, if_false] at ih
        simp [alterEntries, h, h', ih, -List.mem_map, hm]

/-- The definitions with one name's value changed, or with the name added at the end. -/
def alter (defs : Definitions β) (name : String) (change : Option β → β) : Definitions β where
  entries := alterEntries name change defs.entries
  names_nodup := by
    rw [map_fst_alterEntries]
    split
    · exact defs.names_nodup
    · next h =>
      refine List.nodup_append.mpr ⟨defs.names_nodup, List.nodup_cons.mpr ⟨by simp, .nil⟩, ?_⟩
      intro a ha b hb e
      exact h (List.mem_singleton.mp hb ▸ e ▸ ha)

/-- The definitions with a name standing for `value` from now on. -/
def insert (defs : Definitions β) (name : String) (value : β) : Definitions β :=
  defs.alter name fun _ => value

/-- The definitions of a list, a later mention of a name replacing an earlier one. -/
def ofList (entries : List (String × β)) : Definitions β :=
  entries.foldl (fun defs entry => defs.insert entry.1 entry.2) empty

/-- The definitions with every value changed alike. -/
def map (f : β → γ) (defs : Definitions β) : Definitions γ where
  entries := defs.entries.map fun entry => (entry.1, f entry.2)
  names_nodup := by
    have h : (defs.entries.map fun entry => (entry.1, f entry.2)).map Prod.fst =
        defs.entries.map Prod.fst := by simp
    rw [h]
    exact defs.names_nodup

/-- Whether two lists of definitions give the same names the same values. -/
def agree [BEq β] (a b : Definitions β) : Bool :=
  a.size == b.size && a.entries.all fun entry => b.get? entry.1 == some entry.2

instance [BEq β] : BEq (Definitions β) :=
  ⟨agree⟩

end Definitions

end ContextFree
