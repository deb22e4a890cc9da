import ContextFree.Definitions
import ContextFree.Proofs.Places
import Mathlib.Data.List.Induction
import Mathlib.Data.List.Perm.Subperm

/-!
# Definitions that add up

`gather` is the outcome of adding up lists by name: each name once, where it comes up first, with
everything that is given for it, in order. Adding a list under a name, with `alterEntries`, takes
the outcome for some lists to that for one list more (`gather_concat`), so a fold that starts from
nothing comes to the outcome for all of them.
-/

namespace ContextFree

variable {β γ : Type}

theorem Definitions.ext {a b : Definitions β} (h : a.entries = b.entries) : a = b := by
  cases a
  cases b
  obtain rfl := h
  rfl

theorem Definitions.contains_iff {defs : Definitions β} {name : String} :
    defs.contains name = true ↔ name ∈ defs.entries.map Prod.fst :=
  List.contains_iff_mem

theorem Definitions.names_map (f : β → γ) (defs : Definitions β) :
    (defs.map f).names = defs.names := by
  rw [names, map, List.map_map]
  rfl

theorem Definitions.contains_map (f : β → γ) (defs : Definitions β) (name : String) :
    (defs.map f).contains name = defs.contains name := by
  rw [contains, contains, names_map]

/-- A name stands for the value of its entry. -/
theorem Definitions.get?_eq_some_iff {defs : Definitions β} {name : String} {value : β} :
    defs.get? name = some value ↔ (name, value) ∈ defs.entries := by
  rw [get?]
  have hnodup := defs.names_nodup
  generalize defs.entries = entries at hnodup ⊢
  induction entries with
  | nil => simp
  | cons entry rest ih =>
    obtain ⟨key, first⟩ := entry
    obtain ⟨hkey, hrest⟩ := List.nodup_cons.mp hnodup
    rw [List.lookup_cons, List.mem_cons, Prod.mk.injEq]
    by_cases heq : name = key
    · subst heq
      have hnone : (name, value) ∉ rest :=
        fun hmem => hkey (List.mem_map.mpr ⟨_, hmem, rfl⟩)
      simp [hnone, eq_comm]
    · have hkey' : (name == key) = false := beq_false_of_ne heq
      simp [hkey', heq, ih hrest]

/-- Definitions are `==` to the same with each value changed just if no change makes a difference. -/
theorem Definitions.map_beq_iff [BEq β] [LawfulBEq β] {f : β → β} {defs : Definitions β} :
    (defs.map f == defs) = true ↔ ∀ entry ∈ defs.entries, f entry.2 = entry.2 := by
  show agree (defs.map f) defs = true ↔ _
  have hsize : (defs.map f).size = defs.size := List.length_map _
  rw [agree, hsize, beq_self_eq_true, Bool.true_and, map, List.all_map, List.all_eq_true]
  refine forall₂_congr fun entry hentry => ?_
  rw [Function.comp_apply, get?_eq_some_iff.mpr hentry, beq_iff_eq, Option.some.injEq, eq_comm]

/-- Definitions are `==` just if they have the same entries, in whatever order. -/
theorem Definitions.beq_iff [BEq β] [LawfulBEq β] {a b : Definitions β} :
    (a == b) = true ↔ a.entries.Perm b.entries := by
  show agree a b = true ↔ _
  simp only [agree, size, Bool.and_eq_true, beq_iff_eq, List.all_eq_true, get?_eq_some_iff]
  constructor
  · rintro ⟨hsize, hsubset⟩
    have hsubperm := List.subperm_of_subset (List.Nodup.of_map _ a.names_nodup) hsubset
    exact hsubperm.perm_of_length_le (Nat.le_of_eq hsize.symm)
  · intro hperm
    exact ⟨hperm.length_eq, fun _ hentry => hperm.mem_iff.mp hentry⟩

/-- Each name has one entry, where the name first comes up, with all that is given for it. -/
def gather (given : List (String × List β)) : List (String × List β) :=
  (given.map Prod.fst).eraseDups.map fun name =>
    (name, (given.filter fun entry => entry.1 == name).flatMap Prod.snd)

variable {given before after : List (String × List β)} {name : String} {values : List β}

theorem map_fst_gather (given : List (String × List β)) :
    (gather given).map Prod.fst = (given.map Prod.fst).eraseDups := by
  rw [gather, List.map_map]
  exact List.map_id' _

theorem head?_map_fst_gather (given : List (String × List β)) :
    ((gather given).map Prod.fst).head? = (given.map Prod.fst).head? := by
  rw [map_fst_gather]
  cases given with
  | nil => rfl
  | cons first rest => rw [List.map_cons, List.eraseDups_cons, List.head?_cons, List.head?_cons]

theorem gather_ne_nil (h : given ≠ []) : gather given ≠ [] := by
  intro hnil
  have hhead := head?_map_fst_gather given
  rw [hnil] at hhead
  exact h (List.map_eq_nil_iff.mp (List.head?_eq_none_iff.mp hhead.symm))

/-- An entry of the outcome gives what is given under its name. -/
theorem mem_gather_iff : (name, values) ∈ gather given ↔ name ∈ given.map Prod.fst ∧
    values = (given.filter fun entry => entry.1 == name).flatMap Prod.snd := by
  rw [gather, List.mem_map]
  constructor
  · rintro ⟨other, hother, hentry⟩
    obtain ⟨rfl, rfl⟩ := Prod.mk.inj hentry
    exact ⟨List.mem_eraseDups.mp hother, rfl⟩
  · rintro ⟨hname, rfl⟩
    exact ⟨name, List.mem_eraseDups.mpr hname, rfl⟩

/-- What the outcome gives under some name is just what is given. -/
theorem exists_mem_gather_iff {value : β} :
    (∃ values, (name, values) ∈ gather given ∧ value ∈ values) ↔
      ∃ values, (name, values) ∈ given ∧ value ∈ values := by
  constructor
  · rintro ⟨values, hentry, hvalue⟩
    obtain ⟨-, rfl⟩ := mem_gather_iff.mp hentry
    obtain ⟨⟨other, some⟩, hother, hsome⟩ := List.mem_flatMap.mp hvalue
    obtain ⟨hmem, hname⟩ := List.mem_filter.mp hother
    obtain rfl := beq_iff_eq.mp hname
    exact ⟨some, hmem, hsome⟩
  · rintro ⟨values, hmem, hvalue⟩
    refine ⟨_, mem_gather_iff.mpr ⟨List.mem_map_of_mem hmem, rfl⟩, ?_⟩
    exact List.mem_flatMap.mpr ⟨_, List.mem_filter.mpr ⟨hmem, beq_self_eq_true name⟩, hvalue⟩

theorem map_gather (f : β → γ) (given : List (String × List β)) :
    (gather given).map (fun entry => (entry.1, entry.2.map f)) =
      gather (given.map fun entry => (entry.1, entry.2.map f)) := by
  have hnames : (given.map fun entry => (entry.1, entry.2.map f)).map Prod.fst =
      given.map Prod.fst := by
    rw [List.map_map]
    rfl
  simp only [gather, hnames, List.map_map, List.filter_map, List.flatMap_map, List.map_flatMap,
    Function.comp_def]

variable {change : Option β → β} {value : String → β} {names : List String}

/-- A new name goes to the end. -/
theorem alterEntries_of_not_mem {entries : List (String × β)} (h : name ∉ entries.map Prod.fst) :
    Definitions.alterEntries name change entries = entries ++ [(name, change none)] := by
  induction entries with
  | nil => rfl
  | cons entry rest ih =>
    rw [List.map_cons, List.mem_cons, not_or] at h
    rw [Definitions.alterEntries, if_neg fun heq => h.1 heq.symm, ih h.2]
    rfl

/-- Where entries go by distinct names, only the value of the altered name changes. -/
theorem alterEntries_map_of_mem (hnodup : names.Nodup) (h : name ∈ names) :
    Definitions.alterEntries name change (names.map fun other => (other, value other)) =
      names.map fun other =>
        (other, if other = name then change (some (value name)) else value other) := by
  induction names with
  | nil => exact absurd h List.not_mem_nil
  | cons first rest ih =>
    obtain ⟨hfirst, hnodup⟩ := List.nodup_cons.mp hnodup
    rw [List.map_cons, List.map_cons, Definitions.alterEntries]
    by_cases heq : first = name
    · subst heq
      rw [if_pos rfl, if_pos rfl]
      refine congrArg (_ :: ·) (List.map_congr_left fun other hother => ?_)
      rw [if_neg]
      rintro rfl
      exact hfirst hother
    · have hrest := (List.mem_cons.mp h).resolve_left fun hname => heq hname.symm
      rw [if_neg heq, if_neg heq, ih hnodup hrest]

/-- Adding what is given under a name takes in one entry more. -/
theorem gather_concat (given : List (String × List β)) (name : String) (values : List β) :
    gather (given ++ [(name, values)]) =
      Definitions.alterEntries name (fun earlier => earlier.getD [] ++ values) (gather given) := by
  have hvalues : ∀ other, ((given ++ [(name, values)]).filter fun entry => entry.1 == other).flatMap
      Prod.snd = (given.filter fun entry => entry.1 == other).flatMap Prod.snd ++
        if name = other then values else [] := by
    intro other
    by_cases heq : name = other <;> simp [List.filter_append, heq]
  by_cases hmem : name ∈ given.map Prod.fst
  · have hnames : ((given ++ [(name, values)]).map Prod.fst).eraseDups =
        (given.map Prod.fst).eraseDups := by
      rw [List.map_append, List.map_singleton, eraseDups_concat, if_pos hmem]
    unfold gather
    rw [hnames, alterEntries_map_of_mem (nodup_eraseDups _) (List.mem_eraseDups.mpr hmem)]
    refine List.map_congr_left fun other _ => congrArg (other, ·) ?_
    rw [hvalues]
    by_cases heq : other = name
    · rw [if_pos heq, if_pos heq.symm, heq]
      rfl
    · rw [if_neg heq, if_neg fun heq' => heq heq'.symm, List.append_nil]
  · have hnames : ((given ++ [(name, values)]).map Prod.fst).eraseDups =
        (given.map Prod.fst).eraseDups ++ [name] := by
      rw [List.map_append, List.map_singleton, eraseDups_concat, if_neg hmem]
    have hnone : (given.filter fun entry => entry.1 == name) = [] := by
      rw [List.filter_eq_nil_iff]
      exact fun entry hentry heq => hmem (beq_iff_eq.mp heq ▸ List.mem_map_of_mem hentry)
    rw [alterEntries_of_not_mem (by rwa [map_fst_gather, List.mem_eraseDups])]
    unfold gather
    rw [hnames, List.map_append]
    refine congrArg₂ (· ++ ·) (List.map_congr_left fun other hother => congrArg (other, ·) ?_) ?_
    · rw [hvalues, if_neg, List.append_nil]
      rintro rfl
      exact hmem (List.mem_eraseDups.mp hother)
    · rw [List.map_singleton, hvalues, hnone, if_pos rfl]
      rfl

/-- Names that are given once each have just what is given. -/
theorem gather_of_nodup (h : (given.map Prod.fst).Nodup) : gather given = given := by
  induction given using List.reverseRecOn with
  | nil => rfl
  | append_singleton given entry ih =>
    rw [List.map_append, List.nodup_append] at h
    obtain ⟨hnodup, -, hnew⟩ := h
    have hlast : entry.1 ∉ given.map Prod.fst :=
      fun hmem => hnew _ hmem _ List.mem_cons_self rfl
    rw [gather_concat, ih hnodup, alterEntries_of_not_mem hlast]
    rfl

end ContextFree
