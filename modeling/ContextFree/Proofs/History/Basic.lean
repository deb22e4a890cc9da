import ContextFree.Engine.Fault
import Mathlib.Data.List.Induction

/-!
# What requests bring about

The tables of the engine are used by requests, and something comes of each. `perform` makes requests
one after the other, and what came of them is a history of events. A law says of an event what it has
to be, given the events before it; a history that keeps to it does so at each of its events
(`Follows`).

What is shown of a table for every sequence of requests is shown of one request, whatever the history
was until then (`exists_perform`).

Some tables are only ever put things into, and tell of each whether it is new (`Insertion`).
-/

namespace ContextFree.History

variable {State Request Event : Type}

/-- Makes requests one after the other, up to the first that fails, and tells what came of each. -/
def perform (answer : State → Request → Except Fault (Event × State)) (state : State) :
    List Request → Except Fault (List Event × State)
  | [] => .ok ([], state)
  | request :: rest =>
    match answer state request with
    | .error fault => .error fault
    | .ok (event, state) =>
      match perform answer state rest with
      | .error fault => .error fault
      | .ok (events, state) => .ok (event :: events, state)

/-- Each element of a history is as a law has it, given those before it. -/
def Follows {α : Type} (law : List α → α → Prop) (history : List α) : Prop :=
  ∀ before event after, history = before ++ event :: after → law before event

section Follows

variable {α : Type} {law : List α → α → Prop} {history : List α} {event : α}

theorem follows_nil : Follows law [] := by
  intro before event after heq
  simp at heq

/-- A history that keeps to a law goes on with what the law has next. -/
theorem follows_concat_iff :
    Follows law (history ++ [event]) ↔ Follows law history ∧ law history event := by
  constructor
  · intro h
    refine ⟨fun before other after heq => h before other (after ++ [event]) ?_, h history event [] rfl⟩
    rw [heq, List.append_assoc, List.cons_append]
  · rintro ⟨hfollows, hlaw⟩ before other after heq
    rcases List.eq_nil_or_concat after with rfl | ⟨initial, last, rfl⟩
    · obtain ⟨rfl, hlast⟩ := List.append_inj' heq rfl
      obtain rfl := List.singleton_inj.mp hlast
      exact hlaw
    · rw [List.concat_eq_append, ← List.cons_append, ← List.append_assoc] at heq
      exact hfollows before other initial (List.append_inj' heq rfl).1

theorem Follows.of_append {later : List α} (h : Follows law (history ++ later)) :
    Follows law history := by
  intro before event after heq
  exact h before event (after ++ later) (by rw [heq, List.append_assoc, List.cons_append])

end Follows

variable {answer : State → Request → Except Fault (Event × State)} {state middle after : State}
  {earlier later requests : List Request} {history : List Event}

/-- Requests made in two parts are the requests made at once. -/
theorem perform_append (answer : State → Request → Except Fault (Event × State)) (state : State)
    (earlier later : List Request) :
    perform answer state (earlier ++ later) =
      match perform answer state earlier with
      | .error fault => .error fault
      | .ok (events, middle) =>
        match perform answer middle later with
        | .error fault => .error fault
        | .ok (events', after) => .ok (events ++ events', after) := by
  induction earlier generalizing state with
  | nil =>
    simp only [List.nil_append, perform]
    split <;> next h => exact h
  | cons request rest ih =>
    rw [List.cons_append, perform, perform]
    cases answer state request with
    | error fault => rfl
    | ok answered =>
      obtain ⟨event, next⟩ := answered
      simp only [ih]
      cases perform answer next rest with
      | error fault => rfl
      | ok performed =>
        obtain ⟨events, middle⟩ := performed
        simp only
        cases perform answer middle later with
        | error fault => rfl
        | ok performed' => rfl

/-- What came of the earlier requests is what came first of all of them. -/
theorem history_mono {history' : List Event}
    (h : perform answer state earlier = .ok (history', middle))
    (h' : perform answer state (earlier ++ later) = .ok (history, after)) :
    history' <+: history := by
  rw [perform_append, h] at h'
  simp only at h'
  split at h'
  · cases h'
  · next events _ _ =>
    cases h'
    exact List.prefix_append history' events

/-- What holds of a fresh table and keeps holding as each admitted request is answered, whatever the
history until then, holds after all requests; and then every request is answered. -/
theorem exists_perform {asked : Event → Request} {admits : List Request → Request → Prop}
    {holds : List Event → State → Prop} (hfresh : holds [] state)
    (hstep : ∀ history middle request, holds history middle →
      admits (history.map asked) request →
      ∃ event after, answer middle request = .ok (event, after) ∧ asked event = request ∧
        holds (history ++ [event]) after)
    (hadmits : Follows admits requests) :
    ∃ history after, perform answer state requests = .ok (history, after) ∧
      history.map asked = requests ∧ holds history after := by
  -- The last request is answered in the state that all others have led to, so the induction takes
  -- requests off at the end.
  induction requests using List.reverseRecOn with
  | nil => exact ⟨[], state, rfl, rfl, hfresh⟩
  | append_singleton earlier request ih =>
    obtain ⟨hearlier, hrequest⟩ := follows_concat_iff.mp hadmits
    obtain ⟨history, middle, hperform, hasked, hholds⟩ := ih hearlier
    obtain ⟨event, after, hanswer, hevent, hholds'⟩ :=
      hstep history middle request hholds (hasked ▸ hrequest)
    refine ⟨history ++ [event], after, ?_, ?_, hholds'⟩
    · rw [perform_append, hperform]
      simp only [perform, hanswer]
    · rw [List.map_append, hasked, List.map_singleton, hevent]

/-! ## Putting things in -/

/-- Something was put into a table, and it was told whether it is new there. -/
structure Insertion (α : Type) where
  inserted : α
  fresh : Bool

/-- What is put in is new just if it was not put in before. -/
def Insertion.law {α : Type} (before : List (Insertion α)) (insertion : Insertion α) : Prop :=
  insertion.fresh = true ↔ insertion.inserted ∉ before.map Insertion.inserted

end ContextFree.History
