import ContextFree.Proofs.Analysis.LeftRecursion
import ContextFree.Proofs.Descent.Memo
import Mathlib.Data.Finset.Card
import Mathlib.Data.Finset.Prod

/-!
# Every question is answered

Without left recursion no call comes back to itself by one call making another
(`not_transGen_calls`): it would have to do so without consuming anything. So among the calls that
wait for an answer, each of which has made the one above it, none is there twice, and none of them
is answered. There are only so many calls in an input, each round either stacks one more or answers
the top one, and so `Inquiry.limit` rounds are enough for any question (`Inquiry.settle_ask`).

`Inquiry.Consistent` is what holds from round to round even where calls wait that have been answered
before. `Inquiry.Invariant` adds what holds of a new question, whatever the answers were at the start:
they stay as they are, new ones are right, and only calls that the question comes to are answered.
-/

namespace ContextFree

/-- A call of a nonterminal, started within an input of `length` tokens. -/
structure Call.Within (grammar : Grammar) (length : Nat) (call : Call) : Prop where
  nonterminal_lt : call.nonterminal < grammar.nonterminalCount
  start_le : call.start ≤ length

/-- Distinct calls within an input are no more than there are nonterminals and positions. -/
theorem length_le_of_within {grammar : Grammar} {length : Nat} {calls : List Call}
    (hnodup : calls.Nodup) (hwithin : ∀ call ∈ calls, call.Within grammar length) :
    calls.length ≤ grammar.nonterminalCount * (length + 1) := by
  have hinj : Function.Injective fun call : Call => (call.nonterminal, call.start) := by
    intro call call' heq
    obtain ⟨id, pos⟩ := call
    obtain ⟨id', pos'⟩ := call'
    obtain ⟨rfl, rfl⟩ := Prod.mk.inj heq
    rfl
  have hsubset : (calls.map fun call => (call.nonterminal, call.start)).toFinset ⊆
      Finset.range grammar.nonterminalCount ×ˢ Finset.range (length + 1) := by
    intro pair hpair
    obtain ⟨call, hcall, rfl⟩ := List.mem_map.mp (List.mem_toFinset.mp hpair)
    have hlt := (hwithin call hcall).nonterminal_lt
    have hle := (hwithin call hcall).start_le
    simp only [Finset.mem_product, Finset.mem_range]
    omega
  have hcard := Finset.card_le_card hsubset
  rwa [List.toFinset_card_of_nodup (hnodup.map hinj), List.length_map, Finset.card_product,
    Finset.card_range, Finset.card_range] at hcard

variable {τ : Type} [Token τ] {grammar : Grammar} {input : Array τ}

/-- A call never makes one that starts before it. -/
theorem Calls.start_le {caller callee : Call} (h : Calls grammar input caller callee) :
    caller.start ≤ callee.start := by
  obtain ⟨before, after, -, hspans⟩ := h
  exact hspans.start_le

theorem Calls.within {caller callee : Call} (h : Calls grammar input caller callee)
    (hcaller : caller.Within grammar input.size) : callee.Within grammar input.size := by
  obtain ⟨before, after, hmem, hspans⟩ := h
  exact ⟨Grammar.lt_of_nonterminal_mem hmem (by simp), hspans.le_size hcaller.start_le⟩

/-- A call that comes to another without consuming anything does so along left calls. -/
theorem leftCalls_of_transGen {caller callee : Call}
    (h : Relation.TransGen (Calls grammar input) caller callee) :
    caller.start ≤ callee.start ∧ (caller.start = callee.start →
      Relation.TransGen (Analysis.LeftCall (Analysis.leftCalls grammar)) caller.nonterminal
        callee.nonterminal) := by
  have hleft : ∀ {caller callee : Call}, Calls grammar input caller callee →
      caller.start = callee.start →
      Analysis.LeftCall (Analysis.leftCalls grammar) caller.nonterminal callee.nonterminal := by
    intro caller callee hcallee heq
    obtain ⟨before, after, hmem, hspans⟩ := hcallee
    rw [← heq] at hspans
    exact Analysis.leftCall_of_spans hmem hspans
  induction h with
  | single hcalls => exact ⟨hcalls.start_le, fun heq => .single (hleft hcalls heq)⟩
  | tail _ hcalls ih =>
    have hle := hcalls.start_le
    refine ⟨ih.1.trans hle, fun heq => ?_⟩
    have hle' := ih.1
    exact (ih.2 (by omega)).tail (hleft hcalls (by omega))

/-- Without left recursion no call comes back to itself. -/
theorem not_transGen_calls (hno : Analysis.leftRecursive? grammar = none) (call : Call) :
    ¬ Relation.TransGen (Calls grammar input) call call :=
  fun h => Analysis.not_transGen_leftCall hno _ ((leftCalls_of_transGen h).2 rfl)

/-- The answers so far are right, and rest on answers that are there as well. -/
structure Memo.Consistent (grammar : Grammar) (input : Array τ) (memo : Memo) : Prop where
  exact : memo.Exact grammar input
  mem_of_calls : ∀ {caller callee : Call}, caller ∈ memo → Calls grammar input caller callee →
    callee ∈ memo
  within : ∀ {call : Call}, call ∈ memo → call.Within grammar input.size

theorem Memo.consistent_empty : Memo.Consistent grammar input ∅ where
  exact h := by
    rw [Std.HashMap.getElem?_empty] at h
    cases h
  mem_of_calls h := absurd h Std.HashMap.not_mem_empty
  within h := absurd h Std.HashMap.not_mem_empty

/-- An answer worked out from consistent answers goes with them. -/
theorem Memo.Consistent.insert {memo : Memo} (h : memo.Consistent grammar input) {call : Call}
    {ends : Positions} (hends : memo.tryEnds grammar input call = .ok ends)
    (hwithin : call.Within grammar input.size) :
    Memo.Consistent grammar input (Std.HashMap.insert memo call ends) := by
  obtain ⟨hderives, hcalls⟩ := Memo.tryEnds_ok h.exact hends
  constructor
  · intro other ends' hother
    rw [Std.HashMap.getElem?_insert] at hother
    split at hother
    · next heq =>
      obtain rfl := beq_iff_eq.mp heq
      obtain rfl := Option.some.inj hother
      exact hderives
    · exact h.exact hother
  · intro caller callee hcaller hcallee
    rw [Std.HashMap.mem_insert] at hcaller ⊢
    rcases hcaller with heq | hcaller
    · obtain rfl := beq_iff_eq.mp heq
      exact .inr (hcalls callee hcallee)
    · exact .inr (h.mem_of_calls hcaller hcallee)
  · intro other hother
    rw [Std.HashMap.mem_insert] at hother
    rcases hother with heq | hother
    · obtain rfl := beq_iff_eq.mp heq
      exact hwithin
    · exact h.within hother

namespace Inquiry

/-- The answers so far are right, and each call that waits has come to the ones above it. -/
structure Consistent (grammar : Grammar) (input : Array τ) (inquiry : Inquiry) : Prop where
  memo : inquiry.memo.Consistent grammar input
  pairwise : inquiry.pending.Pairwise fun callee caller =>
    Relation.TransGen (Calls grammar input) caller callee
  within_of_pending : ∀ {call : Call}, call ∈ inquiry.pending → call.Within grammar input.size

/-- No call waits twice. -/
theorem Consistent.nodup_pending {inquiry : Inquiry} (h : inquiry.Consistent grammar input)
    (hno : Analysis.leftRecursive? grammar = none) : inquiry.pending.Nodup := by
  refine h.pairwise.imp ?_
  intro call _ hcycle heq
  obtain rfl := heq
  exact not_transGen_calls hno call hcycle

/-- Once the answer to the call on top is worked out, the call waits no longer. -/
theorem Consistent.answer {call : Call} {waiting : List Call} {memo : Memo} {ends : Positions}
    (h : Consistent grammar input ⟨call :: waiting, memo⟩)
    (hends : memo.tryEnds grammar input call = .ok ends) :
    Consistent grammar input ⟨waiting, memo.insert call ends⟩ where
  memo := h.memo.insert hends (h.within_of_pending List.mem_cons_self)
  pairwise := h.pairwise.of_cons
  within_of_pending hother := h.within_of_pending (List.mem_cons_of_mem _ hother)

/-- A call whose answer is missing is stacked on the one that has made it. -/
theorem Consistent.stack {call missing : Call} {waiting : List Call} {memo : Memo}
    (h : Consistent grammar input ⟨call :: waiting, memo⟩)
    (hmissing : memo.tryEnds grammar input call = .error missing) :
    Consistent grammar input ⟨missing :: call :: waiting, memo⟩ := by
  obtain ⟨-, hcalls⟩ := Memo.tryEnds_error h.memo.exact hmissing
  constructor
  case memo => exact h.memo
  case pairwise =>
    refine List.pairwise_cons.mpr ⟨fun caller hcaller => ?_, h.pairwise⟩
    rcases List.mem_cons.mp hcaller with rfl | hcaller
    · exact .single hcalls
    · exact ((List.pairwise_cons.mp h.pairwise).1 caller hcaller).tail hcalls
  case within_of_pending =>
    intro other hother
    rcases List.mem_cons.mp hother with rfl | hother
    · exact hcalls.within (h.within_of_pending List.mem_cons_self)
    · exact h.within_of_pending hother

/-- What holds of an inquiry into a question from round to round, given the answers at its start. -/
structure Invariant (grammar : Grammar) (input : Array τ) (known : Memo) (question : Call)
    (inquiry : Inquiry) : Prop where
  memo : inquiry.memo.Consistent grammar input
  /-- Each call that waits has come to the ones above it. -/
  pairwise : inquiry.pending.Pairwise fun callee caller =>
    Relation.TransGen (Calls grammar input) caller callee
  notMem_of_pending : ∀ {call : Call}, call ∈ inquiry.pending → call ∉ inquiry.memo
  within_of_pending : ∀ {call : Call}, call ∈ inquiry.pending → call.Within grammar input.size
  asked : question ∈ inquiry.pending ∨ question ∈ inquiry.memo
  reached_of_pending : ∀ {call : Call}, call ∈ inquiry.pending →
    Relation.ReflTransGen (Calls grammar input) question call
  reached_of_mem : ∀ {call : Call}, call ∈ inquiry.memo →
    call ∈ known ∨ Relation.ReflTransGen (Calls grammar input) question call
  kept : ∀ {call : Call} {ends : Positions}, known[call]? = some ends →
    inquiry.memo[call]? = some ends

/-- How far an inquiry has come: a call that waits counts once, a call that is answered twice. -/
def progress (inquiry : Inquiry) : Nat :=
  2 * inquiry.memo.size + inquiry.pending.length

variable {known : Memo} {question : Call} {inquiry : Inquiry}

theorem Invariant.consistent (h : Invariant grammar input known question inquiry) :
    inquiry.Consistent grammar input where
  memo := h.memo
  pairwise := h.pairwise
  within_of_pending := h.within_of_pending

/-- The calls that wait and those that are answered are distinct calls within the input. -/
theorem Invariant.size_add_length_le (h : Invariant grammar input known question inquiry)
    (hno : Analysis.leftRecursive? grammar = none) :
    inquiry.memo.size + inquiry.pending.length ≤
      grammar.nonterminalCount * (input.size + 1) := by
  have hnodup : (inquiry.memo.keys ++ inquiry.pending).Nodup := by
    refine List.nodup_append.mpr ⟨Std.HashMap.nodup_keys, h.consistent.nodup_pending hno, ?_⟩
    intro call hkey _ hpending heq
    obtain rfl := heq
    exact h.notMem_of_pending hpending (Std.HashMap.mem_keys.mp hkey)
  have hwithin : ∀ call ∈ inquiry.memo.keys ++ inquiry.pending,
      call.Within grammar input.size := by
    intro call hcall
    rcases List.mem_append.mp hcall with hkey | hpending
    · exact h.memo.within (Std.HashMap.mem_keys.mp hkey)
    · exact h.within_of_pending hpending
  have hle := length_le_of_within hnodup hwithin
  rwa [List.length_append, Std.HashMap.length_keys] at hle

/-- Once the answer to the call on top is worked out, the call waits no longer. -/
theorem Invariant.answer (hno : Analysis.leftRecursive? grammar = none) {call : Call}
    {waiting : List Call} {memo : Memo} {ends : Positions}
    (h : Invariant grammar input known question ⟨call :: waiting, memo⟩)
    (hends : memo.tryEnds grammar input call = .ok ends) :
    Invariant grammar input known question ⟨waiting, memo.insert call ends⟩ where
  memo := (h.consistent.answer hends).memo
  pairwise := (h.consistent.answer hends).pairwise
  notMem_of_pending := by
    intro other hother hmem
    rw [Std.HashMap.mem_insert] at hmem
    rcases hmem with heq | hmem
    · obtain rfl := beq_iff_eq.mp heq
      exact (List.nodup_cons.mp (h.consistent.nodup_pending hno)).1 hother
    · exact h.notMem_of_pending (List.mem_cons_of_mem _ hother) hmem
  within_of_pending := (h.consistent.answer hends).within_of_pending
  asked := by
    rw [Std.HashMap.mem_insert]
    rcases h.asked with hpending | hmem
    · rcases List.mem_cons.mp hpending with rfl | hpending
      · exact .inr (.inl (beq_self_eq_true _))
      · exact .inl hpending
    · exact .inr (.inr hmem)
  reached_of_pending hother := h.reached_of_pending (List.mem_cons_of_mem _ hother)
  reached_of_mem := by
    intro other hother
    rw [Std.HashMap.mem_insert] at hother
    rcases hother with heq | hother
    · obtain rfl := beq_iff_eq.mp heq
      exact .inr (h.reached_of_pending List.mem_cons_self)
    · exact h.reached_of_mem hother
  kept hknown :=
    Memo.getElem?_insert_of_notMem (h.notMem_of_pending List.mem_cons_self) (h.kept hknown)

/-- A call whose answer is missing is stacked on the one that has made it. -/
theorem Invariant.stack {call missing : Call} {waiting : List Call} {memo : Memo}
    (h : Invariant grammar input known question ⟨call :: waiting, memo⟩)
    (hmissing : memo.tryEnds grammar input call = .error missing) :
    Invariant grammar input known question ⟨missing :: call :: waiting, memo⟩ := by
  obtain ⟨hnew, hcalls⟩ := Memo.tryEnds_error h.memo.exact hmissing
  constructor
  case memo => exact h.memo
  case pairwise => exact (h.consistent.stack hmissing).pairwise
  case notMem_of_pending =>
    intro other hother
    rcases List.mem_cons.mp hother with rfl | hother
    · exact hnew
    · exact h.notMem_of_pending hother
  case within_of_pending => exact (h.consistent.stack hmissing).within_of_pending
  case asked => exact h.asked.imp_left (List.mem_cons_of_mem _)
  case reached_of_pending =>
    intro other hother
    rcases List.mem_cons.mp hother with rfl | hother
    · exact (h.reached_of_pending List.mem_cons_self).tail hcalls
    · exact h.reached_of_pending hother
  case reached_of_mem => exact h.reached_of_mem
  case kept => exact h.kept

/-- A round keeps the invariant and is one step ahead. -/
theorem Invariant.advance (h : Invariant grammar input known question inquiry)
    (hno : Analysis.leftRecursive? grammar = none) (hpending : inquiry.pending ≠ []) :
    Invariant grammar input known question (inquiry.advance grammar input) ∧
      (inquiry.advance grammar input).progress = inquiry.progress + 1 := by
  obtain ⟨pending, memo⟩ := inquiry
  cases pending with
  | nil => exact absurd rfl hpending
  | cons call waiting =>
    -- no call that waits is answered, so the round never just drops the one on top
    have hnew : call ∉ memo := h.notMem_of_pending List.mem_cons_self
    have hcontains : memo.contains call = false :=
      eq_false_of_ne_true fun hmem => hnew (Std.HashMap.contains_iff_mem.mp hmem)
    simp only [Inquiry.advance, hcontains, Bool.false_eq_true, if_false]
    cases hends : memo.tryEnds grammar input call with
    | ok ends =>
      refine ⟨h.answer hno hends, ?_⟩
      simp only [progress, Std.HashMap.size_insert, if_neg hnew, List.length_cons]
      omega
    | error missing =>
      refine ⟨h.stack hends, ?_⟩
      simp only [progress, List.length_cons]
      omega

/-- With rounds enough no call is left waiting: each round is one step ahead, and there are only so
many calls. -/
theorem Invariant.settle (hno : Analysis.leftRecursive? grammar = none) (limit : Nat) :
    ∀ {inquiry}, Invariant grammar input known question inquiry →
      2 * (grammar.nonterminalCount * (input.size + 1)) < inquiry.progress + limit →
      Invariant grammar input known question (inquiry.settle grammar input limit) ∧
        (inquiry.settle grammar input limit).pending = [] := by
  induction limit with
  | zero =>
    intro inquiry h hlimit
    have hle := h.size_add_length_le hno
    unfold progress at hlimit
    omega
  | succ limit ih =>
    intro inquiry h hlimit
    unfold Inquiry.settle
    split
    · next hempty => exact ⟨h, List.isEmpty_iff.mp hempty⟩
    · next hpending =>
      obtain ⟨hnext, hprogress⟩ := h.advance hno fun hnil => hpending (List.isEmpty_iff.mpr hnil)
      exact ih hnext (by omega)

/-- The invariant holds at the start of an inquiry. -/
theorem invariant_ask (hknown : known.Consistent grammar input)
    (hwithin : question.Within grammar input.size) (hnew : question ∉ known) :
    Invariant grammar input known question ⟨[question], known⟩ := by
  constructor
  case memo => exact hknown
  case pairwise => exact List.pairwise_singleton _ _
  case notMem_of_pending =>
    intro call hcall
    obtain rfl := List.mem_singleton.mp hcall
    exact hnew
  case within_of_pending =>
    intro call hcall
    obtain rfl := List.mem_singleton.mp hcall
    exact hwithin
  case asked => exact .inl List.mem_cons_self
  case reached_of_pending =>
    intro call hcall
    obtain rfl := List.mem_singleton.mp hcall
    exact .refl
  case reached_of_mem => exact .inl
  case kept => exact id

/-- The invariant holds at the end of an inquiry into what is known. -/
theorem invariant_known (hknown : known.Consistent grammar input) (hmem : question ∈ known) :
    Invariant grammar input known question ⟨[], known⟩ where
  memo := hknown
  pairwise := .nil
  notMem_of_pending h := absurd h List.not_mem_nil
  within_of_pending h := absurd h List.not_mem_nil
  asked := .inr hmem
  reached_of_pending h := absurd h List.not_mem_nil
  reached_of_mem := .inl
  kept := id

/-- If the question has been answered before, one round finds that out. -/
theorem settle_of_mem {limit : Nat} (hmem : question ∈ known) :
    Inquiry.settle grammar input (limit + 1) ⟨[question], known⟩ = ⟨[], known⟩ := by
  have hadvance : Inquiry.advance grammar input ⟨[question], known⟩ = ⟨[], known⟩ := by
    simp only [Inquiry.advance, Std.HashMap.contains_iff_mem.mpr hmem, if_true]
  rw [Inquiry.settle, hadvance]
  cases limit <;> rfl

/-- Every question about a grammar without left recursion is answered within the limit, whatever is
known at the start. -/
theorem settle_ask (question : Call) (hno : Analysis.leftRecursive? grammar = none)
    (hknown : known.Consistent grammar input) (hwithin : question.Within grammar input.size) :
    ∃ memo, Inquiry.settle grammar input (Inquiry.limit grammar input.size) ⟨[question], known⟩ =
        ⟨[], memo⟩ ∧ Invariant grammar input known question ⟨[], memo⟩ := by
  by_cases hmem : question ∈ known
  · exact ⟨known, settle_of_mem hmem, invariant_known hknown hmem⟩
  · obtain ⟨hinvariant, hpending⟩ := (invariant_ask hknown hwithin hmem).settle hno
      (Inquiry.limit grammar input.size) (by rw [Inquiry.limit]; omega)
    generalize Inquiry.settle grammar input (Inquiry.limit grammar input.size)
      ⟨[question], known⟩ = last at hinvariant hpending
    obtain ⟨pending, memo⟩ := last
    obtain rfl : pending = [] := hpending
    exact ⟨memo, rfl, hinvariant⟩

end Inquiry

end ContextFree
