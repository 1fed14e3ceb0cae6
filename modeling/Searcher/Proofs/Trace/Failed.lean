/-
# Failed calls in a trace

What a failed call did was rolled back, with all that the calls below it did. A trace shows these calls all the same,
and the walk books them. A failed call is seen in the events only at accounts that it touches, so it does no harm as
long as it keeps off the pools of the trace (`Trace.swapEvents_withoutFailed`). A swap that was rolled back is an event
(`Trace.failedSwap_counts`).
-/

import Searcher.Proofs.Trace.NetFlow

namespace Searcher

namespace CallFrame

mutual

/-- The call without the failed calls below it, and all that these made. -/
def withoutFailed : CallFrame → CallFrame
  | mk sender receiver input error calls => mk sender receiver input error (succeeded calls)

/-- The calls that did not fail. -/
def succeeded : List CallFrame → List CallFrame
  | [] => []
  | frame :: rest => if frame.error.isSome then succeeded rest else frame.withoutFailed :: succeeded rest

end

/-- A call is a transfer whatever it calls. -/
theorem transfer?_calls (sender token : Address) (input : Bytes) (error : Option String)
    (calls calls' : List CallFrame) :
    (mk sender token input error calls).transfer? token = (mk sender token input error calls').transfer? token := rfl

end CallFrame

namespace Trace

variable {accounts : Address → Bool} {q : Entry → Bool} {flows : List PoolFlow}

mutual

/-- What is booked for the failed calls below a call, and for all that these made. -/
def failedEntries : CallFrame → List Entry
  | .mk sender receiver input error calls =>
    match receiver with
    | none => []
    | some receiver =>
      match (CallFrame.mk sender receiver input error calls).transfer? receiver with
      | some _ => []
      | none => failedEntriesOfAll calls

/-- What is booked for the failed ones of some calls, and for the failed calls below the others. -/
def failedEntriesOfAll : List CallFrame → List Entry
  | [] => []
  | frame :: rest => (if frame.error.isSome then entries frame else failedEntries frame) ++ failedEntriesOfAll rest

end

/-- The accounts that a trace calls as pools. -/
def calledPools (root : CallFrame) : List Address := (entries root).filterMap Entry.pool?

mutual

/-- Without its failed calls, a trace books less. -/
theorem entries_withoutFailed_sublist (frame : CallFrame) :
    (entries frame.withoutFailed).Sublist (entries frame) := by
  obtain ⟨sender, _ | receiver, input, error, calls⟩ := frame
  · exact .slnil
  · rw [CallFrame.withoutFailed, entries, entries]
    refine List.Sublist.append (.refl _) ?_
    rw [CallFrame.transfer?_calls sender receiver input error (CallFrame.succeeded calls) calls]
    cases (CallFrame.mk sender receiver input error calls).transfer? receiver with
    | none => exact entriesOfAll_succeeded_sublist calls
    | some t => exact .refl _

/-- What is booked for a row of calls that succeeded is booked for the row, with more in between. -/
theorem entriesOfAll_succeeded_sublist (calls : List CallFrame) :
    (entriesOfAll (CallFrame.succeeded calls)).Sublist (entriesOfAll calls) := by
  cases calls with
  | nil => exact .slnil
  | cons frame rest =>
    rw [CallFrame.succeeded, entriesOfAll]
    split
    · exact (entriesOfAll_succeeded_sublist rest).trans (List.sublist_append_right _ _)
    · exact (entries_withoutFailed_sublist frame).append (entriesOfAll_succeeded_sublist rest)

end

mutual

/-- Of the entries that a failed call does not make, none is lost. -/
theorem filter_entries_withoutFailed (frame : CallFrame) (h : ∀ entry ∈ failedEntries frame, ¬ q entry) :
    (entries frame.withoutFailed).filter q = (entries frame).filter q := by
  obtain ⟨sender, _ | receiver, input, error, calls⟩ := frame
  · rfl
  · rw [CallFrame.withoutFailed, entries, entries, List.filter_append, List.filter_append]
    refine congrArg₂ (· ++ ·) rfl ?_
    rw [CallFrame.transfer?_calls sender receiver input error (CallFrame.succeeded calls) calls]
    rw [failedEntries] at h
    cases ht : (CallFrame.mk sender receiver input error calls).transfer? receiver with
    | none =>
      rw [ht] at h
      exact filter_entriesOfAll_succeeded calls h
    | some t => rfl

/-- Of a row of calls, entries of interest are the same without the failed ones, if no failed one has any. -/
theorem filter_entriesOfAll_succeeded (calls : List CallFrame) (h : ∀ entry ∈ failedEntriesOfAll calls, ¬ q entry) :
    (entriesOfAll (CallFrame.succeeded calls)).filter q = (entriesOfAll calls).filter q := by
  cases calls with
  | nil => rfl
  | cons frame rest =>
    rw [failedEntriesOfAll, List.forall_mem_append] at h
    have hrest := filter_entriesOfAll_succeeded rest h.2
    rw [CallFrame.succeeded, entriesOfAll, List.filter_append, ← hrest]
    split
    · rename_i hfailed
      rw [if_pos hfailed] at h
      rw [List.filter_eq_nil_iff.2 h.1, List.nil_append]
    · rename_i hfailed
      rw [if_neg hfailed] at h
      rw [entriesOfAll, List.filter_append, filter_entries_withoutFailed frame h.1]

end

/-- Some accounts have all flows that were called as pools. -/
def CalledWithin (accounts : Address → Bool) (flows : List PoolFlow) : Prop :=
  ∀ f ∈ flows, f.exchange.isSome → accounts f.pool

/-- Flows that were called as pools stay at some accounts, if an entry calls none but these as a pool. -/
theorem CalledWithin.book (h : CalledWithin accounts flows) {entry : Entry}
    (hentry : ∀ pool, entry.pool? = some pool → accounts pool) : CalledWithin accounts (entry.book flows) := by
  intro f' hf' hcalled
  cases entry with
  | call exchange account =>
    rcases Entry.mem_book.1 hf' with ⟨f, hf, rfl⟩ | hf'
    · by_cases hpool : f.pool = account
      · rw [Entry.onFlow_pool, hpool]
        exact hentry account rfl
      · have hkept : Entry.onFlow f (.call exchange account) = f := if_neg hpool
        rw [hkept] at hcalled ⊢
        exact h f hf hcalled
    · obtain ⟨rfl, -⟩ := Entry.mem_opened_call.1 hf'
      exact hentry account rfl
  | move t =>
    rcases Entry.mem_book.1 hf' with ⟨f, hf, rfl⟩ | hf'
    · rw [Entry.onFlow, PoolFlow.take_exchange] at hcalled
      rw [Entry.onFlow_pool]
      exact h f hf hcalled
    · rcases Entry.mem_opened_move.1 hf' with ⟨rfl, -⟩ | ⟨rfl, -⟩ <;> cases hcalled

/-- So they are after a row of entries, by induction. -/
theorem CalledWithin.foldl (h : CalledWithin accounts flows) {es : List Entry}
    (hes : ∀ pool ∈ es.filterMap Entry.pool?, accounts pool) : CalledWithin accounts (es.foldl Entry.book flows) := by
  induction es generalizing flows with
  | nil => exact h
  | cons entry es ih =>
    refine ih (h.book fun pool hpool => hes pool ?_) fun pool hpool => hes pool ?_
    · exact List.mem_filterMap.2 ⟨entry, List.mem_cons_self, hpool⟩
    · exact (List.sublist_cons_self entry es).filterMap Entry.pool? |>.mem hpool

/-- The flows of a trace that were called as pools are at the pools it calls. -/
theorem calledWithin_flowsOf {root : CallFrame} (h : ∀ pool ∈ calledPools root, accounts pool) :
    CalledWithin accounts (flowsOf [] root) := by
  have hnone : CalledWithin accounts [] := fun f hf => by cases hf
  rw [flowsOf_eq_foldl]
  exact hnone.foldl h

/-- Events are only made at accounts that were called as pools. -/
theorem filterMap_event?_within (h : CalledWithin accounts flows) :
    (within accounts flows).filterMap PoolFlow.event? = flows.filterMap PoolFlow.event? := by
  rw [within, List.filterMap_filter]
  refine List.filterMap_congr fun f hf => ?_
  split
  · rfl
  · rename_i hout
    rcases he : f.event? with _ | e
    · rfl
    · exact absurd (h f hf (by rw [(PoolFlow.event?_eq_some he).1]; rfl)) hout

/-- **Failed calls that keep off the pools leave no trace.** If no failed call, and no call that one made, calls an
account that the trace calls as a pool, or moves a token to or from one, the swaps are those of the trace without the
failed calls. -/
theorem swapEvents_withoutFailed {root : CallFrame}
    (h : ∀ entry ∈ failedEntries root, ¬ entry.touches fun account => account ∈ calledPools root)
    (wrapped : Address) (dust : Nat) :
    swapEvents root.withoutFailed wrapped dust = swapEvents root wrapped dust := by
  set accounts : Address → Bool := fun account => account ∈ calledPools root
  have hsame : within accounts (flowsOf [] root.withoutFailed) = within accounts (flowsOf [] root) := by
    rw [flowsOf_eq_foldl, flowsOf_eq_foldl, foldl_book_within rfl, filter_entries_withoutFailed root h,
      ← foldl_book_within rfl]
  have hcalled : CalledWithin accounts (flowsOf [] root) := calledWithin_flowsOf fun pool hpool => decide_eq_true hpool
  have hcalled' : CalledWithin accounts (flowsOf [] root.withoutFailed) := calledWithin_flowsOf fun pool hpool =>
    decide_eq_true ((entries_withoutFailed_sublist root).filterMap Entry.pool? |>.mem hpool)
  rw [swapEvents, swapEvents, ← filterMap_event?_within hcalled, ← filterMap_event?_within hcalled', hsame]

/-- The call of a router that fails. -/
def failedCall (calls : List CallFrame) : CallFrame :=
  .mk (.ofNat 1) (some (.ofNat 6)) [] (some "execution reverted") calls

/-- A contract swaps at a pair after an attempt to pay somebody else has failed. -/
def paymentFailed : CallFrame := contractCall
  [transferCall ⟨.ofNat 1, .ofNat 3, .ofNat 2, 100⟩, failedCall [transferCall ⟨.ofNat 6, .ofNat 3, .ofNat 7, 5⟩],
    pairCall [transferCall ⟨.ofNat 2, .ofNat 4, .ofNat 1, 80⟩]]

/-- The failed payment in this trace is at none of the called pools, so the event is the same without it. -/
theorem swapEvents_withoutFailed_paymentFailed :
    swapEvents paymentFailed.withoutFailed (.ofNat 9) 0 = swapEvents paymentFailed (.ofNat 9) 0 ∧
      swapEvents paymentFailed (.ofNat 9) 0 = [⟨.uniswapV2, .ofNat 2, .ofNat 3, .ofNat 4, 100, 80⟩] :=
  ⟨swapEvents_withoutFailed (by decide +kernel) _ _, by decide +kernel⟩

/-- A contract tries a swap that fails. -/
def failedSwap : CallFrame := contractCall
  [failedCall [transferCall ⟨.ofNat 6, .ofNat 3, .ofNat 2, 100⟩,
    .mk (.ofNat 6) (some (.ofNat 2)) [0x02, 0x2c, 0x0d, 0x9f] none [transferCall ⟨.ofNat 2, .ofNat 4, .ofNat 6, 80⟩]]]

/-- **A swap that was rolled back counts.** -/
theorem failedSwap_counts :
    swapEvents failedSwap (.ofNat 9) 0 = [⟨.uniswapV2, .ofNat 2, .ofNat 3, .ofNat 4, 100, 80⟩] ∧
      swapEvents failedSwap.withoutFailed (.ofNat 9) 0 = [] := by
  decide +kernel

end Trace
end Searcher
