/-
# What a walk through a trace books

The flows of a trace are booked call by call. What a call books does not depend on the flows so far: it is an account
that is called as a pool, or a transfer. So a walk is a row of entries (`Trace.entries`), and the flows are those of the
entries booked one after another (`Trace.flowsOf_eq_foldl`). An entry changes each flow by itself (`Entry.onFlow`), and
opens flows at accounts where none has taken it (`Entry.opened`).

An entry *touches* the account that is called and the two ends of a transfer. The flows at some accounts depend on the
entries that touch one of them, and on no others (`Trace.foldl_book_within`).
-/

import Mathlib.Data.List.Basic
import Searcher.Trace.Swaps

namespace Searcher

namespace PoolFlow

variable {f : PoolFlow} {t : TokenTransfer} {role : FlowRole}

/-- The flow after a transfer, if the transfer bears on it. -/
def take (f : PoolFlow) (t : TokenTransfer) : PoolFlow := ((f.role? t).map (f.book t)).getD f

/-- The flow that a transfer opens at its recipient. -/
def ofPayment (t : TokenTransfer) : PoolFlow := { pool := t.recipient, tokenIn := some t.token, amountIn := t.amount }

/-- The flow that a transfer opens at its sender. -/
def ofPayout (t : TokenTransfer) : PoolFlow := { pool := t.sender, tokenOut := some t.token, amountOut := t.amount }

/-- A flow that is turned round stays at its account. -/
@[simp] theorem forward_pool (f : PoolFlow) : f.forward.pool = f.pool := by
  unfold forward
  split <;> rfl

/-- A transfer that is booked leaves the flow at its account. -/
@[simp] theorem book_pool (f : PoolFlow) (t : TokenTransfer) (role : FlowRole) : (f.book t role).pool = f.pool := by
  cases role with
  | paidIn | paidOut => rfl
  | refunded | returned => exact forward_pool _

/-- A transfer that bears on a flow is booked in the role that it has. -/
theorem take_of_role (h : f.role? t = some role) : f.take t = f.book t role := by rw [take, h]; rfl

/-- One that does not leaves the flow as it was. -/
theorem take_of_role_none (h : f.role? t = none) : f.take t = f := by rw [take, h]; rfl

/-- No transfer moves a flow to another account. -/
@[simp] theorem take_pool (f : PoolFlow) (t : TokenTransfer) : (f.take t).pool = f.pool := by
  rcases h : f.role? t with _ | role
  · rw [take_of_role_none h]
  · rw [take_of_role h, book_pool]

/-- No transfer shows whether an account is a pool. -/
theorem take_exchange (f : PoolFlow) (t : TokenTransfer) : (f.take t).exchange = f.exchange := by
  have hforward (f : PoolFlow) : f.forward.exchange = f.exchange := by
    unfold forward
    split <;> rfl
  rcases h : f.role? t with _ | role
  · rw [take_of_role_none h]
  · rw [take_of_role h]
    cases role with
    | paidIn | paidOut => rfl
    | refunded | returned => exact hforward _

/-- A transfer between two other accounts does not bear on a flow. -/
theorem role_none_of_away (hr : f.pool ≠ t.recipient) (hs : f.pool ≠ t.sender) : f.role? t = none := by
  simp [role?, hr, hs]

/-- What comes in is a payment or a refund to the account of the flow. -/
theorem pool_of_role_recipient (h : f.role? t = some .paidIn ∨ f.role? t = some .refunded) : f.pool = t.recipient := by
  unfold role? at h
  grind

/-- What goes out is a payout or a return from the account of the flow. -/
theorem pool_of_role_sender (h : f.role? t = some .paidOut ∨ f.role? t = some .returned) : f.pool = t.sender := by
  unfold role? at h
  grind

end PoolFlow

namespace Trace

variable {flows flows' : List PoolFlow} {accounts : Address → Bool}

/-- What one call books. -/
inductive Entry where
  /-- An account is called as a pool. -/
  | call (exchange : Exchange) (pool : Address)
  /-- A token is moved. -/
  | move (t : TokenTransfer)
deriving DecidableEq

namespace Entry

variable {entry : Entry}

/-- The flows after an entry. -/
def book (flows : List PoolFlow) : Entry → List PoolFlow
  | call exchange pool => markPool flows exchange pool
  | move t => bookTransfer flows t

/-- The transfer of an entry. -/
def transfer? : Entry → Option TokenTransfer
  | call _ _ => none
  | move t => some t

/-- The account that an entry calls as a pool. -/
def pool? : Entry → Option Address
  | call _ pool => some pool
  | move _ => none

/-- Whether an entry calls one of some accounts, or moves a token to or from one. -/
def touches (accounts : Address → Bool) : Entry → Bool
  | call _ pool => accounts pool
  | move t => accounts t.sender || accounts t.recipient

/-- A flow after an entry. -/
def onFlow (f : PoolFlow) : Entry → PoolFlow
  | call exchange pool => if f.pool = pool then { f with exchange := some exchange } else f
  | move t => f.take t

/-- The flows that an entry opens. -/
def opened (flows : List PoolFlow) : Entry → List PoolFlow
  | call exchange pool => if flows.any (·.pool = pool) then [] else [{ pool, exchange := some exchange }]
  | move t => (if isTaken flows t .paidIn .refunded then [] else [.ofPayment t]) ++
      if isTaken flows t .paidOut .returned then [] else [.ofPayout t]

/-- An entry changes the flows one by one and opens new ones. -/
theorem book_eq (flows : List PoolFlow) (entry : Entry) :
    entry.book flows = flows.map (onFlow · entry) ++ entry.opened flows := by
  cases entry with
  | call exchange pool =>
    simp only [book, markPool, opened]
    split
    · rw [List.append_nil]
      rfl
    · rename_i h
      simp only [List.any_eq_true, decide_eq_true_eq, not_exists, not_and] at h
      congr 1
      exact (List.map_id' flows).symm.trans (List.map_congr_left fun f hf => (if_neg (h f hf)).symm)
  | move t => exact List.append_assoc ..

/-- A call opens an empty flow, and only at an account that has none. -/
theorem mem_opened_call {f : PoolFlow} {exchange : Exchange} {pool : Address} :
    f ∈ (call exchange pool).opened flows ↔
      f = { pool, exchange := some exchange } ∧ ∀ f' ∈ flows, f'.pool ≠ pool := by
  rw [opened, List.mem_ite_nil_left, List.mem_singleton, and_comm]
  simp

/-- A transfer opens a flow at each end where no flow has taken it: with the token paid in at its recipient, with the
token paid out at its sender. -/
theorem mem_opened_move {f : PoolFlow} {t : TokenTransfer} : f ∈ (move t).opened flows ↔
    f = .ofPayment t ∧ (∀ f' ∈ flows, ¬ (f'.role? t = some .paidIn ∨ f'.role? t = some .refunded)) ∨
      f = .ofPayout t ∧ ∀ f' ∈ flows, ¬ (f'.role? t = some .paidOut ∨ f'.role? t = some .returned) := by
  simp only [opened, List.mem_append, List.mem_ite_nil_left, List.mem_singleton, isTaken, List.any_eq_true,
    decide_eq_true_eq, not_exists, not_and, and_comm]

/-- Every flow stays at its account. -/
@[simp] theorem onFlow_pool (f : PoolFlow) (entry : Entry) : (onFlow f entry).pool = f.pool := by
  cases entry with
  | call exchange pool => exact (apply_ite PoolFlow.pool ..).trans (ite_self _)
  | move t => exact f.take_pool t

/-- The flows after an entry are the flows before, each changed by it, and those that it opens. -/
theorem mem_book {f' : PoolFlow} :
    f' ∈ entry.book flows ↔ (∃ f ∈ flows, onFlow f entry = f') ∨ f' ∈ entry.opened flows := by
  rw [book_eq, List.mem_append, List.mem_map]

/-- No account loses its flows. -/
theorem exists_mem_book {pool : Address} (h : ∃ f ∈ flows, f.pool = pool) (entry : Entry) :
    ∃ f ∈ entry.book flows, f.pool = pool := by
  obtain ⟨f, hf, he⟩ := h
  exact ⟨onFlow f entry, mem_book.2 (.inl ⟨f, hf, rfl⟩), (onFlow_pool f entry).trans he⟩

/-- After a transfer, both ends have a flow. -/
theorem exists_mem_book_move {t : TokenTransfer} {pool : Address} (h : t.recipient = pool ∨ t.sender = pool)
    (flows : List PoolFlow) : ∃ f ∈ (move t).book flows, f.pool = pool := by
  by_cases hpresent : ∃ f ∈ flows, f.pool = pool
  · exact exists_mem_book hpresent _
  rcases h with rfl | rfl
  · refine ⟨.ofPayment t, mem_book.2 (.inr (mem_opened_move.2 (.inl ⟨rfl, fun f hf hrole => ?_⟩))), rfl⟩
    exact hpresent ⟨f, hf, PoolFlow.pool_of_role_recipient hrole⟩
  · refine ⟨.ofPayout t, mem_book.2 (.inr (mem_opened_move.2 (.inr ⟨rfl, fun f hf hrole => ?_⟩))), rfl⟩
    exact hpresent ⟨f, hf, PoolFlow.pool_of_role_sender hrole⟩

/-- An entry leaves flows alone that it does not touch. -/
theorem onFlow_of_not_touches {f : PoolFlow} (h : ¬ entry.touches accounts) (hf : accounts f.pool) :
    onFlow f entry = f := by
  cases entry with
  | call exchange pool => exact if_neg fun he : f.pool = pool => h (he ▸ hf)
  | move t =>
    simp only [touches, Bool.or_eq_true, not_or] at h
    exact PoolFlow.take_of_role_none (PoolFlow.role_none_of_away (fun he => h.2 (he ▸ hf)) fun he => h.1 (he ▸ hf))

end Entry

mutual

/-- What is booked for a call and all calls below it, in the order of the calls. -/
def entries : CallFrame → List Entry
  | .mk sender receiver input error calls =>
    match receiver with
    | none => []
    | some receiver =>
      let frame := CallFrame.mk sender receiver input error calls
      (frame.exchange?.map (Entry.call · receiver)).toList ++
        match frame.transfer? receiver with
        | some t => [.move t]
        | none => entriesOfAll calls

/-- What is booked for calls, one after another. -/
def entriesOfAll : List CallFrame → List Entry
  | [] => []
  | frame :: rest => entries frame ++ entriesOfAll rest

end

/-- The transfers of a trace, in the order of the calls. -/
def transfers (root : CallFrame) : List TokenTransfer := (entries root).filterMap Entry.transfer?

/-- Marking a call books one entry, if the call shows that its receiver is a pool, and none otherwise. -/
theorem markCall_eq_foldl (flows : List PoolFlow) (frame : CallFrame) (receiver : Address) :
    markCall flows frame receiver =
      (frame.exchange?.map (Entry.call · receiver)).toList.foldl Entry.book flows := by
  unfold markCall
  cases frame.exchange? <;> rfl

mutual

/-- **The flows of a trace are those of its entries**, booked one after another. -/
theorem flowsOf_eq_foldl (flows : List PoolFlow) (frame : CallFrame) :
    flowsOf flows frame = (entries frame).foldl Entry.book flows := by
  obtain ⟨sender, _ | receiver, input, error, calls⟩ := frame
  · rfl
  · rw [flowsOf, entries, List.foldl_append, ← markCall_eq_foldl]
    rcases (CallFrame.mk sender receiver input error calls).transfer? receiver with _ | t
    · exact flowsOfAll_eq_foldl _ calls
    · rfl

/-- The same of a row of calls, by the recursion of the trace. -/
theorem flowsOfAll_eq_foldl (flows : List PoolFlow) (calls : List CallFrame) :
    flowsOfAll flows calls = (entriesOfAll calls).foldl Entry.book flows := by
  cases calls with
  | nil => rfl
  | cons frame rest =>
    rw [flowsOfAll, entriesOfAll, List.foldl_append, flowsOf_eq_foldl flows frame]
    exact flowsOfAll_eq_foldl _ rest

end

/-- The flows at some accounts. -/
def within (accounts : Address → Bool) (flows : List PoolFlow) : List PoolFlow := flows.filter (accounts ·.pool)

/-- The flows at some accounts, of two rows of flows. -/
@[simp] theorem within_append (flows flows' : List PoolFlow) :
    within accounts (flows ++ flows') = within accounts flows ++ within accounts flows' := List.filter_append ..

/-- Looking twice for the flows at some accounts is looking once. -/
@[simp] theorem within_within (flows : List PoolFlow) :
    within accounts (within accounts flows) = within accounts flows := List.filter_filter.trans (by simp [within])

/-- Since no flow moves, those at some accounts may be looked for before or after an entry changes them. -/
theorem within_map_onFlow (flows : List PoolFlow) (entry : Entry) :
    within accounts (flows.map (Entry.onFlow · entry)) = (within accounts flows).map (Entry.onFlow · entry) := by
  rw [within, List.filter_map, within]
  congr 2
  funext f
  exact congrArg accounts (Entry.onFlow_pool f entry)

/-- Flows that can only be at some accounts are looked for only there. -/
theorem any_within {p : PoolFlow → Bool} (h : ∀ f, p f → accounts f.pool) (flows : List PoolFlow) :
    (within accounts flows).any p = flows.any p := by
  rw [within, List.any_filter]
  congr 1
  funext f
  rcases hp : p f with _ | _
  · simp
  · simp [h f hp]

/-- Whether a flow has taken one end of a transfer is seen at the account of that end. -/
theorem isTaken_within {t : TokenTransfer} {a b : FlowRole} {account : Address} (h : accounts account)
    (hrole : ∀ f : PoolFlow, f.role? t = some a ∨ f.role? t = some b → f.pool = account) :
    isTaken (within accounts flows) t a b = isTaken flows t a b :=
  any_within (fun f hf => by rw [hrole f (by simpa using hf)]; exact h) flows

/-- A new flow at some accounts is opened depending on the flows there. -/
theorem within_ite {new : PoolFlow} {a b : Bool} (h : accounts new.pool → a = b) :
    within accounts (if a then [] else [new]) = within accounts (if b then [] else [new]) := by
  by_cases hnew : accounts new.pool
  · rw [h hnew]
  · cases a <;> cases b <;> simp [within, hnew]

/-- Which flows an entry opens at some accounts is seen from the flows there. -/
theorem within_opened (flows : List PoolFlow) (entry : Entry) :
    within accounts (entry.opened flows) = within accounts (entry.opened (within accounts flows)) := by
  cases entry with
  | call exchange pool =>
    refine within_ite fun h => (any_within (fun f hf => ?_) flows).symm
    rwa [show f.pool = pool by simpa using hf]
  | move t =>
    simp only [Entry.opened, within_append]
    congr 1
    · exact within_ite fun h => (isTaken_within h fun _ => PoolFlow.pool_of_role_recipient).symm
    · exact within_ite fun h => (isTaken_within h fun _ => PoolFlow.pool_of_role_sender).symm

/-- An entry opens no flow at accounts that it does not touch. -/
theorem within_opened_of_not_touches {entry : Entry} (h : ¬ entry.touches accounts) (flows : List PoolFlow) :
    within accounts (entry.opened flows) = [] := by
  refine List.filter_eq_nil_iff.2 fun f hf hacc => h ?_
  cases entry with
  | call exchange pool =>
    obtain ⟨rfl, -⟩ := Entry.mem_opened_call.1 hf
    exact hacc
  | move t =>
    simp only [Entry.touches, Bool.or_eq_true]
    rcases Entry.mem_opened_move.1 hf with ⟨rfl, -⟩ | ⟨rfl, -⟩
    · exact .inr hacc
    · exact .inl hacc

/-- The flows at some accounts after an entry depend on the flows there before. -/
theorem within_book (flows : List PoolFlow) (entry : Entry) :
    within accounts (entry.book flows) = within accounts (entry.book (within accounts flows)) := by
  rw [Entry.book_eq, Entry.book_eq, within_append, within_append, within_map_onFlow, within_map_onFlow, within_within,
    within_opened]

/-- An entry that touches none of some accounts leaves the flows there alone. -/
theorem within_book_of_not_touches {entry : Entry} (h : ¬ entry.touches accounts) (flows : List PoolFlow) :
    within accounts (entry.book flows) = within accounts flows := by
  rw [Entry.book_eq, within_append, within_opened_of_not_touches h, List.append_nil, within_map_onFlow]
  exact (List.map_congr_left fun f hf => Entry.onFlow_of_not_touches h (List.mem_filter.1 hf).2).trans (List.map_id' _)

/-- **Flows at some accounts hang on the entries that touch them.** -/
theorem foldl_book_within (h : within accounts flows = within accounts flows') (es : List Entry) :
    within accounts (es.foldl Entry.book flows) =
      within accounts ((es.filter (·.touches accounts)).foldl Entry.book flows') := by
  induction es generalizing flows flows' with
  | nil => exact h
  | cons entry es ih =>
    by_cases ht : entry.touches accounts
    · rw [List.filter_cons_of_pos ht, List.foldl_cons, List.foldl_cons]
      exact ih (by rw [within_book flows, h, ← within_book flows'])
    · rw [List.filter_cons_of_neg ht, List.foldl_cons]
      exact ih ((within_book_of_not_touches ht flows).trans h)

end Trace
end Searcher
