/-
# The amounts of a swap are net flows

What an account *gains* of a token is what transfers bring to it less what they take from it. A flow *books* transfers
if its amounts are what its account gains of the token that is paid in, and loses of the one that is paid out. Once a
flow has both tokens it books every further transfer of them, in whatever direction (`PoolFlow.Trades.take`): a token
that comes back is taken off, and a flow that runs backwards is turned round.

A flow gets its tokens from the first transfers that fit, and knows nothing of earlier ones. So it matters how a pool
opens: if it is paid one token and pays out the other, and moves nothing else until it has done both, no transfer is
lost (`Trace.OpensWith`). The events at such a pool carry the net flows of the whole trace (`Trace.swapEvents_netFlow`).
A pool that gets back some of the token it is about to pay out does not open so, and its event pays out too much
(`Trace.payingBoth_overstates`).
-/

import Mathlib.Algebra.Ring.Nat
import Mathlib.Data.List.Sort
import Searcher.Abi
import Searcher.Proofs.Trace.Walk

namespace Searcher

/-- How much of a token transfers bring to an account. -/
def received (ts : List TokenTransfer) (account token : Address) : Nat :=
  ((ts.filter fun t => t.recipient = account ∧ t.token = token).map (·.amount)).sum

/-- How much of a token transfers take from an account. -/
def sent (ts : List TokenTransfer) (account token : Address) : Nat :=
  ((ts.filter fun t => t.sender = account ∧ t.token = token).map (·.amount)).sum

/-- What an account has more of a token after transfers. -/
def gained (ts : List TokenTransfer) (account token : Address) : Int :=
  received ts account token - sent ts account token

/-- The amounts of an event are what transfers net of its tokens at its pool. -/
def SwapEvent.Nets (e : SwapEvent) (ts : List TokenTransfer) : Prop :=
  (e.amountIn : Int) = received ts e.pool e.tokenIn - sent ts e.pool e.tokenIn ∧
    (e.amountOut : Int) = sent ts e.pool e.tokenOut - received ts e.pool e.tokenOut

instance (e : SwapEvent) (ts : List TokenTransfer) : Decidable (e.Nets ts) := inferInstanceAs (Decidable (_ ∧ _))

section Gained

variable {ts : List TokenTransfer} {t : TokenTransfer} {account token : Address}

/-- Two rows of transfers add up what they bring. -/
theorem gained_append (ts ts' : List TokenTransfer) (account token : Address) :
    gained (ts ++ ts') account token = gained ts account token + gained ts' account token := by
  simp only [gained, received, sent, List.filter_append, List.map_append, List.sum_append]
  omega

/-- Transfers that leave the token of an account alone bring it nothing of it. -/
theorem gained_eq_zero (ts : List TokenTransfer)
    (h : ∀ t ∈ ts, t.token = token → t.recipient ≠ account ∧ t.sender ≠ account) : gained ts account token = 0 := by
  have hr : ts.filter (fun t => t.recipient = account ∧ t.token = token) = [] :=
    List.filter_eq_nil_iff.2 fun t ht => by simpa using fun he ht' => (h t ht ht').1 he
  have hs : ts.filter (fun t => t.sender = account ∧ t.token = token) = [] :=
    List.filter_eq_nil_iff.2 fun t ht => by simpa using fun he ht' => (h t ht ht').2 he
  rw [gained, received, sent, hr, hs]
  rfl

/-- A transfer of another token, or one between other accounts, brings nothing. -/
theorem gained_concat_away (h : t.token = token → t.recipient ≠ account ∧ t.sender ≠ account) :
    gained (ts ++ [t]) account token = gained ts account token := by
  rw [gained_append, gained_eq_zero [t] (by simpa using h), Int.add_zero]

/-- A transfer to the account raises what it gained by the amount. -/
theorem gained_concat_in (hr : t.recipient = account) (hs : t.sender ≠ account) :
    gained (ts ++ [t]) account t.token = gained ts account t.token + t.amount := by
  rw [gained_append]
  simp [gained, received, sent, hr, hs]

/-- A transfer from the account lowers it by the amount. -/
theorem gained_concat_out (hs : t.sender = account) (hr : t.recipient ≠ account) :
    gained (ts ++ [t]) account t.token = gained ts account t.token - t.amount := by
  rw [gained_append]
  simp [gained, received, sent, hr, hs]
  omega

end Gained

section Wrapping

/-- A sum may be wrapped after each term or once at the end. -/
theorem wrapSigned_add (n m : Int) : wrapSigned (wrapSigned n + m) = wrapSigned (n + m) := Int.bmod_add_bmod

/-- So may a difference. -/
theorem wrapSigned_sub (n m : Int) : wrapSigned (wrapSigned n - m) = wrapSigned (n - m) := Int.bmod_sub_bmod

/-- The negative of a wrapped number is that of the number, up to wrapping. This is where a flow may be turned round:
the least signed number has no negative of its own. -/
theorem wrapSigned_neg (n : Int) : wrapSigned (-wrapSigned n) = wrapSigned (-n) := by
  simp [wrapSigned]

/-- A number with room for its sign is its own wrapping. -/
theorem wrapSigned_eq_self {n : Int} (h : n.natAbs < 2 ^ 255) : wrapSigned n = n :=
  Int.bmod_eq_of_le (by omega) (by omega)

end Wrapping

namespace PoolFlow

variable {f : PoolFlow} {ts : List TokenTransfer} {t : TokenTransfer} {x y c : Address}

/-- Whether one of the tokens of a flow is this one. -/
def Has (f : PoolFlow) (token : Address) : Prop := f.tokenIn = some token ∨ f.tokenOut = some token

/-- The amounts of the flow are what its account gained of `x`, and what it lost of `y`. -/
structure Tallies (f : PoolFlow) (ts : List TokenTransfer) (x y : Address) : Prop where
  amountIn : f.amountIn = wrapSigned (gained ts f.pool x)
  amountOut : f.amountOut = wrapSigned (-gained ts f.pool y)

/-- The flow pays `x` in and takes `y` out, and its amounts are what some transfers move. -/
structure Books (f : PoolFlow) (ts : List TokenTransfer) (x y : Address) : Prop extends Tallies f ts x y where
  tokenIn : f.tokenIn = some x
  tokenOut : f.tokenOut = some y

/-- The flow books transfers of two tokens, in one direction or the other. -/
def Trades (f : PoolFlow) (ts : List TokenTransfer) (x y : Address) : Prop := f.Books ts x y ∨ f.Books ts y x

/-- A payment of `x` is added to what is paid in. -/
theorem Tallies.paidIn (h : f.Tallies ts t.token y) (hne : t.token ≠ y) (hin : t.recipient = f.pool)
    (hout : t.sender ≠ f.pool) : (f.book t .paidIn).Tallies (ts ++ [t]) t.token y where
  amountIn := by
    change wrapSigned (f.amountIn + t.amount) = wrapSigned (gained (ts ++ [t]) f.pool t.token)
    rw [h.amountIn, wrapSigned_add, gained_concat_in hin hout]
  amountOut := by
    change f.amountOut = wrapSigned (-gained (ts ++ [t]) f.pool y)
    rw [h.amountOut, gained_concat_away fun he => absurd he hne]

/-- A payout of `y` is added to what is paid out. -/
theorem Tallies.paidOut (h : f.Tallies ts x t.token) (hne : t.token ≠ x) (hout : t.sender = f.pool)
    (hin : t.recipient ≠ f.pool) : (f.book t .paidOut).Tallies (ts ++ [t]) x t.token where
  amountIn := by
    change f.amountIn = wrapSigned (gained (ts ++ [t]) f.pool x)
    rw [h.amountIn, gained_concat_away fun he => absurd he hne]
  amountOut := by
    change wrapSigned (f.amountOut + t.amount) = wrapSigned (-gained (ts ++ [t]) f.pool t.token)
    rw [h.amountOut, wrapSigned_add, gained_concat_out hout hin, Int.neg_sub, Int.sub_eq_add_neg, Int.add_comm]

/-- The amounts are right before the flow is turned round. -/
theorem Tallies.refunded (h : f.Tallies ts x t.token) (hne : t.token ≠ x) (hin : t.recipient = f.pool)
    (hout : t.sender ≠ f.pool) :
    Tallies { f with amountOut := wrapSigned (f.amountOut - t.amount) } (ts ++ [t]) x t.token where
  amountIn := by rw [gained_concat_away fun he => absurd he hne, ← h.amountIn]
  amountOut := by rw [h.amountOut, wrapSigned_sub, gained_concat_in hin hout, Int.neg_add, Int.sub_eq_add_neg]

/-- Likewise where some of `x` goes back: it is taken off what was paid in. -/
theorem Tallies.returned (h : f.Tallies ts t.token y) (hne : t.token ≠ y) (hout : t.sender = f.pool)
    (hin : t.recipient ≠ f.pool) :
    Tallies { f with amountIn := wrapSigned (f.amountIn - t.amount) } (ts ++ [t]) t.token y where
  amountIn := by rw [h.amountIn, wrapSigned_sub, gained_concat_out hout hin]
  amountOut := by rw [gained_concat_away fun he => absurd he hne, ← h.amountOut]

/-- A transfer between others, or of a third token, adds nothing. -/
theorem Tallies.away (h : f.Tallies ts x y)
    (haway : t.token = x ∨ t.token = y → t.recipient ≠ f.pool ∧ t.sender ≠ f.pool) : f.Tallies (ts ++ [t]) x y where
  amountIn := by rw [h.amountIn, gained_concat_away fun he => haway (.inl he)]
  amountOut := by rw [h.amountOut, gained_concat_away fun he => haway (.inr he)]

/-- A flow that is turned round has the same two tokens. -/
theorem forward_has (h : f.Has c) : f.forward.Has c := by
  unfold forward
  split
  · exact h.symm
  · exact h

/-- A flow keeps its tokens. -/
theorem take_has (h : f.Has c) (t : TokenTransfer) : (f.take t).Has c := by
  rcases hrole : f.role? t with _ | role
  · rwa [take_of_role_none hrole]
  · rw [take_of_role hrole]
    cases role with
    | paidIn =>
      refine h.imp_left fun hc => ?_
      unfold role? at hrole
      grind [book]
    | paidOut =>
      refine h.imp_right fun hc => ?_
      unfold role? at hrole
      grind [book]
    | refunded | returned => exact forward_has h

/-- Turned round or not, a flow books the same transfers. -/
theorem Books.forward (h : f.Books ts x y) : f.forward.Trades ts x y := by
  unfold PoolFlow.forward
  split
  · refine .inr ⟨⟨?_, ?_⟩, h.tokenOut, h.tokenIn⟩
    · rw [h.amountOut, wrapSigned_neg, Int.neg_neg]
    · rw [h.amountIn, wrapSigned_neg]
  · exact .inl h

/-- Seeing that an account is a pool changes none of its amounts. -/
theorem Trades.called (h : f.Trades ts x y) (exchange : Option Exchange) : Trades { f with exchange } ts x y :=
  h.imp (fun hb => ⟨⟨hb.amountIn, hb.amountOut⟩, hb.tokenIn, hb.tokenOut⟩)
    fun hb => ⟨⟨hb.amountIn, hb.amountOut⟩, hb.tokenIn, hb.tokenOut⟩

/-- How a transfer of one of its two tokens bears on a flow that has both. -/
theorem Books.role (h : f.Books ts x y) (t : TokenTransfer) : f.role? t =
    if t.recipient = f.pool ∧ t.token = x then some .paidIn
    else if t.sender = f.pool ∧ t.token = y then some .paidOut
    else if t.recipient = f.pool ∧ t.token = y then some .refunded
    else if t.sender = f.pool ∧ t.token = x then some .returned
    else none := by
  simp only [role?, h.tokenIn, h.tokenOut, Option.some.injEq, reduceCtorEq, false_or, eq_comm]

/-- A flow books every transfer that does not go from its account to itself. -/
theorem Books.take (h : f.Books ts x y) (hne : x ≠ y)
    (hself : t.token = x ∨ t.token = y → t.sender = f.pool → t.recipient ≠ f.pool) :
    (f.take t).Trades (ts ++ [t]) x y := by
  by_cases hmoves : (t.token = x ∨ t.token = y) ∧ (t.recipient = f.pool ∨ t.sender = f.pool)
  · obtain ⟨rfl | rfl, hin | hout⟩ := hmoves
    · -- more is paid in
      have hout : t.sender ≠ f.pool := fun hs => hself (.inl rfl) hs hin
      have hrole : f.role? t = some .paidIn := by rw [h.role, if_pos ⟨hin, rfl⟩]
      rw [take_of_role hrole]
      exact .inl ⟨h.paidIn hne hin hout, rfl, h.tokenOut⟩
    · -- what was paid in goes back
      have hin : t.recipient ≠ f.pool := hself (.inl rfl) hout
      have hrole : f.role? t = some .returned := by simp [h.role, hin, hout, hne]
      rw [take_of_role hrole]
      exact Books.forward ⟨h.returned hne hout hin, h.tokenIn, h.tokenOut⟩
    · -- what was paid out comes back
      have hout : t.sender ≠ f.pool := fun hs => hself (.inr rfl) hs hin
      have hrole : f.role? t = some .refunded := by simp [h.role, hin, hout, hne.symm]
      rw [take_of_role hrole]
      exact Books.forward ⟨h.refunded hne.symm hin hout, h.tokenIn, h.tokenOut⟩
    · -- more is paid out
      have hin : t.recipient ≠ f.pool := hself (.inr rfl) hout
      have hrole : f.role? t = some .paidOut := by simp [h.role, hin, hout]
      rw [take_of_role hrole]
      exact .inl ⟨h.paidOut hne.symm hout hin, h.tokenIn, rfl⟩
  · have haway (ht : t.token = x ∨ t.token = y) : t.recipient ≠ f.pool ∧ t.sender ≠ f.pool :=
      not_or.1 fun hm => hmoves ⟨ht, hm⟩
    rw [take_of_role_none (by rw [h.role]; grind)]
    exact .inl ⟨h.away haway, h.tokenIn, h.tokenOut⟩

/-- A flow that trades two tokens goes on doing so, whichever of its two directions it has at the time. -/
theorem Trades.take (h : f.Trades ts x y) (hne : x ≠ y)
    (hself : t.token = x ∨ t.token = y → t.sender = f.pool → t.recipient ≠ f.pool) :
    (f.take t).Trades (ts ++ [t]) x y := by
  rcases h with h | h
  · exact h.take hne hself
  · exact (h.take hne.symm fun ht => hself ht.symm).symm

/-- What comes to the account in one of the tokens of a flow is taken by it. -/
theorem Trades.role_in (h : f.Trades ts x y) (ht : t.token = x ∨ t.token = y) (hin : t.recipient = f.pool)
    (hout : t.sender ≠ f.pool) : f.role? t = some .paidIn ∨ f.role? t = some .refunded := by
  rcases h with h | h <;> rw [h.role] <;> grind

/-- What leaves the account in one of the tokens of a flow is taken by it. -/
theorem Trades.role_out (h : f.Trades ts x y) (ht : t.token = x ∨ t.token = y) (hout : t.sender = f.pool)
    (hin : t.recipient ≠ f.pool) : f.role? t = some .paidOut ∨ f.role? t = some .returned := by
  rcases h with h | h <;> rw [h.role] <;> grind

/-- The flow is being opened: of `x` it has all that was paid in, of `y` all that was paid out, and it has each token
as soon as one of these was moved. -/
structure Fills (f : PoolFlow) (ts : List TokenTransfer) (x y : Address) : Prop extends Tallies f ts x y where
  tokenIn : f.tokenIn = some x ∨ f.tokenIn = none ∧ ∀ t ∈ ts, t.recipient ≠ f.pool
  tokenOut : f.tokenOut = some y ∨ f.tokenOut = none ∧ ∀ t ∈ ts, t.sender ≠ f.pool

/-- A flow that has both tokens is open. -/
theorem Fills.books (h : f.Fills ts x y) (hin : ∃ t ∈ ts, t.recipient = f.pool) (hout : ∃ t ∈ ts, t.sender = f.pool) :
    f.Books ts x y where
  toTallies := h.toTallies
  tokenIn := h.tokenIn.resolve_right fun ⟨_, hnone⟩ => hin.elim fun t ⟨ht, he⟩ => hnone t ht he
  tokenOut := h.tokenOut.resolve_right fun ⟨_, hnone⟩ => hout.elim fun t ⟨ht, he⟩ => hnone t ht he

/-- **A flow that is being opened takes what its account moves**, as long as the account is only paid `x` and only
pays out `y`. It has the token from the first such transfer on. -/
theorem Fills.take (h : f.Fills ts x y) (hne : x ≠ y) (hin : t.recipient = f.pool → t.token = x)
    (hout : t.sender = f.pool → t.token = y) : (f.take t).Fills (ts ++ [t]) x y := by
  have htokenIn (hr : t.recipient ≠ f.pool) :
      f.tokenIn = some x ∨ f.tokenIn = none ∧ ∀ t' ∈ ts ++ [t], t'.recipient ≠ f.pool :=
    h.tokenIn.imp_right fun hnone => ⟨hnone.1, by simpa [or_imp, forall_and, hr] using hnone.2⟩
  have htokenOut (hs : t.sender ≠ f.pool) :
      f.tokenOut = some y ∨ f.tokenOut = none ∧ ∀ t' ∈ ts ++ [t], t'.sender ≠ f.pool :=
    h.tokenOut.imp_right fun hnone => ⟨hnone.1, by simpa [or_imp, forall_and, hs] using hnone.2⟩
  by_cases hr : t.recipient = f.pool
  · have hs : t.sender ≠ f.pool := fun hs => hne ((hin hr).symm.trans (hout hs))
    obtain rfl := hin hr
    have hrole : f.role? t = some .paidIn := if_pos ⟨hr.symm, h.tokenIn.symm.imp_left And.left⟩
    rw [take_of_role hrole]
    exact ⟨h.paidIn hne hr hs, .inl rfl, htokenOut hs⟩
  by_cases hs : t.sender = f.pool
  · obtain rfl := hout hs
    have hrole : f.role? t = some .paidOut := by simp [role?, Ne.symm hr, hs, h.tokenOut.symm.imp_left And.left]
    rw [take_of_role hrole]
    exact ⟨h.paidOut hne.symm hs hr, htokenIn hr, .inl rfl⟩
  · rw [take_of_role_none (role_none_of_away (Ne.symm hr) (Ne.symm hs))]
    exact ⟨h.away fun _ => ⟨hr, hs⟩, htokenIn hr, htokenOut hs⟩

/-- Nor does seeing that the account of a flow being opened is a pool. -/
theorem Fills.called (h : f.Fills ts x y) (exchange : Option Exchange) : Fills { f with exchange } ts x y :=
  ⟨⟨h.amountIn, h.amountOut⟩, h.tokenIn, h.tokenOut⟩

/-- A flow that nothing has moved to or from is being opened. -/
theorem fills_of_away {pool : Address} (exchange : Option Exchange)
    (h : ∀ t ∈ ts, t.recipient ≠ pool ∧ t.sender ≠ pool) : Fills { pool, exchange } ts x y := by
  refine ⟨⟨?_, ?_⟩, .inr ⟨rfl, fun t ht => (h t ht).1⟩, .inr ⟨rfl, fun t ht => (h t ht).2⟩⟩
  all_goals
    rw [gained_eq_zero ts fun t ht _ => h t ht]
    rfl

/-- The flow that is opened by what comes in is an empty one that took it. -/
theorem ofPayment_eq (h : t.amount < 2 ^ 255) : ofPayment t = take { pool := t.recipient } t := by
  have hamount : wrapSigned (0 + t.amount) = t.amount := by simpa using wrapSigned_eq_self (n := t.amount) h
  have hrole : role? { pool := t.recipient } t = some .paidIn := if_pos ⟨rfl, .inl rfl⟩
  rw [take_of_role hrole, book, hamount]
  rfl

/-- The flow that is opened by what goes out is an empty one that took it. -/
theorem ofPayout_eq (h : t.amount < 2 ^ 255) (hne : t.recipient ≠ t.sender) :
    ofPayout t = take { pool := t.sender } t := by
  have hamount : wrapSigned (0 + t.amount) = t.amount := by simpa using wrapSigned_eq_self (n := t.amount) h
  have hrole : role? { pool := t.sender } t = some .paidOut := by simp [role?, hne.symm]
  rw [take_of_role hrole, book, hamount]
  rfl

end PoolFlow

namespace Trace

/-- At first a pool is only paid `x` and only pays out `y`, until it has done both. -/
def OpensWith (ts : List TokenTransfer) (pool x y : Address) : Prop :=
  ∃ opening rest, ts = opening ++ rest ∧
    (∀ t ∈ opening, (t.recipient = pool → t.token = x) ∧ (t.sender = pool → t.token = y)) ∧
    (∃ t ∈ opening, t.recipient = pool) ∧ ∃ t ∈ opening, t.sender = pool

/-- While a pool opens, its flows have all that it moved, and there is one as soon as it moved anything. -/
structure Opening (flows : List PoolFlow) (ts : List TokenTransfer) (pool x y : Address) : Prop where
  fills : ∀ f ∈ flows, f.pool = pool → f.Fills ts x y
  present : (∃ f ∈ flows, f.pool = pool) ∨ ∀ t ∈ ts, t.recipient ≠ pool ∧ t.sender ≠ pool

/-- After a pool has opened, one of its flows books all transfers of its two tokens, and every flow of the pool does or
has a third token. -/
structure Open (flows : List PoolFlow) (ts : List TokenTransfer) (pool x y : Address) : Prop where
  trades : ∀ f ∈ flows, f.pool = pool → f.Trades ts x y ∨ ∃ c, f.Has c ∧ c ≠ x ∧ c ≠ y
  present : ∃ f ∈ flows, f.pool = pool ∧ f.Trades ts x y

variable {flows : List PoolFlow} {ts : List TokenTransfer} {t : TokenTransfer} {pool x y : Address} {es : List Entry}

/-- Which of the two tokens is the one that is paid in does not matter to an open pool. -/
theorem Open.symm (h : Open flows ts pool x y) : Open flows ts pool y x where
  trades f hf he := (h.trades f hf he).imp Or.symm fun ⟨c, hc, hx, hy⟩ => ⟨c, hc, hy, hx⟩
  present := h.present.imp fun _ hf => hf.imp_right fun hf => hf.imp_right Or.symm

/-- What a flow has moved is not changed when its account is called as a pool. -/
theorem onFlow_call (f : PoolFlow) (exchange : Exchange) (pool : Address) :
    ∃ exchange', Entry.onFlow f (.call exchange pool) = { f with exchange := exchange' } := by
  by_cases h : f.pool = pool
  · exact ⟨some exchange, if_pos h⟩
  · exact ⟨f.exchange, if_neg h⟩

/-- A call does not disturb a pool that is opening. A flow that it opens is empty, and it opens one only where nothing
has been moved. -/
theorem Opening.call (h : Opening flows ts pool x y) (exchange : Exchange) (account : Address) :
    Opening ((Entry.call exchange account).book flows) ts pool x y where
  fills f' hf' hpool := by
    rcases Entry.mem_book.1 hf' with ⟨f, hf, rfl⟩ | hf'
    · have hfills := h.fills f hf ((Entry.onFlow_pool f _).symm.trans hpool)
      obtain ⟨exchange', he⟩ := onFlow_call f exchange account
      rw [he]
      exact hfills.called exchange'
    · obtain ⟨rfl, hnone⟩ := Entry.mem_opened_call.1 hf'
      obtain rfl : account = pool := hpool
      exact PoolFlow.fills_of_away _ (h.present.resolve_left fun ⟨f, hf, he⟩ => hnone f hf he)
  present := h.present.imp_left fun hpresent => Entry.exists_mem_book hpresent _

/-- A transfer does not either, if it moves the pool's tokens in their directions. Its flows take it, or it is what
opens the first of them (`ofPayment_eq`, `ofPayout_eq`). -/
theorem Opening.move (h : Opening flows ts pool x y) (hne : x ≠ y) (hin : t.recipient = pool → t.token = x)
    (hout : t.sender = pool → t.token = y) (hsmall : t.amount < 2 ^ 255) :
    Opening ((Entry.move t).book flows) (ts ++ [t]) pool x y where
  fills f' hf' hpool := by
    have hends (hr : t.recipient = pool) : t.sender ≠ pool := fun hs => hne ((hin hr).symm.trans (hout hs))
    -- a flow is opened only at a pool that has none, and that has moved nothing before
    have haway (hnone : ∀ f ∈ flows, f.pool ≠ pool) : ∀ t ∈ ts, t.recipient ≠ pool ∧ t.sender ≠ pool :=
      h.present.resolve_left fun ⟨f, hf, he⟩ => hnone f hf he
    rcases Entry.mem_book.1 hf' with ⟨f, hf, rfl⟩ | hf'
    · obtain rfl : f.pool = pool := (Entry.onFlow_pool f _).symm.trans hpool
      exact (h.fills f hf rfl).take hne hin hout
    rcases Entry.mem_opened_move.1 hf' with ⟨rfl, hnone⟩ | ⟨rfl, hnone⟩
    · obtain rfl : t.recipient = pool := hpool
      rw [PoolFlow.ofPayment_eq hsmall]
      refine (PoolFlow.fills_of_away none (haway fun f hf he => hnone f hf (.inl ?_))).take hne hin hout
      exact if_pos ⟨he, hin rfl ▸ (h.fills f hf he).tokenIn.symm.imp_left And.left⟩
    · obtain rfl : t.sender = pool := hpool
      have hr : t.recipient ≠ t.sender := fun hr => hends hr rfl
      rw [PoolFlow.ofPayout_eq hsmall hr]
      refine (PoolFlow.fills_of_away none (haway fun f hf he => hnone f hf (.inl ?_))).take hne hin hout
      have := (h.fills f hf he).tokenOut.symm.imp_left And.left
      simp [PoolFlow.role?, he, hr.symm, hout rfl, this]
  present := by
    by_cases hmoved : t.recipient = pool ∨ t.sender = pool
    · exact .inl (Entry.exists_mem_book_move hmoved flows)
    · refine h.present.imp (Entry.exists_mem_book · _) fun haway => ?_
      exact List.forall_mem_append.2 ⟨haway, List.forall_mem_singleton.2 (not_or.1 hmoved)⟩

/-- **A pool opens.** While it moves only the two tokens in their directions, its flows have all that it moved. -/
theorem Opening.foldl (h : Opening flows ts pool x y) (hne : x ≠ y)
    (hopening : ∀ t ∈ es.filterMap Entry.transfer?,
      (t.recipient = pool → t.token = x) ∧ (t.sender = pool → t.token = y))
    (hsmall : ∀ t ∈ es.filterMap Entry.transfer?, t.amount < 2 ^ 255) :
    Opening (es.foldl Entry.book flows) (ts ++ es.filterMap Entry.transfer?) pool x y := by
  induction es generalizing flows ts with
  | nil => simpa using h
  | cons entry es ih =>
    cases entry with
    | call exchange account => exact ih (h.call exchange account) hopening hsmall
    | move t =>
      have hmoved : (Entry.move t :: es).filterMap Entry.transfer? = t :: es.filterMap Entry.transfer? := rfl
      rw [hmoved, List.forall_mem_cons] at hopening hsmall
      rw [hmoved, List.append_cons]
      exact ih (h.move hne hopening.1.1 hopening.1.2 hsmall.1) hopening.2 hsmall.2

/-- A pool that has been paid and has paid out is open. -/
theorem Opening.toOpen (h : Opening flows ts pool x y) (hin : ∃ t ∈ ts, t.recipient = pool)
    (hout : ∃ t ∈ ts, t.sender = pool) : Open flows ts pool x y := by
  have hbooks : ∀ f ∈ flows, f.pool = pool → f.Trades ts x y := by
    rintro f hf rfl
    exact .inl ((h.fills f hf rfl).books hin hout)
  obtain ⟨f, hf, he⟩ := h.present.resolve_right fun haway => hin.elim fun t ⟨ht, he⟩ => (haway t ht).1 he
  exact ⟨fun f hf he => .inl (hbooks f hf he), f, hf, he, hbooks f hf he⟩

/-- A call leaves an open pool open. -/
theorem Open.call (h : Open flows ts pool x y) (exchange : Exchange) (account : Address) :
    Open ((Entry.call exchange account).book flows) ts pool x y := by
  obtain ⟨g, hg, hgpool, hgtrades⟩ := h.present
  constructor
  · intro f' hf' hpool
    rcases Entry.mem_book.1 hf' with ⟨f, hf, rfl⟩ | hf'
    · have hf := h.trades f hf ((Entry.onFlow_pool f _).symm.trans hpool)
      obtain ⟨exchange', he⟩ := onFlow_call f exchange account
      rw [he]
      exact hf.imp_left fun hf => hf.called exchange'
    · obtain ⟨rfl, hnone⟩ := Entry.mem_opened_call.1 hf'
      exact absurd (hgpool.trans hpool.symm) (hnone g hg)
  · refine ⟨_, Entry.mem_book.2 (.inl ⟨g, hg, rfl⟩), (Entry.onFlow_pool g _).trans hgpool, ?_⟩
    obtain ⟨exchange', he⟩ := onFlow_call g exchange account
    rw [he]
    exact hgtrades.called exchange'

/-- **A transfer leaves an open pool open.** Every flow that trades the two tokens takes it. So a flow that is opened
by it is one of a third token, which makes no event of the two. -/
theorem Open.move (h : Open flows ts pool x y) (hne : x ≠ y)
    (hself : t.token = x ∨ t.token = y → t.sender = pool → t.recipient ≠ pool) :
    Open ((Entry.move t).book flows) (ts ++ [t]) pool x y := by
  obtain ⟨g, hg, rfl, hgtrades⟩ := h.present
  constructor
  · intro f' hf' hpool
    rcases Entry.mem_book.1 hf' with ⟨f, hf, rfl⟩ | hf'
    · have he : f.pool = g.pool := (Entry.onFlow_pool f _).symm.trans hpool
      refine (h.trades f hf he).imp (fun hf => hf.take hne (he ▸ hself)) fun ⟨c, hc, hcne⟩ => ⟨c, ?_, hcne⟩
      exact PoolFlow.take_has hc t
    · -- a flow that is opened is of a third token, since the others are taken
      refine .inr ⟨t.token, ?_, ?_⟩
      · rcases Entry.mem_opened_move.1 hf' with ⟨rfl, -⟩ | ⟨rfl, -⟩
        · exact .inl rfl
        · exact .inr rfl
      · rw [← not_or]
        intro ht
        rcases Entry.mem_opened_move.1 hf' with ⟨rfl, hnone⟩ | ⟨rfl, hnone⟩
        · exact hnone g hg (hgtrades.role_in ht hpool fun hs => hself ht hs hpool)
        · exact hnone g hg (hgtrades.role_out ht hpool (hself ht hpool))
  · exact ⟨_, Entry.mem_book.2 (.inl ⟨g, hg, rfl⟩), Entry.onFlow_pool g _, hgtrades.take hne hself⟩

/-- **An open pool loses no transfer of its tokens**, in whatever order and direction they come. -/
theorem Open.foldl (h : Open flows ts pool x y) (hne : x ≠ y)
    (hself : ∀ t ∈ es.filterMap Entry.transfer?, t.token = x ∨ t.token = y → t.sender = pool → t.recipient ≠ pool) :
    Open (es.foldl Entry.book flows) (ts ++ es.filterMap Entry.transfer?) pool x y := by
  induction es generalizing flows ts with
  | nil => simpa using h
  | cons entry es ih =>
    cases entry with
    | call exchange account => exact ih (h.call exchange account) hself
    | move t =>
      have hmoved : (Entry.move t :: es).filterMap Entry.transfer? = t :: es.filterMap Entry.transfer? := rfl
      rw [hmoved, List.forall_mem_cons] at hself
      rw [hmoved, List.append_cons]
      exact ih (h.move hne hself.1) hself.2

mutual

/-- An amount that does not fit a signed number is no transfer, so none is among the entries of a call. -/
theorem amount_lt_of_mem_entries (frame : CallFrame) (h : .move t ∈ entries frame) : t.amount < 2 ^ 255 := by
  obtain ⟨sender, _ | receiver, input, error, calls⟩ := frame
  · simp [entries] at h
  · rw [entries, List.mem_append] at h
    rcases h with h | h
    · simp at h
    · rcases ht : (CallFrame.mk sender receiver input error calls).transfer? receiver with _ | t' <;> rw [ht] at h
      · exact amount_lt_of_mem_entriesOfAll calls h
      · obtain rfl : t = t' := by simpa using h
        have := (Option.filter_eq_some_iff.1 ht).2
        simp at this
        exact this.2

/-- The same of a row of calls, by the recursion of the trace. -/
theorem amount_lt_of_mem_entriesOfAll (calls : List CallFrame) (h : .move t ∈ entriesOfAll calls) :
    t.amount < 2 ^ 255 := by
  cases calls with
  | nil => cases h
  | cons frame rest =>
    rcases List.mem_append.1 h with h | h
    · exact amount_lt_of_mem_entries frame h
    · exact amount_lt_of_mem_entriesOfAll rest h

end

/-- The transfers of a trace fit a signed number. -/
theorem amount_lt_of_mem_transfers {root : CallFrame} (h : t ∈ transfers root) : t.amount < 2 ^ 255 := by
  obtain ⟨entry, he, ht⟩ := List.mem_filterMap.1 h
  cases entry with
  | call exchange account => cases ht
  | move t' =>
    obtain rfl := Option.some.inj ht
    exact amount_lt_of_mem_entries root he

/-- A pool that opens with two tokens is open after the trace. -/
theorem open_of_opensWith {root : CallFrame} (hne : x ≠ y) (hopens : OpensWith (transfers root) pool x y)
    (hself : ∀ t ∈ transfers root, t.token = x ∨ t.token = y → t.sender = pool → t.recipient ≠ pool) :
    Open (flowsOf [] root) (transfers root) pool x y := by
  obtain ⟨opening, rest, hsplit, hmoves, hin, hout⟩ := hopens
  obtain ⟨es, es', hes, rfl, rfl⟩ := List.filterMap_eq_append_iff.1 hsplit
  have hnothing : Opening [] [] pool x y := ⟨fun _ hf => by simp at hf, .inr fun _ ht => by simp at ht⟩
  have hopen := (hnothing.foldl hne hmoves fun t ht => amount_lt_of_mem_transfers
    (hsplit ▸ List.mem_append_left _ ht)).toOpen hin hout
  have := hopen.foldl hne fun t ht => hself t (hsplit ▸ List.mem_append_right _ ht)
  rw [flowsOf_eq_foldl, hes, List.foldl_append, hsplit]
  exact this

end Trace

/-- A flow that makes an event was called as a pool, and hands on its tokens and amounts. -/
theorem PoolFlow.event?_eq_some {f : PoolFlow} {e : SwapEvent} (h : f.event? = some e) :
    f.exchange = some e.exchange ∧ f.pool = e.pool ∧ f.tokenIn = some e.tokenIn ∧ f.tokenOut = some e.tokenOut ∧
      f.amountIn = e.amountIn ∧ f.amountOut = e.amountOut ∧ e.isValid := by
  unfold event? at h
  split at h
  · cases h
  · rename_i hpos
    obtain ⟨exchange, hexchange, h⟩ := Option.bind_eq_some_iff.1 h
    obtain ⟨tokenIn, hin, h⟩ := Option.bind_eq_some_iff.1 h
    obtain ⟨tokenOut, hout, h⟩ := Option.bind_eq_some_iff.1 h
    obtain ⟨hvalid, h⟩ := Option.ite_none_right_eq_some.1 h
    obtain rfl := Option.some.inj h
    exact ⟨hexchange, rfl, hin, hout, by dsimp only; omega, by dsimp only; omega, hvalid⟩

namespace Trace

/-- **Where events come from:** an event is what some flow of the trace makes, unless it pays in dust of the wrapped
coin. -/
theorem mem_swapEvents {root : CallFrame} {wrapped : Address} {dust : Nat} {e : SwapEvent} :
    e ∈ swapEvents root wrapped dust ↔
      (∃ f ∈ flowsOf [] root, f.event? = some e) ∧ ¬ (e.tokenIn = wrapped ∧ e.amountIn < dust) := by
  rw [swapEvents, List.mem_mergeSort, List.mem_filter, List.mem_filterMap, decide_eq_true_eq]

/-- **Swap events carry net flows.** Let an event be of a pool that opens with the two tokens of the event, and let no
transfer of them go from the pool to itself, and no net flow of them outgrow a signed number. Then the event pays in
what the whole trace brings to the pool of the one token less what it takes from it, and takes out what the trace takes
from the pool of the other less what it brings. -/
theorem swapEvents_netFlow {root : CallFrame} {wrapped : Address} {dust : Nat} {e : SwapEvent}
    (he : e ∈ swapEvents root wrapped dust)
    (hopens : OpensWith (transfers root) e.pool e.tokenIn e.tokenOut ∨
      OpensWith (transfers root) e.pool e.tokenOut e.tokenIn)
    (hself : ∀ t ∈ transfers root, t.token = e.tokenIn ∨ t.token = e.tokenOut → t.sender = e.pool →
      t.recipient ≠ e.pool)
    (hfits : ∀ token ∈ [e.tokenIn, e.tokenOut], (gained (transfers root) e.pool token).natAbs < 2 ^ 255) :
    e.Nets (transfers root) := by
  obtain ⟨⟨f, hf, hevent⟩, -⟩ := mem_swapEvents.1 he
  obtain ⟨-, hpool, htokenIn, htokenOut, hamountIn, hamountOut, hvalid⟩ := PoolFlow.event?_eq_some hevent
  have hne : e.tokenIn ≠ e.tokenOut := by
    simp only [SwapEvent.isValid, decide_eq_true_eq] at hvalid
    exact hvalid.2.2.2.1
  have hopen : Open (flowsOf [] root) (transfers root) e.pool e.tokenIn e.tokenOut := by
    rcases hopens with hopens | hopens
    · exact open_of_opensWith hne hopens hself
    · exact (open_of_opensWith hne.symm hopens fun t ht htoken => hself t ht htoken.symm).symm
  -- the flow of the event has no third token, so it is one that books everything
  have hbooks : f.Books (transfers root) e.tokenIn e.tokenOut := by
    rcases hopen.trades f hf hpool with (hbooks | hbooks) | ⟨c, hc, hcin, hcout⟩
    · exact hbooks
    · exact absurd (Option.some.inj (htokenIn.symm.trans hbooks.tokenIn)) hne
    · rcases hc with hc | hc
      · exact absurd (Option.some.inj (hc.symm.trans htokenIn)) hcin
      · exact absurd (Option.some.inj (hc.symm.trans htokenOut)) hcout
  have hin := hfits e.tokenIn (by simp)
  have hout := hfits e.tokenOut (by simp)
  constructor
  · rw [← hamountIn, hbooks.amountIn, hpool, wrapSigned_eq_self hin, gained]
  · rw [← hamountOut, hbooks.amountOut, hpool, wrapSigned_eq_self (by rwa [Int.natAbs_neg]), gained, Int.neg_sub]

/-- The call that moves a token from the caller to another account. -/
def transferCall (t : TokenTransfer) : CallFrame :=
  .mk t.sender (some t.token) ([0xa9, 0x05, 0x9c, 0xbb] ++ Abi.encode [.word t.recipient.toNat, .word t.amount]) none []

/-- The call of a contract that a user has make some calls. -/
def contractCall (calls : List CallFrame) : CallFrame := .mk (.ofNat 5) (some (.ofNat 1)) [] none calls

/-- The call of a pair by the contract. -/
def pairCall (calls : List CallFrame) : CallFrame :=
  .mk (.ofNat 1) (some (.ofNat 2)) [0x02, 0x2c, 0x0d, 0x9f] none calls

/-- A contract buys of a pair, and sells back more than it has bought. -/
def sellingBack : CallFrame := contractCall
  [pairCall [transferCall ⟨.ofNat 2, .ofNat 4, .ofNat 1, 100⟩, transferCall ⟨.ofNat 1, .ofNat 3, .ofNat 2, 10⟩],
    transferCall ⟨.ofNat 1, .ofNat 4, .ofNat 2, 150⟩, pairCall [transferCall ⟨.ofNat 2, .ofNat 3, .ofNat 1, 30⟩]]

/-- The flow of the pair turns round, and still nets both directions. -/
theorem swapEvents_netFlow_sellingBack :
    let e : SwapEvent := ⟨.uniswapV2, .ofNat 2, .ofNat 4, .ofNat 3, 50, 20⟩
    swapEvents sellingBack (.ofNat 9) 0 = [e] ∧ e.Nets (transfers sellingBack) := by
  intro e
  have hevents : swapEvents sellingBack (.ofNat 9) 0 = [e] := by decide +kernel
  have hmoved : transfers sellingBack = [⟨.ofNat 2, .ofNat 4, .ofNat 1, 100⟩, ⟨.ofNat 1, .ofNat 3, .ofNat 2, 10⟩] ++
      [⟨.ofNat 1, .ofNat 4, .ofNat 2, 150⟩, ⟨.ofNat 2, .ofNat 3, .ofNat 1, 30⟩] := by decide +kernel
  have hopens : OpensWith (transfers sellingBack) e.pool e.tokenOut e.tokenIn :=
    ⟨_, _, hmoved, by decide +kernel, by decide +kernel, by decide +kernel⟩
  exact ⟨hevents, swapEvents_netFlow (hevents ▸ List.mem_singleton_self e) (.inr hopens) (by decide +kernel)
    (by decide +kernel)⟩

/-- A contract pays both tokens of a pair, and takes one of them out. -/
def payingBoth : CallFrame := contractCall
  [transferCall ⟨.ofNat 1, .ofNat 3, .ofNat 2, 100⟩, transferCall ⟨.ofNat 1, .ofNat 4, .ofNat 2, 30⟩,
    pairCall [transferCall ⟨.ofNat 2, .ofNat 4, .ofNat 1, 80⟩]]

/-- **What a pool gets before it opens is lost.** The pair pays out 80 of a token of which it has got 30 before, and the
event has all of the 80. After the first payout the same 30 would have been taken off. -/
theorem payingBoth_overstates :
    let e : SwapEvent := ⟨.uniswapV2, .ofNat 2, .ofNat 3, .ofNat 4, 100, 80⟩
    swapEvents payingBoth (.ofNat 9) 0 = [e] ∧ ¬ e.Nets (transfers payingBoth) ∧
      { e with amountOut := 50 }.Nets (transfers payingBoth) := by
  decide +kernel

/-- A transfer from a pool to itself is booked as if it came from outside. -/
example : swapEvents (contractCall [transferCall ⟨.ofNat 1, .ofNat 3, .ofNat 2, 100⟩,
      pairCall [transferCall ⟨.ofNat 2, .ofNat 3, .ofNat 2, 7⟩, transferCall ⟨.ofNat 2, .ofNat 4, .ofNat 1, 80⟩]])
    (.ofNat 9) 0 = [⟨.uniswapV2, .ofNat 2, .ofNat 3, .ofNat 4, 107, 80⟩] := by decide +kernel

end Trace
end Searcher
