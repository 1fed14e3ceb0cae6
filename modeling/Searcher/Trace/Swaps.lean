/-
# Swaps of a trace

A pool is recognised by the function it is called with, and what it traded by the transfers around it: a token that
moves to the pool is paid in, one that moves from it is paid out. Transfers that go back are taken off. Calls below a
transfer are bookkeeping of the token and do not count.

| selector | call |
| --- | --- |
| `022c0d9f` | a swap at a pair |
| `6d9a640a` | a swap at a pair of Bakeryswap |
| `128acb08` | a swap at a concentrated pool |
| `a9059cbb` | a transfer from the caller |
| `23b872dd` | a transfer from a named account |

A trace only tells the kind of pool, so the exchange of an event stands for all of its kind.
-/

import Searcher.SwapEvent
import Searcher.Trace.CallFrame

namespace Searcher

/-- A movement of a token. -/
structure TokenTransfer where
  sender : Address
  token : Address
  recipient : Address
  amount : Nat
deriving DecidableEq, Inhabited

namespace CallFrame

/-- The exchange whose pools have a swap function with this selector. -/
def exchangeOfSelector? (selector : Bytes) : Option Exchange :=
  if selector = [0x02, 0x2c, 0x0d, 0x9f] then some .uniswapV2
  else if selector = [0x6d, 0x9a, 0x64, 0x0a] then some .bakeryswap
  else if selector = [0x12, 0x8a, 0xcb, 0x08] then some .uniswapV3
  else none

/-- The exchange whose pools are called with a function like this. -/
def exchange? (frame : CallFrame) : Option Exchange := frame.selector?.bind exchangeOfSelector?

/-- Argument `i` of the call. -/
def argument? (frame : CallFrame) (i : Nat) : Option Nat := (frame.input.slice? (4 + 32 * i) 32).map Bytes.toNat

/-- The sender, the recipient and the amount of a call that is a transfer of its `token`. -/
def transferArguments? (frame : CallFrame) (token : Address) : Option TokenTransfer := do
  let selector ← frame.selector?
  if selector = [0xa9, 0x05, 0x9c, 0xbb] then
    return ⟨frame.sender, token, .ofNat (← frame.argument? 0), ← frame.argument? 1⟩
  else if selector = [0x23, 0xb8, 0x72, 0xdd] then
    return ⟨.ofNat (← frame.argument? 0), token, .ofNat (← frame.argument? 1), ← frame.argument? 2⟩
  else none

/-- The transfer that a call makes, if it moves a positive amount that a signed number can hold. -/
def transfer? (frame : CallFrame) (token : Address) : Option TokenTransfer :=
  (frame.transferArguments? token).filter fun t => 0 < t.amount ∧ t.amount < 2 ^ 255

end CallFrame

/-- What is known of the swap at an account while the trace is read. -/
structure PoolFlow where
  pool : Address
  /-- Set once the account was called as a pool. -/
  exchange : Option Exchange := none
  tokenIn : Option Address := none
  tokenOut : Option Address := none
  amountIn : Int := 0
  amountOut : Int := 0
deriving DecidableEq, Inhabited

/-- How a transfer bears on the flow at an account. -/
inductive FlowRole where
  /-- The token is paid in. -/
  | paidIn
  /-- The token is paid out. -/
  | paidOut
  /-- A token that was paid out comes back. -/
  | refunded
  /-- A token that was paid in goes back. -/
  | returned
deriving DecidableEq, Repr

/-- A signed number of 256 bits. -/
def wrapSigned (n : Int) : Int := Int.bmod n (2 ^ 256)

namespace PoolFlow

/-- How a transfer bears on this flow, if it does. An account takes the first part that fits. -/
def role? (f : PoolFlow) (t : TokenTransfer) : Option FlowRole :=
  if f.pool = t.recipient ∧ (f.tokenIn = none ∨ f.tokenIn = some t.token) then some .paidIn
  else if f.pool = t.sender ∧ (f.tokenOut = none ∨ f.tokenOut = some t.token) then some .paidOut
  else if f.pool = t.recipient ∧ f.tokenOut = some t.token then some .refunded
  else if f.pool = t.sender ∧ f.tokenIn = some t.token then some .returned
  else none

/-- The flow with positive amounts: one that runs backwards has its tokens exchanged. -/
def forward (f : PoolFlow) : PoolFlow :=
  if f.amountIn < 0 ∨ f.amountOut < 0 then
    { f with
      tokenIn := f.tokenOut
      tokenOut := f.tokenIn
      amountIn := wrapSigned (-f.amountOut)
      amountOut := wrapSigned (-f.amountIn) }
  else f

/-- The flow after a transfer in a role. -/
def book (f : PoolFlow) (t : TokenTransfer) : FlowRole → PoolFlow
  | .paidIn => { f with tokenIn := some t.token, amountIn := wrapSigned (f.amountIn + t.amount) }
  | .paidOut => { f with tokenOut := some t.token, amountOut := wrapSigned (f.amountOut + t.amount) }
  | .refunded => forward { f with amountOut := wrapSigned (f.amountOut - t.amount) }
  | .returned => forward { f with amountIn := wrapSigned (f.amountIn - t.amount) }

/-- The event of a flow that is complete. -/
def event? (f : PoolFlow) : Option SwapEvent := do
  if f.amountIn ≤ 0 ∨ f.amountOut ≤ 0 then none
  let event : SwapEvent := ⟨← f.exchange, f.pool, ← f.tokenIn, ← f.tokenOut, f.amountIn.toNat, f.amountOut.toNat⟩
  if event.isValid then some event else none

end PoolFlow

namespace Trace

/-- The flows after an account was called as a pool. -/
def markPool (flows : List PoolFlow) (exchange : Exchange) (pool : Address) : List PoolFlow :=
  if flows.any (·.pool = pool) then
    flows.map fun f => if f.pool = pool then { f with exchange := some exchange } else f
  else flows ++ [{ pool, exchange := some exchange }]

/-- Whether a flow has taken a transfer in one of two roles. -/
def isTaken (flows : List PoolFlow) (t : TokenTransfer) (a b : FlowRole) : Bool :=
  flows.any fun f => f.role? t = some a ∨ f.role? t = some b

/-- The flows after a transfer. An end of it that no flow has taken starts one. -/
def bookTransfer (flows : List PoolFlow) (t : TokenTransfer) : List PoolFlow :=
  let booked := flows.map fun f => ((f.role? t).map (f.book t)).getD f
  let recipient := if isTaken flows t .paidIn .refunded then []
    else [{ pool := t.recipient, tokenIn := some t.token, amountIn := t.amount }]
  let sender := if isTaken flows t .paidOut .returned then []
    else [{ pool := t.sender, tokenOut := some t.token, amountOut := t.amount }]
  booked ++ recipient ++ sender

/-- The flows after an account was called, if it was called as a pool. -/
def markCall (flows : List PoolFlow) (frame : CallFrame) (receiver : Address) : List PoolFlow :=
  match frame.exchange? with
  | some exchange => markPool flows exchange receiver
  | none => flows

mutual

/-- The flows after a call and all calls below it, in the order of the calls. -/
def flowsOf (flows : List PoolFlow) : CallFrame → List PoolFlow
  | .mk sender receiver input error calls =>
    match receiver with
    | none => flows
    | some receiver =>
      let frame := CallFrame.mk sender receiver input error calls
      let flows := markCall flows frame receiver
      match frame.transfer? receiver with
      | some t => bookTransfer flows t
      | none => flowsOfAll flows calls

/-- The flows after calls, one after another. -/
def flowsOfAll (flows : List PoolFlow) : List CallFrame → List PoolFlow
  | [] => flows
  | frame :: rest => flowsOfAll (flowsOf flows frame) rest

end

/-- The swaps of a trace in the order of their exchanges. Those that pay in less than `dust` of the wrapped native token
are left out. -/
def swapEvents (root : CallFrame) (wrapped : Address) (dust : Nat) : List SwapEvent :=
  let events := (flowsOf [] root).filterMap PoolFlow.event?
  (events.filter fun e => ¬ (e.tokenIn = wrapped ∧ e.amountIn < dust)).mergeSort
    fun a b => a.exchange.id ≤ b.exchange.id

end Trace
end Searcher
