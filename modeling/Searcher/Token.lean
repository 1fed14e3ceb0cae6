/-
# Reference tokens

The tokens that most pairs trade against, with the symbols under which events are printed.
-/

import Searcher.Address

namespace Searcher
namespace Token

def wbnb : Address := .ofNat 0xbb4CdB9CBd36B01bD1cBaEBF2De08d9173bc095c
def usdt : Address := .ofNat 0x55d398326f99059fF775485246999027B3197955
def usdc : Address := .ofNat 0x8AC76a51cc950d9822D68b83fE1Ad97B32Cd580d
def busd : Address := .ofNat 0xe9e7CEA3DedcA5984780Bafc599bD69ADd087D56
def eth : Address := .ofNat 0x2170Ed0880ac9A755fd29B2688956BD959F933F8

/-- The reference tokens with their symbols. -/
def references : List (Address × String) :=
  [(wbnb, "WBNB"), (usdt, "USDT"), (usdc, "USDC"), (busd, "BUSD"), (eth, "ETH")]

/-- The symbol of a token. -/
def symbol (token : Address) : String := (references.lookup token).getD "???"

/-- Whether the token is a reference token. -/
def isReference (token : Address) : Bool := references.any fun entry => entry.1 = token

end Token
end Searcher
