/-
# Pool factories

Pools are found, and pairs are told apart, by the contract that created them. A factory belongs to an exchange, offers
one of four ways to look up a pool, and fixes where the fee of its pairs is read.
-/

import Searcher.ConstantProduct
import Searcher.Exchange

namespace Searcher

/-- Where the fee of a pair comes from. -/
inductive FeeSource where
  /-- All pairs take the same fee. -/
  | fixed (fee : Fee)
  /-- The pair tells its fee, in parts of `base`. -/
  | pair (base : Nat)
  /-- The factory tells the fee of each pair, in parts of `base`. -/
  | factory (base : Nat)
deriving DecidableEq, Repr

namespace FeeSource

/-- Three in a thousand for all pairs. -/
def standard : FeeSource := .fixed .standard

end FeeSource

/-- The call by which a factory is asked for a pool. -/
inductive PoolLookup where
  | pair
  /-- The pair of a stable or of a volatile kind. -/
  | pairOfKind
  /-- One pool for each fee. -/
  | poolOfFee
  /-- One pool with a fee of its own. -/
  | poolByPair
deriving DecidableEq, Repr

/-- A contract that creates pools. -/
structure Factory where
  exchange : Exchange
  address : Address
  lookup : PoolLookup
  fee : FeeSource
deriving DecidableEq

namespace Factory

/-- A factory whose pairs all take the part `taken` of `base`. -/
def pairs (exchange : Exchange) (address : Nat) (fee : FeeSource) : Factory :=
  ⟨exchange, .ofNat address, .pair, fee⟩

/-- The known factories. -/
def all : List Factory :=
  [pairs .uniswapV2 0x8909Dc15e40173Ff4699343b6eB8132c65e18eC6 .standard,
   pairs .sushiswapV2 0xc35DADB65012eC5796536bD9864eD8773aBc74C4 .standard,
   pairs .pancakeswapV2 0xcA143Ce32Fe78f1f7019d7d551a6402fC5350c73 (.fixed ⟨10000, 25⟩),
   pairs .pancakeswapV2 0xBCfCcbde45cE874adCB698cC183deBcF17952812 (.fixed ⟨1000, 2⟩),
   pairs .biswap 0x858E3312ed3A876947EA49d572A7C42DE08af7EE (.pair 1000),
   pairs .apeswap 0x0841BD0B734E4F5853f0dD8d7Ea041c241fb0Da6 (.fixed ⟨1000, 2⟩),
   pairs .mdex 0x3CD1C46068dAEa5Ebb0d3f55F6915B10648062B8 (.factory 1000),
   pairs .babyswap 0x86407bEa2078ea5f5EB5A52B2caA963bC1F889Da (.fixed ⟨1000, 2⟩),
   pairs .nomiswap 0xd6715A8be3944ec72738F0BFDC739d48C3c29349 (.pair 1000),
   pairs .bakeryswap 0x01bF7C66c6BD861915CdaaE475042d3c4BaE16A7 .standard,
   pairs .waultswap 0xB42E3FE71b7E0673335b3331B3e1053BD9822570 (.fixed ⟨1000, 2⟩),
   pairs .gibxswap 0x97bCD9BB482144291D77ee53bFa99317A82066E8 .standard,
   ⟨.thena, .ofNat 0xAFD89d21BdB66d00817d4153E055830B1c2B3970, .pairOfKind, .standard⟩,
   ⟨.uniswapV3, .ofNat 0xdB1d10011AD0Ff90774D0C6Bb92e5C5c8b4461F7, .poolOfFee, .standard⟩,
   ⟨.pancakeswapV3, .ofNat 0x0BFbCF9fa4f9C56B0F40a671Ad40E0805A091865, .poolOfFee, .standard⟩,
   ⟨.thenaFusion, .ofNat 0x306F06C147f064A010530292A1EB6737c3e378e4, .poolByPair, .standard⟩]

/-- The fees for which a pool is looked up. -/
def feeTiers : List Nat := [100, 500, 2500, 3000, 10000]

/-- The known factory at an address. -/
def atAddress? (address : Address) : Option Factory := all.find? fun f => f.address = address

/-- Where the pairs of a factory have their fee from; those of an unknown one take the standard fee. -/
def feeSource (address : Address) : FeeSource := ((atAddress? address).map (·.fee)).getD .standard

end Factory
end Searcher
