import Searcher.ConstantProduct
import Searcher.Json.Reader
import Searcher.Json.Printer
import Searcher.Record.Ticks
import Searcher.Curve.Stable
import Searcher.Curve.StableNg
import Searcher.Curve.TriCryptoNg
import Searcher.Record.Pools
import Searcher.Factory
import Searcher.PathFinder
import Searcher.Record.Market
import Searcher.Solver.Sandwich
import Searcher.Price
import Searcher.Record.Solver
import Searcher.Envelope
import Searcher.BaseFee
import Searcher.Record.Attack
import Searcher.Trace.Swaps
import Searcher.Stream.Reconnect
import Searcher.Stream.Pending
import Searcher.Record.Config
import Searcher.Record.Script
import Searcher.Simulation.Sandwich
import Searcher.Node.Batch
import Searcher.Record.Node
import Searcher.Observation.TickWords
import Searcher.Observation.Discovery
import Searcher.Trace.Request
import Searcher.Simulation.ForkNode
import Searcher.Relay.Submitter
import Searcher.Relay.Http
import Searcher.Record.Relay
import Searcher.Main
import Searcher.Search.Worker
import Searcher.Simulation.ScriptedFork
import Searcher.Stream.BlockFeed
import Searcher.Stream.PendingFeed
import Searcher.Record.Stream
import Searcher.Proofs.Tick.Inverse
import Searcher.Proofs.Loading.Quote
import Searcher.Proofs.Concentrated.RoundTrip
import Searcher.Proofs.Solver.Arbitrage
import Searcher.Proofs.Solver.Sandwich
import Searcher.Proofs.Attack.Affordable
import Searcher.Proofs.Observation.PairFactory
import Searcher.Proofs.Trace.Failed
import Searcher.Proofs.Paths.AroundVictim
import Searcher.Proofs.Paths.LinkPairs
import Searcher.Proofs.Paths.Repeated
import Searcher.Proofs.Envelope.Recovery
import Searcher.Proofs.Observation.Listings
import Searcher.Proofs.Simulation.Reproducible
import Searcher.Proofs.Concentrated.Crossings
import Searcher.Proofs.Quote.Monotone
import Searcher.Proofs.Solver.Capacity
import Searcher.Proofs.Solver.Missed
import Searcher.Proofs.Solver.FrontRun
import Searcher.Proofs.Concentrated.Charge
import Searcher.Proofs.Concentrated.Visits
import Searcher.Proofs.Curve.Deposit
import Searcher.Proofs.Curve.Precision
import Searcher.Proofs.Curve.Fee
import Searcher.Proofs.Curve.Balanced
import Searcher.Proofs.Solver.Composition
import Searcher.Proofs.Solver.Earned
import Searcher.Proofs.Pair.Product
import Searcher.Proofs.Pair.Slippage
import Searcher.Proofs.Simulation.Proposals
import Searcher.Proofs.Paths.Depth
import Searcher.Proofs.Node.Replies
import Searcher.Proofs.Observation.Refresh
import Searcher.Proofs.Paths.EqualDepth
import Searcher.Proofs.Observation.TickWords
import Searcher.Proofs.CubeRoot
import Searcher.Proofs.Concentrated.Marks
import Searcher.Proofs.Simulation.Rates
