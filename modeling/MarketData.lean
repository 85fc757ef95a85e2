import MarketData.Book.MboInvariants
import MarketData.Handler.Accounting
import MarketData.Handler.Frontier
import MarketData.Handler.Lost
import MarketData.Handler.Redundancy
import MarketData.Matching.Reproduction
import MarketData.Matching.RoundTrip
import MarketData.Wire.SnapshotCodec
import MarketData.Book.FastBooks
import MarketData.Book.Rebuild
import MarketData.Matching.Snapshot
import MarketData.Handler.Loop
import MarketData.Handler.Ledger
import MarketData.Handler.Verdict
import MarketData.Handler.Sourced
import MarketData.Handler.Inversion
import MarketData.Handler.Adoption
import MarketData.Handler.Whole
import MarketData.Handler.Answer
import MarketData.Handler.ExactlyOnce
import MarketData.Handler.Once
import MarketData.Handler.Late
import MarketData.Risk.Limits
import MarketData.Risk.OpenOrders
import MarketData.Risk.Position
import MarketData.Lib.Fifo
import MarketData.Matching.OrderPath
import MarketData.Gateway.Fix
import MarketData.Gateway.OrderRouter
import MarketData.Matching.Resting
import MarketData.Risk.Service
import MarketData.Trading.System
import MarketData.Trading.Exposure
import MarketData.Trading.Release
import MarketData.Trading.Cancel
import MarketData.Gateway.OrderStore
import MarketData.Gateway.Session
import MarketData.Gateway.Gaps
import MarketData.Gateway.Standstill
import MarketData.Trading.FastConsumer
import MarketData.Gateway.Reports
import MarketData.Trading.Duplicate
import MarketData.Gateway.Divergence
import MarketData.Trading.Reconciliation
import MarketData.Matching.Meeting
import MarketData.Matching.Executions
import MarketData.Matching.Struck
import MarketData.Matching.Desk
import MarketData.Matching.Owners
import MarketData.Matching.Named
import MarketData.Matching.Told
import MarketData.Gateway.Failure
import MarketData.Gateway.Held
import MarketData.Gateway.Opening
import MarketData.Gateway.Numbers
import MarketData.Gateway.OrderLog
import MarketData.Replay.Store
import MarketData.Ring.Spsc
import MarketData.Ring.Order
import MarketData.Matching.Priority
import MarketData.Matching.Touch
import MarketData.Book.Refusals
import MarketData.Book.MboBounds
import MarketData.Book.MboRoom
import MarketData.Book.MboExtreme
import MarketData.Book.MboRebase
import MarketData.Matching.Sequencing
import MarketData.Risk.OrderSide
import MarketData.Matching.Intake
import MarketData.Trading.Acceptance
import MarketData.Book.Digest
import MarketData.Book.Histories
import MarketData.Book.DigestAgrees
import MarketData.Risk.Exact
import MarketData.Risk.Rollback
import MarketData.Gateway.Framing
import MarketData.Gateway.Header
import MarketData.Lib.Stream
import MarketData.Gateway.Transport
import MarketData.Gateway.Grammar
import MarketData.Gateway.Totality
import MarketData.Gateway.Building
import MarketData.Gateway.Forward
import MarketData.Gateway.Coverage
import MarketData.Gateway.Renumbered
import MarketData.Book.MboLookup
import MarketData.Risk.Lookup
import MarketData.Gateway.Fills
import MarketData.Gateway.Prices
import MarketData.Gateway.Asked
import MarketData.Replay.Protocol
import MarketData.Replay.Service
import MarketData.Bench.Histogram
import MarketData.Gateway.SeqBytes
import MarketData.Matching.Generator
import MarketData.Matching.Recycled
import MarketData.Matching.Steady
import MarketData.Matching.Flows
import MarketData.Lib.Distinct
import MarketData.Matching.Market
import MarketData.Wire.PacketWriter
import MarketData.Wire.RoundTrip
import MarketData.Book.InRange
import MarketData.Handler.Mixed
