import C3Api.Billing.SettleExact
import C3Api.Redemption.Once
import C3Api.Supplier.Conserved
import C3Api.Proxy.GateCounters
import C3Api.Proxy.GateQuota
import C3Api.Scheduler.Batch
import C3Api.Quality.FoldConserved
import C3Api.Quality.SyncCapacity
import C3Api.Protoconv.Agreement
import C3Api.Protoconv.Orphans
import C3Api.Health.Recovery
import C3Api.Billing.Prices
import C3Api.Proxy.NetInput
import C3Api.Proxy.GateLimit
import C3Api.Proxy.GateReclaim
import C3Api.Proxy.WsAccounted
import C3Api.Billing.Warnings
import C3Api.Continuation.Store
import C3Api.Proxy.WsGate
import C3Api.Proxy.ContPin
import C3Api.Proxy.ModelString
import C3Api.Protoconv.DataFrame
import C3Api.Protoconv.Envelope
import C3Api.Protoconv.Root
import C3Api.Scheduler.Ring
import C3Api.Scheduler.UnitCost
import C3Api.Scheduler.IdentityPool
import C3Api.Scheduler.Interner
import C3Api.Usage.Outage
import C3Api.Routing.Frontier
import C3Api.Scheduler.Current
import C3Api.Protoconv.RawText
