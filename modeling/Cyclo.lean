import Cyclo.AgentWs.Interleavings
import Cyclo.AgentWs.Sweeps
import Cyclo.AgentWs.Recovery
import Cyclo.AgentWs.Settlement
import Cyclo.QueueReader.Budget
import Cyclo.Dcomp.Recovery
import Cyclo.Gateway.CatalogueEntries
import Cyclo.Gateway.CredentialAccounts
import Cyclo.Gateway.ReflectionGuard
import Cyclo.Gateway.Exhaustion
import Cyclo.Gateway.Infer
import Cyclo.Gateway.UsageLedger
import Cyclo.Gateway.UsageTotals
import Cyclo.OpenAi.Agreement
import Cyclo.Pooler.Arguments
import Cyclo.Pooler.Composition
import Cyclo.Pooler.Hops
import Cyclo.Pooler.Failover
import Cyclo.Pooler.Fairness
import Cyclo.Pooler.Refresh
import Cyclo.Project.Init
import Cyclo.Project.Materialized
import Cyclo.Protocol.ModelIds
import Cyclo.Runtime.Isolation
import Cyclo.StateStore.Crashes
import Cyclo.Team.Generation
import Cyclo.Team.ModelSupply
import Cyclo.Team.PiPump
import Cyclo.Team.PiSettlement
import Cyclo.Team.ProcessShutdown
import Cyclo.Team.RosterAgreement
import Cyclo.Team.Supervisor
import Cyclo.Team.QueueScan
import Cyclo.AgentWs.TaskHistory
