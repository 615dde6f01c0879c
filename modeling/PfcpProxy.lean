import PfcpProxy.Affinity
import PfcpProxy.Correlation
import PfcpProxy.Isolation
import PfcpProxy.Retransmission
import PfcpProxy.Linearizability
import PfcpProxy.Broadcast
import PfcpProxy.FSeid
import PfcpProxy.FailureAtomicity
import PfcpProxy.Accounting
import PfcpProxy.PoolInvariant
import PfcpProxy.Conservation
import PfcpProxy.Report
import PfcpProxy.LeastSessions
import PfcpProxy.RoundRobin
import PfcpProxy.BroadcastCompletion
import PfcpProxy.OrderIndependence
import PfcpProxy.Direction
import PfcpProxy.Association
import PfcpProxy.ControlFile
import PfcpProxy.Lib.Commutation
import PfcpProxy.Refusals
import PfcpProxy.Lib.Shares
import PfcpProxy.ConcurrentSelection
import PfcpProxy.UnitWeights
import PfcpProxy.IdleSessions
import PfcpProxy.PendingLife
import PfcpProxy.Manager
import PfcpProxy.ManagerLoop
import PfcpProxy.ManagerPlan
import PfcpProxy.Requests
import PfcpProxy.Panics
import PfcpProxy.UpfMirror
import PfcpProxy.ServiceSteps
import PfcpProxy.Ownership
import PfcpProxy.OwnershipRuns
import PfcpProxy.AppChanges
import PfcpProxy.AppInvariant
import PfcpProxy.Fleet
import PfcpProxy.Lib.Reduction
import PfcpProxy.Unrelated
import PfcpProxy.Lib.Cost
import PfcpProxy.Workload
import PfcpProxy.Origins
import PfcpProxy.Drain
import PfcpProxy.Lib.Print
import PfcpProxy.AddressDisplay
import PfcpProxy.ControlConvergence
import PfcpProxy.UpfStatus
import PfcpProxy.RequestExchange
import PfcpProxy.Lib.Medium
import PfcpProxy.TestPrograms
import PfcpProxy.Testbed
import PfcpProxy.TestbedAnswers
import PfcpProxy.TestbedReport
import PfcpProxy.TestbedSessions
import PfcpProxy.TestbedLifecycle
import PfcpProxy.TestbedBalance
import PfcpProxy.StartUp
