import PfcpProxy.Lib.Interleaving
import PfcpProxy.Session
import PfcpProxy.Statistics
import PfcpProxy.Pool

/-!
# Shared state and atomic operations

The state all handler tasks share, and the operations they perform on it: one per call on
a hash map, the pool, an atomic counter or the socket. Only a send is decided by the
environment.
-/

namespace PfcpProxy

open AtomicTasks

/-- The state shared by the handler tasks, with the clock behind `Instant::now()`. -/
structure Proxy where
  sessionTable : SessionTable
  pendingRequests : PendingRequests
  upfPool : UpfPool
  stats : Statistics
  now : Instant
  deriving DecidableEq

/-- `run_proxy` before the first datagram. -/
def Proxy.new (backends : List SocketAddr) (strategy : LoadBalancingStrategy) : Proxy :=
  ⟨Table.empty, Table.empty, UpfPool.new backends strategy, Statistics.new, 0⟩

inductive Op
  | sessionInsert (seid : UInt64) (upfAddr smfAddr : SocketAddr)
  | sessionLookup (seid : UInt64)
  | sessionLookupFull (seid : UInt64)
  | sessionRemove (seid : UInt64)
  | sessionCountByUpf (upfAddr : SocketAddr)
  | pendingInsert (seq : UInt32) (originAddr : SocketAddr) (isBroadcast fromUpf : Bool)
  | pendingLookupAndIncrement (seq : UInt32)
  | pendingRemove (seq : UInt32)
  | poolStrategy
  | poolHealthyBackends
  | poolAllBackends
  | poolNextIndex
  | sendTo (data : List UInt8) (dst : SocketAddr)
  | fetchAdd (c : Counter)
  | countMsgType (t : MsgType)
  | countUpfMessage (upfAddr : SocketAddr)
  deriving DecidableEq

/-- What an operation returns. A send returns whether it succeeded. -/
@[reducible] def Op.Res : Op → Type
  | .sessionInsert _ _ _ => Unit
  | .sessionLookup _ => Option SocketAddr
  | .sessionLookupFull _ => Option (SocketAddr × SocketAddr)
  | .sessionRemove _ => Unit
  | .sessionCountByUpf _ => ℕ
  | .pendingInsert _ _ _ _ => Unit
  | .pendingLookupAndIncrement _ => Option (SocketAddr × Bool × ℕ × Bool)
  | .pendingRemove _ => Unit
  | .poolStrategy => LoadBalancingStrategy
  | .poolHealthyBackends => List UpfBackend
  | .poolAllBackends => List UpfBackend
  | .poolNextIndex => UInt64
  | .sendTo _ _ => Bool
  | .fetchAdd _ => Unit
  | .countMsgType _ => Unit
  | .countUpfMessage _ => Unit

instance (o : Op) : DecidableEq o.Res := by
  cases o <;> infer_instance

/-- The effect of an operation; `ok` is the outcome of the send, if it is one. -/
def exec : (o : Op) → (ok : Bool) → Proxy → o.Res × Proxy
  | .sessionInsert seid u a, _, p =>
    ((), { p with sessionTable := p.sessionTable.insert p.now seid u a })
  | .sessionLookup seid, _, p => (p.sessionTable.lookup seid, p)
  | .sessionLookupFull seid, _, p => (p.sessionTable.lookupFull seid, p)
  | .sessionRemove seid, _, p => ((), { p with sessionTable := p.sessionTable.remove seid })
  | .sessionCountByUpf u, _, p => (p.sessionTable.countByUpf u, p)
  | .pendingInsert seq o b f, _, p =>
    ((), { p with pendingRequests := p.pendingRequests.insert p.now seq o b f })
  | .pendingLookupAndIncrement seq, _, p =>
    ((p.pendingRequests.lookupAndIncrement seq).1,
      { p with pendingRequests := (p.pendingRequests.lookupAndIncrement seq).2 })
  | .pendingRemove seq, _, p => ((), { p with pendingRequests := p.pendingRequests.remove seq })
  | .poolStrategy, _, p => (p.upfPool.strategy, p)
  | .poolHealthyBackends, _, p => (p.upfPool.healthyBackends, p)
  | .poolAllBackends, _, p => (p.upfPool.backends, p)
  | .poolNextIndex, _, p =>
    (p.upfPool.nextIndex, { p with upfPool := { p.upfPool with nextIndex := p.upfPool.nextIndex + 1 } })
  | .sendTo _ _, ok, p => (ok, p)
  | .fetchAdd c, _, p => ((), { p with stats := p.stats.fetchAdd c })
  | .countMsgType t, _, p => ((), { p with stats := p.stats.countMsgType t })
  | .countUpfMessage u, _, p => ((), { p with stats := p.stats.countUpfMessage u })

/-- What happens around the handlers: time passes, the cleanup task of `run_proxy` ticks,
the control file is obeyed, a health state changes. -/
inductive Env
  | tick (d : Duration)
  | cleanupStale
  | addBackend (addr : SocketAddr)
  | removeBackend (addr : SocketAddr)
  | updateHealth (addr : SocketAddr) (status : HealthStatus)
  deriving DecidableEq, Repr

def envStep : Env → Proxy → Proxy
  | .tick d, p => { p with now := p.now + d }
  | .cleanupStale, p =>
    { p with pendingRequests := p.pendingRequests.cleanupStale p.now (fromSecs 60) }
  | .addBackend a, p =>
    { p with upfPool := p.upfPool.orUnchanged (p.upfPool.addBackend a) }
  | .removeBackend a, p =>
    { p with upfPool := p.upfPool.orUnchanged (p.upfPool.removeBackend a) }
  | .updateHealth a st, p => { p with upfPool := p.upfPool.updateHealth a st }

/-! ### Which operations touch which table -/

/-- Operations that write the session table. -/
def Op.writesSession : Op → Bool
  | .sessionInsert _ _ _ | .sessionRemove _ => true
  | _ => false

/-- Operations that write the table of pending requests. -/
def Op.writesPending : Op → Bool
  | .pendingInsert _ _ _ _ | .pendingLookupAndIncrement _ | .pendingRemove _ => true
  | _ => false

@[simp] lemma exec_now (o : Op) (w : Bool) (p : Proxy) : (exec o w p).2.now = p.now := by
  cases o <;> rfl

@[simp] lemma envStep_sessionTable (e : Env) (p : Proxy) :
    (envStep e p).sessionTable = p.sessionTable := by
  cases e <;> rfl

@[simp] lemma envStep_stats (e : Env) (p : Proxy) : (envStep e p).stats = p.stats := by
  cases e <;> rfl

lemma now_le_envStep (e : Env) (p : Proxy) : p.now ≤ (envStep e p).now := by
  cases e <;> simp [envStep]

end PfcpProxy
