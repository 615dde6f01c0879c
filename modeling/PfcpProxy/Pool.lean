import PfcpProxy.Message

/-!
# UPF pool

The backend pool of `main.rs` with the strategies of `routing.rs` and the health states of
`health.rs`: the data, the operations that hold the pool's lock, and the arithmetic of the
selection strategies.
-/

namespace PfcpProxy

inductive HealthStatus
  | healthy
  | degraded
  | unhealthy
  | unknown
  deriving DecidableEq, Repr

inductive LoadBalancingStrategy
  | roundRobin
  | leastSessions
  | weighted
  deriving DecidableEq, Repr

inductive RoutingDecision
  | single (addr : SocketAddr)
  | broadcast (backends : List SocketAddr)
  | responseToClient
  | sessionNotFound
  | noSeid
  | noBackend
  deriving DecidableEq, Repr

structure UpfBackend where
  addr : SocketAddr
  health : HealthStatus
  weight : UInt32
  deriving DecidableEq, Repr

/-- UPF backend pool with configurable load balancing. -/
structure UpfPool where
  backends : List UpfBackend
  nextIndex : UInt64
  strategy : LoadBalancingStrategy
  maxBackends : ℕ
  deriving DecidableEq, Repr

/-- The refusals of `add_backend` and `remove_backend`. -/
inductive PoolError
  | maxReached (max : ℕ)
  | alreadyExists (addr : SocketAddr)
  | notFound (addr : SocketAddr)
  deriving DecidableEq, Repr

/-- A backend as `new` and `add_backend` create it. -/
def UpfBackend.fresh (addr : SocketAddr) : UpfBackend := ⟨addr, .unknown, 1⟩

/-- Health states in which a backend may be selected. -/
def HealthStatus.eligible : HealthStatus → Bool
  | .healthy | .unknown => true
  | _ => false

namespace UpfPool

def new (backends : List SocketAddr) (strategy : LoadBalancingStrategy) : UpfPool :=
  ⟨backends.map UpfBackend.fresh, 0, strategy, 64⟩

def addBackend (p : UpfPool) (addr : SocketAddr) : Except PoolError UpfPool :=
  if p.backends.length ≥ p.maxBackends then .error (.maxReached p.maxBackends)
  else if p.backends.any (fun b => b.addr = addr) then .error (.alreadyExists addr)
  else .ok { p with backends := p.backends ++ [UpfBackend.fresh addr] }

def removeBackend (p : UpfPool) (addr : SocketAddr) : Except PoolError UpfPool :=
  let kept := p.backends.filter (fun b => b.addr ≠ addr)
  if kept.length = p.backends.length then .error (.notFound addr)
  else .ok { p with backends := kept }

/-- The pool after a command, which a refusal leaves alone. -/
def orUnchanged (p : UpfPool) : Except PoolError UpfPool → UpfPool
  | .ok p' => p'
  | .error _ => p

def healthyBackends (p : UpfPool) : List UpfBackend := p.backends.filter (·.health.eligible)

/-- Only the first entry with the address is updated. -/
def setHealth (addr : SocketAddr) (status : HealthStatus) : List UpfBackend → List UpfBackend
  | [] => []
  | b :: rest =>
    if b.addr = addr then { b with health := status } :: rest
    else b :: setHealth addr status rest

def updateHealth (p : UpfPool) (addr : SocketAddr) (status : HealthStatus) : UpfPool :=
  { p with backends := setHealth addr status p.backends }

end UpfPool

/-! ### Selection arithmetic -/

/-- `usize::MAX` on a 64-bit target. -/
def usizeMax : ℕ := UInt64.size - 1

/-- `healthy[idx % healthy.len()].addr`. -/
def pickRoundRobin (healthy : List UpfBackend) (idx : UInt64) : Option SocketAddr :=
  (healthy[idx.toNat % healthy.length]?).map (·.addr)

/-- The `u32` sum of the weights, which wraps. -/
def totalWeight (healthy : List UpfBackend) : UInt32 :=
  healthy.foldl (fun acc b => acc + b.weight) 0

/-- The cumulative scan of `select_weighted`. -/
def weightedScan (weightedIdx : ℕ) : List UpfBackend → ℕ → Option SocketAddr
  | [], _ => none
  | b :: rest, cumulative =>
    if weightedIdx < cumulative + b.weight.toNat then some b.addr
    else weightedScan weightedIdx rest (cumulative + b.weight.toNat)

def pickWeighted (healthy : List UpfBackend) (idx : UInt64) : Option SocketAddr :=
  weightedScan (idx.toNat % (totalWeight healthy).toNat) healthy 0

end PfcpProxy
