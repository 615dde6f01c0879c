import PfcpProxy.Lib.Table
import PfcpProxy.Message

/-!
# Session affinity table and pending request tracking

`session.rs`: the two hash maps every handler works on. Instants and durations are
nanoseconds; the current instant is an argument.
-/

namespace PfcpProxy

abbrev Instant := ℕ

abbrev Duration := ℕ

/-- `Duration::from_secs`. -/
def fromSecs (n : ℕ) : Duration := n * 1000000000

structure SessionInfo where
  upfAddr : SocketAddr
  smfAddr : SocketAddr
  createdAt : Instant
  lastActivity : Instant
  deriving DecidableEq, Repr

/-- Session affinity table: maps SEID to backend UPF. -/
abbrev SessionTable := Table UInt64 SessionInfo

namespace SessionTable

def insert (t : SessionTable) (now : Instant) (seid : UInt64) (upfAddr smfAddr : SocketAddr) :
    SessionTable :=
  Table.insert t seid ⟨upfAddr, smfAddr, now, now⟩

def lookup (t : SessionTable) (seid : UInt64) : Option SocketAddr :=
  (t.get seid).map (·.upfAddr)

def lookupFull (t : SessionTable) (seid : UInt64) : Option (SocketAddr × SocketAddr) :=
  (t.get seid).map (fun info => (info.upfAddr, info.smfAddr))

def remove (t : SessionTable) (seid : UInt64) : SessionTable := Table.remove t seid

def count (t : SessionTable) : ℕ := t.len

def countByUpf (t : SessionTable) (upfAddr : SocketAddr) : ℕ :=
  t.countIf (fun info => info.upfAddr = upfAddr)

def cleanupIdle (t : SessionTable) (now : Instant) (timeout : Duration) : SessionTable :=
  t.retain (fun _ info => now - info.lastActivity < timeout)

/-- Two tables map the same SEIDs to the same UPF and SMF, timestamps aside. -/
def SameMapping (t t' : SessionTable) : Prop := ∀ s, t.lookupFull s = t'.lookupFull s

lemma SameMapping.refl (t : SessionTable) : t.SameMapping t := fun _ => rfl

lemma lookup_eq (t : SessionTable) (s : UInt64) : t.lookup s = (t.lookupFull s).map Prod.fst := by
  simp [lookup, lookupFull, Function.comp_def]

lemma lookupFull_insert (t : SessionTable) (now : Instant) (s s' : UInt64)
    (u a : SocketAddr) :
    (t.insert now s u a).lookupFull s' = if s' = s then some (u, a) else t.lookupFull s' := by
  unfold lookupFull insert
  rw [Table.get_insert]
  by_cases h : s' = s <;> simp [h]

lemma lookupFull_remove (t : SessionTable) (s s' : UInt64) :
    (t.remove s).lookupFull s' = if s' = s then none else t.lookupFull s' := by
  unfold lookupFull remove
  rw [Table.get_remove]
  by_cases h : s' = s <;> simp [h]

end SessionTable

structure RequestInfo where
  originAddr : SocketAddr
  timestamp : Instant
  isBroadcast : Bool
  responsesReceived : ℕ
  fromUpf : Bool
  deriving DecidableEq, Repr

/-- Pending request tracker: maps sequence number to origin address for response
forwarding. -/
abbrev PendingRequests := Table UInt32 RequestInfo

namespace PendingRequests

def insert (t : PendingRequests) (now : Instant) (seq : UInt32) (originAddr : SocketAddr)
    (isBroadcast fromUpf : Bool) : PendingRequests :=
  Table.insert t seq ⟨originAddr, now, isBroadcast, 0, fromUpf⟩

def lookupAndIncrement (t : PendingRequests) (seq : UInt32) :
    Option (SocketAddr × Bool × ℕ × Bool) × PendingRequests :=
  ((t.get seq).map (fun entry =>
      (entry.originAddr, entry.isBroadcast, entry.responsesReceived + 1, entry.fromUpf)),
    t.modify seq (fun entry => { entry with responsesReceived := entry.responsesReceived + 1 }))

def remove (t : PendingRequests) (seq : UInt32) : PendingRequests := Table.remove t seq

def cleanupStale (t : PendingRequests) (now : Instant) (maxAge : Duration) : PendingRequests :=
  t.retain (fun _ info => now - info.timestamp < maxAge)

end PendingRequests

end PfcpProxy
