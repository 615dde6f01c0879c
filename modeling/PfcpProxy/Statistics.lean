import PfcpProxy.Lib.Table
import PfcpProxy.Message

/-!
# Statistics collection

`statistics.rs`: the counters the handlers bump. All of them are 64-bit and wrap.
-/

namespace PfcpProxy

structure Statistics where
  totalMessagesReceived : UInt64
  totalMessagesSent : UInt64
  totalResponsesForwarded : UInt64
  msgTypeCounts : Table MsgType UInt64
  upfMessageCounts : Table SocketAddr UInt64
  sessionsEstablished : UInt64
  sessionsDeleted : UInt64
  routedBySeid : UInt64
  routedByLoadBalance : UInt64
  broadcasts : UInt64
  responsesDropped : UInt64
  deriving DecidableEq

/-- The atomic counters of `Statistics`. -/
inductive Counter
  | totalMessagesReceived
  | totalMessagesSent
  | totalResponsesForwarded
  | sessionsEstablished
  | sessionsDeleted
  | routedBySeid
  | routedByLoadBalance
  | broadcasts
  | responsesDropped
  deriving DecidableEq, Repr

namespace Statistics

def new : Statistics :=
  ⟨0, 0, 0, Table.empty, Table.empty, 0, 0, 0, 0, 0, 0⟩

def read (s : Statistics) : Counter → UInt64
  | .totalMessagesReceived => s.totalMessagesReceived
  | .totalMessagesSent => s.totalMessagesSent
  | .totalResponsesForwarded => s.totalResponsesForwarded
  | .sessionsEstablished => s.sessionsEstablished
  | .sessionsDeleted => s.sessionsDeleted
  | .routedBySeid => s.routedBySeid
  | .routedByLoadBalance => s.routedByLoadBalance
  | .broadcasts => s.broadcasts
  | .responsesDropped => s.responsesDropped

/-- `fetch_add(1, Ordering::Relaxed)`. -/
def fetchAdd (s : Statistics) : Counter → Statistics
  | .totalMessagesReceived => { s with totalMessagesReceived := s.totalMessagesReceived + 1 }
  | .totalMessagesSent => { s with totalMessagesSent := s.totalMessagesSent + 1 }
  | .totalResponsesForwarded => { s with totalResponsesForwarded := s.totalResponsesForwarded + 1 }
  | .sessionsEstablished => { s with sessionsEstablished := s.sessionsEstablished + 1 }
  | .sessionsDeleted => { s with sessionsDeleted := s.sessionsDeleted + 1 }
  | .routedBySeid => { s with routedBySeid := s.routedBySeid + 1 }
  | .routedByLoadBalance => { s with routedByLoadBalance := s.routedByLoadBalance + 1 }
  | .broadcasts => { s with broadcasts := s.broadcasts + 1 }
  | .responsesDropped => { s with responsesDropped := s.responsesDropped + 1 }

/-- `entry(key).and_modify(|c| *c += 1).or_insert(1)`. -/
def countKey {K : Type} [DecidableEq K] (t : Table K UInt64) (k : K) : Table K UInt64 :=
  match t.get k with
  | some c => t.insert k (c + 1)
  | none => t.insert k 1

def countMsgType (s : Statistics) (t : MsgType) : Statistics :=
  { s with msgTypeCounts := countKey s.msgTypeCounts t }

def countUpfMessage (s : Statistics) (a : SocketAddr) : Statistics :=
  { s with upfMessageCounts := countKey s.upfMessageCounts a }

@[simp] lemma read_countMsgType (s : Statistics) (t : MsgType) (c : Counter) :
    (s.countMsgType t).read c = s.read c := by
  cases c <;> rfl

@[simp] lemma read_countUpfMessage (s : Statistics) (a : SocketAddr) (c : Counter) :
    (s.countUpfMessage a).read c = s.read c := by
  cases c <;> rfl

lemma read_fetchAdd (s : Statistics) (c c' : Counter) :
    (s.fetchAdd c).read c' = if c' = c then s.read c' + 1 else s.read c' := by
  cases c <;> cases c' <;> rfl

end Statistics

end PfcpProxy
