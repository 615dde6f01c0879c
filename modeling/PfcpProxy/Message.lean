import Mathlib.Data.List.Basic

/-!
# Datagrams

Addresses, message types and the part of a datagram the proxy acts on. Decoding is done by
`message::parse` of the `rs-pfcp` crate: a datagram carries what `parse` returns for its
bytes, and the bytes themselves are only ever forwarded.
-/

namespace PfcpProxy

/-- `std::net::SocketAddr`. -/
inductive SocketAddr
  | v4 (ip : BitVec 32) (port : BitVec 16)
  | v6 (ip : BitVec 128) (port : BitVec 16) (flowinfo scopeId : BitVec 32)
  deriving DecidableEq, Repr

/-- The message types named in the routing code; `other` stands for any further one. -/
inductive MsgType
  | heartbeatRequest
  | heartbeatResponse
  | pfdManagementRequest
  | pfdManagementResponse
  | associationSetupRequest
  | associationSetupResponse
  | associationUpdateRequest
  | associationUpdateResponse
  | associationReleaseRequest
  | associationReleaseResponse
  | versionNotSupportedResponse
  | nodeReportRequest
  | nodeReportResponse
  | sessionSetDeletionRequest
  | sessionSetDeletionResponse
  | sessionSetModificationRequest
  | sessionSetModificationResponse
  | sessionEstablishmentRequest
  | sessionEstablishmentResponse
  | sessionModificationRequest
  | sessionModificationResponse
  | sessionDeletionRequest
  | sessionDeletionResponse
  | sessionReportRequest
  | sessionReportResponse
  | other (code : UInt8)
  deriving DecidableEq, Repr

structure Header where
  msgType : MsgType
  seid : Option UInt64
  sequence : UInt32
  deriving DecidableEq, Repr

/-- A received datagram; `header` is `none` where `message::parse` fails. -/
structure Datagram where
  data : List UInt8
  src : SocketAddr
  header : Option Header
  deriving DecidableEq, Repr

/-- Determine if a message type is a request from SMF (vs response from UPF). -/
def isSmfRequest : MsgType → Bool
  | .heartbeatRequest | .associationSetupRequest | .associationUpdateRequest
  | .associationReleaseRequest | .pfdManagementRequest | .nodeReportRequest
  | .sessionEstablishmentRequest | .sessionModificationRequest | .sessionDeletionRequest
  | .sessionSetDeletionRequest | .sessionSetModificationRequest => true
  | _ => false

/-- Determine if a message type is a request from UPF (special case - reversed flow). -/
def isUpfRequest : MsgType → Bool
  | .sessionReportRequest => true
  | _ => false

/-- Requests sent to all backends. -/
def isBroadcastRequest : MsgType → Bool
  | .heartbeatRequest | .associationSetupRequest | .associationUpdateRequest
  | .pfdManagementRequest => true
  | _ => false

/-- Requests that fall through to the last arm of the routing match. -/
def isDefaultRequest : MsgType → Bool
  | .associationReleaseRequest | .nodeReportRequest | .sessionSetDeletionRequest
  | .sessionSetModificationRequest => true
  | _ => false

lemma isSmfRequest_iff (t : MsgType) : isSmfRequest t = true ↔
    isBroadcastRequest t = true ∨ t = .sessionEstablishmentRequest ∨
      t = .sessionModificationRequest ∨ t = .sessionDeletionRequest ∨
      isDefaultRequest t = true := by
  cases t <;> simp [isSmfRequest, isBroadcastRequest, isDefaultRequest]

lemma isUpfRequest_of_broadcast {t : MsgType} (h : isBroadcastRequest t = true) :
    isUpfRequest t = false := by
  cases t <;> first | rfl | cases h

lemma isUpfRequest_of_smf {t : MsgType} (h : isSmfRequest t = true) : isUpfRequest t = false := by
  cases t <;> first | rfl | cases h

lemma isDefaultRequest_ne {t : MsgType} (h : isDefaultRequest t = true) :
    isUpfRequest t = false ∧ isBroadcastRequest t = false ∧ t ≠ .sessionEstablishmentRequest ∧
      t ≠ .sessionModificationRequest ∧ t ≠ .sessionDeletionRequest := by
  cases t <;> simp_all [isDefaultRequest, isUpfRequest, isBroadcastRequest]

/-- Requests of either direction; everything else is handled as a response. -/
def isRequest (t : MsgType) : Bool := isSmfRequest t || isUpfRequest t

lemma handler_cases (t : MsgType) :
    isSmfRequest t = true ∨ isUpfRequest t = true ∨ isRequest t = false := by
  cases t <;> simp [isRequest, isSmfRequest, isUpfRequest]

end PfcpProxy
