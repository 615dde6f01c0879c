import PfcpProxy.Lib.Bytes
import PfcpProxy.Message

/-!
# The test programs

`test-smf` sends requests with the numbers of its sequence counter, `test-upf` responds to what it
receives. The messages themselves are built, marshalled and parsed by the `rs-pfcp` crate.
-/

namespace PfcpProxy

/-- The messages the test programs build: those about a node have no SEID, those about a session
have one, and a sequence number has 24 bits. -/
def Header.Built (h : Header) : Prop :=
  h.sequence.toNat < 2 ^ 24 ∧
    match h.msgType with
    | .heartbeatRequest | .heartbeatResponse | .associationSetupRequest
    | .associationSetupResponse => h.seid = none
    | .sessionEstablishmentRequest | .sessionEstablishmentResponse | .sessionDeletionRequest
    | .sessionDeletionResponse => h.seid.isSome = true
    | _ => False

/-- The part of the `rs-pfcp` crate the test programs use. The information elements of a message
are its `Body`. The builders of the two establishment messages can fail. -/
structure Codec where
  Body : Type
  parse : List UInt8 → Option Header
  marshal : Header → Body → List UInt8
  buildsRequest : (seid : UInt64) → (sequence : UInt32) → Bool
  buildsResponse : (seid : UInt64) → (sequence : UInt32) → (localIp : BitVec 32) → Bool
  parse_marshal : ∀ h body, h.Built → parse (marshal h body) = some h

namespace Codec

open Bytes

/-- The message types by their codes. -/
def ofCode (code : UInt8) : MsgType :=
  match code.toNat with
  | 1 => .heartbeatRequest
  | 2 => .heartbeatResponse
  | 3 => .pfdManagementRequest
  | 4 => .pfdManagementResponse
  | 5 => .associationSetupRequest
  | 6 => .associationSetupResponse
  | 7 => .associationUpdateRequest
  | 8 => .associationUpdateResponse
  | 9 => .associationReleaseRequest
  | 10 => .associationReleaseResponse
  | 11 => .versionNotSupportedResponse
  | 12 => .nodeReportRequest
  | 13 => .nodeReportResponse
  | 14 => .sessionSetDeletionRequest
  | 15 => .sessionSetDeletionResponse
  | 16 => .sessionSetModificationRequest
  | 17 => .sessionSetModificationResponse
  | 50 => .sessionEstablishmentRequest
  | 51 => .sessionEstablishmentResponse
  | 52 => .sessionModificationRequest
  | 53 => .sessionModificationResponse
  | 54 => .sessionDeletionRequest
  | 55 => .sessionDeletionResponse
  | 56 => .sessionReportRequest
  | 57 => .sessionReportResponse
  | _ => .other code

/-- The codes of the messages that are built. -/
def code : MsgType → UInt8
  | .heartbeatRequest => 1
  | .heartbeatResponse => 2
  | .associationSetupRequest => 5
  | .associationSetupResponse => 6
  | .sessionEstablishmentRequest => 50
  | .sessionEstablishmentResponse => 51
  | .sessionDeletionRequest => 54
  | .sessionDeletionResponse => 55
  | .other code => code
  | _ => 0

lemma ofCode_code {h : Header} (hbuilt : h.Built) : ofCode (code h.msgType) = h.msgType := by
  obtain ⟨t, seid, q⟩ := h
  obtain ⟨-, hseid⟩ := hbuilt
  cases t <;> first | rfl | exact hseid.elim

/-- A header of version 1 in front of the body: the flag of a SEID, the type, the length of what
follows, the SEID, the sequence number and a spare byte. -/
def marshalHeader (h : Header) (body : List UInt8) : List UInt8 :=
  match h.seid with
  | some s => 0x21 :: code h.msgType :: (spell 2 (12 + body.length) ++
      (spell 8 s.toNat ++ (spell 3 h.sequence.toNat ++ 0 :: body)))
  | none => 0x20 :: code h.msgType :: (spell 2 (4 + body.length) ++
      (spell 3 h.sequence.toNat ++ 0 :: body))

def parseHeader : List UInt8 → Option Header
  | flags :: code :: bs =>
    let bs := bs.drop 2
    if flags = 0x21 ∧ 12 ≤ bs.length then
      some ⟨ofCode code, some (UInt64.ofNat (value (bs.take 8))),
        UInt32.ofNat (value ((bs.drop 8).take 3))⟩
    else if flags = 0x20 ∧ 4 ≤ bs.length then
      some ⟨ofCode code, none, UInt32.ofNat (value (bs.take 3))⟩
    else
      none
  | _ => none

lemma parseHeader_marshalHeader {h : Header} (body : List UInt8) (hbuilt : h.Built) :
    parseHeader (marshalHeader h body) = some h := by
  have hcode := ofCode_code hbuilt
  have hsequence : value (spell 3 h.sequence.toNat) = h.sequence.toNat :=
    value_spell_of_lt hbuilt.1
  obtain ⟨t, seid, q⟩ := h
  simp only at hcode hsequence
  cases seid with
  | none =>
    have hlen : 4 ≤ 3 + (body.length + 1) := by omega
    simp [marshalHeader, parseHeader, hlen, hcode, hsequence]
  | some s =>
    have hseid : value (spell 8 s.toNat) = s.toNat := value_spell_of_lt s.toNat_lt
    have hlen : 12 ≤ 8 + (3 + (body.length + 1)) := by omega
    simp [marshalHeader, parseHeader, hlen, hcode, hsequence, hseid]

/-- Messages whose information elements are not looked at. -/
def plain : Codec where
  Body := List UInt8
  parse := parseHeader
  marshal := marshalHeader
  buildsRequest := fun _ _ => true
  buildsResponse := fun _ _ _ => true
  parse_marshal := fun _ body hbuilt => parseHeader_marshalHeader body hbuilt

end Codec

namespace TestSmf

structure TestContext where
  sequence : UInt32

def TestContext.new : TestContext := ⟨1⟩

variable (K : Codec) (ctx : TestContext)

/-- The number a message gets, and the counter after it. -/
def nextSequence : UInt32 × TestContext := (ctx.sequence, ⟨ctx.sequence + 1⟩)

def sendHeartbeat : Option Header × TestContext :=
  (some ⟨.heartbeatRequest, none, (nextSequence ctx).1⟩, (nextSequence ctx).2)

def sendAssociationSetup : Option Header × TestContext :=
  (some ⟨.associationSetupRequest, none, (nextSequence ctx).1⟩, (nextSequence ctx).2)

/-- The number is drawn before the request is built. -/
def establishSession (seid : UInt64) : Option Header × TestContext :=
  if K.buildsRequest seid (nextSequence ctx).1 then
    (some ⟨.sessionEstablishmentRequest, some seid, (nextSequence ctx).1⟩, (nextSequence ctx).2)
  else
    (none, (nextSequence ctx).2)

def deleteSession (seid : UInt64) : Option Header × TestContext :=
  (some ⟨.sessionDeletionRequest, some seid, (nextSequence ctx).1⟩, (nextSequence ctx).2)

/-- The four things a test sends. -/
inductive Call
  | sendHeartbeat
  | sendAssociationSetup
  | establishSession (seid : UInt64)
  | deleteSession (seid : UInt64)

/-- The header of the message that is sent, if one is, and the context after it. -/
def Call.run : Call → Option Header × TestContext
  | .sendHeartbeat => TestSmf.sendHeartbeat ctx
  | .sendAssociationSetup => TestSmf.sendAssociationSetup ctx
  | .establishSession seid => TestSmf.establishSession K ctx seid
  | .deleteSession seid => TestSmf.deleteSession ctx seid

variable {K ctx} {call : Call} {h : Header}

@[simp] lemma run_context : (call.run K ctx).2 = ⟨ctx.sequence + 1⟩ := by
  cases call with
  | establishSession seid =>
    simp only [Call.run, establishSession]
    split <;> rfl
  | _ => rfl

/-- What is sent is a request of an SMF with the number that was next. -/
lemma run_header (hrun : (call.run K ctx).1 = some h) :
    h.sequence = ctx.sequence ∧ isSmfRequest h.msgType = true ∧
      (h.sequence.toNat < 2 ^ 24 → h.Built) := by
  cases call with
  | establishSession seid =>
    simp only [Call.run, establishSession] at hrun
    split at hrun
    · cases hrun
      exact ⟨rfl, rfl, fun hfit => ⟨hfit, rfl⟩⟩
    · cases hrun
  | deleteSession seid =>
    cases hrun
    exact ⟨rfl, rfl, fun hfit => ⟨hfit, rfl⟩⟩
  | _ =>
    cases hrun
    exact ⟨rfl, rfl, fun hfit => ⟨hfit, rfl⟩⟩

/-- What is sent establishes or deletes a session, or is about none and for all UPFs. -/
lemma run_kind (hrun : (call.run K ctx).1 = some h) :
    (isBroadcastRequest h.msgType = true ∧ h.seid = none) ∨
      ∃ seid, h.seid = some seid ∧ (h.msgType = .sessionEstablishmentRequest ∨
        h.msgType = .sessionDeletionRequest) := by
  cases call with
  | establishSession seid =>
    simp only [Call.run, establishSession] at hrun
    split at hrun
    · cases hrun
      exact .inr ⟨seid, rfl, .inl rfl⟩
    · cases hrun
  | deleteSession seid =>
    cases hrun
    exact .inr ⟨seid, rfl, .inr rfl⟩
  | _ =>
    cases hrun
    exact .inl ⟨rfl, rfl⟩

end TestSmf

namespace TestUpf

structure UpfStats where
  totalMessages : UInt64
  heartbeats : UInt64
  sessions : UInt64
  deriving DecidableEq

def UpfStats.new : UpfStats := ⟨0, 0, 0⟩

/-- The address a program that listens there puts into its responses. -/
def localIp : SocketAddr → BitVec 32
  | .v4 ip _ => ip
  | .v6 _ _ _ _ => 0x7f000001

variable (K : Codec) (ip : BitVec 32)

/-- The statistics after a datagram, and the datagram that is sent in response, if one is. -/
def handleMessage (data : List UInt8) (body : K.Body) (stats : UpfStats) :
    UpfStats × Option (List UInt8) :=
  match K.parse data with
  | none => (stats, none)
  | some ⟨msgType, seid, sequence⟩ =>
    let stats := { stats with totalMessages := stats.totalMessages + 1 }
    match msgType with
    | .heartbeatRequest =>
      ({ stats with heartbeats := stats.heartbeats + 1 },
        some (K.marshal ⟨.heartbeatResponse, none, sequence⟩ body))
    | .associationSetupRequest =>
      (stats, some (K.marshal ⟨.associationSetupResponse, none, sequence⟩ body))
    | .sessionEstablishmentRequest =>
      ({ stats with sessions := stats.sessions + 1 },
        match seid with
        | some s =>
          if K.buildsResponse s sequence ip then
            some (K.marshal ⟨.sessionEstablishmentResponse, some s, sequence⟩ body)
          else
            none
        | none => none)
    | .sessionDeletionRequest =>
      ({ stats with sessions := stats.sessions + 1 },
        match seid with
        | some s => some (K.marshal ⟨.sessionDeletionResponse, some s, sequence⟩ body)
        | none => none)
    | .sessionModificationRequest => ({ stats with sessions := stats.sessions + 1 }, none)
    | _ => (stats, none)

/-- The header of the response to a message, if there is one. -/
def responseTo (h : Header) : Option Header :=
  match h.msgType, h.seid with
  | .heartbeatRequest, _ => some ⟨.heartbeatResponse, none, h.sequence⟩
  | .associationSetupRequest, _ => some ⟨.associationSetupResponse, none, h.sequence⟩
  | .sessionEstablishmentRequest, some s =>
    if K.buildsResponse s h.sequence ip then
      some ⟨.sessionEstablishmentResponse, some s, h.sequence⟩
    else
      none
  | .sessionDeletionRequest, some s => some ⟨.sessionDeletionResponse, some s, h.sequence⟩
  | _, _ => none

variable {K ip} {data : List UInt8} {body : K.Body} {stats : UpfStats} {h h' : Header}

lemma handleMessage_response : (handleMessage K ip data body stats).2 =
    ((K.parse data).bind (responseTo K ip)).map fun h => K.marshal h body := by
  unfold handleMessage
  cases hparse : K.parse data with
  | none => rfl
  | some h =>
    obtain ⟨t, seid, q⟩ := h
    cases t with
    | sessionEstablishmentRequest =>
      cases seid with
      | none => rfl
      | some s => by_cases hb : K.buildsResponse s q ip = true <;> simp [responseTo, hb]
    | sessionDeletionRequest => cases seid <;> rfl
    | _ => rfl

lemma handleMessage_totalMessages : (handleMessage K ip data body stats).1.totalMessages =
    if (K.parse data).isSome then stats.totalMessages + 1 else stats.totalMessages := by
  unfold handleMessage
  cases hparse : K.parse data with
  | none => rfl
  | some h =>
    obtain ⟨t, seid, q⟩ := h
    cases t <;> rfl

lemma responseTo_header (hresp : responseTo K ip h = some h') :
    h'.sequence = h.sequence ∧ isRequest h'.msgType = false ∧ isRequest h.msgType = true ∧
      (h.sequence.toNat < 2 ^ 24 → h'.Built) := by
  obtain ⟨t, seid, q⟩ := h
  cases t with
  | sessionEstablishmentRequest =>
    cases seid with
    | none => cases hresp
    | some s =>
      by_cases hb : K.buildsResponse s q ip = true
      · simp only [responseTo, hb, if_true, Option.some.injEq] at hresp
        subst hresp
        exact ⟨rfl, rfl, rfl, fun hfit => ⟨hfit, rfl⟩⟩
      · simp [responseTo, hb] at hresp
  | sessionDeletionRequest =>
    cases seid with
    | none => cases hresp
    | some s =>
      cases hresp
      exact ⟨rfl, rfl, rfl, fun hfit => ⟨hfit, rfl⟩⟩
  | heartbeatRequest =>
    cases hresp
    exact ⟨rfl, rfl, rfl, fun hfit => ⟨hfit, rfl⟩⟩
  | associationSetupRequest =>
    cases hresp
    exact ⟨rfl, rfl, rfl, fun hfit => ⟨hfit, rfl⟩⟩
  | _ => cases hresp

/-- All requests of the test SMF are responded to, where the responses can be built. -/
lemma responseTo_isSome (hbuilds : ∀ s q ip, K.buildsResponse s q ip = true) (hbuilt : h.Built)
    (hreq : isSmfRequest h.msgType = true) : (responseTo K ip h).isSome = true := by
  obtain ⟨t, seid, q⟩ := h
  obtain ⟨-, hseid⟩ := hbuilt
  cases t with
  | sessionEstablishmentRequest =>
    obtain ⟨s, rfl⟩ := Option.isSome_iff_exists.mp hseid
    simp [responseTo, hbuilds]
  | sessionDeletionRequest =>
    obtain ⟨s, rfl⟩ := Option.isSome_iff_exists.mp hseid
    rfl
  | heartbeatRequest => rfl
  | associationSetupRequest => rfl
  | _ => first | exact hseid.elim | cases hreq

end TestUpf

end PfcpProxy
