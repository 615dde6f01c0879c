import PfcpProxy.Operations

/-!
# Message handlers

The handlers of `main.rs` and the recording functions of `statistics.rs`, as programs over
the atomic operations. Loops are separate functions that recurse on what they iterate over.
-/

namespace PfcpProxy

open AtomicTasks

/-- A handler, or a part of one, that returns an `α`. -/
abbrev Handler (α : Type) := Prog Op.Res α

/-- Perform one operation. -/
abbrev perform (o : Op) : Handler o.Res := Prog.call o

/-! ### Statistics -/

def recordMessageReceived (msgType : MsgType) : Handler Unit := do
  perform (.fetchAdd .totalMessagesReceived)
  perform (.countMsgType msgType)

def recordMessageSent (upfAddr : SocketAddr) : Handler Unit := do
  perform (.fetchAdd .totalMessagesSent)
  perform (.countUpfMessage upfAddr)

def recordSessionEstablished : Handler Unit := perform (.fetchAdd .sessionsEstablished)

def recordSessionDeleted : Handler Unit := perform (.fetchAdd .sessionsDeleted)

def recordRoutingDecision (bySeid broadcast : Bool) : Handler Unit :=
  if broadcast then perform (.fetchAdd .broadcasts)
  else if bySeid then perform (.fetchAdd .routedBySeid)
  else perform (.fetchAdd .routedByLoadBalance)

def recordResponseForwarded : Handler Unit := perform (.fetchAdd .totalResponsesForwarded)

def recordResponseDropped : Handler Unit := perform (.fetchAdd .responsesDropped)

/-! ### Backend selection -/

def selectRoundRobin : Handler (Option SocketAddr) := do
  let healthy ← perform .poolHealthyBackends
  if healthy.isEmpty then
    return none
  else
    let idx ← perform .poolNextIndex
    return pickRoundRobin healthy idx

/-- The loop of `select_least_sessions`. -/
def leastSessionsLoop : List UpfBackend → ℕ → Option SocketAddr → Handler (Option SocketAddr)
  | [], _, selected => return selected
  | backend :: rest, minSessions, selected => do
    let count ← perform (.sessionCountByUpf backend.addr)
    if count < minSessions then
      leastSessionsLoop rest count (some backend.addr)
    else
      leastSessionsLoop rest minSessions selected

def selectLeastSessions : Handler (Option SocketAddr) := do
  let healthy ← perform .poolHealthyBackends
  if healthy.isEmpty then
    return none
  else
    leastSessionsLoop healthy usizeMax none

def selectWeighted : Handler (Option SocketAddr) := do
  let healthy ← perform .poolHealthyBackends
  if healthy.isEmpty then
    return none
  else if totalWeight healthy = 0 then
    selectRoundRobin
  else
    let idx ← perform .poolNextIndex
    return pickWeighted healthy idx

/-- Select next UPF based on configured strategy. -/
def selectUpf : Handler (Option SocketAddr) := do
  match ← perform .poolStrategy with
  | .roundRobin => selectRoundRobin
  | .leastSessions => selectLeastSessions
  | .weighted => selectWeighted

/-! ### Routing -/

/-- The arms of `route_message` that send to all backends. -/
def routeBroadcast : Handler RoutingDecision := do
  recordRoutingDecision false true
  let backends ← perform .poolAllBackends
  return .broadcast (backends.map (·.addr))

/-- The arm for session establishment: load balance to select new UPF. -/
def routeEstablishment (seid : Option UInt64) (smfAddr : SocketAddr) :
    Handler RoutingDecision := do
  match ← selectUpf with
  | some upfAddr => do
    recordRoutingDecision false false
    recordSessionEstablished
    match seid with
    | some s => perform (.sessionInsert s upfAddr smfAddr)
    | none => pure ()
    return .single upfAddr
  | none => return .noBackend

/-- The arm for session-level messages: route by SEID affinity. -/
def routeAffinity (msgType : MsgType) (seid : Option UInt64) : Handler RoutingDecision :=
  match seid with
  | some s => do
    match ← perform (.sessionLookup s) with
    | some upfAddr => do
      recordRoutingDecision true false
      if msgType = .sessionDeletionRequest then
        recordSessionDeleted
        perform (.sessionRemove s)
      return .single upfAddr
    | none => return .sessionNotFound
  | none => return .noSeid

/-- The last arm: try SEID routing or load balance. -/
def routeDefault (seid : Option UInt64) (smfAddr : SocketAddr) : Handler RoutingDecision :=
  match seid with
  | some s => do
    match ← perform (.sessionLookup s) with
    | some upfAddr => do
      recordRoutingDecision true false
      return .single upfAddr
    | none => do
      match ← selectUpf with
      | some upfAddr => do
        recordRoutingDecision false false
        perform (.sessionInsert s upfAddr smfAddr)
        return .single upfAddr
      | none => return .noBackend
  | none => do
    match ← selectUpf with
    | some upfAddr => do
      recordRoutingDecision false false
      return .single upfAddr
    | none => return .noBackend

/-- Route a PFCP message to appropriate backend(s). -/
def routeMessage (msgType : MsgType) (seid : Option UInt64) (smfAddr : SocketAddr) :
    Handler RoutingDecision :=
  match msgType with
  | .heartbeatRequest => routeBroadcast
  | .associationSetupRequest | .associationUpdateRequest | .pfdManagementRequest =>
    routeBroadcast
  | .sessionEstablishmentRequest => routeEstablishment seid smfAddr
  | .sessionModificationRequest | .sessionDeletionRequest => routeAffinity msgType seid
  | .heartbeatResponse | .sessionEstablishmentResponse | .sessionModificationResponse
  | .sessionDeletionResponse | .sessionReportResponse | .associationSetupResponse
  | .associationUpdateResponse | .associationReleaseResponse | .pfdManagementResponse
  | .nodeReportResponse | .sessionSetDeletionResponse | .sessionSetModificationResponse
  | .versionNotSupportedResponse => return .responseToClient
  | _ => routeDefault seid smfAddr

/-! ### Handlers -/

/-- The send loop of a broadcast, which counts the sends that succeed. -/
def broadcastLoop (data : List UInt8) : List SocketAddr → ℕ → Handler ℕ
  | [], sentCount => return sentCount
  | upfAddr :: rest, sentCount => do
    if ← perform (.sendTo data upfAddr) then
      recordMessageSent upfAddr
      broadcastLoop data rest (sentCount + 1)
    else
      broadcastLoop data rest sentCount

/-- What `handle_smf_request` does with a routing decision. -/
def forwardRequest (data : List UInt8) (src : SocketAddr) (sequence : UInt32) :
    RoutingDecision → Handler Unit
  | .single upfAddr => do
    perform (.pendingInsert sequence src false false)
    if ← perform (.sendTo data upfAddr) then
      recordMessageSent upfAddr
    else
      perform (.pendingRemove sequence)
  | .broadcast backends => do
    perform (.pendingInsert sequence src true false)
    let sentCount ← broadcastLoop data backends 0
    if sentCount = 0 then
      perform (.pendingRemove sequence)
  | .sessionNotFound => return ()
  | .noSeid => return ()
  | .noBackend => return ()
  | .responseToClient => return ()

def handleSmfRequest (data : List UInt8) (src : SocketAddr) (msgType : MsgType)
    (seid : Option UInt64) (sequence : UInt32) : Handler Unit := do
  let decision ← routeMessage msgType seid src
  forwardRequest data src sequence decision

def handleUpfRequest (data : List UInt8) (src : SocketAddr) (seid : Option UInt64)
    (sequence : UInt32) : Handler Unit :=
  match seid with
  | some s => do
    match ← perform (.sessionLookupFull s) with
    | some (upfAddr, smfAddr) =>
      if upfAddr = src then do
        perform (.pendingInsert sequence src false true)
        if ← perform (.sendTo data smfAddr) then
          return ()
        else
          perform (.pendingRemove sequence)
      else
        return ()
    | none => return ()
  | none => return ()

def handleResponse (data : List UInt8) (sequence : UInt32) : Handler Unit := do
  match ← perform (.pendingLookupAndIncrement sequence) with
  | some (originAddr, isBroadcast, responseCount, _) => do
    if ← perform (.sendTo data originAddr) then
      let backendCount ← if isBroadcast then do
          let backends ← perform .poolAllBackends
          pure backends.length
        else pure 1
      recordResponseForwarded
      if isBroadcast = false ∨ responseCount ≥ backendCount then
        perform (.pendingRemove sequence)
    else
      return ()
  | none => recordResponseDropped

def handleMessage (d : Datagram) : Handler Unit :=
  match d.header with
  | none => return ()
  | some ⟨msgType, seid, sequence⟩ => do
    recordMessageReceived msgType
    if isUpfRequest msgType then
      handleUpfRequest d.data d.src seid sequence
    else if isSmfRequest msgType = false then
      handleResponse d.data sequence
    else
      handleSmfRequest d.data d.src msgType seid sequence

/-- The running proxy: one task for each datagram, over the shared state. -/
def proxy : System Op.Res Proxy Datagram Env Bool := ⟨exec, envStep, handleMessage⟩

end PfcpProxy
