import PfcpProxy.AddressDisplay
import PfcpProxy.Association
import PfcpProxy.ControlPaths
import PfcpProxy.Report

/-!
# The backends in the exported statistics

`create_snapshot` writes one row for each backend, under its printed address. The manager looks an
entry of its UPF list up in these rows by its text, as it was typed.
-/

namespace PfcpProxy

/-- `{:?}` of a health state. -/
def HealthStatus.debug : HealthStatus → List Char
  | .healthy => "Healthy".toList
  | .degraded => "Degraded".toList
  | .unhealthy => "Unhealthy".toList
  | .unknown => "Unknown".toList

/-- A row of the exported statistics. -/
structure UpfStats where
  address : List Char
  messagesSent : UInt64
  activeSessions : ℕ
  health : List Char
  deriving DecidableEq, Repr

def UpfStatSnapshot.toUpfStats (row : UpfStatSnapshot) : UpfStats where
  address := displaySocketAddr row.address
  messagesSent := row.messagesSent
  activeSessions := row.activeSessions
  health := row.health.debug

/-- The rows that a proxy exports. -/
def Proxy.exportedUpfs (p : Proxy) : List UpfStats := p.report.upfStats.map UpfStatSnapshot.toUpfStats

lemma find?_exportedUpfs (p : Proxy) (text : List Char) :
    (p.exportedUpfs.find? (·.address = text)).map (·.health) =
      (p.upfPool.backends.find? fun b => displaySocketAddr b.addr = text).map (·.health.debug) := by
  simp only [Proxy.exportedUpfs, Proxy.report, Statistics.createSnapshot, List.map_map,
    List.find?_map, Option.map_map]
  rfl

namespace Manager

/-- The status that is shown for an entry of the UPF list. -/
def upfStatus (proxyStats : Option (List UpfStats)) (upf : List Char) : List Char :=
  match proxyStats with
  | some upfStats => ((upfStats.find? (·.address = upf)).map (·.health)).getD "Unknown".toList
  | none => "Unknown".toList

lemma upfStatus_some (rows : List UpfStats) (upf : List Char) :
    upfStatus (some rows) upf =
      ((rows.find? (·.address = upf)).map (·.health)).getD "Unknown".toList := rfl

section Runs

variable {p₀ : UpfPool} {w₀ w : World} {rounds : List Round} {steps : List MonitorStep}
  {baseDir workingDir : Directory}

/-- Where all addresses in the pool were read from texts, the backend with a given address text is
the one whose address the text denotes, if it is the text that is printed. -/
lemma find?_displaySocketAddr {backends : List UpfBackend} {b : UpfBackend} {text : List Char}
    (hnodup : (backends.map (·.addr)).Nodup) (hprinted : ∀ x ∈ backends, x.addr.printed = x.addr)
    (hb : b ∈ backends) (hparse : parseSocketAddr text = some b.addr) :
    backends.find? (fun x => displaySocketAddr x.addr = text) =
      if displaySocketAddr b.addr = text then some b else none := by
  -- A backend under this text has the address that the text denotes.
  have hunique : ∀ x ∈ backends, displaySocketAddr x.addr = text → x = b := by
    intro x hx htext
    have haddr : some x.addr = some b.addr := by
      rw [← hparse, ← htext, parseSocketAddr_display, hprinted x hx]
    exact List.inj_on_of_nodup_map hnodup hx hb (Option.some.inj haddr)
  split
  next htext =>
    cases hfind : backends.find? (fun x => displaySocketAddr x.addr = text) with
    | none =>
      have hno := List.find?_eq_none.mp hfind b hb
      simp [htext] at hno
    | some x =>
      have htext' := List.find?_some hfind
      rw [decide_eq_true_eq] at htext'
      rw [hunique x (List.mem_of_find?_eq_some hfind) htext']
  next htext =>
    rw [List.find?_eq_none]
    intro x hx htext'
    rw [decide_eq_true_eq] at htext'
    exact htext (hunique x hx htext' ▸ htext')

/-- For an entry with a backend in the pool the exported health of this backend is shown if the
entry is spelled as addresses are printed, and an unknown status if it is spelled otherwise. -/
def ShowsBackend (p : Proxy) (text : List Char) : Prop :=
  ∃ b ∈ p.upfPool.backends, parseSocketAddr text = some b.addr ∧
    upfStatus (some p.exportedUpfs) text =
      if displaySocketAddr b.addr = text then b.health.debug else "Unknown".toList

lemma showsBackend_of_mem {p : Proxy} {text : List Char} {addr : SocketAddr}
    (hnodup : p.upfPool.addrs.Nodup) (hprinted : ∀ x ∈ p.upfPool.addrs, x.printed = x)
    (hparse : parseSocketAddr text = some addr) (haddr : addr ∈ p.upfPool.addrs) :
    ShowsBackend p text := by
  obtain ⟨b, hb, rfl⟩ := List.mem_map.mp haddr
  refine ⟨b, hb, hparse, ?_⟩
  rw [upfStatus_some, find?_exportedUpfs, find?_displaySocketAddr hnodup
    (fun x hx => hprinted x.addr (List.mem_map_of_mem hx)) hb hparse]
  split <;> rfl

lemma upfStatus_of_not_mem {p : Proxy} {text : List Char}
    (hprinted : ∀ x ∈ p.upfPool.addrs, x.printed = x)
    (hno : ∀ addr ∈ p.upfPool.addrs, parseSocketAddr text ≠ some addr) :
    upfStatus (some p.exportedUpfs) text = "Unknown".toList := by
  have hnone : p.upfPool.backends.find? (fun x => displaySocketAddr x.addr = text) = none := by
    rw [List.find?_eq_none]
    intro x hx htext
    rw [decide_eq_true_eq] at htext
    have haddr : x.addr ∈ p.upfPool.addrs := List.mem_map_of_mem hx
    apply hno x.addr haddr
    rw [← htext, parseSocketAddr_display, hprinted x.addr haddr]
  rw [upfStatus_some, find?_exportedUpfs, hnone]
  rfl

lemma printed_of_mem_denoted {upfList : List (List Char)} {addr : SocketAddr}
    (h : addr ∈ denoted upfList) : addr.printed = addr := by
  obtain ⟨_, _, hparse⟩ := List.mem_filterMap.mp h
  exact printed_of_parse hparse

/-- What the manager shows beside a proxy that uses its control file, when the monitor has caught up
with a run that takes in new addresses only: every entry of the list has its backend in the pool,
and the status of that backend is shown. In every other set-up this holds of the entries only whose
addresses the pool had at first, and the status of all others is unknown. -/
theorem status_shown (hsame : SameAddresses w₀.app.upfList p₀) (hcontrol : w₀.os.control = [])
    (hquit : w₀.app.shouldQuit = false) (h : Alongside baseDir workingDir w₀ rounds w steps)
    {p : Proxy} (hp : p.upfPool.backends = (Monitor.after p₀ steps).upfPool.backends)
    (text : List Char) :
    (workingDir = baseDir ++ ["target".toList] → AddsNewAddresses w₀ rounds → CaughtUp p₀ steps →
      text ∈ w.app.upfList → ShowsBackend p text) ∧
    (workingDir ≠ baseDir ++ ["target".toList] →
      if ∃ addr ∈ p₀.addrs, parseSocketAddr text = some addr then ShowsBackend p text
      else upfStatus (some p.exportedUpfs) text = "Unknown".toList) := by
  have haddrs : p.upfPool.addrs = (Monitor.after p₀ steps).upfPool.addrs := by
    rw [UpfPool.addrs, hp, UpfPool.addrs]
  constructor
  · intro hone hnew hcaught htext
    have hmem (addr : SocketAddr) : addr ∈ denoted w.app.upfList ↔ addr ∈ p.upfPool.addrs := by
      rw [haddrs, h.mem_denoted_iff hsame hcontrol hquit hone hnew hcaught]
    have hnodup : p.upfPool.addrs.Nodup := by
      rw [haddrs, (Monitor.consistent_after steps).upfPool.1]
      exact UpfPool.nodup_afterCalls hsame.nodup _
    have h₀ : Mirror [] p₀ w₀ := hcontrol ▸ mirror_start hsame
    have hlist := (hnew.mirror h₀ hquit (h.continues hquit)).sameAddresses
    obtain ⟨addr, hparse⟩ := hlist.parses text htext
    refine showsBackend_of_mem hnodup (fun x hx => ?_) hparse ?_
    · exact printed_of_mem_denoted ((hmem x).mpr hx)
    · exact (hmem addr).mp (List.mem_filterMap.mpr ⟨text, htext, hparse⟩)
  · intro htwo
    rw [h.addrs_eq htwo] at haddrs
    have hprinted : ∀ x ∈ p.upfPool.addrs, x.printed = x := by
      intro x hx
      rw [haddrs, ← hsame.same] at hx
      exact printed_of_mem_denoted hx
    split
    next hfound =>
      obtain ⟨addr, haddr, hparse⟩ := hfound
      exact showsBackend_of_mem (haddrs ▸ hsame.nodup) hprinted hparse (haddrs ▸ haddr)
    next hnone =>
      refine upfStatus_of_not_mem hprinted fun addr haddr hparse => hnone ⟨addr, ?_, hparse⟩
      rwa [haddrs] at haddr

end Runs

/-- A proxy with the pool that the monitor leaves after these steps. -/
def proxyAfter (steps : List MonitorStep) : Proxy :=
  { Proxy.new [] .roundRobin with upfPool := (Monitor.after startedPool steps).upfPool }

/-- The user has added an UPF: a proxy in `target` has its backend, and the one that the manager has
started does not. -/
theorem status_shown_added : ∃ w,
    Alongside [] ["target".toList] (World.start freshOs) addingRounds w catchingUp ∧
    (∀ text ∈ w.app.upfList, ShowsBackend (proxyAfter catchingUp) text) ∧
    upfStatus (some (proxyAfter tickAndHeartbeat).exportedUpfs) addedUpf.text =
      "Unknown".toList := by
  obtain ⟨w, hone, htwo⟩ := alongside_adding
  refine ⟨w, hone, fun text htext => ?_, ?_⟩
  · exact (status_shown (p := proxyAfter catchingUp) (sameAddresses_start freshOs) rfl rfl hone rfl
      text).1 rfl addsNewAddresses_adding caughtUp_catchingUp htext
  · have hshown := (status_shown (p := proxyAfter tickAndHeartbeat) (sameAddresses_start freshOs)
      rfl rfl htwo rfl addedUpf.text).2 (by simp)
    rwa [if_neg] at hshown
    rw [addedUpf.parses]
    decide +kernel

end Manager

end PfcpProxy
