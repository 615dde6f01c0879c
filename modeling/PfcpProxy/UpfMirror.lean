import PfcpProxy.ControlFile
import PfcpProxy.Requests

/-!
# The UPF list and the pool

The manager edits a list of texts and writes a command for each change; the proxy parses the
commands and keeps a pool of addresses. They hold the same addresses as long as the manager takes
in texts only that denote an address which is new to its list.
-/

namespace PfcpProxy.Manager

open Conditions Text

/-- The addresses that the texts of a list denote. -/
def denoted (upfList : List (List Char)) : List SocketAddr := upfList.filterMap parseSocketAddr

/-- The pool when all commands written so far have been delivered, each once and in order. -/
def delivered (p₀ : UpfPool) (w : World) : UpfPool :=
  p₀.afterCalls ((lines w.os.control).filterMap lineCall)

/-- The text passes the checks of the proxy: it is an address, there is room, and it is new. -/
def PoolAccepts (p : UpfPool) (text : List Char) : Prop :=
  ∃ addr p', parseSocketAddr text = some addr ∧ p.addBackend addr = .ok p'

/-- After every delivery list and pool hold the same addresses, and whenever an addition is
confirmed, the manager accepts it exactly when the proxy does. -/
def MirrorsPool (p₀ : UpfPool) (w₀ : World) (rounds : List Round) : Prop :=
  (∀ x y, rounds = x ++ y → ∀ w, Continues w₀ x w →
    ∀ addr, addr ∈ denoted w.app.upfList ↔ addr ∈ (delivered p₀ w).addrs) ∧
  ∀ x r y, rounds = x ++ r :: y → ∀ w, Continues w₀ x w → w.app.request r.event = .addUpf →
    (w.app.AcceptsInput ↔ PoolAccepts (delivered p₀ w) w.app.upfInput)

/-- Every text that the manager accepts denotes an address that no entry of its list denotes. -/
def AddsNewAddresses (w₀ : World) (rounds : List Round) : Prop :=
  ∀ x r y, rounds = x ++ r :: y → ∀ w, Continues w₀ x w → w.app.request r.event = .addUpf →
    w.app.AcceptsInput →
      ∃ addr, parseSocketAddr w.app.upfInput = some addr ∧ addr ∉ denoted w.app.upfList

/-- The list and the pool hold the same distinct addresses. -/
structure SameAddresses (upfList : List (List Char)) (p : UpfPool) : Prop where
  parses : ∀ text ∈ upfList, ∃ addr, parseSocketAddr text = some addr
  distinct : (denoted upfList).Nodup
  nodup : p.addrs.Nodup
  same : ∀ addr, addr ∈ denoted upfList ↔ addr ∈ p.addrs
  cap : p.maxBackends = 64

lemma poolAccepts_iff (p : UpfPool) (text : List Char) :
    PoolAccepts p text ↔ ∃ addr, parseSocketAddr text = some addr ∧
      p.backends.length < p.maxBackends ∧ addr ∉ p.addrs := by
  have hok : ∀ addr, (∃ p', p.addBackend addr = .ok p') ↔
      p.backends.length < p.maxBackends ∧ addr ∉ p.addrs := by
    intro addr
    unfold UpfPool.addBackend
    split
    next h => simp [Nat.not_lt.mpr h]
    split
    next h =>
      have hmem : addr ∈ p.addrs := by simpa [UpfPool.addrs] using h
      simp [hmem]
    next hroom h =>
      have hmem : addr ∉ p.addrs := by simpa [UpfPool.addrs] using h
      simp [hmem, Nat.not_le.mp hroom]
  constructor
  · rintro ⟨addr, p', hparse, hadd⟩
    exact ⟨addr, hparse, (hok addr).mp ⟨p', hadd⟩⟩
  · rintro ⟨addr, hparse, hroom⟩
    obtain ⟨p', hadd⟩ := (hok addr).mpr hroom
    exact ⟨addr, p', hparse, hadd⟩

namespace SameAddresses

variable {upfList : List (List Char)} {p : UpfPool} {text : List Char} {addr : SocketAddr}

lemma length_denoted (h : SameAddresses upfList p) : (denoted upfList).length = upfList.length := by
  have hsome : ∀ text ∈ upfList, (parseSocketAddr text).isSome := by
    intro text htext
    obtain ⟨addr, haddr⟩ := h.parses text htext
    rw [haddr]
    rfl
  exact List.filterMap_length_eq_length.mpr hsome

lemma length (h : SameAddresses upfList p) : upfList.length = p.backends.length := by
  have hperm := (List.perm_ext_iff_of_nodup h.distinct h.nodup).mpr h.same
  rw [← h.length_denoted, hperm.length_eq, UpfPool.length_addrs]

/-- Where list and pool hold the same addresses, the checks of both sides only differ in the texts
that are no address or another text of an address. -/
lemma accepts_of_pool (h : SameAddresses upfList p) (ha : PoolAccepts p text) :
    text ≠ [] ∧ upfList.length < 64 ∧ text ∉ upfList := by
  obtain ⟨addr, hparse, hroom, hnew⟩ := (poolAccepts_iff p text).mp ha
  refine ⟨?_, ?_, fun hmem => hnew ?_⟩
  · rintro rfl
    rw [show parseSocketAddr [] = none by decide] at hparse
    cases hparse
  · rw [h.length, ← h.cap]
    exact hroom
  · exact (h.same addr).mp (List.mem_filterMap.mpr ⟨text, hmem, hparse⟩)

lemma poolAccepts (h : SameAddresses upfList p) (hlen : upfList.length < 64)
    (hparse : parseSocketAddr text = some addr) (hnew : addr ∉ denoted upfList) :
    PoolAccepts p text := by
  rw [poolAccepts_iff]
  refine ⟨addr, hparse, ?_, fun hmem => hnew ((h.same addr).mpr hmem)⟩
  rw [← h.length, h.cap]
  exact hlen

lemma add (h : SameAddresses upfList p) (hlen : upfList.length < 64)
    (hparse : parseSocketAddr text = some addr) (hnew : addr ∉ denoted upfList) :
    SameAddresses (upfList ++ [text]) ((PoolCall.addBackend addr).apply p) := by
  have hdenoted : denoted (upfList ++ [text]) = denoted upfList ++ [addr] := by
    simp [denoted, List.filterMap_append, hparse]
  have haddrs : ((PoolCall.addBackend addr).apply p).addrs = p.addrs ++ [addr] := by
    rw [PoolCall.apply, UpfPool.addrs_addBackend, if_pos]
    refine ⟨?_, fun hmem => hnew ((h.same addr).mpr hmem)⟩
    rw [← h.length, h.cap]
    exact hlen
  constructor
  · intro t ht
    obtain ht | rfl := by simpa using ht
    · exact h.parses t ht
    · exact ⟨addr, hparse⟩
  · rw [hdenoted]
    exact h.distinct.append (List.nodup_singleton addr) (by simpa using hnew)
  · exact UpfPool.nodup_apply h.nodup _
  · intro a
    rw [hdenoted, haddrs, List.mem_append, List.mem_append, h.same]
  · rw [UpfPool.apply_maxBackends, h.cap]

lemma remove (h : SameAddresses upfList p) {k : ℕ} (hk : upfList[k]? = some text)
    (hparse : parseSocketAddr text = some addr) :
    SameAddresses (upfList.eraseIdx k) ((PoolCall.removeBackend addr).apply p) := by
  obtain ⟨hlt, htext⟩ := List.getElem?_eq_some_iff.mp hk
  have hsplit : upfList = upfList.take k ++ text :: upfList.drop (k + 1) := by
    rw [← htext, ← List.drop_eq_getElem_cons hlt, List.take_append_drop]
  have herase : upfList.eraseIdx k = upfList.take k ++ upfList.drop (k + 1) :=
    List.eraseIdx_eq_take_drop_succ upfList k
  have hdenoted : denoted upfList =
      denoted (upfList.take k) ++ addr :: denoted (upfList.drop (k + 1)) := by
    conv_lhs => rw [hsplit]
    simp only [denoted, List.filterMap_append, List.filterMap_cons, hparse]
  have hdenoted' : denoted (upfList.eraseIdx k) =
      denoted (upfList.take k) ++ denoted (upfList.drop (k + 1)) := by
    rw [herase, denoted, List.filterMap_append]
    rfl
  have hdistinct := h.distinct
  rw [hdenoted, List.nodup_middle, List.nodup_cons] at hdistinct
  constructor
  · intro t ht
    exact h.parses t (List.mem_of_mem_eraseIdx ht)
  · rw [hdenoted']
    exact hdistinct.2
  · exact UpfPool.nodup_apply h.nodup _
  · intro a
    rw [PoolCall.apply, UpfPool.addrs_removeBackend, List.mem_filter, ← h.same, hdenoted,
      hdenoted']
    have hnot := hdistinct.1
    by_cases ha : a = addr
    · subst ha
      simp [hnot]
    · simp [ha]
  · rw [UpfPool.apply_maxBackends, h.cap]

end SameAddresses

/-! ### Runs -/

/-- What is written after `written` are commands, and the list has the addresses that they leave in
the pool. -/
def Mirror (written : List Char) (p₀ : UpfPool) (w : World) : Prop :=
  ∃ commands : List Command, w.os.control = written ++ controlFile commands ∧
    SameAddresses w.app.upfList (p₀.afterCalls (commands.map Command.call))

section Runs

variable {written : List Char} {p₀ : UpfPool} {w₀ w w' : World} {rounds : List Round}

lemma mirror_start (hsame : SameAddresses w.app.upfList p₀) : Mirror w.os.control p₀ w :=
  ⟨[], (List.append_nil _).symm, hsame⟩

lemma Mirror.sameAddresses (hw : Mirror [] p₀ w) :
    SameAddresses w.app.upfList (delivered p₀ w) := by
  obtain ⟨commands, hcontrol, hsame⟩ := hw
  rw [delivered, hcontrol, List.nil_append, lines_controlFile, filterMap_lineCall]
  exact hsame

lemma Mirror.of_stage (hw : Mirror written p₀ w) (hlist : w'.stage.upfList = w.stage.upfList)
    (hcontrol : w'.stage.control = w.stage.control) : Mirror written p₀ w' := by
  obtain ⟨commands, hc, hsame⟩ := hw
  exact ⟨commands, hcontrol.trans hc, by rwa [show w'.app.upfList = _ from hlist]⟩

lemma Mirror.of_plan (hw : Mirror written p₀ w) (h : w'.plan = w.plan) : Mirror written p₀ w' :=
  hw.of_stage (congrArg Plan.upfList h) (congrArg Plan.control h)

lemma Mirror.snoc (command : Command) (commands : List Command) {stage : Stage}
    (hstage : w'.stage = stage) (hcontrol : stage.control = written ++ controlFile commands ++
      commandLine command.action.word command.text)
    (hsame : SameAddresses stage.upfList
      (command.call.apply (p₀.afterCalls (commands.map Command.call)))) : Mirror written p₀ w' := by
  refine ⟨commands ++ [command], ?_, ?_⟩
  · rw [controlFile_snoc, ← List.append_assoc]
    exact (congrArg Stage.control hstage).trans hcontrol
  · rw [List.map_append, UpfPool.afterCalls, List.foldl_append]
    rw [show w'.app.upfList = _ from congrArg Stage.upfList hstage]
    exact hsame

lemma Mirror.add (hw : Mirror written p₀ w) (ha : w.app.AcceptsInput) {addr : SocketAddr}
    (hparse : parseSocketAddr w.app.upfInput = some addr)
    (hnew : addr ∉ denoted w.app.upfList) (h : w'.stage = w.stage.add w.app.upfInput) :
    Mirror written p₀ w' := by
  obtain ⟨commands, hcontrol, hsame⟩ := hw
  refine Mirror.snoc ⟨.add, w.app.upfInput, addr, hparse⟩ commands h ?_ (hsame.add ha.2.1 hparse hnew)
  rw [← hcontrol]
  rfl

lemma Mirror.remove (hw : Mirror written p₀ w) {removed : List Char} {w₁ : World}
    (hsel : w.app.upfList[w.app.selectedUpf]? = some removed) (h₁ : w₁.plan = w.shorten.plan)
    (h : w'.stage = w₁.stage.drop removed) : Mirror written p₀ w' := by
  obtain ⟨commands, hcontrol, hsame⟩ := hw
  obtain ⟨addr, hparse⟩ := hsame.parses removed (List.mem_of_getElem? hsel)
  have hlist : w₁.stage.upfList = w.app.upfList.eraseIdx w.app.selectedUpf :=
    congrArg Plan.upfList h₁
  have hcontrol₁ : w₁.stage.control = w.os.control := congrArg Plan.control h₁
  refine Mirror.snoc ⟨.remove, removed, addr, hparse⟩ commands h ?_ ?_
  · rw [← hcontrol, ← hcontrol₁]
    rfl
  · rw [show (w₁.stage.drop removed).upfList = _ from hlist]
    exact hsame.remove hsel hparse

lemma ensures_carryOut_mirror (hw : Mirror written p₀ w) {request : Request}
    (hnew : request = .addUpf → w.app.AcceptsInput →
      ∃ addr, parseSocketAddr w.app.upfInput = some addr ∧ addr ∉ denoted w.app.upfList) :
    Ensures (carryOut request) (fun _ w' => Mirror written p₀ w') (fun _ _ => True) w := by
  by_cases hreq : request.OnUpfs
  · obtain rfl | rfl | rfl | rfl := by simpa [Request.OnUpfs] using hreq
    · refine (ensures_addUpf w).mono (fun _ w' h => ?_) fun _ _ _ => trivial
      split at h
      next ha =>
        obtain ⟨addr, hparse, haddr⟩ := hnew rfl ha
        exact hw.add ha hparse haddr h
      next => exact hw.of_plan (congrArg Stage.plan h)
    · refine (ensures_removeUpf w).mono (fun _ w' h => ?_) fun _ _ _ => trivial
      split at h
      next => exact hw.of_plan (congrArg Stage.plan h)
      next removed hsel =>
        obtain ⟨w₁, hstop, h⟩ := h
        exact hw.remove hsel ((ensures_stopServiceAt removed _).of_ok hstop) h
    · exact (ensures_selectUp w).mono (fun _ w' h => hw.of_stage (by rw [h]) (by rw [h]))
        fun _ _ _ => trivial
    · exact (ensures_selectDown w).mono (fun _ w' h => hw.of_stage (by rw [h]) (by rw [h]))
        fun _ _ _ => trivial
  · exact (ensures_carryOut_plan w hreq).mono (fun _ _ h => hw.of_plan h) fun _ _ _ => trivial

lemma ensures_run_mirror (hw : Mirror written p₀ w) {r : Round}
    (hnew : w.app.request r.event = .addUpf → w.app.AcceptsInput →
      ∃ addr, parseSocketAddr w.app.upfInput = some addr ∧ addr ∉ denoted w.app.upfList) :
    Ensures r.run (fun _ w' => Mirror written p₀ w') (fun _ _ => True) w := by
  have hdo := ensures_carryOut_mirror (w := w.enter r) hw hnew
  exact ensures_run hdo (fun w' _ h => hw.of_plan (congrArg Stage.plan h)) fun _ _ => trivial

lemma AddsNewAddresses.mirror (h₀ : Mirror written p₀ w₀) (hquit : w₀.app.shouldQuit = false)
    (h : AddsNewAddresses w₀ rounds) (hw : Continues w₀ rounds w) : Mirror written p₀ w :=
  hw.induct hquit h₀ fun x r y w _ hxy hx hmirror hr =>
    (ensures_run_mirror hmirror (h x r y hxy w hx)).of_ok hr

lemma AddsNewAddresses.of_append {x y : List Round} (h : AddsNewAddresses w₀ (x ++ y)) :
    AddsNewAddresses w₀ x :=
  forall_rounds_of_append h

end Runs

/-- The manager's list and the proxy's pool hold the same addresses in exactly the runs in which
every text that the manager accepts denotes an address that is new to its list. -/
theorem upf_list_mirrors_pool_iff (p₀ : UpfPool) (w₀ : World) (rounds : List Round)
    (hsame : SameAddresses w₀.app.upfList p₀) (hcontrol : w₀.os.control = [])
    (hquit : w₀.app.shouldQuit = false) :
    MirrorsPool p₀ w₀ rounds ↔ AddsNewAddresses w₀ rounds := by
  have h₀ : Mirror [] p₀ w₀ := hcontrol ▸ mirror_start hsame
  constructor
  · intro h x r y hxy w hw hadd haccepts
    have hpool := (h.2 x r y hxy w hw hadd).mp haccepts
    obtain ⟨addr, hparse, _, hnew⟩ := (poolAccepts_iff _ _).mp hpool
    exact ⟨addr, hparse, fun hmem => hnew ((h.1 x (r :: y) hxy w hw addr).mp hmem)⟩
  · intro h
    constructor
    · rintro x y rfl w hw
      exact (h.of_append.mirror h₀ hquit hw).sameAddresses.same
    · rintro x r y rfl w hw hadd
      have hsame := (h.of_append.mirror h₀ hquit hw).sameAddresses
      constructor
      · intro haccepts
        obtain ⟨addr, hparse, hnew⟩ := h x r y rfl w hw hadd haccepts
        exact hsame.poolAccepts haccepts.2.1 hparse hnew
      · exact hsame.accepts_of_pool

/-- The pool of a proxy that was started with the UPFs of the manager. -/
def startedPool : UpfPool :=
  UpfPool.new [.v4 0x7f000001 8806, .v4 0x7f000001 8807, .v4 0x7f000001 8808] .roundRobin

lemma sameAddresses_start (os : Os) :
    SameAddresses (World.start os).app.upfList startedPool := by
  have hparses : ∀ text ∈ (World.start os).app.upfList, (parseSocketAddr text).isSome := by
    change ∀ text ∈ [upf1Addr, upf2Addr, upf3Addr], (parseSocketAddr text).isSome
    decide +kernel
  have hdenoted : denoted (World.start os).app.upfList = startedPool.addrs := by
    change denoted [upf1Addr, upf2Addr, upf3Addr] = startedPool.addrs
    decide +kernel
  have hnodup : startedPool.addrs.Nodup := by decide +kernel
  refine ⟨fun text htext => Option.isSome_iff_exists.mp (hparses text htext), ?_, hnodup,
    fun addr => ?_, rfl⟩
  · rw [hdenoted]
    exact hnodup
  · rw [hdenoted]

/-- Another text for the address of the first entry is added, then that entry is deleted. -/
def respellingRounds : List Round :=
  [press .tab, press .tab, press .tab, press (.char 'a')] ++
    "127.0.0.1:08806".toList.map (fun c => press (.char c)) ++ [press .enter, press (.char 'd')]

/-- An UPF with a new address is added. -/
def addingRounds : List Round :=
  [press .tab, press .tab, press .tab, press (.char 'a')] ++
    "127.0.0.1:8809".toList.map (fun c => press (.char c)) ++ [press .enter]

theorem upf_list_mirrors_pool_start :
    MirrorsPool startedPool (World.start freshOs) addingRounds ↔
      AddsNewAddresses (World.start freshOs) addingRounds :=
  upf_list_mirrors_pool_iff startedPool (World.start freshOs) addingRounds
    (sameAddresses_start freshOs) rfl rfl

theorem upf_list_mirrors_pool_fails :
    ¬MirrorsPool startedPool (World.start freshOs) respellingRounds := by
  intro h
  have hafter : (after (World.start freshOs) respellingRounds).any fun w =>
      .v4 0x7f000001 8806 ∈ denoted w.app.upfList ∧
        .v4 0x7f000001 8806 ∉ (delivered startedPool w).addrs := by
    decide +kernel
  obtain ⟨w, hw, hsets⟩ := (Option.any_eq_true _ _).mp hafter
  obtain ⟨hlist, hpool⟩ := of_decide_eq_true hsets
  exact hpool ((h.1 _ [] (List.append_nil _).symm w (continues_of_after hw) _).mp hlist)

end PfcpProxy.Manager
