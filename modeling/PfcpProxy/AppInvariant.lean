import PfcpProxy.AppChanges
import PfcpProxy.Ownership

/-!
# What the manager shows

The UPF list, the services for it, the selected entry, the log lines and the place in them are
changed by many keys. Wherever the main loop goes on, they fit together.
-/

namespace PfcpProxy.Manager

open Conditions

/-! ### Logs -/

structure LogsInOrder (logs : List (List Char)) (logScroll : ℕ) (autoScrollLogs : Bool) : Prop where
  bounded : logs.length ≤ maxLogLines
  within : logScroll ≤ logs.length - 1
  follows : autoScrollLogs = true → logScroll = logs.length - 1

def App.LogsInOrder (app : App) : Prop :=
  Manager.LogsInOrder app.logs app.logScroll app.autoScrollLogs

variable {app app' : App}

lemma App.LogsInOrder.addLog (h : app.LogsInOrder) (line : List Char) :
    (app.addLog line).LogsInOrder := by
  obtain ⟨hbounded, hwithin, hfollows⟩ := h
  have hlength : (app.addLog line).logs.length = min (app.logs.length + 1) maxLogLines := by
    unfold App.addLog maxLogLines at *
    dsimp only
    split
    · rw [List.length_append, List.length_tail, List.length_singleton]
      omega
    · rw [List.length_append, List.length_singleton]
      omega
  have hscroll : (app.addLog line).logScroll =
      if app.autoScrollLogs then (app.addLog line).logs.length - 1 else app.logScroll := rfl
  have hmax : 0 < maxLogLines := by decide
  constructor
  · omega
  · split at hscroll
    · omega
    · omega
  · intro hauto
    rw [hscroll]
    exact if_pos hauto

lemma AppChange.logsInOrder (h : AppChange app app') (happ : app.LogsInOrder) :
    app'.LogsInOrder := by
  cases h with
  | display _ hlogs hscroll hauto =>
    unfold App.LogsInOrder
    rw [hlogs, hscroll, hauto]
    exact happ
  | starting => exact happ
  | stopped => exact happ
  | refresh => exact happ
  | sync => exact happ
  | addLog => exact happ.addLog _
  | clearLogs => exact ⟨Nat.zero_le _, Nat.le_refl _, fun _ => rfl⟩
  | scrollLogsUp =>
    have hwithin := (Nat.sub_le app.logScroll 1).trans happ.within
    exact ⟨happ.bounded, hwithin, fun hauto => absurd hauto Bool.false_ne_true⟩
  | scrollLogsDown =>
    have hwithin := Nat.min_le_right (app.logScroll + 1) (app.logs.length - 1)
    exact ⟨happ.bounded, hwithin, fun hauto => absurd hauto Bool.false_ne_true⟩
  | enableAutoScroll => exact ⟨happ.bounded, Nat.le_refl _, fun _ => rfl⟩

/-! ### The UPF list -/

/-- The services are those for the list, and an entry is selected unless the list is empty. -/
structure Plan.Coherent (plan : Plan) : Prop where
  labels : plan.labels = labelsFor plan.upfList
  distinct : plan.upfList.Nodup
  room : plan.upfList.length ≤ 64
  selected : plan.selectedUpf < plan.upfList.length ∨
    plan.selectedUpf = 0 ∧ plan.upfList.length = 0

section Coherent

variable {stage : Stage}

lemma Plan.Coherent.add (h : stage.plan.Coherent) {input : List Char}
    (hroom : stage.upfList.length < 64) (hnew : input ∉ stage.upfList) :
    (stage.add input).plan.Coherent where
  labels := map_label_servicesFor _ _
  distinct := h.distinct.append (List.nodup_singleton input) (List.disjoint_singleton.mpr hnew)
  room := by
    change (stage.upfList ++ [input]).length ≤ 64
    rw [List.length_append, List.length_singleton]
    exact hroom
  selected := by
    left
    change stage.selectedUpf < (stage.upfList ++ [input]).length
    rw [List.length_append, List.length_singleton]
    obtain hselected | hempty := h.selected
    · exact Nat.lt_succ_of_lt hselected
    · rw [show stage.selectedUpf = 0 from hempty.1]
      exact Nat.succ_pos _

/-- The selection moves up when the last entry is deleted. -/
lemma Plan.Coherent.drop (h : stage.plan.Coherent) {stage₁ : Stage} (removed : List Char)
    (hlist : stage₁.upfList = stage.upfList.eraseIdx stage.selectedUpf)
    (hselected : stage₁.selectedUpf = stage.selectedUpf)
    (hlt : stage.selectedUpf < stage.upfList.length) :
    (stage₁.drop removed).plan.Coherent := by
  have hlength : stage₁.upfList.length = stage.upfList.length - 1 := by
    rw [hlist, List.length_eraseIdx_of_lt hlt]
  refine
    { labels := map_label_servicesFor _ _
      distinct := ?_
      room := ?_
      selected := ?_ }
  · change stage₁.upfList.Nodup
    rw [hlist]
    exact h.distinct.eraseIdx _
  · change stage₁.upfList.length ≤ 64
    have hroom : stage.upfList.length ≤ 64 := h.room
    omega
  · change (if stage₁.upfList.length ≤ stage₁.selectedUpf ∧ 0 < stage₁.selectedUpf then
        stage₁.selectedUpf - 1 else stage₁.selectedUpf) < stage₁.upfList.length ∨
      (if stage₁.upfList.length ≤ stage₁.selectedUpf ∧ 0 < stage₁.selectedUpf then
        stage₁.selectedUpf - 1 else stage₁.selectedUpf) = 0 ∧ stage₁.upfList.length = 0
    split
    · omega
    · omega

lemma Plan.Coherent.select (h : stage.plan.Coherent) {selectedUpf : ℕ}
    (hselected : selectedUpf ≤ stage.selectedUpf ∨ selectedUpf < stage.upfList.length) :
    { stage with selectedUpf := selectedUpf }.plan.Coherent where
  labels := h.labels
  distinct := h.distinct
  room := h.room
  selected := by
    change selectedUpf < stage.upfList.length ∨ selectedUpf = 0 ∧ stage.upfList.length = 0
    have hbefore : stage.selectedUpf < stage.upfList.length ∨
      stage.selectedUpf = 0 ∧ stage.upfList.length = 0 := h.selected
    omega

end Coherent

section Runs

variable {w w₀ : World} {rounds : List Round}

lemma ensures_carryOut_coherent (hw : w.plan.Coherent) (request : Request) :
    Ensures (carryOut request) (fun _ w' => w'.plan.Coherent) (fun _ _ => True) w := by
  by_cases hreq : request.OnUpfs
  · obtain rfl | rfl | rfl | rfl := by simpa [Request.OnUpfs] using hreq
    · refine (ensures_addUpf w).mono (fun _ w' h => ?_) fun _ _ _ => trivial
      rw [World.plan, h]
      split
      next haccepts => exact Plan.Coherent.add hw haccepts.2.1 haccepts.2.2
      next => exact hw
    · refine (ensures_removeUpf w).mono (fun _ w' h => ?_) fun _ _ _ => trivial
      split at h
      next =>
        rw [World.plan, h]
        exact hw
      next removed hsel =>
        obtain ⟨w₁, hstop, hdrop⟩ := h
        have hplan := (ensures_stopServiceAt removed w.shorten).of_ok hstop
        rw [World.plan, hdrop]
        exact Plan.Coherent.drop hw removed (congrArg Plan.upfList hplan)
          (congrArg Plan.selectedUpf hplan) (List.getElem?_eq_some_iff.mp hsel).1
    · refine (ensures_selectUp w).mono (fun _ w' h => ?_) fun _ _ _ => trivial
      rw [World.plan, h]
      exact Plan.Coherent.select hw (.inl (Nat.sub_le _ _))
    · refine (ensures_selectDown w).mono (fun _ w' h => ?_) fun _ _ _ => trivial
      rw [World.plan, h]
      refine Plan.Coherent.select hw ?_
      split
      next => exact .inl (Nat.le_refl _)
      next hne =>
        have hpos := List.length_pos_of_ne_nil hne
        exact .inr (by omega)
  · exact (ensures_carryOut_plan w hreq).mono (fun _ w' h => h ▸ hw) fun _ _ _ => trivial

lemma ensures_run_coherent (hw : w.plan.Coherent) (r : Round) :
    Ensures r.run (fun _ w' => w'.plan.Coherent) (fun _ _ => True) w := by
  have hdo := ensures_carryOut_coherent (w := w.enter r) hw (w.app.request r.event)
  refine ensures_run hdo (fun w' _ h => ?_) fun _ _ => trivial
  rw [World.plan, h]
  exact hw

lemma Continues.coherent (hquit : w₀.app.shouldQuit = false) (h₀ : w₀.plan.Coherent)
    (hw : Continues w₀ rounds w) : w.plan.Coherent :=
  hw.induct (I := fun w => w.plan.Coherent) hquit h₀ fun _ r _ _ _ _ _ h hr =>
    (ensures_run_coherent h r).of_ok hr

lemma coherent_start (os : Os) : (World.start os).plan.Coherent where
  labels := map_label_servicesFor _ _
  distinct := by
    change App.new.upfList.Nodup
    decide +kernel
  room := by
    change App.new.upfList.length ≤ 64
    decide
  selected := .inl (by decide : 0 < App.new.upfList.length)

lemma logsInOrder_start (os : Os) : (World.start os).app.LogsInOrder :=
  ⟨Nat.zero_le _, Nat.le_refl _, fun _ => rfl⟩

end Runs

/-! ### The state as a whole -/

/-- One service for the proxy and one for each UPF, a selected entry, and a place in the log. -/
structure App.Consistent (app : App) : Prop where
  nodup : app.upfList.Nodup
  room : app.upfList.length ≤ 64
  length : app.services.length = app.upfList.length + 1
  proxy : ∃ s, app.services[0]? = some s ∧ s.name = proxyName ∧ s.addr = proxyAddr
  upfs : ∀ (i : ℕ) (addr : List Char), app.upfList[i]? = some addr →
    ∃ s, app.services[i + 1]? = some s ∧ s.name = upfName i ∧ s.addr = addr
  selected : app.selectedUpf < app.upfList.length ∨
    app.selectedUpf = 0 ∧ app.upfList.length = 0
  bounded : app.logs.length ≤ maxLogLines
  within : app.logScroll ≤ app.logs.length - 1
  follows : app.autoScrollLogs = true → app.logScroll = app.logs.length - 1

lemma Plan.Coherent.consistent {w : World} (h : w.plan.Coherent) (hlogs : w.app.LogsInOrder) :
    w.app.Consistent where
  nodup := h.distinct
  room := h.room
  length := by
    have hlength := congrArg List.length h.labels
    rw [labelsFor, List.length_cons, List.length_mapIdx] at hlength
    rw [← List.length_map (f := ServiceInfo.label)]
    exact hlength
  proxy := exists_service_of_label h.labels rfl
  upfs i addr hi := by
    refine exists_service_of_label h.labels (i := i + 1) ?_
    rw [labelsFor, List.getElem?_cons_succ, List.getElem?_mapIdx,
      show w.plan.upfList[i]? = some addr from hi]
    rfl
  selected := h.selected
  bounded := hlogs.bounded
  within := hlogs.within
  follows := hlogs.follows

/-- Wherever the main loop goes on, the list, the services, the selection and the logs fit
together. -/
theorem manager_consistent (os : Os) (rounds : List Round) (w : World)
    (hw : Continues (World.start os) rounds w) : w.app.Consistent := by
  have hlogs := hw.of_changes (fun _ _ h => h.logsInOrder) rfl (logsInOrder_start os)
  exact (hw.coherent rfl (coherent_start os)).consistent hlogs

/-- A service prints, the log is followed and scrolled, and the last UPF is deleted. -/
def showingRounds : List Round :=
  [⟨freshOs.surroundings, .print "upf1".toList "ready".toList⟩,
    ⟨freshOs.surroundings, .print "upf1".toList "listening".toList⟩,
    ⟨freshOs.surroundings, .followLogs⟩, press .tab, press .up,
    ⟨freshOs.surroundings, .followLogs⟩, ⟨freshOs.surroundings, .refresh⟩, press .tab, press .tab,
    press .down, press .down, press (.char 'd')]

theorem manager_consistent_showing : ∃ w, Continues (World.start freshOs) showingRounds w ∧
    w.app.logs.length = 4 ∧ w.app.upfList.length = 2 ∧ w.app.Consistent := by
  have hafter : (after (World.start freshOs) showingRounds).any fun w =>
      w.app.logs.length = 4 ∧ w.app.upfList.length = 2 := by
    decide +kernel
  obtain ⟨w, hw, hshown⟩ := (Option.any_eq_true _ _).mp hafter
  obtain ⟨hlogs, hlist⟩ := of_decide_eq_true hshown
  have hcontinues := continues_of_after hw
  exact ⟨w, hcontinues, hlogs, hlist, manager_consistent freshOs showingRounds w hcontinues⟩

end PfcpProxy.Manager
