import PfcpProxy.Requests

/-!
# Panics of the manager

The keys `1` to `4` index the services before anything is checked. There is one service more than
there are entries of the UPF list, which another tab shortens.
-/

namespace PfcpProxy.Manager

open Conditions

/-- The event loop does not panic. -/
def NoPanic (w₀ : World) (rounds : List Round) : Prop := stops w₀ rounds ≠ some .panic

/-- Whenever a key asks for a service by its position, the UPF list is long enough for it. -/
def KeysInRange (w₀ : World) (rounds : List Round) : Prop :=
  ∀ x r y, rounds = x ++ r :: y → ∀ w, Continues w₀ x w →
    ∀ i, w.app.request r.event = .toggle i → i ≤ w.app.upfList.length

/-- There is a service for the proxy and one for each UPF. -/
def App.Staffed (app : App) : Prop := app.services.length = app.upfList.length + 1

lemma length_servicesFor (services : List ServiceInfo) (upfList : List (List Char)) :
    (App.servicesFor services upfList).length = upfList.length + 1 := by
  simp [App.servicesFor]

lemma staffed_of_stage {w : World} (h : w.stage.services.length = w.stage.upfList.length + 1) :
    w.app.Staffed := h

lemma staffed_of_plan {w w' : World} (hw : w.app.Staffed) (h : w'.plan = w.plan) :
    w'.app.Staffed := by
  have hlabels := congrArg (fun plan : Plan => plan.labels.length) h
  have hlist := congrArg (fun plan : Plan => plan.upfList.length) h
  simp only [World.plan, World.stage, Stage.plan, List.length_map] at hlabels hlist
  unfold App.Staffed at *
  rw [hlabels, hlist, hw]

section Requests

variable {w : World}

/-- Carrying out a request does not panic if the service that it asks for is there. -/
lemma ensures_carryOut_staffed (hw : w.app.Staffed) {request : Request}
    (hin : ∀ i, request = .toggle i → i ≤ w.app.upfList.length) :
    Ensures (carryOut request) (fun _ w' => w'.app.Staffed) (fun e _ => e ≠ .panic) w := by
  by_cases hreq : request.OnUpfs
  · obtain rfl | rfl | rfl | rfl := by simpa [Request.OnUpfs] using hreq
    · refine (ensures_addUpf w).mono (fun _ w' h => ?_) fun _ _ h => h
      apply staffed_of_stage
      split at h
      · rw [h]
        exact length_servicesFor _ _
      · rw [h]
        exact hw
    · refine (ensures_removeUpf w).mono (fun _ w' h => ?_) fun _ _ h => h
      apply staffed_of_stage
      split at h
      · rw [h]
        exact hw
      · obtain ⟨w₁, _, hstage⟩ := h
        rw [hstage]
        exact length_servicesFor _ _
    · refine (ensures_selectUp w).mono (fun _ w' h => ?_) fun _ _ h => h
      apply staffed_of_stage
      rw [h]
      exact hw
    · refine (ensures_selectDown w).mono (fun _ w' h => ?_) fun _ _ h => h
      apply staffed_of_stage
      rw [h]
      exact hw
  · refine (ensures_carryOut_plan w hreq).mono (fun _ w' h => staffed_of_plan hw h)
      fun e _ h => h ?_
    unfold App.Staffed at hw
    cases request with
    | toggle i =>
      have hi := hin i rfl
      rw [Request.InRange, hw]
      omega
    | runTest =>
      rw [Request.InRange, hw]
      omega
    | _ => trivial

lemma ensures_run_staffed (hw : w.app.Staffed) {r : Round}
    (hin : ∀ i, w.app.request r.event = .toggle i → i ≤ w.app.upfList.length) :
    Ensures r.run (fun _ w' => w'.app.Staffed) (fun e _ => e ≠ .panic) w := by
  have hdo := ensures_carryOut_staffed (w := w.enter r) hw hin
  exact ensures_run hdo (fun w' _ h => staffed_of_plan hw (congrArg Stage.plan h))
    fun _ _ => by decide

/-- A key that asks for a service that is not there makes the loop panic. -/
lemma ensures_run_panics (hw : w.app.Staffed) {r : Round} {i : ℕ}
    (hi : w.app.request r.event = .toggle i) (hout : w.app.upfList.length < i) :
    Ensures r.run (fun _ _ => False) (fun e _ => e = .panic) w := by
  have hnone : (w.enter r).app.services[i]? = none := by
    rw [List.getElem?_eq_none_iff]
    change w.app.services.length ≤ i
    rw [hw]
    exact hout
  have hother : w.app.request r.event ≠ .other := by
    rw [hi]
    simp
  refine ensures_run ?_ (fun _ h => absurd h hother) fun _ h => absurd h hother
  rw [hi]
  unfold carryOut toggleService
  simp only [ensures_bind, ensures_get, hnone, ensures_throw]

lemma staffed_of_run (hw : w.app.Staffed) {r : Round} {w' : World} (hr : r.run w = .ok () w') :
    w'.app.Staffed := by
  by_cases hin : ∀ i, w.app.request r.event = .toggle i → i ≤ w.app.upfList.length
  · exact (ensures_run_staffed hw hin).of_ok hr
  · push Not at hin
    obtain ⟨i, hi, hout⟩ := hin
    exact ((ensures_run_panics hw hi hout).of_ok hr).elim

end Requests

section Runs

variable {w₀ : World} {rounds : List Round}

lemma KeysInRange.tail {r : Round} {w₁ : World} (h : KeysInRange w₀ (r :: rounds))
    (hr : r.run w₀ = .ok () w₁) (hquit : w₁.app.shouldQuit = false) :
    KeysInRange w₁ rounds := by
  intro x r' y hxy w hw
  exact h (r :: x) r' y (by rw [hxy, List.cons_append]) w (continues_cons.mpr ⟨w₁, hr, hquit, hw⟩)

lemma KeysInRange.noPanic (h₀ : w₀.app.Staffed) (hquit : w₀.app.shouldQuit = false)
    (h : KeysInRange w₀ rounds) : NoPanic w₀ rounds := by
  induction rounds generalizing w₀ with
  | nil => exact (by decide : none ≠ some Stop.panic)
  | cons r rounds ih =>
    have hrun := ensures_run_staffed h₀ (h [] r rounds rfl w₀ (continues_nil hquit))
    unfold NoPanic stops
    cases hr : r.run w₀ with
    | error stop w₁ =>
      rw [mainLoop_cons_error hr]
      simpa using hrun.of_error hr
    | ok u w₁ =>
      rw [mainLoop_cons_ok hr]
      cases hq : w₁.app.shouldQuit with
      | true => simp
      | false => exact ih (hrun.of_ok hr) hq (h.tail hr hq)

lemma NoPanic.keysInRange (h₀ : w₀.app.Staffed) (hquit : w₀.app.shouldQuit = false)
    (h : NoPanic w₀ rounds) : KeysInRange w₀ rounds := by
  rintro x r y rfl w hw i hi
  by_contra hout
  have hstaffed : w.app.Staffed :=
    hw.induct (I := fun w => w.app.Staffed) hquit h₀ fun _ _ _ _ _ _ _ h hr => staffed_of_run h hr
  have hpanics := ensures_run_panics hstaffed hi (by omega)
  unfold NoPanic stops at h
  rw [mainLoop_append hw] at h
  cases hr : r.run w with
  | ok u w' => exact hpanics.of_ok hr
  | error stop w' =>
    rw [mainLoop_cons_error hr, hpanics.of_error hr] at h
    exact h rfl

end Runs

/-- The event loop does not panic in exactly the runs in which the keys that index the services
are pressed while the UPF list is long enough for them. -/
theorem manager_no_panic_iff (os : Os) (rounds : List Round) :
    NoPanic (World.start os) rounds ↔ KeysInRange (World.start os) rounds :=
  ⟨NoPanic.keysInRange (length_servicesFor _ _) rfl,
    KeysInRange.noPanic (length_servicesFor _ _) rfl⟩

/-- From the dashboard to the UPFs, where one is deleted, and back to a tab with the key `4`. -/
def panickingRounds : List Round :=
  [press .tab, press .tab, press .tab, press (.char 'd'), press .tab, press (.char '4')]

theorem manager_no_panic_fails : ¬NoPanic (World.start freshOs) panickingRounds := by
  unfold NoPanic
  decide +kernel

end PfcpProxy.Manager
