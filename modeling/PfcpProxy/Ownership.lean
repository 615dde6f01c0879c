import PfcpProxy.ServiceSteps
import Mathlib.Data.List.Nodup

/-!
# Who owns a process

A process is started for the address of a service, found again by the name of the service in a pid
file, and kept with the address when the services are made anew from the UPF list. Names go by
position, so that a deletion renames the services behind it, but not their pid files.
-/

namespace PfcpProxy.Manager

open Conditions

/-! ### Names -/

/-- The names and addresses of the services for this list. -/
def labelsFor (upfList : List (List Char)) : List (List Char × List Char) :=
  (proxyName, proxyAddr) :: upfList.mapIdx fun idx upfAddr => (upfName idx, upfAddr)

lemma upfName_injective : Function.Injective upfName := by
  intro i j h
  unfold upfName decimal at h
  have hdigits := congrArg (fun ds => Nat.ofDigitChars 10 ds 0) (List.append_cancel_left h)
  rw [Nat.ofDigitChars_ten_toDigits, Nat.ofDigitChars_ten_toDigits] at hdigits
  exact Nat.succ_injective hdigits

lemma upfName_ne_proxyName (i : ℕ) : upfName i ≠ proxyName := by
  intro h
  have hhead := congrArg List.head? h
  rw [upfName, List.head?_append, show "upf".toList.head? = some 'u' from rfl,
    show proxyName.head? = some 'p' from rfl] at hhead
  simp at hhead

lemma map_fst_labelsFor (upfList : List (List Char)) :
    (labelsFor upfList).map Prod.fst = proxyName :: (List.range upfList.length).map upfName := by
  rw [labelsFor, List.map_cons]
  congr 1
  apply List.ext_getElem?
  intro i
  by_cases hi : i < upfList.length
  · simp [hi]
  · simp [hi]

lemma map_snd_labelsFor (upfList : List (List Char)) :
    (labelsFor upfList).map Prod.snd = proxyAddr :: upfList := by
  rw [labelsFor, List.map_cons]
  congr 1
  apply List.ext_getElem?
  intro i
  by_cases hi : i < upfList.length
  · simp [hi]
  · simp [hi]

lemma nodup_names (upfList : List (List Char)) : ((labelsFor upfList).map Prod.fst).Nodup := by
  rw [map_fst_labelsFor, List.nodup_cons]
  constructor
  · intro h
    obtain ⟨i, _, hi⟩ := List.mem_map.mp h
    exact upfName_ne_proxyName i hi
  · exact List.nodup_range.map upfName_injective

lemma mem_labelsFor {upfList : List (List Char)} {label : List Char × List Char}
    (h : label ∈ labelsFor upfList) :
    label = (proxyName, proxyAddr) ∨ label.1 ≠ proxyName ∧ label.2 ∈ upfList := by
  obtain rfl | h := List.mem_cons.mp h
  · exact .inl rfl
  · obtain ⟨i, hi, rfl⟩ := List.mem_mapIdx.mp h
    exact .inr ⟨upfName_ne_proxyName i, List.getElem_mem hi⟩

section Labels

variable {services : List ServiceInfo} {upfList : List (List Char)} {s : ServiceInfo} {i : ℕ}

lemma label_at (h : services.map ServiceInfo.label = labelsFor upfList)
    (hs : services[i]? = some s) : (labelsFor upfList)[i]? = some s.label := by
  rw [← h, List.getElem?_map, hs]
  rfl

lemma label_at_zero (h : services.map ServiceInfo.label = labelsFor upfList)
    (hs : services[0]? = some s) : s.label = (proxyName, proxyAddr) :=
  (Option.some.inj (label_at h hs)).symm

lemma label_at_succ (h : services.map ServiceInfo.label = labelsFor upfList)
    (hs : services[i + 1]? = some s) : upfList[i]? = some s.addr ∧ s.name = upfName i := by
  have hlabel := label_at h hs
  rw [labelsFor, List.getElem?_cons_succ, List.getElem?_mapIdx] at hlabel
  obtain ⟨addr, haddr, hpair⟩ := Option.map_eq_some_iff.mp hlabel
  obtain ⟨hname, heq⟩ := Prod.mk.inj hpair
  exact ⟨haddr.trans (congrArg some heq), hname.symm⟩

lemma exists_service_of_label (h : services.map ServiceInfo.label = labelsFor upfList)
    {name addr : List Char} (hi : (labelsFor upfList)[i]? = some (name, addr)) :
    ∃ s, services[i]? = some s ∧ s.name = name ∧ s.addr = addr := by
  rw [← h, List.getElem?_map] at hi
  obtain ⟨s, hs, hlabel⟩ := Option.map_eq_some_iff.mp hi
  obtain ⟨hname, haddr⟩ := Prod.mk.inj hlabel
  exact ⟨s, hs, hname, haddr⟩

end Labels

/-- No process has this id, and none will get it. -/
def Stage.Gone (stage : Stage) (pid : Pid) : Prop :=
  pid ∉ stage.others ∧ ∀ n, stage.pids n ≠ pid

/-- A service has a pid exactly while it is starting or running; its pid file holds the pid, which
is that of a live process for its address. Each live process has such a service, and no other pid
file matters. -/
structure Owned (stage : Stage) : Prop where
  labels : stage.services.map ServiceInfo.label = labelsFor stage.upfList
  distinct : (proxyAddr :: stage.upfList).Nodup
  injective : Function.Injective stage.pids
  spawned : stage.processes.map (·.pid) =
    (List.range stage.processes.length).map stage.pids
  stopped : ∀ s ∈ stage.services, s.pid = none → s.status = .stopped
  started : ∀ s ∈ stage.services, s.pid ≠ none → s.status = .starting ∨ s.status = .running
  filed : ∀ s ∈ stage.services, ∀ pid, s.pid = some pid →
    stage.pidFiles.get s.name = some (some pid)
  held : ∀ s ∈ stage.services, ∀ pid, s.pid = some pid →
    ∃ p ∈ stage.processes, p.pid = pid ∧ p.alive = true ∧ p.addr = s.addr
  live : ∀ p ∈ stage.processes, p.alive = true → ∃ s ∈ stage.services, s.pid = some p.pid
  files : ∀ name pid, stage.pidFiles.get name = some (some pid) →
    (∃ s ∈ stage.services, s.name = name ∧ s.pid = some pid) ∨ stage.Gone pid

lemma mem_drop_iff {α : Type} {l : List α} {n : ℕ} {x : α} :
    x ∈ l.drop n ↔ ∃ i : ℕ, n ≤ i ∧ l[i]? = some x := by
  rw [List.mem_iff_getElem?]
  constructor
  · rintro ⟨i, hi⟩
    rw [List.getElem?_drop] at hi
    exact ⟨n + i, Nat.le_add_right _ _, hi⟩
  · rintro ⟨i, hni, hi⟩
    refine ⟨i - n, ?_⟩
    rw [List.getElem?_drop, Nat.add_sub_cancel' hni]
    exact hi

lemma index_inj {α : Type} {l : List α} (hl : l.Nodup) {i j : ℕ} {x : α} (hi : l[i]? = some x)
    (hj : l[j]? = some x) : i = j := by
  have hlt := (List.getElem?_eq_some_iff.mp hi).1
  exact (List.getElem?_inj hlt hl).mp (hi.trans hj.symm)

lemma mem_modify_of_nodup {α : Type} {l : List α} (hl : l.Nodup) {i : ℕ} {x : α}
    (hi : l[i]? = some x) (f : α → α) (y : α) :
    y ∈ l.modify i f ↔ y = f x ∨ y ∈ l ∧ y ≠ x := by
  rw [List.mem_iff_getElem?]
  simp only [List.getElem?_modify]
  constructor
  · rintro ⟨j, hj⟩
    by_cases hij : i = j
    · subst hij
      left
      simpa [hi] using hj.symm
    · right
      simp only [hij, if_false, Option.map_eq_map, Option.map_id'] at hj
      refine ⟨List.mem_of_getElem? hj, ?_⟩
      rintro rfl
      exact hij (index_inj hl hi hj)
  · rintro (rfl | ⟨hy, hne⟩)
    · exact ⟨i, by simp [hi]⟩
    · obtain ⟨j, hj⟩ := List.mem_iff_getElem?.mp hy
      refine ⟨j, ?_⟩
      have hij : i ≠ j := by
        rintro rfl
        rw [hi] at hj
        exact hne (Option.some.inj hj).symm
      simp [hij, hj]

lemma mem_endProcess {processes : List Process} {pid : Pid} {q : Process}
    (hq : q ∈ processes.map fun p => if p.pid = pid then p.dead else p) (halive : q.alive = true) :
    q ∈ processes ∧ q.pid ≠ pid := by
  obtain ⟨p, hp, rfl⟩ := List.mem_map.mp hq
  split at halive
  next => cases halive
  next hpid =>
    rw [if_neg hpid]
    exact ⟨hp, hpid⟩

lemma map_pid_endProcess (stage : Stage) (pid : Pid) (sent : List (Pid × Bool)) :
    (stage.endProcess pid sent).processes.map (·.pid) = stage.processes.map (·.pid) := by
  rw [Stage.endProcess, List.map_map]
  apply List.map_congr_left
  intro p _
  rw [Function.comp_apply]
  split
  · rfl
  · rfl

lemma serviceFor_new {services : List ServiceInfo} {addr : List Char}
    (haddr : ∀ s ∈ services, s.addr ≠ addr) (idx : ℕ) :
    App.serviceFor services idx addr = ⟨upfName idx, .stopped, none, addr⟩ := by
  have hfind : services.find? (fun t => t.addr = addr) = none :=
    List.find?_eq_none.mpr fun s hs => by simpa using haddr s hs
  simp only [App.serviceFor, hfind, Option.map_none, Option.getD_none, Option.bind_none]

lemma map_label_servicesFor (services : List ServiceInfo) (upfList : List (List Char)) :
    (App.servicesFor services upfList).map ServiceInfo.label = labelsFor upfList := by
  rw [App.servicesFor, labelsFor, List.map_cons]
  congr 1
  apply List.ext_getElem?
  intro i
  simp only [List.getElem?_map, List.getElem?_mapIdx, Option.map_map]
  rfl

namespace Owned

variable {stage stage' : Stage} {s t : ServiceInfo} {p q : Process} {pid : Pid}

lemma names (h : Owned stage) :
    stage.services.map ServiceInfo.name = (labelsFor stage.upfList).map Prod.fst := by
  rw [← h.labels, List.map_map]
  rfl

lemma addrs (h : Owned stage) : stage.services.map ServiceInfo.addr = proxyAddr :: stage.upfList := by
  rw [← map_snd_labelsFor, ← h.labels, List.map_map]
  rfl

lemma name_inj (h : Owned stage) (hs : s ∈ stage.services) (ht : t ∈ stage.services)
    (hname : s.name = t.name) : s = t := by
  have hnodup := nodup_names stage.upfList
  rw [← h.names] at hnodup
  exact List.inj_on_of_nodup_map hnodup hs ht hname

lemma name_ne (h : Owned stage) (hs : s ∈ stage.services) (ht : t ∈ stage.services)
    (hts : t ≠ s) : t.name ≠ s.name := fun hname => hts (h.name_inj ht hs hname)

lemma addr_inj (h : Owned stage) (hs : s ∈ stage.services) (ht : t ∈ stage.services)
    (haddr : s.addr = t.addr) : s = t := by
  have hnodup := h.distinct
  rw [← h.addrs] at hnodup
  exact List.inj_on_of_nodup_map hnodup hs ht haddr

lemma nodup_services (h : Owned stage) : stage.services.Nodup := by
  have hnodup := h.distinct
  rw [← h.addrs] at hnodup
  exact hnodup.of_map _

lemma process_inj (h : Owned stage) (hp : p ∈ stage.processes) (hq : q ∈ stage.processes)
    (hpid : p.pid = q.pid) : p = q := by
  have hnodup : (stage.processes.map (·.pid)).Nodup := by
    rw [h.spawned]
    exact List.nodup_range.map h.injective
  exact List.inj_on_of_nodup_map hnodup hp hq hpid

lemma process_addr (h : Owned stage) (hs : s ∈ stage.services) (hp : p ∈ stage.processes)
    (hpid : s.pid = some p.pid) : p.addr = s.addr := by
  obtain ⟨q, hq, hqp, -, haddr⟩ := h.held s hs p.pid hpid
  rw [h.process_inj hp hq hqp.symm, haddr]

lemma pid_inj (h : Owned stage) (hs : s ∈ stage.services) (ht : t ∈ stage.services)
    (hsp : s.pid = some pid) (htp : t.pid = some pid) : s = t := by
  obtain ⟨p, hp, rfl, -, haddr⟩ := h.held s hs pid hsp
  rw [h.process_addr ht hp htp] at haddr
  exact h.addr_inj hs ht haddr.symm

/-! ### Changing one service -/

/-- One service gets another status and pid, with its pid file and its process. The others keep
theirs. -/
lemma change (h : Owned stage) {i : ℕ} (hi : stage.services[i]? = some s) {status : ServiceStatus}
    {current : Option Pid}
    (hservices : stage'.services = stage.services.modify i fun s =>
      { s with status := status, pid := current })
    (hlist : stage'.upfList = stage.upfList) (hpids : stage'.pids = stage.pids)
    (hspawned : stage'.processes.map (·.pid) =
      (List.range stage'.processes.length).map stage.pids)
    (hothers : ∀ other ∈ stage'.others, other ∈ stage.others)
    (hstopped : current = none → status = .stopped)
    (hstarted : current ≠ none → status = .starting ∨ status = .running)
    (hfile : ∀ n, stage'.pidFiles.get s.name = some (some n) ↔ current = some n)
    (hfiles : ∀ name, name ≠ s.name → stage'.pidFiles.get name = stage.pidFiles.get name)
    (hheld : ∀ n, current = some n →
      ∃ p ∈ stage'.processes, p.pid = n ∧ p.alive = true ∧ p.addr = s.addr)
    (hkept : ∀ p ∈ stage.processes, p.alive = true → s.pid ≠ some p.pid → p ∈ stage'.processes)
    (hlive : ∀ p ∈ stage'.processes, p.alive = true →
      current = some p.pid ∨ p ∈ stage.processes ∧ s.pid ≠ some p.pid) : Owned stage' := by
  have hs : s ∈ stage.services := List.mem_of_getElem? hi
  have hmem := mem_modify_of_nodup h.nodup_services hi fun s =>
    { s with status := status, pid := current }
  rw [← hservices] at hmem
  refine
    { labels := by rw [hservices, map_label_modify, h.labels, hlist]
      distinct := by rw [hlist]; exact h.distinct
      injective := by rw [hpids]; exact h.injective
      spawned := by rw [hspawned, hpids]
      stopped := ?_
      started := ?_
      filed := ?_
      held := ?_
      live := ?_
      files := ?_ }
  · intro t ht htp
    obtain rfl | ⟨ht, -⟩ := (hmem t).mp ht
    · exact hstopped htp
    · exact h.stopped t ht htp
  · intro t ht htp
    obtain rfl | ⟨ht, -⟩ := (hmem t).mp ht
    · exact hstarted htp
    · exact h.started t ht htp
  · intro t ht n htp
    obtain rfl | ⟨ht, hts⟩ := (hmem t).mp ht
    · exact (hfile n).mpr htp
    · rw [hfiles t.name (h.name_ne hs ht hts)]
      exact h.filed t ht n htp
  · intro t ht n htp
    obtain rfl | ⟨ht, hts⟩ := (hmem t).mp ht
    · exact hheld n htp
    · obtain ⟨p, hp, rfl, halive, haddr⟩ := h.held t ht n htp
      have hother : s.pid ≠ some p.pid := fun hsp => hts (h.pid_inj ht hs htp hsp)
      exact ⟨p, hkept p hp halive hother, rfl, halive, haddr⟩
  · intro p hp halive
    obtain hpid | ⟨hp, hother⟩ := hlive p hp halive
    · exact ⟨_, (hmem _).mpr (.inl rfl), hpid⟩
    · obtain ⟨t, ht, htp⟩ := h.live p hp halive
      refine ⟨t, (hmem t).mpr (.inr ⟨ht, ?_⟩), htp⟩
      rintro rfl
      exact hother htp
  · intro name n hname
    by_cases hns : name = s.name
    · subst hns
      exact .inl ⟨_, (hmem _).mpr (.inl rfl), rfl, (hfile n).mp hname⟩
    · rw [hfiles name hns] at hname
      obtain ⟨t, ht, htname, htp⟩ | hgone := h.files name n hname
      · refine .inl ⟨t, (hmem t).mpr (.inr ⟨ht, ?_⟩), htname, htp⟩
        rintro rfl
        exact hns htname.symm
      · exact .inr ⟨fun hother => hgone.1 (hothers n hother), by rw [hpids]; exact hgone.2⟩

/-! ### Starting a service -/

lemma proxy_addr (h : Owned stage) (hs : s ∈ stage.services) (hname : s.name = proxyName) :
    s.addr = proxyAddr := by
  have hlabel : s.label ∈ labelsFor stage.upfList := by
    rw [← h.labels]
    exact List.mem_map_of_mem hs
  obtain hproxy | hupf := mem_labelsFor hlabel
  · exact congrArg Prod.snd hproxy
  · exact absurd hname hupf.1

lemma addr_command (h : Owned stage) (hs : s ∈ stage.services) :
    (⟨pid, (serviceCommand s).1, (serviceCommand s).2, true⟩ : Process).addr = s.addr := by
  unfold serviceCommand
  split
  next hname => exact (h.proxy_addr hs hname).symm
  next => rfl

/-- A service without a pid is given the next process. -/
lemma start (h : Owned stage) {i : ℕ}
    (hidle : ∀ s, stage.services[i]? = some s → s.status ≠ .starting) :
    Owned (stage.start i) := by
  unfold Stage.start
  split
  next => exact h
  next s hi =>
    split
    next => exact h
    next hrunning =>
      have hs : s ∈ stage.services := List.mem_of_getElem? hi
      have hnone : s.pid = none := by
        by_contra hpid
        obtain hstatus | hstatus := h.started s hs hpid
        · exact hidle s hi hstatus
        · exact hrunning hstatus
      refine h.change hi rfl rfl rfl ?_ (fun _ hother => hother) (by simp) (by simp) ?_ ?_ ?_ ?_ ?_
      · dsimp only
        rw [List.map_append, h.spawned, List.length_append, List.length_singleton,
          List.range_succ, List.map_append]
        rfl
      · intro n
        dsimp only
        rw [Table.get_insert_self, Option.some.injEq]
      · exact fun name hname => Table.get_insert_of_ne _ _ hname
      · rintro n ⟨⟩
        exact ⟨_, List.mem_append_right _ (List.mem_singleton_self _), rfl, rfl, h.addr_command hs⟩
      · exact fun p hp _ _ => List.mem_append_left _ hp
      · intro p hp _
        obtain hp | hp := List.mem_append.mp hp
        · exact .inr ⟨hp, by simp [hnone]⟩
        · rw [List.mem_singleton.mp hp]
          exact .inl rfl

/-! ### Stopping a service -/

/-- The process that ends is that of no other service. -/
lemma stop (h : Owned stage) (i : ℕ) (sent : List (Pid × Bool)) : Owned (stage.stop i sent) := by
  unfold Stage.stop
  split
  next => exact h
  next s hi =>
    split
    next hrunning =>
      split
      next => exact h
      next pid hpid =>
        refine h.change hi rfl rfl rfl ?_ ?_ (by simp) (by simp) ?_ ?_ (by simp) ?_ ?_
        · dsimp only [Stage.endProcess]
          rw [List.length_map, ← h.spawned]
          exact map_pid_endProcess stage pid sent
        · exact fun _ hother => List.mem_of_mem_filter hother
        · intro n
          dsimp only
          rw [Table.get_remove_self]
          simp
        · exact fun name hname => Table.get_remove_of_ne _ hname
        · intro p hp _ hne
          refine List.mem_map.mpr ⟨p, hp, if_neg ?_⟩
          rintro rfl
          exact hne hpid
        · intro p hp halive
          obtain ⟨hp, hne⟩ := mem_endProcess hp halive
          refine .inr ⟨hp, ?_⟩
          rw [hpid]
          exact fun heq => hne (Option.some.inj heq).symm
    next => exact h

lemma pid_of_stop (h : Owned stage) {i : ℕ} {sent : List (Pid × Bool)}
    (hidle : ∀ s, stage.services[i]? = some s → s.status ≠ .starting)
    (ht : (stage.stop i sent).services[i]? = some t) : t.pid = none := by
  unfold Stage.stop at ht
  split at ht
  next hnone =>
    rw [hnone] at ht
    cases ht
  next s hi =>
    split at ht
    next hrunning =>
      split at ht
      next hpid =>
        rw [hi] at ht
        cases ht
        exact hpid
      next pid hpid =>
        dsimp only at ht
        rw [List.getElem?_modify, hi] at ht
        cases ht
        simp
    next hrunning =>
      rw [hi] at ht
      cases ht
      by_contra hpid
      obtain hstatus | hstatus := h.started _ (List.mem_of_getElem? hi) hpid
      · exact hidle _ hi hstatus
      · exact hrunning hstatus

/-! ### Following the status of the services -/

/-- What following the status makes of a service whose process it finds. -/
def settled (s : ServiceInfo) : ServiceInfo :=
  { s with status := if s.pid = none then .stopped else .running }

lemma not_finds_of_gone {w : World} (h : Owned w.stage) (hgone : w.stage.Gone pid) :
    w.os.finds pid = false := by
  rw [Os.finds, Bool.or_eq_false_iff]
  constructor
  · exact Bool.eq_false_iff.mpr fun hmem => hgone.1 (List.contains_iff_mem.mp hmem)
  · rw [List.any_eq_false]
    intro p hp hfound
    have hpid : p.pid ∈ w.stage.processes.map (·.pid) := List.mem_map_of_mem hp
    rw [h.spawned] at hpid
    obtain ⟨n, -, hn⟩ := List.mem_map.mp hpid
    rw [Bool.and_eq_true, decide_eq_true_iff] at hfound
    exact hgone.2 n (hn.trans hfound.1)

/-- Behind the pid file of a service a process is found if and only if it is that of the
service. -/
lemma finds_iff {w : World} (h : Owned w.stage) (hs : s ∈ w.stage.services)
    (hfile : w.stage.pidFiles.get s.name = some (some pid)) :
    w.os.finds pid = true ↔ s.pid = some pid := by
  constructor
  · intro hfound
    obtain ⟨t, ht, hname, hpid⟩ | hgone := h.files s.name pid hfile
    · rw [← h.name_inj ht hs hname]
      exact hpid
    · rw [h.not_finds_of_gone hgone] at hfound
      cases hfound
  · intro hpid
    obtain ⟨p, hp, hpp, halive, -⟩ := h.held s hs pid hpid
    have hany : (w.os.processes.any fun p =>
        p.pid = pid && (p.alive || w.os.surroundings.lingers.contains pid)) = true :=
      List.any_eq_true.mpr ⟨p, hp, by simp [hpp, halive]⟩
    rw [Os.finds, hany, Bool.or_true]

lemma removePid (h : Owned stage) (hs : s ∈ stage.services) (hnone : s.pid = none) :
    Owned { stage with pidFiles := stage.pidFiles.remove s.name } where
  labels := h.labels
  distinct := h.distinct
  injective := h.injective
  spawned := h.spawned
  stopped := h.stopped
  started := h.started
  filed t ht pid htp := by
    have hts : t.name ≠ s.name := by
      intro hname
      rw [h.name_inj ht hs hname, hnone] at htp
      cases htp
    rw [Table.get_remove_of_ne _ hts]
    exact h.filed t ht pid htp
  held := h.held
  live := h.live
  files name pid hfile := by
    rw [Table.get_remove] at hfile
    split at hfile
    · cases hfile
    · exact h.files name pid hfile

lemma ensures_refreshService {w : World} (hw : w.Calm) (h : Owned w.stage)
    (hs : s ∈ w.stage.services) {E : Stop → World → Prop} :
    Ensures (refreshService s)
      (fun t w' => t = settled s ∧ w'.Calm ∧ Owned w'.stage ∧
        w'.stage = { w.stage with pidFiles := w'.stage.pidFiles }) E w := by
  unfold refreshService
  rw [ensures_bind, ensures_get, ensures_bind]
  refine ensures_outcome_calm hw fun _ hw₁ => ?_
  split
  next pid hfile =>
    rw [if_pos rfl, ensures_bind]
    refine ensures_processExists_calm hw₁ pid fun _ hw₂ => ?_
    rw [ensures_ite]
    have hfound := h.finds_iff hs hfile
    split
    next hyes =>
      have hpid := hfound.mp hyes
      exact ⟨by simp [settled, hpid], hw₂, h, rfl⟩
    next hno =>
      have hnone : s.pid = none := by
        by_contra hsome
        obtain ⟨pid', hpid'⟩ := Option.ne_none_iff_exists'.mp hsome
        have hfile' := h.filed s hs pid' hpid'
        rw [show w.stage.pidFiles.get s.name = _ from hfile] at hfile'
        cases hfile'
        exact hno (hfound.mpr hpid')
      rw [ensures_bind]
      refine ensures_tryTo_calm hw₂ _ fun _ hw₃ => ?_
      exact ⟨by simp [settled, hnone], hw₃, h.removePid hs hnone, rfl⟩
  next hfile =>
    have hnone : s.pid = none := by
      by_contra hsome
      obtain ⟨pid, hpid⟩ := Option.ne_none_iff_exists'.mp hsome
      exact hfile pid (h.filed s hs pid hpid)
    exact ⟨by simp [settled, hnone], hw₁, h, rfl⟩

lemma settle (h : Owned stage) :
    Owned { stage with services := stage.services.map settled } where
  labels := by
    rw [← h.labels, List.map_map]
    rfl
  distinct := h.distinct
  injective := h.injective
  spawned := h.spawned
  stopped t ht htp := by
    obtain ⟨s, hs, rfl⟩ := List.mem_map.mp ht
    exact if_pos htp
  started t ht htp := by
    obtain ⟨s, hs, rfl⟩ := List.mem_map.mp ht
    exact .inr (if_neg htp)
  filed t ht pid htp := by
    obtain ⟨s, hs, rfl⟩ := List.mem_map.mp ht
    exact h.filed s hs pid htp
  held t ht pid htp := by
    obtain ⟨s, hs, rfl⟩ := List.mem_map.mp ht
    exact h.held s hs pid htp
  live p hp halive := by
    obtain ⟨s, hs, hsp⟩ := h.live p hp halive
    exact ⟨settled s, List.mem_map_of_mem hs, hsp⟩
  files name pid hfile := by
    obtain ⟨s, hs, hname, hsp⟩ | hgone := h.files name pid hfile
    · exact .inl ⟨settled s, List.mem_map_of_mem hs, hname, hsp⟩
    · exact .inr hgone

/-- Following the status of the services finds each of them with the process that it has. -/
lemma ensures_updateServiceStatus {w : World} (hw : w.Calm) (h : Owned w.stage)
    {E : Stop → World → Prop} :
    Ensures updateServiceStatus (fun _ w' => Owned w'.stage) E w := by
  unfold updateServiceStatus
  rw [ensures_bind, ensures_get, ensures_bind]
  have hrefresh := ensures_mapM (g := refreshService) (E := E) id settled w.app.services
    (I := fun w' => w'.Calm ∧ Owned w'.stage ∧
      w'.stage = { w.stage with pidFiles := w'.stage.pidFiles })
    (fun s hs w₁ h₁ => ?_) ⟨hw, h, rfl⟩
  · refine hrefresh.mono (fun services w' h' => ?_) fun _ _ h => h
    obtain ⟨hservices, -, howned, hstage⟩ := h'
    have hlist : w'.stage.services = w.app.services := congrArg Stage.services hstage
    rw [List.map_id, ← hlist] at hservices
    have hsettled := howned.settle
    rw [← hservices] at hsettled
    exact hsettled
  · have hs₁ : s ∈ w₁.stage.services := by
      rw [h₁.2.2]
      exact hs
    refine (h₁.2.1.ensures_refreshService h₁.1 hs₁).mono (fun t w₂ h₂ => ?_) fun _ _ h => h
    refine ⟨h₂.1, h₂.2.1, h₂.2.2.1, ?_⟩
    rw [h₂.2.2.2, h₁.2.2]

/-! ### Making the services anew -/

lemma exists_service (h : Owned stage) {j : ℕ} {addr : List Char}
    (haddr : stage.upfList[j]? = some addr) :
    ∃ s, stage.services[j + 1]? = some s ∧ s.addr = addr := by
  have hmap : (stage.services.map ServiceInfo.addr)[j + 1]? = some addr := by
    rw [h.addrs, List.getElem?_cons_succ, haddr]
  rw [List.getElem?_map] at hmap
  exact Option.map_eq_some_iff.mp hmap

lemma services_cons (h : Owned stage) :
    ∃ proxy rest, stage.services = proxy :: rest ∧ proxy.label = (proxyName, proxyAddr) := by
  have hlabels := h.labels
  cases hservices : stage.services with
  | nil =>
    rw [hservices] at hlabels
    cases hlabels
  | cons proxy rest =>
    rw [hservices, List.map_cons, labelsFor, List.cons.injEq] at hlabels
    exact ⟨proxy, rest, rfl, hlabels.1⟩

lemma head_addr (h : Owned stage) (hs : stage.services[0]? = some s) : s.addr = proxyAddr :=
  congrArg Prod.snd (label_at_zero h.labels hs)

/-- The service made for an address keeps the status and the pid of the service at it. -/
lemma serviceFor_addr (h : Owned stage) (hs : s ∈ stage.services) (idx : ℕ) :
    App.serviceFor stage.services idx s.addr = { s with name := upfName idx } := by
  have hfind : stage.services.find? (fun t => t.addr = s.addr) = some s := by
    cases hfind : stage.services.find? (fun t => t.addr = s.addr) with
    | none => exact absurd (List.find?_eq_none.mp hfind s hs) (by simp)
    | some t =>
      have htaddr : t.addr = s.addr := by simpa using List.find?_some hfind
      rw [h.addr_inj (List.mem_of_find?_eq_some hfind) hs htaddr]
  simp only [App.serviceFor, hfind, Option.map_some, Option.getD_some, Option.bind_some]

lemma mem_servicesFor (h : Owned stage) {upfList : List (List Char)} :
    t ∈ App.servicesFor stage.services upfList ↔
      (t ∈ stage.services ∧ t.addr = proxyAddr) ∨
      ∃ idx, ∃ addr, upfList[idx]? = some addr ∧ t = App.serviceFor stage.services idx addr := by
  obtain ⟨proxy, rest, hservices, hproxy⟩ := h.services_cons
  have hmem : proxy ∈ stage.services := by
    rw [hservices]
    exact List.mem_cons_self
  have hhead : App.servicesFor stage.services upfList =
      proxy :: upfList.mapIdx (App.serviceFor stage.services) := by
    rw [App.servicesFor, hservices]
    obtain ⟨hname, haddr⟩ := Prod.mk.inj hproxy
    simp only [List.head?_cons, Option.map_some, Option.getD_some, Option.bind_some, ← hname,
      ← haddr]
  rw [hhead, List.mem_cons]
  constructor
  · rintro (rfl | ht)
    · exact .inl ⟨hmem, congrArg Prod.snd hproxy⟩
    · obtain ⟨idx, hidx, rfl⟩ := List.mem_mapIdx.mp ht
      exact .inr ⟨idx, _, List.getElem?_eq_getElem hidx, rfl⟩
  · rintro (⟨ht, haddr⟩ | ⟨idx, addr, haddr, rfl⟩)
    · exact .inl (h.addr_inj ht hmem (haddr.trans (congrArg Prod.snd hproxy).symm))
    · obtain ⟨hidx, rfl⟩ := List.getElem?_eq_some_iff.mp haddr
      exact .inr (List.mem_mapIdx.mpr ⟨idx, hidx, rfl⟩)

lemma addr_cases (h : Owned stage) (hs : s ∈ stage.services) :
    s.addr = proxyAddr ∨ ∃ j, stage.upfList[j]? = some s.addr ∧ s.name = upfName j := by
  obtain ⟨j, hj⟩ := List.mem_iff_getElem?.mp hs
  cases j with
  | zero => exact .inl (h.head_addr hj)
  | succ j => exact .inr ⟨j, label_at_succ h.labels hj⟩

/-- In the other list, the services that have a process are at the same position. -/
def KeepsPositions (stage : Stage) (upfList : List (List Char)) : Prop :=
  ∀ s ∈ stage.services, s.pid ≠ none → s.addr ≠ proxyAddr →
    ∀ j : ℕ, upfList[j]? = some s.addr ↔ stage.upfList[j]? = some s.addr

section Relabel

variable {upfList : List (List Char)}

lemma mem_servicesFor_of_pid (h : Owned stage) (hposition : KeepsPositions stage upfList)
    (hs : s ∈ stage.services) (hpid : s.pid ≠ none) :
    s ∈ App.servicesFor stage.services upfList := by
  rw [h.mem_servicesFor]
  by_cases haddr : s.addr = proxyAddr
  · exact .inl ⟨hs, haddr⟩
  · obtain haddr' | ⟨j, hj, hname⟩ := h.addr_cases hs
    · exact absurd haddr' haddr
    · refine .inr ⟨j, s.addr, (hposition s hs hpid haddr j).mpr hj, ?_⟩
      rw [h.serviceFor_addr hs, ← hname]

/-- Only services that had a process before have one among those made anew. -/
lemma servicesFor_cases (h : Owned stage) (hproxy : proxyAddr ∉ upfList)
    (hposition : KeepsPositions stage upfList) (ht : t ∈ App.servicesFor stage.services upfList) :
    t ∈ stage.services ∨ t.status = .stopped ∧ t.pid = none := by
  obtain ⟨ht, -⟩ | ⟨j, addr, hj, rfl⟩ := h.mem_servicesFor.mp ht
  · exact .inl ht
  by_cases hexists : ∃ s ∈ stage.services, s.addr = addr
  · obtain ⟨s, hs, rfl⟩ := hexists
    rw [h.serviceFor_addr hs]
    by_cases hpid : s.pid = none
    · exact .inr ⟨h.stopped s hs hpid, hpid⟩
    · have haddr : s.addr ≠ proxyAddr := by
        intro heq
        rw [heq] at hj
        exact hproxy (List.mem_of_getElem? hj)
      obtain heq | ⟨j', hj', hname⟩ := h.addr_cases hs
      · exact absurd heq haddr
      · have hj'' := (hposition s hs hpid haddr j).mp hj
        have hjj := index_inj (List.nodup_cons.mp h.distinct).2 hj' hj''
        left
        rw [← hjj, ← hname]
        exact hs
  · push Not at hexists
    rw [serviceFor_new hexists]
    exact .inr ⟨rfl, rfl⟩

/-- Services may be made anew for another list in which those that have a process keep their
position. -/
lemma relabel (h : Owned stage) (hdistinct : (proxyAddr :: upfList).Nodup)
    (hposition : KeepsPositions stage upfList) (selectedUpf : ℕ) (control : List Char) :
    Owned { stage with
      services := App.servicesFor stage.services upfList
      upfList := upfList
      selectedUpf := selectedUpf
      control := control } := by
  have hproxy := (List.nodup_cons.mp hdistinct).1
  have hpid : ∀ t ∈ App.servicesFor stage.services upfList, t.pid ≠ none →
      t ∈ stage.services := by
    intro t ht htp
    obtain hs | hnone := h.servicesFor_cases hproxy hposition ht
    · exact hs
    · exact absurd hnone.2 htp
  refine
    { labels := map_label_servicesFor _ _
      distinct := hdistinct
      injective := h.injective
      spawned := h.spawned
      stopped := ?_
      started := fun t ht htp => h.started t (hpid t ht htp) htp
      filed := fun t ht pid htp => h.filed t (hpid t ht (by simp [htp])) pid htp
      held := fun t ht pid htp => h.held t (hpid t ht (by simp [htp])) pid htp
      live := ?_
      files := ?_ }
  · intro t ht htp
    obtain hs | hstopped := h.servicesFor_cases hproxy hposition ht
    · exact h.stopped t hs htp
    · exact hstopped.1
  · intro p hp halive
    obtain ⟨s, hs, hsp⟩ := h.live p hp halive
    exact ⟨s, h.mem_servicesFor_of_pid hposition hs (by simp [hsp]), hsp⟩
  · intro name pid hfile
    obtain ⟨s, hs, hname, hsp⟩ | hgone := h.files name pid hfile
    · exact .inl ⟨s, h.mem_servicesFor_of_pid hposition hs (by simp [hsp]), hname, hsp⟩
    · exact .inr hgone

end Relabel

lemma keepsPositions_append (h : Owned stage) {input : List Char}
    (hnew : input ∉ stage.upfList) : KeepsPositions stage (stage.upfList ++ [input]) := by
  intro s hs _ haddr j
  obtain heq | ⟨j', hj', -⟩ := h.addr_cases hs
  · exact absurd heq haddr
  have hne : input ≠ s.addr := by
    rintro rfl
    exact hnew (List.mem_of_getElem? hj')
  rw [List.getElem?_append]
  split
  next => rfl
  next hge =>
    rw [List.getElem?_eq_none (Nat.not_lt.mp hge)]
    constructor
    · intro hj
      exact absurd (List.mem_singleton.mp (List.mem_of_getElem? hj)).symm hne
    · intro hj
      cases hj

lemma add (h : Owned stage) {input : List Char} (hproxy : input ≠ proxyAddr)
    (hnew : input ∉ stage.upfList) : Owned (stage.add input) := by
  refine h.relabel ?_ (h.keepsPositions_append hnew) _ _
  rw [← List.cons_append, List.nodup_append]
  refine ⟨h.distinct, List.nodup_singleton _, ?_⟩
  intro a ha b hb
  rw [List.mem_singleton.mp hb]
  rintro rfl
  obtain heq | hmem := List.mem_cons.mp ha
  · exact hproxy heq
  · exact hnew hmem

/-! ### Deleting an entry -/

/-- Only the entries behind a deleted one move. -/
lemma keepsPositions_eraseIdx (h : Owned stage) {k : ℕ}
    (hnone : ∀ j : ℕ, k ≤ j → ∀ s, stage.services[j + 1]? = some s → s.pid = none) :
    KeepsPositions stage (stage.upfList.eraseIdx k) := by
  intro s hs hpid haddr j
  obtain ⟨j', hj'⟩ := List.mem_iff_getElem?.mp hs
  cases j' with
  | zero => exact absurd (h.head_addr hj') haddr
  | succ j' =>
    have hbefore : j' < k := by
      by_contra hge
      exact hpid (hnone j' (by omega) s hj')
    have hat : ∀ j : ℕ, stage.upfList[j]? = some s.addr → j = j' := fun j hj =>
      index_inj (List.nodup_cons.mp h.distinct).2 hj (label_at_succ h.labels hj').1
    rw [List.getElem?_eraseIdx]
    split
    next => rfl
    next hge =>
      constructor
      · intro hj
        have hj := hat _ hj
        omega
      · intro hj
        have hj := hat _ hj
        omega

/-- An entry is deleted whose service has no process, and neither has any behind it. -/
lemma drop (h : Owned stage) {k : ℕ} {removed : List Char} {stage₁ : Stage}
    (hnone : ∀ j : ℕ, k ≤ j → ∀ s, stage.services[j + 1]? = some s → s.pid = none)
    (h₁ : stage₁ = { stage with upfList := stage.upfList.eraseIdx k }) :
    Owned (stage₁.drop removed) := by
  subst h₁
  refine h.relabel ?_ (h.keepsPositions_eraseIdx hnone) _ _
  exact h.distinct.sublist ((List.eraseIdx_sublist _ _).cons_cons _)

/-- An entry is deleted after its service was stopped. -/
lemma drop_stop (h : Owned stage) {k : ℕ} (removed : List Char) (sent : List (Pid × Bool))
    (hidle : ∀ s, stage.services[k + 1]? = some s → s.status ≠ .starting)
    (hbehind : ∀ s ∈ stage.services.drop (k + 2), s.pid = none) {stage₁ : Stage}
    (h₁ : stage₁ = { stage.stop (k + 1) sent with upfList := stage.upfList.eraseIdx k }) :
    Owned (stage₁.drop removed) := by
  rw [← (stop_signals stage (k + 1) sent).1] at h₁
  refine (h.stop (k + 1) sent).drop (fun j hj t ht => ?_) h₁
  obtain rfl | hlt := Nat.eq_or_lt_of_le hj
  · exact h.pid_of_stop hidle ht
  · obtain hold | hstopped := stop_getElem? ht
    · exact hbehind t (mem_drop_iff.mpr ⟨j + 1, by omega, hold⟩)
    · exact hstopped.2.2

lemma index_of_addr (h : Owned stage) {i k : ℕ} (hi : stage.services[i]? = some s)
    (hk : stage.upfList[k]? = some s.addr) : i = k + 1 := by
  obtain ⟨t, ht, haddr⟩ := h.exists_service hk
  have hts := h.addr_inj (List.mem_of_getElem? ht) (List.mem_of_getElem? hi) haddr
  rw [hts] at ht
  exact index_inj h.nodup_services hi ht

lemma removed_notMem (h : Owned stage) {k : ℕ} {removed : List Char}
    (hk : stage.upfList[k]? = some removed) :
    removed ∉ proxyAddr :: stage.upfList.eraseIdx k := by
  obtain ⟨hproxy, hnodup⟩ := List.nodup_cons.mp h.distinct
  intro hmem
  obtain rfl | hmem := List.mem_cons.mp hmem
  · exact hproxy (List.mem_of_getElem? hk)
  · obtain ⟨i, hik, hi⟩ := List.mem_eraseIdx_iff_getElem?.mp hmem
    exact hik (index_inj hnodup hi hk)

lemma not_alive (h : Owned stage) {addr : List Char} (haddr : addr ∉ proxyAddr :: stage.upfList)
    (hp : p ∈ stage.processes) (hpa : p.addr = addr) : p.alive = false := by
  by_contra halive
  obtain ⟨s, hs, hsp⟩ := h.live p hp (Bool.not_eq_false _ ▸ halive)
  apply haddr
  rw [← h.addrs, ← hpa, h.process_addr hs hp hsp]
  exact List.mem_map_of_mem hs

end Owned

end PfcpProxy.Manager
