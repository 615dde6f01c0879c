import PfcpProxy.MessageClasses

/-!
# Where targets come from

Whatever UPF a handler selects, records or sends a request to, it has read in the pool or
looked up in the session table before. Over a run these are the addresses that have been in
the pool.
-/

namespace PfcpProxy

open AtomicTasks

/-- The address is in a pool the handler has read. -/
def Offered (l : Acts) (u : SocketAddr) : Prop :=
  ∃ bs : List UpfBackend,
    (⟨.poolHealthyBackends, bs⟩ ∈ l ∨ ⟨.poolAllBackends, bs⟩ ∈ l) ∧ ∃ b ∈ bs, b.addr = u

/-- The handler has read the address in the pool or in the session table. -/
def Known (l : Acts) (u : SocketAddr) : Prop :=
  Offered l u ∨ ∃ s, ⟨.sessionLookup s, some u⟩ ∈ l

lemma Offered.append {l : Acts} {u : SocketAddr} (h : Offered l u) (l' : Acts) :
    Offered (l ++ l') u := by
  obtain ⟨bs, hbs, hb⟩ := h
  exact ⟨bs, hbs.imp (List.mem_append_left _) (List.mem_append_left _), hb⟩

lemma Known.append {l : Acts} {u : SocketAddr} (h : Known l u) (l' : Acts) :
    Known (l ++ l') u := by
  rcases h with h | ⟨s, h⟩
  · exact .inl (h.append l')
  · exact .inr ⟨s, List.mem_append_left _ h⟩

/-! ### Selection -/

lemma pickRoundRobin_mem {healthy : List UpfBackend} {idx : UInt64} {u : SocketAddr}
    (h : pickRoundRobin healthy idx = some u) : ∃ b ∈ healthy, b.addr = u := by
  obtain ⟨b, hb, rfl⟩ := Option.map_eq_some_iff.mp h
  exact ⟨b, List.mem_of_getElem? hb, rfl⟩

lemma weightedScan_mem {w : ℕ} {bs : List UpfBackend} {n : ℕ} {u : SocketAddr}
    (h : weightedScan w bs n = some u) : ∃ b ∈ bs, b.addr = u := by
  induction bs generalizing n with
  | nil => cases h
  | cons b bs ih =>
    unfold weightedScan at h
    split at h
    · exact ⟨b, by simp, Option.some.inj h⟩
    · obtain ⟨b', hb', hu⟩ := ih h
      exact ⟨b', List.mem_cons_of_mem _ hb', hu⟩

/-- A selected address is offered. -/
abbrev Offers (r : Option SocketAddr) (l : Acts) : Prop := ∀ u, r = some u → Offered l u

lemma offers_none (l : Acts) : Offers none l := fun _ h => nomatch h

lemma offered_of_read {l : Acts} {healthy : List UpfBackend} {u : SocketAddr}
    (hread : ⟨.poolHealthyBackends, healthy⟩ ∈ l) (hu : ∃ b ∈ healthy, b.addr = u) : Offered l u :=
  ⟨healthy, .inl hread, hu⟩

lemma selectRoundRobin_offers (l : Acts) :
    Guarded (fun _ _ => True) Offers selectRoundRobin l := by
  simp only [selectRoundRobin, Prog.call_bind, guarded_act, true_and]
  intro healthy
  split
  · exact offers_none _
  · refine ⟨trivial, fun idx u hu => ?_⟩
    exact offered_of_read (by simp) (pickRoundRobin_mem hu)

lemma leastSessionsLoop_offers {bs : List UpfBackend} {n : ℕ} {sel : Option SocketAddr} {l : Acts}
    (hbs : ∀ b ∈ bs, Offered l b.addr) (hsel : Offers sel l) :
    Guarded (fun _ _ => True) Offers (leastSessionsLoop bs n sel) l := by
  induction bs generalizing n sel l with
  | nil => exact hsel
  | cons b bs ih =>
    simp only [leastSessionsLoop, Prog.call_bind, guarded_act, true_and]
    intro count
    have hbs' : ∀ b' ∈ bs, Offered (l ++ [⟨.sessionCountByUpf b.addr, count⟩]) b'.addr :=
      fun b' hb' => (hbs b' (List.mem_cons_of_mem _ hb')).append _
    split
    · apply ih hbs'
      rintro u hu
      cases hu
      exact (hbs b (by simp)).append _
    · exact ih hbs' fun u hu => (hsel u hu).append _

lemma selectUpf_offers (l : Acts) : Guarded (fun _ _ => True) Offers selectUpf l := by
  simp only [selectUpf, Prog.call_bind, guarded_act, true_and]
  intro strategy
  cases strategy with
  | roundRobin => exact selectRoundRobin_offers _
  | leastSessions =>
    simp only [selectLeastSessions, Prog.call_bind, guarded_act, true_and]
    intro healthy
    split
    · exact offers_none _
    · apply leastSessionsLoop_offers
      · exact fun b hb => offered_of_read (by simp) ⟨b, hb, rfl⟩
      · exact offers_none _
  | weighted =>
    simp only [selectWeighted, Prog.call_bind, guarded_act, true_and]
    intro healthy
    split
    · exact offers_none _
    · split
      · exact selectRoundRobin_offers _
      · refine ⟨trivial, fun idx u hu => ?_⟩
        exact offered_of_read (by simp) (weightedScan_mem hu)

lemma guarded_selectUpf_offers {I : Acts → Op → Prop} {Q : Option SocketAddr → Acts → Prop}
    {l : Acts} (hI : ∀ l o, o.isSelection = true → I l o)
    (hQ : ∀ r l', Selecting l' → Offers r (l ++ l') → Q r (l ++ l')) : Guarded I Q selectUpf l := by
  have hsel : Guarded I (fun _ l'' => ∃ l', l'' = l ++ l' ∧ Selecting l') selectUpf l :=
    guarded_selectUpf hI fun r l' hl' => ⟨l', rfl, hl'⟩
  refine (hsel.and (selectUpf_offers l)).mono (fun _ _ h => h.1) ?_
  rintro r _ ⟨⟨l', rfl, hl'⟩, hr⟩
  exact hQ r l' hl' hr

/-! ### Handlers -/

/-- The addresses an operation may name after the acts `l` of the handler of `d`. -/
def Targeted (d : Datagram) (l : Acts) : Op → Prop
  | .sessionInsert _ u _ => Offered l u
  | .countUpfMessage u => Known l u
  | .sendTo _ u => ∀ h, d.header = some h → isSmfRequest h.msgType = true → Known l u
  | _ => True

/-- The addresses a decision names. -/
def Names (l : Acts) : RoutingDecision → Prop
  | .single u => Known l u
  | .broadcast us => ∀ u ∈ us, Offered l u
  | _ => True

variable {d : Datagram} {h : Header} {l : Acts}

lemma targeted_of_selection (l : Acts) (o : Op) (ho : o.isSelection = true) : Targeted d l o := by
  cases o <;> trivial

lemma routeEstablishment_targets (seid : Option UInt64) (a : SocketAddr) (l : Acts) :
    Guarded (Targeted d) (fun dec l' => Names l' dec) (routeEstablishment seid a) l := by
  simp only [routeEstablishment, guarded_bind]
  apply guarded_selectUpf_offers targeted_of_selection
  intro r x _ hr
  cases r with
  | none => trivial
  | some u =>
    have hu := hr u rfl
    refine ⟨trivial, fun _ => ⟨trivial, fun _ => ?_⟩⟩
    cases seid with
    | none => exact .inl ((hu.append _).append _)
    | some s => exact ⟨(hu.append _).append _, fun _ => .inl (((hu.append _).append _).append _)⟩

lemma routeAffinity_targets (t : MsgType) (seid : Option UInt64) (l : Acts) :
    Guarded (Targeted d) (fun dec l' => Names l' dec) (routeAffinity t seid) l := by
  cases seid with
  | none => trivial
  | some s =>
    simp only [routeAffinity, Prog.call_bind, guarded_act]
    refine ⟨trivial, fun r => ?_⟩
    cases r with
    | none => trivial
    | some u =>
      simp only [recordRoutingDecision, recordSessionDeleted]
      refine ⟨trivial, fun _ => ?_⟩
      split
      · exact ⟨trivial, fun _ => ⟨trivial, fun _ => .inr ⟨s, by simp⟩⟩⟩
      · exact .inr ⟨s, by simp⟩

lemma routeDefault_targets (seid : Option UInt64) (a : SocketAddr) (l : Acts) :
    Guarded (Targeted d) (fun dec l' => Names l' dec) (routeDefault seid a) l := by
  cases seid with
  | none =>
    simp only [routeDefault, guarded_bind]
    apply guarded_selectUpf_offers targeted_of_selection
    intro r x _ hr
    cases r with
    | none => trivial
    | some u => exact ⟨trivial, fun _ => .inl ((hr u rfl).append _)⟩
  | some s =>
    simp only [routeDefault, Prog.call_bind, guarded_act]
    refine ⟨trivial, fun r => ?_⟩
    cases r with
    | some u => exact ⟨trivial, fun _ => .inr ⟨s, by simp⟩⟩
    | none =>
      simp only [guarded_bind]
      apply guarded_selectUpf_offers targeted_of_selection
      intro r x _ hr
      cases r with
      | none => trivial
      | some u =>
        have hu := hr u rfl
        exact ⟨trivial, fun _ => ⟨hu.append _, fun _ => .inl ((hu.append _).append _)⟩⟩

lemma routeMessage_targets {t : MsgType} (ht : isSmfRequest t = true) (seid : Option UInt64)
    (a : SocketAddr) (l : Acts) :
    Guarded (Targeted d) (fun dec l' => Names l' dec) (routeMessage t seid a) l := by
  rcases (isSmfRequest_iff t).mp ht with hb | rfl | rfl | rfl | hdef
  · rw [routeMessage_of_broadcast hb]
    refine ⟨trivial, fun _ => ⟨trivial, fun bs u hu => ?_⟩⟩
    obtain ⟨b, hb, rfl⟩ := List.mem_map.mp hu
    exact ⟨bs, .inr (by simp), b, hb, rfl⟩
  · exact routeEstablishment_targets seid a l
  · exact routeAffinity_targets _ seid l
  · exact routeAffinity_targets _ seid l
  · rw [routeMessage_of_default hdef]
    exact routeDefault_targets seid a l

lemma broadcastLoop_targets (data : List UInt8) {bs : List SocketAddr} (n : ℕ) {l : Acts}
    (hbs : ∀ u ∈ bs, Offered l u) :
    Guarded (Targeted d) (fun _ _ => True) (broadcastLoop data bs n) l := by
  induction bs generalizing n l with
  | nil => trivial
  | cons b bs ih =>
    have hb := hbs b (by simp)
    simp only [broadcastLoop, recordMessageSent, Prog.call_bind, guarded_act]
    refine ⟨fun _ _ _ => .inl hb, fun ok => ?_⟩
    cases ok with
    | true =>
      refine ⟨trivial, fun _ => ⟨.inl ((hb.append _).append _), fun _ => ih _ fun u hu => ?_⟩⟩
      exact (((hbs u (List.mem_cons_of_mem _ hu)).append _).append _).append _
    | false => exact ih _ fun u hu => (hbs u (List.mem_cons_of_mem _ hu)).append _

lemma forwardRequest_targets (data : List UInt8) (src : SocketAddr) (q : UInt32)
    {dec : RoutingDecision} (hdec : Names l dec) :
    Guarded (Targeted d) (fun _ _ => True) (forwardRequest data src q dec) l := by
  cases dec with
  | single u =>
    have hu : Known l u := hdec
    refine ⟨trivial, fun _ => ⟨fun _ _ _ => hu.append _, fun ok => ?_⟩⟩
    cases ok with
    | true =>
      exact ⟨trivial, fun _ => ⟨((hu.append _).append _).append _, fun _ => trivial⟩⟩
    | false => exact ⟨trivial, fun _ => trivial⟩
  | broadcast us =>
    have hus : ∀ u ∈ us, Offered l u := hdec
    simp only [forwardRequest, Prog.call_bind, guarded_act, guarded_bind]
    refine ⟨trivial, fun _ => ?_⟩
    apply (broadcastLoop_targets data 0 fun u hu => (hus u hu).append _).mono (fun _ _ hI => hI)
    intro m l' _
    split
    · exact ⟨trivial, fun _ => trivial⟩
    · trivial
  | _ => trivial

/-- Every handler names only addresses it has read. -/
theorem handleMessage_targets (d : Datagram) :
    Guarded (Targeted d) (fun _ _ => True) (handleMessage d) [] := by
  cases hd : d.header with
  | none =>
    simp only [handleMessage, hd]
    trivial
  | some h =>
    cases hsmf : isSmfRequest h.msgType with
    | true =>
      rw [handleMessage_smf hd hsmf]
      simp only [recordMessageReceived, Prog.call_bind, Prog.act_bind, guarded_act, guarded_bind]
      refine ⟨trivial, fun _ => ⟨trivial, fun _ => ?_⟩⟩
      apply (routeMessage_targets hsmf h.seid d.src _).mono (fun _ _ hI => hI)
      exact fun dec l' hdec => forwardRequest_targets _ _ _ hdec
    | false =>
      -- the other handlers name no UPF
      apply guarded_of_only (P := fun o => ∀ l, Targeted d l o) ?_ (fun _ => True) trivial
        (fun l o _ ho => ⟨ho l, fun _ => trivial⟩) (fun _ _ _ => trivial)
      have hnone {o : Op} (ho : o.isReport = true ∨ o.isReply = true) (l : Acts) :
          Targeted d l o := by
        cases o with
        | sendTo data u =>
          intro h' hd' hsmf'
          obtain rfl : h = h' := by simpa [hd] using hd'
          simp [hsmf] at hsmf'
        | sessionInsert s u a => rcases ho with ho | ho <;> cases ho
        | countUpfMessage u => rcases ho with ho | ho <;> cases ho
        | _ => trivial
      simp only [handleMessage, hd, hsmf, recordMessageReceived, Prog.call_bind, Prog.act_bind,
        if_true]
      refine ⟨fun _ => trivial, fun _ => ⟨fun _ => trivial, fun _ => ?_⟩⟩
      split
      · exact (handleUpfRequest_report _ _ _ _).mono fun o ho => hnone (.inl ho)
      · exact (handleResponse_reply _ _).mono fun o ho => hnone (.inr ho)

/-! ### Runs -/

section Runs

variable {p₀ : Proxy} {hist h₁ h₂ : History} {c : Config Op.Res Proxy Datagram} {i : ℕ}
  {u : SocketAddr} {A : Set SocketAddr}

/-- Throughout the history the addresses in the pool belong to `A`. -/
def PoolWithin (p₀ : Proxy) (hist : History) (A : Set SocketAddr) : Prop :=
  ∀ h₁ h₂, hist = h₁ ++ h₂ → ∀ u ∈ pooled p₀ h₁, u ∈ A

lemma PoolWithin.of_append (hA : PoolWithin p₀ (h₁ ++ h₂) A) : PoolWithin p₀ h₁ A :=
  fun x y hxy => hA x (y ++ h₂) (by rw [hxy, List.append_assoc])

/-- A handler reads the pool as it is. -/
lemma offered_within (hr : Run proxy p₀ hist c) (hA : PoolWithin p₀ hist A)
    (ho : Offered (acts i hist) u) : u ∈ A := by
  obtain ⟨bs, hread, b, hb, rfl⟩ := ho
  rcases hread with hread | hread
  · obtain ⟨x, pre, y, rfl⟩ := exists_split_of_mem_acts hread
    obtain ⟨c₁, w, hr₁, rfl, hres⟩ := act_exec hr
    obtain rfl : bs = c₁.shared.upfPool.healthyBackends := hres
    apply hA x _ rfl
    rw [← run_addrs hr₁]
    exact List.mem_map_of_mem (List.mem_filter.mp hb).1
  · obtain ⟨x, pre, y, rfl⟩ := exists_split_of_mem_acts hread
    obtain ⟨c₁, w, hr₁, rfl, hres⟩ := act_exec hr
    obtain rfl : bs = c₁.shared.upfPool.backends := hres
    apply hA x _ rfl
    rw [← run_addrs hr₁]
    exact List.mem_map_of_mem hb

/-- What a handler inserts is offered to it. -/
lemma inserted_within (hr : Run proxy p₀ hist c) (hA : PoolWithin p₀ hist A) {s : UInt64}
    {a : SocketAddr} (hins : ⟨.sessionInsert s u a, ()⟩ ∈ acts i hist) : u ∈ A := by
  obtain ⟨x, pre, y, rfl⟩ := exists_split_of_mem_acts hins
  obtain ⟨d, _, ho⟩ := hr.act_guarded handleMessage_targets
  refine offered_within (i := i) hr hA ?_
  rw [acts_append]
  exact Offered.append ho _

lemma session_within (hp₀ : p₀.sessionTable = Table.empty) (hr : Run proxy p₀ hist c)
    (hA : PoolWithin p₀ hist A) {s : UInt64} (hget : c.shared.sessionTable.lookup s = some u) :
    u ∈ A := by
  rw [SessionTable.lookup_eq, Option.map_eq_some_iff] at hget
  obtain ⟨⟨u, a⟩, hget, rfl⟩ := hget
  obtain ⟨i, hins⟩ := session_origin hp₀ hr hget
  exact inserted_within hr hA hins

lemma known_within (hp₀ : p₀.sessionTable = Table.empty) (hr : Run proxy p₀ hist c)
    (hA : PoolWithin p₀ hist A) (hk : Known (acts i hist) u) : u ∈ A := by
  rcases hk with ho | ⟨s, hlook⟩
  · exact offered_within hr hA ho
  · obtain ⟨x, pre, y, rfl⟩ := exists_split_of_mem_acts hlook
    obtain ⟨c₁, w, hr₁, rfl, hres⟩ := act_exec hr
    exact session_within hp₀ hr₁ hA.of_append hres.symm

/-- Every count is for some task that sent a message. -/
lemma counted_origin (hp₀ : p₀.stats.upfMessageCounts = Table.empty) (hr : Run proxy p₀ hist c)
    (hget : c.shared.stats.upfMessageCounts.get u ≠ none) :
    ∃ i, ⟨.countUpfMessage u, ()⟩ ∈ acts i hist := by
  induction hr with
  | nil => simp [hp₀] at hget
  | @snoc hist c c' e hr hs ih =>
    suffices hkeep : c.shared.stats.upfMessageCounts.get u ≠ none →
        ∃ i, ⟨.countUpfMessage u, ()⟩ ∈ acts i (hist ++ [e]) by
      cases hs with
      | recv d => exact hkeep hget
      | env e => exact hkeep (by simpa [proxy] using hget)
      | act i d o k w hi =>
        cases o with
        | countUpfMessage u' =>
          by_cases hu : u = u'
          · subst hu
            exact ⟨i, by simp⟩
          · refine hkeep ?_
            rw [show proxy.exec = exec from rfl] at hget
            simp only [exec, Statistics.countUpfMessage, Statistics.countKey] at hget
            split at hget <;> simpa [hu] using hget
        | fetchAdd m => cases m <;> exact hkeep hget
        | _ => exact hkeep hget
    intro hne
    obtain ⟨i, hi⟩ := ih hne
    exact ⟨i, by rw [acts_append]; exact List.mem_append_left _ hi⟩

lemma counted_within (hp₀ : p₀.sessionTable = Table.empty)
    (hcounts : p₀.stats.upfMessageCounts = Table.empty) (hr : Run proxy p₀ hist c)
    (hA : PoolWithin p₀ hist A) (hget : c.shared.stats.upfMessageCounts.get u ≠ none) : u ∈ A := by
  obtain ⟨i, hcount⟩ := counted_origin hcounts hr hget
  obtain ⟨x, pre, y, rfl⟩ := exists_split_of_mem_acts hcount
  obtain ⟨d, _, hk⟩ := hr.act_guarded handleMessage_targets
  refine known_within (i := i) hp₀ hr hA ?_
  rw [acts_append]
  exact Known.append hk _

end Runs

end PfcpProxy
