import PfcpProxy.Histories
import PfcpProxy.Sequential

/-!
# Isolation between SMFs

Entries of the session table belong to the SMF recorded in them. Exactly two kinds of
messages touch the entry of another SMF; where no SEID is shared, none does.
-/

namespace PfcpProxy

open AtomicTasks

/-- Entries recorded for other SMFs than `b` are in `t'` what they are in `t`. -/
def KeepsOthers (b : SocketAddr) (t t' : SessionTable) : Prop :=
  ∀ s u a, t.lookupFull s = some (u, a) → a ≠ b → t'.lookupFull s = some (u, a)

variable {b : SocketAddr} {t t' : SessionTable}

lemma KeepsOthers.refl (b : SocketAddr) (t : SessionTable) : KeepsOthers b t t :=
  fun _ _ _ hget _ => hget

/-- The entry under `s`, if there is one, belongs to `b`. -/
def OwnedBy (b : SocketAddr) (t : SessionTable) (s : UInt64) : Prop :=
  ∀ u a, t.lookupFull s = some (u, a) → a = b

lemma keepsOthers_insert_iff (now : Instant) (s : UInt64) (u : SocketAddr) :
    KeepsOthers b t (t.insert now s u b) ↔ OwnedBy b t s := by
  constructor
  · intro h u' a hget
    by_contra ha
    have hget' := h s u' a hget ha
    simp only [SessionTable.lookupFull_insert, if_true, Option.some.injEq, Prod.mk.injEq] at hget'
    exact ha hget'.2.symm
  · intro h s' u' a hget ha
    have hs : s' ≠ s := by
      rintro rfl
      exact ha (h u' a hget)
    rwa [SessionTable.lookupFull_insert, if_neg hs]

lemma keepsOthers_remove_iff (s : UInt64) : KeepsOthers b t (t.remove s) ↔ OwnedBy b t s := by
  constructor
  · intro h u' a hget
    by_contra ha
    have hget' := h s u' a hget ha
    simp [SessionTable.lookupFull_remove] at hget'
  · intro h s' u' a hget ha
    have hs : s' ≠ s := by
      rintro rfl
      exact ha (h u' a hget)
    rwa [SessionTable.lookupFull_remove, if_neg hs]

lemma ownedBy_of_lookup_none {s : UInt64} (h : t.lookup s = none) : OwnedBy b t s := by
  intro u a hget
  simp [SessionTable.lookup_eq, hget] at h

/-- The message takes over or deletes the entry of another SMF: an establishment request, if
a backend can be selected, or a deletion request. -/
def TakesOver (p : Proxy) (d : Datagram) : Prop :=
  ∃ h s, d.header = some h ∧ h.seid = some s ∧ ¬OwnedBy d.src p.sessionTable s ∧
    (h.msgType = .sessionEstablishmentRequest ∧ Selectable p.upfPool p.sessionTable ∨
      h.msgType = .sessionDeletionRequest)

/-- Routing keeps the entries of others unless the message takes one over. -/
lemma keepsOthers_routedTable_iff (p : Proxy) {d : Datagram} {h : Header}
    (hd : d.header = some h) :
    KeepsOthers d.src p.sessionTable (routedTable p h.msgType h.seid d.src) ↔ ¬TakesOver p d := by
  have htakes : TakesOver p d ↔ ∃ s, h.seid = some s ∧ ¬OwnedBy d.src p.sessionTable s ∧
      (h.msgType = .sessionEstablishmentRequest ∧ Selectable p.upfPool p.sessionTable ∨
        h.msgType = .sessionDeletionRequest) := by
    simp [TakesOver, hd]
  rw [htakes]
  cases hs : h.seid with
  | none => simp [routedTable, KeepsOthers.refl]
  | some s =>
    simp only [routedTable, Option.some.injEq, exists_eq_left']
    rw [← chooseUpf_isSome_iff]
    by_cases hest : h.msgType = .sessionEstablishmentRequest
    · cases hc : chooseUpf p.upfPool p.sessionTable with
      | none => simp [hest, KeepsOthers.refl]
      | some u => simp [hest, keepsOthers_insert_iff]
    · by_cases hdel : h.msgType = .sessionDeletionRequest
      · cases hl : p.sessionTable.lookup s with
        | none =>
          simp [hdel, isDefaultRequest, KeepsOthers.refl,
            ownedBy_of_lookup_none (b := d.src) hl]
        | some u => simp [hdel, isDefaultRequest, keepsOthers_remove_iff]
      · simp only [hest, hdel, false_and, false_or, or_false, and_false, not_false_eq_true, iff_true,
          if_false]
        split
        · rename_i hdef
          cases hc : chooseUpf p.upfPool p.sessionTable with
          | none => exact KeepsOthers.refl _ _
          | some u => exact (keepsOthers_insert_iff _ _ _).mpr (ownedBy_of_lookup_none hdef.2)
        · exact KeepsOthers.refl _ _

/-! ### Interleavings -/

/-- The message may write the entry under `s`. -/
def WritesSession (d : Datagram) (s : UInt64) : Prop :=
  ∃ h, d.header = some h ∧ h.seid = some s ∧
    (h.msgType = .sessionEstablishmentRequest ∨ h.msgType = .sessionDeletionRequest ∨
      isDefaultRequest h.msgType = true)

/-- No two SMFs use the same SEID. -/
def OwnSeids (h : History) : Prop :=
  ∀ i j d d' s, .recv i d ∈ h → .recv j d' ∈ h → WritesSession d s → WritesSession d' s →
    d.src = d'.src

lemma conduct_writesSession {d : Datagram} {l : Acts} {o : Op} {s : UInt64}
    (hI : Conduct d l o) (ho : o.sessionKey = some s) : WritesSession d s := by
  obtain ⟨h, hd, hI⟩ := hI
  cases o with
  | sessionInsert s' u a =>
    obtain rfl : s' = s := by simpa [Op.sessionKey] using ho
    obtain ⟨hs, _, _, hest | ⟨hdef, _⟩⟩ := hI
    · exact ⟨h, hd, hs, .inl hest⟩
    · exact ⟨h, hd, hs, .inr (.inr hdef)⟩
  | sessionRemove s' =>
    obtain rfl : s' = s := by simpa [Op.sessionKey] using ho
    exact ⟨h, hd, hI.1, .inr (.inl hI.2.1)⟩
  | _ => cases ho

/-- Where no SEID is shared, no step of a task touches the entry of another SMF. -/
lemma OwnSeids.keepsOthers {backends : List SocketAddr} {strategy : LoadBalancingStrategy}
    {h₁ h₂ : History} {c : Config Op.Res Proxy Datagram} {i : ℕ} {a : Act Op.Res} {pre : Proxy}
    {d : Datagram} (hown : OwnSeids (h₁ ++ .act i a pre :: h₂))
    (hr : Run proxy (Proxy.new backends strategy) (h₁ ++ .act i a pre :: h₂) c)
    (hd : .recv i d ∈ h₁) (w : Bool) :
    KeepsOthers d.src pre.sessionTable (exec a.op w pre).2.sessionTable := by
  intro s u smf hget hsmf
  have hkey : a.op.sessionKey ≠ some s := by
    intro hkey
    obtain ⟨_, hI⟩ := conduct_of_recv hr (List.mem_append_left _ hd)
    have hwrites := conduct_writesSession hI hkey
    obtain ⟨c₁, w', hr₁, rfl, _⟩ := act_exec hr
    obtain ⟨j, hj⟩ := session_origin rfl hr₁ hget
    obtain ⟨x, pre', y, rfl⟩ := exists_split_of_mem_acts hj
    obtain ⟨d', hd', hI'⟩ := conduct_of_act hr₁
    have hsrc : smf = d'.src := by
      obtain ⟨_, _, _, hsrc, _⟩ := hI'
      exact hsrc
    have hd'h : .recv j d' ∈ (x ++ .act j ⟨.sessionInsert s u smf, ()⟩ pre' :: y) ++
        .act i a c₁.shared :: h₂ := by simp [hd']
    have hsame := hown i j d d' s (List.mem_append_left _ hd) hd'h hwrites
      (conduct_writesSession hI' rfl)
    exact hsmf (hsrc.trans hsame.symm)
  rwa [exec_lookupFull_of_ne hkey]

/-- Isolation between SMFs: a message that is handled alone leaves the entries of other SMFs
alone if and only if it takes none over, and where no SEID is shared no step of any
interleaving touches an entry of another SMF. -/
theorem smf_isolation (ω : ℕ → Bool) (d : Datagram) (p : Proxy) :
    (KeepsOthers d.src p.sessionTable (handled ω d p).state.sessionTable ↔ ¬TakesOver p d) ∧
    (∀ backends strategy h c, Run proxy (Proxy.new backends strategy) h c → OwnSeids h →
      ∀ h₁ i a pre h₂ w, h = h₁ ++ .act i a pre :: h₂ → .recv i d ∈ h₁ →
        KeepsOthers d.src pre.sessionTable (exec a.op w pre).2.sessionTable) := by
  constructor
  · cases hd : d.header with
    | none =>
      rw [handled_unparsed p ω hd]
      simp [KeepsOthers.refl, TakesOver, hd]
    | some h =>
      rw [(handled_sessions p ω hd).1]
      exact keepsOthers_routedTable_iff p hd
  · rintro backends strategy h c hr hown h₁ i a pre h₂ w rfl hd
    exact hown.keepsOthers hr hd w

/-- Two SMFs establish a session each, under different SEIDs. -/
def twoEstablished : History × Config Op.Res Proxy Datagram :=
  played [upfX, upfY] .roundRobin (oneByOne 0
    [message .sessionEstablishmentRequest (some 7) 1 smfA,
      message .sessionEstablishmentRequest (some 8) 1 smfB])

/-- The session of the first SMF is kept when the second one inserts, and when the second one
deletes its own. -/
theorem smf_isolation_twoEstablished :
    (∃ pre, .act 1 ⟨.sessionInsert 8 upfY smfB, ()⟩ pre ∈ twoEstablished.1 ∧
      KeepsOthers smfB pre.sessionTable
        (exec (.sessionInsert 8 upfY smfB) true pre).2.sessionTable) ∧
    KeepsOthers smfB twoEstablished.2.shared.sessionTable
      (handled (fun _ => true) (message .sessionDeletionRequest (some 8) 2 smfB)
        twoEstablished.2.shared).state.sessionTable := by
  let d₀ := message .sessionEstablishmentRequest (some 7) 1 smfA
  let d₁ := message .sessionEstablishmentRequest (some 8) 1 smfB
  have hrecv : receptions twoEstablished.1 = [(0, d₀), (1, d₁)] := rfl
  have hat : actAt twoEstablished.1 21 = some (1, ⟨.sessionInsert 8 upfY smfB, ()⟩) := by
    decide +kernel
  have hd₁ : (1, d₁) ∈ receptions (twoEstablished.1.take 21) := by decide +kernel
  have hown : OwnSeids twoEstablished.1 := by
    intro i j d d' s hi hj hd hd'
    obtain ⟨h, hh, hs, _⟩ := hd
    obtain ⟨h', hh', hs', _⟩ := hd'
    rw [← mem_receptions_iff, hrecv] at hi hj
    simp only [List.mem_cons, Prod.mk.injEq, List.not_mem_nil, or_false] at hi hj
    rcases hi with ⟨_, rfl⟩ | ⟨_, rfl⟩ <;> rcases hj with ⟨_, rfl⟩ | ⟨_, rfl⟩ <;>
      cases hh <;> cases hh' <;> cases hs <;> first | rfl | exact absurd hs' (by decide)
  obtain ⟨pre, hsplit⟩ := split_at hat
  refine ⟨⟨pre, by rw [hsplit]; simp, ?_⟩, ?_⟩
  · exact (smf_isolation (fun _ => true) d₁ pre).2 _ _ _ _ (played_run _ _ _) hown _ 1 _ pre _ true
      hsplit (mem_receptions_iff.mp hd₁)
  · refine (smf_isolation (fun _ => true) (message .sessionDeletionRequest (some 8) 2 smfB)
      twoEstablished.2.shared).1.mpr ?_
    rintro ⟨h, s, hh, hs, hnot, _⟩
    cases hh
    cases hs
    have hentry : twoEstablished.2.shared.sessionTable.lookupFull 8 = some (upfY, smfB) := by
      decide +kernel
    refine hnot fun u a hget => ?_
    rw [hentry, Option.some.injEq, Prod.mk.injEq] at hget
    exact hget.2.symm

/-- The second SMF takes over session 7 by establishing one of its own. -/
theorem smf_isolation_fails :
    Run proxy (Proxy.new [upfX, upfY] .roundRobin) establishedByA.1 establishedByA.2 ∧
    ¬KeepsOthers smfB establishedByA.2.shared.sessionTable
      (handled (fun _ => true) (message .sessionEstablishmentRequest (some 7) 1 smfB)
        establishedByA.2.shared).state.sessionTable := by
  refine ⟨played_run _ _ _, fun h => ?_⟩
  have hbefore : establishedByA.2.shared.sessionTable.lookupFull 7 = some (upfX, smfA) := by
    decide +kernel
  have hafter := h 7 upfX smfA hbefore (by decide)
  revert hafter
  decide +kernel

end PfcpProxy
