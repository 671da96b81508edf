import T38Modem.EcmDecision
import T38Modem.HdlcClosing
import T38Modem.SendProgress

namespace T38Modem

namespace T38Engine

/-- What the modem has handed in ends the signal. -/
def Ends (e : T38Engine) : Prop := e.hdlcOut.Ends e.bufOut.data

instance (e : T38Engine) : Decidable e.Ends := inferInstanceAs (Decidable (_ ∧ _))

/-- A signal that the modem sends as raw HDLC goes to the other side in frames. -/
structure SendsEcm (e : T38Engine) : Prop where
  pars : e.modParsOut.rawOverHdlc
  isOut : e.stateModem.isOut = true
  eof : e.stateModem = .stmOutNoMoreData → e.bufOut.eof = true
  decodes : e.stateOut = .stOutData ∨ e.stateOut = .stOutHdlcFcs → e.hdlcOut.Decodes
  closed : e.stateOut = .stOutHdlcFcs → e.hdlcOut.hdlcState = .stEof

/-- The data of the signal is being sent. -/
def Pumps (e : T38Engine) : Prop := e.stateOut = .stOutData ∨ e.stateOut = .stOutHdlcFcs

instance (e : T38Engine) : Decidable e.Pumps := inferInstanceAs (Decidable (_ ∨ _))

/-- How much there is still to do for the data of the signal. -/
def pumpRank (e : T38Engine) : Nat :=
  2 * (10 * e.bufOut.data.length + e.hdlcOut.outData.data.length) + if e.stateOut = .stOutData then 1 else 0

/-- What the body of `PreparePacket` does for the data of a signal that the modem has stopped. -/
inductive Drains (e e' : T38Engine) : Prop
  | goes (hs : e'.Pumps) (ends : e'.Ends ↔ e.Ends) (rank : e.Ends → e'.pumpRank < e.pumpRank)
  | leaves (hs : e'.stateOut = .stOutDataNoSig) (ends : e.Ends)

/-- A part of the body of `PreparePacket` has been run for the signal. -/
structure BodyRun (e : T38Engine) (r : T38Engine × OutPc × List Event) : Prop where
  sends : r.1.SendsEcm
  stateModem : r.1.stateModem = e.stateModem
  pending : r.2.1.pending = .data none → r.1.stateOut = .stOutData ∧ r.1.hdlcOut.hdlcState = .stEof
  free : e.stateModem = .stmOutNoMoreData → (r.1.stateOut = .stOutData → r.1.Ends) → r.2.1.Free
  drains : e.stateModem = .stmOutNoMoreData → e.Pumps → Drains e r.1

variable {e e' : T38Engine} {now : Int} {l : Locals} {count : Option (List Byte)}

open OutPc

/-- What `dataSwitch` does with what has been read. -/
structure Switches (e : T38Engine) (count : Option (List Byte)) (r : T38Engine × OutPc × List Event) : Prop where
  sends : r.1.SendsEcm
  stateModem : r.1.stateModem = e.stateModem
  stateOut : r.1.stateOut = if count = none then .stOutHdlcFcs else .stOutData
  hdlcOut : r.1.hdlcOut = e.hdlcOut
  bufOut : r.1.bufOut = e.bufOut
  pending : ∀ c, r.2.1.pending ≠ .data c
  free : count ≠ some [] → r.2.1.Free

theorem dataSwitch_switches (h : e.SendsEcm) (hs : e.stateOut = .stOutData)
    (hc : count = none → e.hdlcOut.hdlcState = .stEof) : Switches e count (ofOutcome (e.dataSwitch now l count)) := by
  have hdec := h.decodes (.inl hs)
  have ht38 := h.pars.2
  unfold dataSwitch
  match count with
  | none =>
    simp only [ht38]
    exact ⟨⟨h.pars, h.isOut, h.eof, fun _ => hdec, fun _ => hc rfl⟩, rfl, rfl, rfl, rfl, fun c h => (by cases h),
      fun _ => .leave _⟩
  | some [] =>
    dsimp only
    split
    · exact ⟨h, rfl, hs, rfl, rfl, fun c h => (by cases h), fun h => absurd rfl h⟩
    · split
      · exact ⟨⟨h.pars, h.isOut, h.eof, h.decodes, h.closed⟩, rfl, hs, rfl, rfl, fun c h => (by cases h),
          fun h => absurd rfl h⟩
      · split
        · exact ⟨h, rfl, hs, rfl, rfl, fun c h => (by cases h), fun h => absurd rfl h⟩
        · exact ⟨h, rfl, hs, rfl, rfl, fun c h => (by cases h), fun h => absurd rfl h⟩
  | some (b :: bs) =>
    simp only [ht38]
    exact ⟨⟨h.pars, h.isOut, h.eof, h.decodes, h.closed⟩, rfl, hs, rfl, rfl, fun c h => (by cases h),
      fun _ => .leave _⟩

/-- The data is read, and what is read is sent. -/
theorem outData_run (h : e.SendsEcm) (hs : e.stateOut = .stOutData) (hlen : 0 < dataLen e.modParsOut.br) :
    BodyRun e (ofOutcome (e.outData now l)) := by
  have hdec := h.decodes (.inl hs)
  have hkeep := Hdlc.getHdlcData_decodes hdec e.bufOut (dataLen e.modParsOut.br)
  have heof : (e.hdlcOut.getHdlcData e.bufOut (dataLen e.modParsOut.br)).2.2.eof = e.bufOut.eof :=
    Hdlc.getHdlcData_attends.eof
  have hreads (he : e.bufOut.eof = true) := Hdlc.getHdlcData_reads hdec he hlen
  unfold outData Hdlc.getData
  rw [hdec.outDataType]
  dsimp only
  generalize e.hdlcOut.getHdlcData e.bufOut (dataLen e.modParsOut.br) = r at hkeep heof hreads
  obtain ⟨count, hdlcOut, bufOut⟩ := r
  obtain ⟨hkeep, hend⟩ := hkeep
  have hread : ({ e with hdlcOut, bufOut } : T38Engine).SendsEcm :=
    ⟨h.pars, h.isOut, fun hm => heof.trans (h.eof hm), fun _ => hkeep,
      fun hf => absurd (hs.symm.trans hf) fun h => by cases h⟩
  dsimp only
  split
  next hfull =>
    refine ⟨hread, rfl, fun hp => ?_, fun hm hp => ⟨Nat.succ_pos 6, fun hnil => ?_⟩, fun hm _ => ?_⟩
    · cases hp
      exact ⟨hs, hend rfl hlen⟩
    · have hr := hreads (h.eof hm)
      cases hnil
      exact hr.nil rfl (hr.ends.mp (hp hs))
    · have hr := hreads (h.eof hm)
      have hwork := hr.work
      have hshort := hr.length
      have hne : bufOut.data.length ≠ e.bufOut.data.length := fun hx => by
        rw [show bufOut = e.bufOut from hr.same hx] at hfull
        simp at hfull
      refine .goes (.inl hs) hr.ends fun _ => ?_
      simp only [pumpRank, ofOutcome, hs, if_true] at hwork hshort ⊢
      omega
  next =>
    have hsw : Switches { e with hdlcOut, bufOut } count
        (ofOutcome (dataSwitch { e with hdlcOut, bufOut } now l count)) := dataSwitch_switches hread hs fun hc => hend hc hlen
    generalize ofOutcome (dataSwitch { e with hdlcOut, bufOut } now l count) = r at hsw
    have hsame : r.1.Ends ↔ hdlcOut.Ends bufOut.data := by rw [Ends, hsw.hdlcOut, hsw.bufOut]
    refine ⟨hsw.sends, hsw.stateModem, fun hp => absurd hp (hsw.pending _), fun hm hp => hsw.free ?_, fun hm _ => ?_⟩
    · rintro rfl
      have hr := hreads (h.eof hm)
      exact hr.nil rfl (hr.ends.mp (hsame.mp (hp (hsw.stateOut.trans rfl))))
    · have hr := hreads (h.eof hm)
      have hwork := hr.work
      have hshort := hr.length
      cases count with
      | none =>
        have hst : r.1.stateOut = .stOutHdlcFcs := hsw.stateOut
        refine .goes (.inr hst) (hsame.trans hr.ends) fun _ => ?_
        simp only [pumpRank, hsw.hdlcOut, hsw.bufOut, hst, hs] at hwork hshort ⊢
        simp
        omega
      | some bs =>
        have hst : r.1.stateOut = .stOutData := hsw.stateOut
        refine .goes (.inl hst) (hsame.trans hr.ends) fun hends => ?_
        have hpos : 0 < bs.length := List.length_pos_iff.mpr fun hnil => hr.nil (by rw [hnil]) hends
        simp only [pumpRank, hsw.hdlcOut, hsw.bufOut, hst, hs, Option.getD_some] at hwork hshort ⊢
        omega

/-- The gap between two frames is read. -/
theorem outHdlcFcs_run (h : e.SendsEcm) (hs : e.stateOut = .stOutHdlcFcs) : BodyRun e (ofOutcome (e.outHdlcFcs l)) := by
  have hdec := h.decodes (.inr hs)
  have hclosed := h.closed hs
  have hb := Hdlc.getHdlcStart_between hdec.inDataType
  have hdec' : ((e.hdlcOut.getHdlcStart false).getHdlcData e.bufOut 0).2.1.Decodes :=
    (Hdlc.getHdlcData_decodes (.of_open hb.inDataType hb.outDataType hb.out.2 (by simp [hb.state])) _ _).1
  have heof : ((e.hdlcOut.getHdlcStart false).getHdlcData e.bufOut 0).2.2.eof = e.bufOut.eof :=
    Hdlc.getHdlcData_attends.eof
  have hgap (he : e.bufOut.eof = true) := Hdlc.getHdlcStart_gap hdec hclosed he
  unfold outHdlcFcs
  dsimp only
  rw [if_pos h.pars.1, Hdlc.getData, hb.outDataType]
  dsimp only
  generalize (e.hdlcOut.getHdlcStart false).getHdlcData e.bufOut 0 = r at hdec' heof hgap
  obtain ⟨count, hdlcOut, bufOut⟩ := r
  have run {e' : T38Engine} {pc : OutPc} (hp : e'.modParsOut = e.modParsOut) (hm : e'.stateModem = e.stateModem)
      (hh : e'.hdlcOut = hdlcOut) (hbuf : e'.bufOut = bufOut)
      (hst : e'.stateOut = if count ≠ none then .stOutData else .stOutDataNoSig) (hpc : pc.pending = .leave)
      (hfree : pc.Free) : BodyRun e (e', pc, []) := by
    have hne : e'.stateOut ≠ .stOutHdlcFcs := by
      rw [hst]
      split <;> exact fun h => by cases h
    refine ⟨⟨hp ▸ h.pars, by rw [hm]; exact h.isOut, fun hx => ?_, fun _ => hh ▸ hdec', fun hx => absurd hx hne⟩, hm,
      fun hx => absurd (hpc.symm.trans hx) fun h => (by cases h), fun _ _ => hfree, fun hx _ => ?_⟩
    · rw [hbuf]
      exact heof.trans (h.eof (hm ▸ hx))
    · have hg := hgap (h.eof hx)
      cases count with
      | none => exact .leaves hst (hg.ended rfl)
      | some bs =>
        have hst : e'.stateOut = .stOutData := hst
        have hends : e'.Ends ↔ e.Ends := by
          rw [Ends, hh, hbuf]
          exact hg.ends fun h => by cases h
        refine .goes (.inl hst) hends fun he => ?_
        obtain ⟨hwork, hshort⟩ := hg.work (fun h => by cases h) he
        simp only [pumpRank, hh, hbuf, hst, hs] at hwork hshort ⊢
        simp
        omega
  split
  · exact run rfl rfl rfl rfl rfl rfl (.calling _ _ _)
  · exact run rfl rfl rfl rfl rfl rfl (.leave _)

/-- Before the data of the signal, and behind it, the body has nothing to do with it. -/
theorem BodyRun.of_other {pc : OutPc} {es : List Event} (h : e.SendsEcm) (hno : ¬e.Pumps) (hp : e'.modParsOut = e.modParsOut)
    (hm : e'.stateModem = e.stateModem) (hb : e'.bufOut = e.bufOut) (hs : ¬e'.Pumps) (hpc : ∀ c, pc.pending ≠ .data c)
    (hfree : pc.Free) : BodyRun e (e', pc, es) :=
  ⟨⟨hp ▸ h.pars, hm ▸ h.isOut, fun hx => by rw [hb]; exact h.eof (hm ▸ hx), fun hx => absurd hx hs,
    fun hx => absurd (.inr hx) hs⟩, hm, fun hx => absurd hx (hpc _), fun _ _ => hfree, fun _ hx => absurd hx hno⟩

theorem outIdle_run (h : e.SendsEcm) (hs : e.stateOut = .stOutIdle) : BodyRun e (ofOutcome (e.outIdle now l)) := by
  have hno : ¬e.Pumps := by simp [Pumps, hs]
  unfold outIdle
  split
  · exact .of_other h hno rfl rfl rfl hno (fun c h => by cases h) (.leave _)
  · have hw := Sends.waitCarrier_same { e with delaySignalOut := false } now
    have hb := ({ e with delaySignalOut := false } : T38Engine).waitCarrier_bufOut now
    dsimp only at hw hb
    split
    next e' he =>
      rw [he] at hw hb
      obtain ⟨h1, h2, -, h4, -⟩ := hw
      have h1 : e'.stateOut = e.stateOut := h1
      exact .of_other h hno h2 h4 hb (by simp [Pumps, h1, hs]) (fun c h => by cases h) (.leave _)
    next e' he =>
      rw [he] at hw hb
      obtain ⟨h1, h2, -, h4, -⟩ := hw
      have h2 : e'.modParsOut = e.modParsOut := h2
      simp only [h2, h.pars.2]
      exact .of_other h hno rfl h4 hb (by simp [Pumps]) (fun c h => by cases h) (.leave _)

theorem outIndWait_run (h : e.SendsEcm) (hs : e.stateOut = .stOutIndWait) : BodyRun e (ofOutcome (e.outIndWait now l)) := by
  have hno : ¬e.Pumps := by simp [Pumps, hs]
  unfold outIndWait
  simp only [h.pars.1, h.pars.2]
  exact ⟨⟨h.pars, h.isOut, h.eof, fun _ => .of_open rfl rfl rfl fun h => (by cases h), fun h => (by cases h)⟩, rfl,
    fun h => (by cases h), fun _ _ => .leave _, fun _ hx => absurd hx hno⟩

theorem SendsEcm.untimed {o : Stage} (h : e.SendsEcm) (hk : Sends o e) :
    e.stateOut ≠ .stOutCedWait ∧ e.stateOut ≠ .stOutSilenceWait := by
  have ht38 := h.pars.2
  rcases hk.stage with hst | hst | hst | ⟨hst, t⟩ | hst | ⟨hst, t⟩ | ⟨m, d, -, -, hst⟩ | ⟨m, -, -, hst⟩
  · simp [hst]
  · simp [hst]
  · simp [hst]
  · cases ht38.symm.trans t
  · simp [hst]
  · cases ht38.symm.trans t
  · rcases hst with ⟨-, hst | hst⟩ | ⟨-, hst | hst⟩ <;> simp [hst]
  · rcases hst with hst | hst | hst <;> simp [hst]

/-- The body of `PreparePacket` goes on with the signal, or the signal is over. -/
theorem prepare_run {o : Stage} (h : e.SendsEcm) (hk : Sends o e) (now : Int) (l : Locals) :
    BodyRun e (ofOutcome (e.prepare now l)) ∨ (ofOutcome (e.prepare now l)).1.stateModem.isOut = false ∧
      e.stateModem = .stmOutNoMoreData ∧ ¬e.Pumps := by
  have hrow : e.Pumps → 0 < dataLen e.modParsOut.br := fun hp => by
    obtain ⟨-, -, hst⟩ := hk.signal (hp.elim (fun h => .inr (.inl h)) fun h => .inr (.inr (.inl h)))
    rcases hst with ⟨m, d, -, row, -⟩ | ⟨m, -, row, -⟩ <;> exact dataLen_pos row
  unfold prepare
  rw [if_pos (.inl h.isOut)]
  cases hs : e.stateOut with
  | stOutIdle => exact .inl (outIdle_run h hs)
  | stOutCedWait => exact absurd hs (h.untimed hk).1
  | stOutSilenceWait => exact absurd hs (h.untimed hk).2
  | stOutIndWait => exact .inl (outIndWait_run h hs)
  | stOutData => exact .inl (outData_run h hs (hrow (.inl hs)))
  | stOutHdlcFcs => exact .inl (outHdlcFcs_run h hs)
  | stOutDataNoSig =>
    have hno : ¬e.Pumps := by simp [Pumps, hs]
    dsimp only
    unfold outDataNoSig
    split
    next hm =>
      exact .inl ⟨h, rfl, fun h => (by cases h), fun hx => absurd hx hm, fun hx => absurd hx hm⟩
    next hm =>
      simp only [h.pars.2]
      exact .inr ⟨rfl, not_not.mp hm, hno⟩
  | stOutNoSig =>
    have hno : ¬e.Pumps := by simp [Pumps, hs]
    exact .inl (.of_other h hno rfl rfl rfl (by simp [Pumps]) (fun c h => by cases h) (.leave _))

end T38Engine

namespace Sys

open T38Engine

variable {s s' : Sys} {a : Act} {es : List Event}

/-- A signal of raw HDLC is sent in frames, and its thread sleeps no signal out that is stopped and ends. -/
structure Pumping (s : Sys) : Prop where
  grammatical : ∃ ps, s.Grammatical ps
  engine : s.e.SendsEcm
  modem : s.modem ≠ .out → s.e.stateModem = .stmOutMoreData
  pending : s.out.pending = .data none → s.e.stateOut = .stOutData ∧ s.e.hdlcOut.hdlcState = .stEof
  alert : s.e.stateModem = .stmOutNoMoreData → (s.e.stateOut = .stOutData → s.e.Ends) → s.out.Alert s.e

/-- Nothing is sent for the modem any more. -/
structure Spent (s : Sys) : Prop where
  grammatical : ∃ ps, s.Grammatical ps
  isOut : s.e.stateModem.isOut = false
  modem : s.modem = .out

/-- What the thread does for the signal outside the body of `PreparePacket`. -/
structure Pauses (e e' : T38Engine) : Prop where
  sends : e'.SendsEcm
  stateModem : e'.stateModem = e.stateModem
  ends : e'.Ends ↔ e.Ends
  hdlcState : e'.hdlcOut.hdlcState = e.hdlcOut.hdlcState
  stateOut : e'.stateOut = e.stateOut
  rank : e'.pumpRank = e.pumpRank

theorem Pauses.refl {e : T38Engine} (h : e.SendsEcm) : Pauses e e := ⟨h, rfl, .rfl, rfl, rfl, rfl⟩

theorem Pauses.of_same {e e' : T38Engine} (h : e.SendsEcm) (hp : e'.modParsOut = e.modParsOut)
    (hm : e'.stateModem = e.stateModem) (hs : e'.stateOut = e.stateOut) (hb : e'.bufOut = e.bufOut) {n : Nat}
    (hh : e'.hdlcOut = { e.hdlcOut with rawCount := n }) : Pauses e e' := by
  have hends : e'.Ends ↔ e.Ends := by
    rw [T38Engine.Ends, hh, hb]
    exact Hdlc.Ends.congr ⟨rfl, rfl, rfl, rfl⟩ rfl
  refine ⟨⟨hp ▸ h.pars, hm ▸ h.isOut, fun hx => by rw [hb]; exact h.eof (hm ▸ hx), fun hx => ?_, fun hx => ?_⟩, hm,
    hends, by rw [hh], hs, ?_⟩
  · have hd := h.decodes (hs ▸ hx)
    rw [hh]
    exact ⟨hd.inDataType, hd.outDataType, hd.eof⟩
  · rw [hh]
    exact h.closed (hs ▸ hx)
  · simp only [pumpRank, hh, hb, hs]

/-- A step for a signal that is stopped and whose data is being sent. -/
inductive Advances (s : Sys) (a : Act) (s' : Sys) : Prop
  | body (ha : a = .out) (hb : s.out.isBody = true) (hd : Drains s.e s'.e)
  | rest (hb : ¬(a = .out ∧ s.out.isBody = true)) (pumps : s'.e.Pumps) (ends : s'.e.Ends ↔ s.e.Ends)
      (rank : s'.e.pumpRank ≤ s.e.pumpRank)

theorem Advances.of_pauses (hb : ¬(a = .out ∧ s.out.isBody = true)) (hp : s.e.Pumps) (h : Pauses s.e s'.e) :
    Advances s a s' :=
  .rest hb (by rw [Pumps, h.stateOut]; exact hp) h.ends (Nat.le_of_eq h.rank)

theorem Pumping.attached (h : s.Pumping) : s.Attached := h.grammatical.elim fun _ hg => hg.attached

/-- Outside the body the thread comes to wait for nothing that is not there. -/
theorem Pumping.alert_step (h : s.Pumping) (hb : s.out.isBody = false) (hm : s.e.stateModem = .stmOutNoMoreData)
    (hends : s.out.pending ≠ .data none → s.e.stateOut = .stOutData → s.e.Ends)
    (hfree : ∀ l, s.out = .called l (.data none) → (s.out.step hOwnerOut s.e s.now).2.1.Free) :
    (s.out.step hOwnerOut s.e s.now).2.1.Alert (s.out.step hOwnerOut s.e s.now).1 := by
  by_cases hp : s.out.pending = .data none
  · cases hpc : s.out with
    | calling kind extra l after =>
      rw [hpc] at hp
      obtain rfl : after = .data none := hp
      have hfree : (OutPc.called l (.data none)).Free := ⟨Nat.succ_pos 6, fun h => by cases h⟩
      exact hfree.alert _
    | called l after =>
      rw [hpc] at hp
      obtain rfl : after = .data none := hp
      have := hfree l hpc
      rw [hpc] at this
      exact this.alert _
    | _ => rw [hpc] at hp; cases hp
  · exact OutPc.step_alert h.attached.lostOut (h.alert hm (hends hp)) hb hp

theorem Pumping.out_step (h : s.Pumping) (hs : Steps s .out s' es) :
    (s'.Pumping ∧ (s.e.stateModem = .stmOutNoMoreData → s.e.Pumps →
      s'.e.stateModem = .stmOutNoMoreData ∧ Advances s .out s')) ∨ s'.Spent ∧ ¬s.e.Pumps := by
  have hg := grammatical_step h.grammatical hs
  obtain ⟨ps, hgr⟩ := h.grammatical
  obtain ⟨o, -, hat⟩ := hgr.begun
  obtain ⟨o', hk⟩ := hat.sends
  cases hs with
  | receives ha => cases ha
  | @out r hr =>
    have hmv := hr ▸ hgr.attached.moves
    have halert := h.alert_step
    have hpend := h.pending
    have hmodem := h.modem
    have heng := h.engine
    have hold := h.alert
    obtain ⟨e, now, pc, inn, modem⟩ := s
    dsimp only at hmv hat hpend hmodem heng hg halert hk hr hold ⊢
    rw [hr] at halert
    -- a step that leaves the signal where it is
    have pauses (hb : pc.isBody = false) (hp : Pauses e r.1) (hd : r.2.1.pending = .data none → pc.pending = .data none)
        (hcalled : ∀ l, pc ≠ .called l (.data none)) :
        ({ e := r.1, now := now, out := r.2.1, inn := inn, modem := modem } : Sys).Pumping ∧
          (e.stateModem = .stmOutNoMoreData → e.Pumps → r.1.stateModem = .stmOutNoMoreData ∧
            Advances ⟨e, now, pc, inn, modem⟩ .out ⟨r.1, now, r.2.1, inn, modem⟩) := by
      refine ⟨⟨hg, hp.sends, fun hx => hp.stateModem.trans (hmodem hx), fun hx => ?_, fun hm hends => ?_⟩,
        fun hm hpump => ⟨hp.stateModem.trans hm, .of_pauses (by simp [hb]) hpump hp⟩⟩
      · obtain ⟨h1, h2⟩ := hpend (hd hx)
        exact ⟨hp.stateOut.trans h1, hp.hdlcState.trans h2⟩
      · exact halert hb (hp.stateModem.symm.trans hm) (fun _ hx => hp.ends.mp (hends (hp.stateOut.trans hx)))
          fun l hl => absurd hl (hcalled l)
    cases hb : pc.isBody with
    | true =>
      obtain ⟨l, rfl⟩ : ∃ l, pc = .body l := by
        cases pc with
        | body l => exact ⟨l, rfl⟩
        | _ => cases hb
      have hout : modem ≠ .out → e.stateModem = .stmOutMoreData := hmodem
      have hlost : e.lostOut hOwnerOut = false := hgr.attached.lostOut
      have hr : OutPc.ofOutcome (e.prepare now l) = r := by
        rw [← hr]
        simp [OutPc.step, hlost]
      rcases prepare_run heng hk now l with hrun | ⟨hover, hm, hno⟩
      · rw [hr] at hrun
        refine .inl ⟨⟨hg, hrun.sends, fun hx => hrun.stateModem.trans (hmodem hx), hrun.pending, fun hm hends => ?_⟩,
          fun hm hpump => ⟨hrun.stateModem.trans hm, .body rfl rfl (hrun.drains hm hpump)⟩⟩
        exact (hrun.free (hrun.stateModem.symm.trans hm) hends).alert _
      · rw [hr] at hover
        refine .inr ⟨⟨hg, hover, ?_⟩, hno⟩
        by_contra hne
        exact absurd (hm.symm.trans (hout hne)) fun h => by cases h
    | false =>
      cases hmv with
      | quiet f d t n hi hi' hl hes ht hc =>
        refine .inl (pauses hb (.of_same heng rfl rfl rfl rfl rfl) (fun hx => ?_) fun l hl => ?_)
        · simp only [OutPc.idle, decide_eq_true_eq, hx] at hi'
          exact hi'.elim (fun h => by cases h) fun h => by cases h
        · rw [hl] at hi
          cases hi
      | prepare l => cases hb
      | calls kind extra l after => exact .inl (pauses rfl (.refl heng) id fun l' hl => by cases hl)
      | redo ha hr' hp' =>
        refine .inl (pauses rfl (.refl heng) (fun h => by cases h) fun l' hl => ?_)
        cases hl
        exact ha.elim (fun h => by cases h) fun h => by cases h
      | data l count =>
        obtain ⟨-, -, hstate⟩ := hat
        have hend : count = none → e.hdlcOut.hdlcState = .stEof := fun hc => (hpend (by rw [hc]; rfl)).2
        have hsw : Switches e count (OutPc.ofOutcome (e.dataSwitch now l count)) := dataSwitch_switches heng hstate hend
        generalize OutPc.ofOutcome (e.dataSwitch now l count) = q at hsw hg halert pauses
        cases count with
        | none =>
          have hst : q.1.stateOut = .stOutHdlcFcs := hsw.stateOut
          have hends : q.1.Ends ↔ e.Ends := by rw [T38Engine.Ends, T38Engine.Ends, hsw.hdlcOut, hsw.bufOut]
          have hfree : q.2.1.Free := hsw.free fun h => by cases h
          refine .inl ⟨⟨hg, hsw.sends, fun hx => hsw.stateModem.trans (hmodem hx), fun hx => absurd hx (hsw.pending _),
            fun _ _ => hfree.alert _⟩, fun hm _ => ⟨hsw.stateModem.trans hm, ?_⟩⟩
          refine .rest (by simp [OutPc.isBody]) (.inr hst) hends ?_
          simp only [pumpRank, hsw.hdlcOut, hsw.bufOut, hst, hstate]
          simp
        | some bs =>
          have hends : q.1.Ends ↔ e.Ends := by rw [T38Engine.Ends, T38Engine.Ends, hsw.hdlcOut, hsw.bufOut]
          have hst : q.1.stateOut = e.stateOut := hsw.stateOut.trans hstate.symm
          have hp : Pauses e q.1 := ⟨hsw.sends, hsw.stateModem, hends, by rw [hsw.hdlcOut], hst,
            by simp only [pumpRank, hsw.hdlcOut, hsw.bufOut, hst]⟩
          exact .inl (pauses rfl hp (fun hx => absurd hx (hsw.pending _)) fun l' hl => by cases hl)
      | leaves l => exact .inl (pauses rfl (.refl heng) (fun h => by cases h) fun l' hl => by cases hl)
      | again hr' =>
        exact .inl (pauses rfl (.of_same heng rfl rfl rfl rfl rfl) (fun h => by cases h) fun l' hl => by cases hl)
      | packet hr' =>
        exact .inl (pauses rfl (.of_same heng rfl rfl rfl rfl rfl) (fun h => by cases h) fun l' hl => by cases hl)

/-- The other threads leave the data of a signal that is stopped alone. -/
theorem Pumping.other_step (h : s.Pumping) (ha : a ≠ .out) (hok : a ≠ .resetModemState) (hs : Steps s a s' es) :
    s'.Pumping ∧ (s.e.stateModem = .stmOutNoMoreData → s.e.Pumps →
      s'.e.stateModem = .stmOutNoMoreData ∧ Advances s a s') := by
  have hg := grammatical_step h.grammatical hs
  have heng := h.engine
  have stay {s' : Sys} (hg : ∃ ps, s'.Grammatical ps) (hp : Pauses s.e s'.e) (ho : s'.out = s.out)
      (hr : s.e.outDataReady = true → s'.e.outDataReady = true)
      (hm : s'.modem ≠ .out → s.e.stateModem = .stmOutMoreData) :
      s'.Pumping ∧ (s.e.stateModem = .stmOutNoMoreData → s.e.Pumps →
        s'.e.stateModem = .stmOutNoMoreData ∧ Advances s a s') := by
    refine ⟨⟨hg, hp.sends, fun hx => hp.stateModem.trans (hm hx), fun hx => ?_, fun hm hends => ?_⟩,
      fun hm hpump => ⟨hp.stateModem.trans hm, .of_pauses (fun hx => ha hx.1) hpump hp⟩⟩
    · obtain ⟨h1, h2⟩ := h.pending (ho ▸ hx)
      exact ⟨hp.stateOut.trans h1, hp.hdlcState.trans h2⟩
    · have halert := h.alert (hp.stateModem.symm.trans hm) fun hx => hp.ends.mp (hends (hp.stateOut.trans hx))
      rw [ho]
      exact fun hx => hr (halert hx)
  have more {s' : Sys} (hg : ∃ ps, s'.Grammatical ps) (hm : s.e.stateModem = .stmOutMoreData) (he : s'.e.SendsEcm)
      (ho : s'.out = s.out) (hmodem : s'.modem = .out) (hst : s'.e.stateOut = s.e.stateOut)
      (hd : s'.e.hdlcOut = s.e.hdlcOut) (halert : s'.e.stateModem = .stmOutNoMoreData → s'.e.outDataReady = true) :
      s'.Pumping ∧ (s.e.stateModem = .stmOutNoMoreData → s.e.Pumps →
        s'.e.stateModem = .stmOutNoMoreData ∧ Advances s a s') := by
    refine ⟨⟨hg, he, fun hx => absurd hmodem hx, fun hx => ?_, fun hm _ _ => halert hm⟩,
      fun hno => absurd (hm.symm.trans hno) fun h => by cases h⟩
    rw [hst, hd]
    exact h.pending (ho ▸ hx)
  cases hs with
  | tick ms => exact stay hg (.refl heng) rfl id h.modem
  | out => exact absurd rfl ha
  | setPreparePacketTimeout timeout period =>
    refine stay hg ?_ rfl ?_ h.modem
    · unfold T38Engine.setPreparePacketTimeout
      split
      · exact .refl heng
      · exact .of_same heng rfl rfl rfl rfl rfl
    · unfold T38Engine.setPreparePacketTimeout
      split <;> exact id
  | receives _ hr =>
    have hsame := hr.engine
    have hst : s'.e.stateModem = s.e.stateModem := by
      rcases hsame.stateModem with hx | ⟨hx, -⟩
      · exact hx
      · exact absurd (hx.symm.trans heng.isOut) Bool.false_ne_true
    refine stay hg (.of_same heng hsame.modParsOut hst hsame.stateOut hsame.bufOut
      (congrArg (·.hdlcOut) hsame.outSide)) hr.out hsame.ready fun hx => h.modem (hr.modem ▸ hx)
  | sendOnIdle dataType hm =>
    exact stay hg (.of_same heng rfl rfl rfl rfl rfl) rfl (fun _ => rfl) fun hx => absurd hm hx
  | sendStart dataType param hm =>
    rw [T38Engine.sendStart_busy heng.isOut] at hg ⊢
    exact stay hg (.refl heng) rfl id h.modem
  | checkSend bs hm hc =>
    have hmore : s.e.stateModem = .stmOutMoreData := by
      simp only [T38Engine.canSend, decide_eq_true_eq] at hc
      exact hc.2
    exact stay hg (.refl heng) rfl id fun _ => hmore
  | refuseSend bs hm hc => exact stay hg (.refl heng) rfl id h.modem
  | checkSendStop moreFrames callbackParam hm hc =>
    have hmore : s.e.stateModem = .stmOutMoreData := by
      simp only [T38Engine.canSend, decide_eq_true_eq] at hc
      exact hc.2
    exact stay hg (.refl heng) rfl id fun _ => hmore
  | refuseSendStop moreFrames callbackParam hm hc => exact stay hg (.refl heng) rfl id h.modem
  | send bs hm =>
    have hmore := h.modem (by rw [hm]; exact fun h => by cases h)
    refine more hg hmore ⟨heng.pars, heng.isOut, fun hx => absurd (hmore.symm.trans hx) fun h => (by cases h), heng.decodes,
      heng.closed⟩ rfl rfl rfl rfl fun hx => absurd (hmore.symm.trans hx) fun h => by cases h
  | sendStop moreFrames callbackParam hm =>
    have hmore := h.modem (by rw [hm]; exact fun h => by cases h)
    exact more hg hmore ⟨heng.pars, rfl, fun _ => rfl, heng.decodes, heng.closed⟩ rfl rfl rfl rfl fun _ => rfl
  | resetModemState hm => exact absurd rfl hok

theorem Pumping.step (h : s.Pumping) (hok : a ≠ .resetModemState) (hs : Steps s a s' es) :
    (s'.Pumping ∧ (s.e.stateModem = .stmOutNoMoreData → s.e.Pumps →
      s'.e.stateModem = .stmOutNoMoreData ∧ Advances s a s')) ∨ s'.Spent ∧ ¬s.e.Pumps := by
  by_cases ha : a = .out
  · subst ha
    exact h.out_step hs
  · exact .inl (h.other_step ha hok hs)

/-- The modem resets nothing, and starts nothing behind the signal. -/
def Unbroken (s : Sys) (a : Act) : Prop := a ≠ .resetModemState ∧ (s.e.stateModem.isOut = false → s.Patient a)

instance (s : Sys) (a : Act) : Decidable (s.Unbroken a) := inferInstanceAs (Decidable (_ ∧ _))

/-- A signal that is over stays so. -/
theorem Spent.step (h : s.Spent) (hok : s.Unbroken a) (hs : Steps s a s' es) : s'.Spent := by
  have hg := grammatical_step h.grammatical hs
  by_cases ha : a = .out
  · subst ha
    obtain ⟨ps, hgr⟩ := h.grammatical
    obtain ⟨o, -, hat⟩ := hgr.begun
    have hidle := h.isOut
    have hmodem := h.modem
    cases hs with
    | receives ha => cases ha
    | @out r hr =>
      have hmv := hr ▸ hgr.attached.moves
      refine ⟨hg, ?_, hmodem⟩
      clear hg
      dsimp only
      generalize s.out = pc at hmv hat
      cases hmv with
      | prepare l =>
        obtain ⟨-, hk⟩ := (OutPc.at_idle rfl).mp hat
        rw [(OutPc.prepare_rests s.now hk hidle l).1]
        exact hidle
      | data l count =>
        obtain ⟨-, hk, hd⟩ := hat
        have hbusy := hk.busy (by simp [hd]) (by simp [hd])
        exact absurd (hidle.symm.trans hbusy) Bool.false_ne_true
      | _ => exact hidle
  · have hb := hs.beside_patient ha (hok.2 h.isOut) h.modem (not_more h.isOut)
    exact ⟨hg, hb.isOut.trans h.isOut, hb.modem.trans h.modem⟩

/-- A signal that is begun has nothing of an earlier one in its hands. -/
theorem Pumping.of_sendStart {s₀ s₁ : Sys} {param : Int} (hg : ∃ ps, s₀.Grammatical ps)
    (hs : Steps s₀ (.sendStart .dtRaw param) s₁ [.sendStart .dtRaw true])
    (ht38 : s₁.e.modParsOut.dataTypeT38 = .dtHdlc) : s₁.Pumping := by
  have hg' := grammatical_step hg hs
  obtain ⟨ps, hgr⟩ := hg
  generalize hes : [Event.sendStart .dtRaw true] = es at hs
  cases hs with
  | receives ha => cases ha
  | sendStart _ _ hm =>
    obtain ⟨o, -, hat⟩ := hgr.begun
    obtain ⟨_, hsend⟩ := hat.sends
    have hok : (s₀.e.sendStart .dtRaw param).1 = true := by simpa using hes.symm
    obtain ⟨hidle, hmore, -, hstate, hdata, -⟩ := Conveys.sendStart_accepted (.inr rfl) hok
    have hout : s₀.e.stateModem.isOut = false := by rw [hidle]; rfl
    have hno : ¬(s₀.e.sendStart .dtRaw param).2.Pumps := by
      rw [Pumps, hstate]
      rcases hsend.quiet hout with hq | hq <;> simp [hq]
    refine ⟨hg', ⟨⟨hdata, ht38⟩, ?_, fun hx => ?_, fun hx => absurd hx hno, fun hx => absurd (.inr hx) hno⟩,
      fun hx => absurd hm hx, fun hx => ?_, fun hx => ?_⟩
    · rw [hmore]
      rfl
    · exact absurd (hmore.symm.trans hx) fun h => by cases h
    · exact absurd (hout.symm.trans (hat.busy hx)) Bool.false_ne_true
    · exact absurd (hmore.symm.trans hx) fun h => by cases h

/-- The data of a signal that is stopped is being sent. -/
structure Draining (s : Sys) : Prop where
  pumping : s.Pumping
  stopped : s.e.stateModem = .stmOutNoMoreData
  pumps : s.e.Pumps

/-- A step of a signal that is stopped: the data goes on, or it ends as the condition says. -/
theorem Draining.step (h : s.Draining) (hok : a ≠ .resetModemState) (hs : Steps s a s' es) :
    (s'.Draining ∧ (s'.e.Ends ↔ s.e.Ends) ∧ (s.e.Ends → s'.e.pumpRank ≤ s.e.pumpRank ∧
      (a = .out → s.out.isBody = true → s'.e.pumpRank < s.e.pumpRank))) ∨
      s'.e.stateOut = .stOutDataNoSig ∧ s.e.Ends := by
  rcases h.pumping.step hok hs with ⟨hp, hn⟩ | ⟨-, hno⟩
  · obtain ⟨hm, hadv⟩ := hn h.stopped h.pumps
    cases hadv with
    | body ha hb hd =>
      cases hd with
      | goes hpump hends hrank => exact .inl ⟨⟨hp, hm, hpump⟩, hends, fun he => ⟨(hrank he).le, fun _ _ => hrank he⟩⟩
      | leaves hnosig hends => exact .inr ⟨hnosig, hends⟩
    | rest hb hpump hends hrank =>
      exact .inl ⟨⟨hp, hm, hpump⟩, hends, fun _ => ⟨hrank, fun ha hbody => absurd ⟨ha, hbody⟩ hb⟩⟩
  · exact absurd h.pumps hno

/-- The thread of a signal that is stopped and ends waits for nothing. -/
theorem Draining.awake (h : s.Draining) (he : s.e.Ends) : OutPc.Awake s.e s.out :=
  (h.pumping.alert h.stopped fun _ => he).awake

section

variable {p : Machine.Path machine fun _ a => a ≠ .resetModemState} {n : Nat}

/-- The data of a signal goes on and does not lose its end, or it has ended. -/
theorem Draining.path (h : (p.state 0).Draining) (n : Nat) :
    ((p.state n).Draining ∧ ((p.state n).e.Ends ↔ (p.state 0).e.Ends)) ∨ (p.state 0).e.Ends := by
  induction n with
  | zero => exact .inl ⟨h, .rfl⟩
  | succ n ih =>
    rcases ih with ⟨hd, hends⟩ | he
    · rcases hd.step (p.allowed n) (Lively.steps p n) with ⟨hd', hends', -⟩ | ⟨-, he⟩
      · exact .inl ⟨hd', hends'.trans hends⟩
      · exact .inr (hends.mp he)
    · exact .inr he

/-- A signal that ends comes to its end. -/
theorem Draining.ends (h : (p.state 0).Draining) (fair : Lively p) (he : (p.state 0).e.Ends) :
    ∃ n, (p.state n).e.stateOut = .stOutDataNoSig := by
  by_contra hne
  have goes (n : Nat) : (p.state n).Draining ∧ (p.state n).e.Ends := by
    induction n with
    | zero => exact ⟨h, he⟩
    | succ n ih =>
      rcases ih.1.step (p.allowed n) (Lively.steps p n) with ⟨hd, hends, -⟩ | ⟨hs, -⟩
      · exact ⟨hd, hends.mpr ih.2⟩
      · exact absurd ⟨n + 1, hs⟩ hne
  have rank (n : Nat) : (p.state (n + 1)).e.pumpRank ≤ (p.state n).e.pumpRank ∧
      (p.act n = .out → (p.state n).out.isBody = true → (p.state (n + 1)).e.pumpRank < (p.state n).e.pumpRank) := by
    rcases (goes n).1.step (p.allowed n) (Lively.steps p n) with ⟨-, -, hrank⟩ | ⟨hs, -⟩
    · exact hrank (goes n).2
    · exact absurd ⟨n + 1, hs⟩ hne
  refine p.not_lowered_often (f := fun s => s.e.pumpRank) (n := 0) (fun n _ => (rank n).1) fun k _ => ?_
  obtain ⟨m, hm, -, ha, hb⟩ := fair.body_again (n := k) (fun m _ => (goes m).1.pumping.attached)
    (fun m _ => (goes m).1.awake (goes m).2) 0
  exact ⟨m, hm, (rank m).2 ha hb⟩

/-- A signal whose data is being sent comes to its end if and only if it ends. -/
theorem Draining.ends_iff (h : (p.state 0).Draining) (fair : Lively p) :
    (∃ n, (p.state n).e.stateOut = .stOutDataNoSig) ↔ (p.state 0).e.Ends := by
  refine ⟨fun ⟨n, hn⟩ => ?_, h.ends fair⟩
  rcases h.path n with ⟨hd, -⟩ | he
  · rcases hd.pumps with hx | hx <;> exact absurd (hx.symm.trans hn) fun h => by cases h
  · exact he

end

theorem Draining.of_run {junk : Hdlc} {now : Int} {as₀ : List Act} {es₀ : List Event} {s₀ s₁ : Sys} {param : Int}
    (h₀ : machine.Run (fun _ _ => True) (Sys.start junk now) as₀ es₀ s₀)
    (hstart : machine.step s₀ (.sendStart .dtRaw param) = some (s₁, [.sendStart .dtRaw true]))
    (ht38 : s₁.e.modParsOut.dataTypeT38 = .dtHdlc) {as : List Act} (h : machine.Run Unbroken s₁ as es s)
    (hm : s.e.stateModem = .stmOutNoMoreData) (hs : s.e.Pumps) : s.Draining := by
  have hg : ∃ ps, s₀.Grammatical ps :=
    h₀.state_invariant (I := fun s => ∃ ps, s.Grammatical ps) ⟨[], .start junk now⟩
      fun s a s' es' hi _ hs => grammatical_step hi (step_cases hs)
  have hinv : s.Pumping ∨ s.Spent := by
    refine h.state_invariant (I := fun s => s.Pumping ∨ s.Spent) (.inl (.of_sendStart hg (step_cases hstart) ht38))
      fun s a s' es' hi hok hs => ?_
    rcases hi with hi | hi
    · exact (hi.step hok.1 (step_cases hs)).imp And.left And.left
    · exact .inr (hi.step hok (step_cases hs))
  rcases hinv with hi | hi
  · exact ⟨hi, hm, hs⟩
  · have hout := hi.isOut
    rw [hm] at hout
    cases hout

/-- A signal that the modem sends as raw HDLC, and that goes to the other side in frames, is stopped while its
data is being sent. Every run that is long enough brings it to its end if the octets still to be read close a
frame, and no run does if they do not. -/
theorem run_drains {junk : Hdlc} {now : Int} {as₀ : List Act} {es₀ : List Event} {s₀ s₁ : Sys} {param : Int}
    (h₀ : machine.Run (fun _ _ => True) (Sys.start junk now) as₀ es₀ s₀)
    (hstart : machine.step s₀ (.sendStart .dtRaw param) = some (s₁, [.sendStart .dtRaw true]))
    (ht38 : s₁.e.modParsOut.dataTypeT38 = .dtHdlc) {as : List Act} (h : machine.Run Unbroken s₁ as es s)
    (hm : s.e.stateModem = .stmOutNoMoreData) (hs : s.e.Pumps)
    {p : Machine.Path machine fun _ a => a ≠ .resetModemState} (hp : p.state 0 = s) (fair : Lively p) :
    (∃ n, (p.state n).e.stateOut = .stOutDataNoSig) ↔ s.e.Ends := by
  subst hp
  exact (Draining.of_run h₀ hstart ht38 h hm hs).ends_iff fair

/-- Error correction is agreed on, and the other side is quiet. -/
def agreed : List Act := agreement ++ [.handlePacket (t38indicator .noSignal)]

/-- The image is begun, and a frame between flags is handed in. -/
def frameIn : List Act :=
  (List.replicate 2 (.tick 10000 :: List.replicate 7 .out)).flatten ++
    [.send [0x7E, 0x55, 0x55, 0x55, 0x55, 0x7E, 0x7E], .modem]

/-- The modem stops the image at once. -/
def stopsAtOnce : List Act := frameIn ++ [.sendStop false 7, .modem]

/-- The modem stops the image when all of it is read. -/
def stopsLate : List Act :=
  frameIn ++ (List.replicate 4 (.tick 30 :: List.replicate 7 .out)).flatten ++ [.sendStop false 7, .modem]

/-- An image that is stopped as `as` says ends, or does not. -/
def imageStops (as : List Act) (ends : Bool) : Bool :=
  (machine.exec (fun _ _ => True) (start default 0) agreed).any fun x =>
    (machine.step x.1 (.sendStart .dtRaw 96)).any fun y =>
      decide (y.2 = [.sendStart .dtRaw true] ∧ y.1.e.modParsOut.dataTypeT38 = .dtHdlc) &&
        (machine.exec Unbroken y.1 as).any fun z =>
          decide (z.1.e.stateModem = .stmOutNoMoreData ∧ z.1.e.Pumps ∧ z.1.e.isCarrierIn = 0 ∧
            (z.1.e.Ends ↔ ends = true))

theorem image_run {as : List Act} {ends : Bool} (h : imageStops as ends = true) :
    ∃ (s₀ s₁ s : Sys) (es₀ es : List Event) (p : Machine.Path machine fun _ a => a ≠ .resetModemState),
      machine.Run (fun _ _ => True) (start default 0) agreed es₀ s₀ ∧
      machine.step s₀ (.sendStart .dtRaw 96) = some (s₁, [.sendStart .dtRaw true]) ∧
      s₁.e.modParsOut.dataTypeT38 = .dtHdlc ∧ machine.Run Unbroken s₁ as es s ∧
      s.e.stateModem = .stmOutNoMoreData ∧ s.e.Pumps ∧ p.state 0 = s ∧ Lively p ∧ (s.e.Ends ↔ ends = true) := by
  obtain ⟨s₀, es₀, h₀, hx⟩ := Machine.exec_passes h
  obtain ⟨⟨s₁, es₁⟩, hstart, hy⟩ := (Option.any_eq_true _ _).mp hx
  obtain ⟨hes, hz⟩ := Bool.and_eq_true _ _ ▸ hy
  obtain ⟨rfl, ht38⟩ := of_decide_eq_true hes
  obtain ⟨s, es, h, ht⟩ := Machine.exec_passes hz
  obtain ⟨hm, hs, hc, hends⟩ := of_decide_eq_true ht
  have att₁ : s₀.Attached :=
    h₀.state_invariant (I := Attached) ⟨rfl, rfl, rfl⟩ fun s a s' es' hi _ hs => hi.step (step_cases hs)
  have att : s.Attached :=
    h.state_invariant (I := Attached) (att₁.step (step_cases hstart)) fun s a s' es' hi _ hs => hi.step (step_cases hs)
  obtain ⟨p, hp, fair, -⟩ := exists_lively att hc
  have patient (s : Sys) (a : Act) (hok : s.Patient a) : a ≠ .resetModemState := by
    rintro rfl
    cases hok
  exact ⟨s₀, s₁, s, es₀, es, p.mono patient, h₀, hstart, ht38, h, hm, hs, hp, ⟨fair.often, fair.time⟩, hends⟩

theorem atOnce_drains : ∃ (s₀ s₁ s : Sys) (es₀ es : List Event)
    (p : Machine.Path machine fun _ a => a ≠ .resetModemState),
      machine.Run (fun _ _ => True) (start default 0) agreed es₀ s₀ ∧
      machine.step s₀ (.sendStart .dtRaw 96) = some (s₁, [.sendStart .dtRaw true]) ∧
      machine.Run Unbroken s₁ stopsAtOnce es s ∧ p.state 0 = s ∧ Lively p ∧
      ∃ n, (p.state n).e.stateOut = .stOutDataNoSig := by
  have hx : imageStops stopsAtOnce true = true := by decide +kernel
  obtain ⟨s₀, s₁, s, es₀, es, p, h₀, hstart, ht38, h, hm, hs, hp, fair, hends⟩ := image_run hx
  exact ⟨s₀, s₁, s, es₀, es, p, h₀, hstart, h, hp, fair,
    (run_drains h₀ hstart ht38 h hm hs hp fair).mpr (hends.mpr rfl)⟩

/-- The octets of `atOnce_drains`, stopped later: the data goes on for ever. -/
theorem late_undrained : ∃ (s₀ s₁ s : Sys) (es₀ es : List Event)
    (p : Machine.Path machine fun _ a => a ≠ .resetModemState),
      machine.Run (fun _ _ => True) (start default 0) agreed es₀ s₀ ∧
      machine.step s₀ (.sendStart .dtRaw 96) = some (s₁, [.sendStart .dtRaw true]) ∧
      s₁.e.modParsOut.dataTypeT38 = .dtHdlc ∧ machine.Run Unbroken s₁ stopsLate es s ∧
      s.e.stateModem = .stmOutNoMoreData ∧ s.e.Pumps ∧ p.state 0 = s ∧ Lively p ∧
      ∀ n, (p.state n).e.stateOut ≠ .stOutDataNoSig := by
  have hx : imageStops stopsLate false = true := by decide +kernel
  obtain ⟨s₀, s₁, s, es₀, es, p, h₀, hstart, ht38, h, hm, hs, rfl, fair, hends⟩ := image_run hx
  have hd := Draining.of_run h₀ hstart ht38 h hm hs
  exact ⟨s₀, s₁, _, es₀, es, p, h₀, hstart, ht38, h, hm, hs, rfl, fair,
    fun n hn => absurd (hends.mp ((hd.ends_iff fair).mp ⟨n, hn⟩)) Bool.false_ne_true⟩

end Sys

end T38Modem
