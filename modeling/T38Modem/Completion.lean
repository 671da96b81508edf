import T38Modem.SenderGrammar
import T38Modem.SenderProgress

namespace T38Modem

/-- The parameters with which the modem has been told that an operation is complete. -/
def completions (es : List Event) : List Int :=
  es.filterMap fun | .callbackOut .paramOut extra => some extra | _ => none

theorem completions_append (es es' : List Event) : completions (es ++ es') = completions es ++ completions es' :=
  List.filterMap_append

theorem completions_eq_nil {es : List Event} (h : ∀ ev ∈ es, ev.sending = false) : completions es = [] := by
  refine List.filterMap_eq_nil_iff.mpr fun ev hev => ?_
  cases ev with
  | callbackOut kind extra => cases h _ hev
  | _ => rfl

/-- The states in which the sender ends a CED or a silence as soon as it runs. -/
def StateOut.isTimed (s : StateOut) : Bool := s = .stOutCedWait ∨ s = .stOutSilenceWait

/-- A CED or a silence is to be sent, or is being sent. -/
structure T38Engine.Times (e : T38Engine) : Prop where
  isOut : e.stateModem.isOut = true
  state : e.stateOut = .stOutIdle ∨ e.stateOut = .stOutNoSig ∨ e.stateOut.isTimed = true
  data : (e.modParsOut.dataType = .dtCed ∧ e.modParsOut.dataTypeT38 = .dtCed) ∨
    (e.modParsOut.dataType = .dtSilence ∧ e.modParsOut.dataTypeT38 = .dtSilence)

namespace OutPc

/-- The body of `PreparePacket` in a CED or a silence. -/
inductive Timed (e : T38Engine) (now : Int) : T38Engine × OutPc × List Event → Prop
  | noSig {e' : T38Engine} (l : Locals) (hs : e.stateOut = .stOutNoSig) (hm : e'.stateModem = e.stateModem)
      (hs' : e'.stateOut = .stOutIdle) : Timed e now (e', .leave l, [])
  | early (l : Locals) (hs : e.stateOut = .stOutIdle) (ht : now < e.timeBeginOut) : Timed e now (e, .leave l, [])
  | begins {e' : T38Engine} (l : Locals) (hs : e.stateOut = .stOutIdle) (hm : e'.stateModem = e.stateModem)
      (hs' : e'.stateOut.isTimed = true) : Timed e now (e', .leave l, [])
  | ends {e' : T38Engine} (l : Locals) (after : AfterOut) (hs : e.stateOut.isTimed = true)
      (hm : e'.stateModem = .stmIdle) : Timed e now (e', .calling .paramOut e.callbackParamOut l after, [])

variable {e : T38Engine} {now : Int}

theorem outIdle_timed (h : e.Times) (hs : e.stateOut = .stOutIdle) (l : Locals) :
    Timed e now (ofOutcome (e.outIdle now l)) := by
  unfold T38Engine.outIdle
  split
  next hc => exact .early _ hs hc.2.2
  next =>
    have hwait : T38Engine.waitms e.modParsOut = 0 := by
      rcases h.data with ⟨data, -⟩ | ⟨data, -⟩ <;> simp [T38Engine.waitms, data]
    have hcarrier : ({ e with delaySignalOut := false } : T38Engine).waitCarrier now =
        (false, { e with delaySignalOut := false }) := by
      simp [T38Engine.waitCarrier, hwait]
    rw [hcarrier]
    rcases h.data with ⟨-, t38⟩ | ⟨-, t38⟩
    · simp only [t38]
      exact .begins _ hs rfl rfl
    · simp only [t38]
      exact .begins _ hs rfl rfl

theorem prepare_timed (h : e.Times) (l : Locals) : Timed e now (ofOutcome (e.prepare now l)) := by
  unfold T38Engine.prepare
  rw [if_pos (.inl h.isOut)]
  rcases h.state with hs | hs | hs
  · simp only [hs]
    exact outIdle_timed h hs l
  · simp only [hs]
    exact .noSig _ hs rfl rfl
  · have hs' := hs
    simp only [StateOut.isTimed, decide_eq_true_eq] at hs'
    rcases hs' with hs' | hs'
    · simp only [hs']
      exact .ends _ _ hs rfl
    · simp only [hs']
      exact .ends _ _ hs rfl

/-- While the modem does not send, the body of `PreparePacket` has nothing to tell it. -/
theorem prepare_rests {o : Stage} (now : Int) (h : Sends o e) (hm : e.stateModem.isOut = false) (l : Locals) :
    (ofOutcome (e.prepare now l)).1.stateModem = e.stateModem ∧
      (ofOutcome (e.prepare now l)).2.1.callback = none ∧ (ofOutcome (e.prepare now l)).2.2 = [] := by
  unfold T38Engine.prepare
  by_cases hs : e.stateOut = .stOutIdle
  · rw [if_neg (by simp [hm, hs])]
    unfold T38Engine.onIdle
    split <;> exact ⟨rfl, rfl, rfl⟩
  · have hno : e.stateOut = .stOutNoSig := (h.quiet hm).resolve_left hs
    rw [if_pos (.inr hs)]
    simp only [hno]
    exact ⟨rfl, rfl, rfl⟩

end OutPc

/-- A step of the modem's thread. -/
def Act.ofModem : Act → Bool
  | .tick _ | .out | .setPreparePacketTimeout .. | .openIn | .handlePacket _ | .inn | .handlePacketLost => false
  | _ => true

namespace Sys

/-- The modem does nothing, and the sender does not come to the end of a CED or a silence. -/
def Early (s : Sys) (a : Act) : Prop :=
  a.ofModem = false ∧ (a = .out → s.out.isBody = true → s.e.stateOut.isTimed = false)

instance (s : Sys) (a : Act) : Decidable (s.Early a) := inferInstanceAs (Decidable (_ ∧ _))

/-- What a step of another thread leaves to the thread in `PreparePacket`. -/
structure Beside (s s' : Sys) (es : List Event) : Prop where
  out : s'.out = s.out
  modem : s'.modem = s.modem
  isOut : s'.e.stateModem.isOut = s.e.stateModem.isOut
  stateModem : s.e.stateModem.isOut = true → s'.e.stateModem = s.e.stateModem
  stateOut : s'.e.stateOut = s.e.stateOut
  timeBeginOut : s'.e.timeBeginOut = s.e.timeBeginOut
  modParsOut : s'.e.modParsOut = s.e.modParsOut
  callbackParamOut : s'.e.callbackParamOut = s.e.callbackParamOut
  ready : s.e.outDataReady = true → s'.e.outDataReady = true
  completions : completions es = []

/-- The sender has a CED or a silence to time, and no callback of an earlier operation is to be made. -/
structure Timing (m : StateModem) (cb : Int) (pc : ModemPc) (s : Sys) : Prop where
  grammatical : ∃ ps, s.Grammatical ps
  stateModem : s.e.stateModem = m
  callbackParam : s.e.callbackParamOut = cb
  modem : s.modem = pc
  data : s.e.modParsOut.dataType = .dtCed ∨ s.e.modParsOut.dataType = .dtSilence
  calm : s.out.callback ≠ some .paramOut
  awake : OutPc.Awake s.e s.out

/-- The modem is about to be told that the operation with the parameter `cb` is complete. -/
structure Completing (cb : Int) (pc : ModemPc) (s : Sys) : Prop where
  grammatical : ∃ ps, s.Grammatical ps
  idle : s.e.stateModem.isOut = false
  modem : s.modem = pc
  call : ∃ l after, s.out = .calling .paramOut cb l after

/-- Nothing is being sent for the modem. -/
structure Resting (s : Sys) : Prop where
  grammatical : ∃ ps, s.Grammatical ps
  idle : s.e.stateModem.isOut = false
  modem : s.modem = .out
  calm : s.out.callback ≠ some .paramOut

variable {s s' : Sys} {a : Act} {es : List Event} {m : StateModem} {cb : Int} {pc : ModemPc}

theorem grammatical_step (h : ∃ ps, s.Grammatical ps) (hs : Steps s a s' es) : ∃ ps, s'.Grammatical ps := by
  obtain ⟨ps, hg⟩ := h
  obtain ⟨ps', -, hg'⟩ := hg.step hs
  exact ⟨_, hg'⟩

theorem Steps.beside_other (hs : Steps s a s' es) (ha : a ≠ .out) (hm : a.ofModem = false ∨ a.receiving = true) :
    Beside s s' es := by
  cases hs with
  | tick ms => exact ⟨rfl, rfl, rfl, fun _ => rfl, rfl, rfl, rfl, rfl, id, rfl⟩
  | out => exact absurd rfl ha
  | setPreparePacketTimeout timeout period =>
    unfold T38Engine.setPreparePacketTimeout
    split <;> exact ⟨rfl, rfl, rfl, fun _ => rfl, rfl, rfl, rfl, rfl, id, rfl⟩
  | receives _ hr =>
    have he := hr.engine
    refine ⟨hr.out, hr.modem, he.isOut, fun hi => ?_, he.stateOut, congrArg (·.timeBeginOut) he.outSide, he.modParsOut,
      he.callbackParamOut, he.ready, completions_eq_nil hr.events⟩
    rcases he.stateModem with h | ⟨h, -⟩
    · exact h
    · rw [hi] at h
      cases h
  | _ => rcases hm with hm | hm <;> cases hm

/-- A modem that lets its operation be, and cannot send. -/
theorem Steps.beside_patient (hs : Steps s a s' es) (ha : a ≠ .out) (hok : s.Patient a) (hm : s.modem = .out)
    (hno : s.e.stateModem ≠ .stmOutMoreData) : Beside s s' es := by
  by_cases ho : a.ofModem = false ∨ a.receiving = true
  · exact hs.beside_other ha ho
  · have hcan : s.e.canSend = false := by simp [T38Engine.canSend, hno]
    cases hs with
    | sendOnIdle dataType hm => exact ⟨rfl, rfl, rfl, fun _ => rfl, rfl, rfl, rfl, rfl, fun _ => rfl, rfl⟩
    | refuseSend bs hm hc => exact ⟨rfl, rfl, rfl, fun _ => rfl, rfl, rfl, rfl, rfl, id, rfl⟩
    | refuseSendStop moreFrames callbackParam hm hc =>
      exact ⟨rfl, rfl, rfl, fun _ => rfl, rfl, rfl, rfl, rfl, id, rfl⟩
    | checkSend bs hm hc => exact absurd (hcan.symm.trans hc) Bool.false_ne_true
    | checkSendStop moreFrames callbackParam hm hc => exact absurd (hcan.symm.trans hc) Bool.false_ne_true
    | send bs hs => cases hm.symm.trans hs
    | sendStop moreFrames callbackParam hs => cases hm.symm.trans hs
    | sendStart dataType param hm => cases hok
    | resetModemState hm => cases hok
    | receives ha => exact absurd (.inr ha) ho
    | out => exact absurd rfl ha
    | _ => exact absurd (.inl rfl) ho

namespace Timing

theorem attached (h : s.Timing m cb pc) : s.Attached := h.grammatical.elim fun _ hg => hg.attached

/-- A CED and a silence go through no state of a signal. -/
theorem times (h : s.Timing m cb pc) (hm : m.isOut = true) : s.e.Times := by
  obtain ⟨ps, hg⟩ := h.grammatical
  obtain ⟨o, -, ha⟩ := hg.begun
  obtain ⟨o', hk⟩ := ha.sends
  have timed := h.data
  have hout : s.e.stateModem.isOut = true := by rw [h.stateModem]; exact hm
  have hno : ¬(s.e.stateOut = .stOutIndWait ∨ s.e.stateOut = .stOutData ∨ s.e.stateOut = .stOutHdlcFcs ∨
      s.e.stateOut = .stOutDataNoSig) := fun hsig => by
    obtain ⟨-, data, -⟩ := hk.signal hsig
    rcases data with data | data <;> simp [data] at timed
  refine ⟨hout, ?_, ?_⟩
  · cases hs : s.e.stateOut <;> simp [hs, StateOut.isTimed] at hno ⊢
  · rcases hk.pars hout with ⟨data, t38, -⟩ | ⟨data, t38⟩ | ⟨-, -, data, -⟩
    · exact .inl ⟨data, t38⟩
    · exact .inr ⟨data, t38⟩
    · rcases data with data | data <;> simp [data] at timed

theorem of_beside (h : s.Timing m cb pc) (hm : m.isOut = true) (hg : ∃ ps, s'.Grammatical ps)
    (hb : Beside s s' es) : s'.Timing m cb pc where
  grammatical := hg
  stateModem := (hb.stateModem (h.stateModem ▸ hm)).trans h.stateModem
  callbackParam := hb.callbackParamOut.trans h.callbackParam
  modem := hb.modem.trans h.modem
  data := by
    rw [hb.modParsOut]
    exact h.data
  calm := hb.out ▸ h.calm
  awake := by
    rw [hb.out]
    exact fun h7 => hb.ready (h.awake h7)

/-- The steps of the thread in `PreparePacket` that are not the body do nothing for the modem. -/
theorem out_quiet (h : s.Timing m cb pc) (hm : m.isOut = true) (hs : Steps s .out s' es)
    (hb : s.out.isBody = false) :
    s'.Timing m cb pc ∧ completions es = [] ∧ s'.e.stateOut = s.e.stateOut ∧
      s'.e.timeBeginOut = s.e.timeBeginOut := by
  have hg := grammatical_step h.grammatical hs
  have ht := h.times hm
  have hdata : s.e.stateOut ≠ .stOutData := fun hd => by simpa [hd, StateOut.isTimed] using ht.state
  obtain ⟨ps, hgr⟩ := h.grammatical
  obtain ⟨o, -, ha⟩ := hgr.begun
  have hpend : ∀ c, s.out.pending ≠ .data c := fun c hp => by
    simp only [OutPc.At, hp] at ha
    exact hdata ha.2.2
  cases hs with
  | receives ha => cases ha
  | @out r hr =>
    have hmv := hr ▸ h.attached.moves
    have hawake := hr ▸ OutPc.step_awake s.now h.attached.lostOut h.awake hb hpend
    have keep (hst : r.1.stateModem = s.e.stateModem) (hc : r.2.1.callback ≠ some .paramOut)
        (hes : completions r.2.2 = []) (hso : r.1.stateOut = s.e.stateOut)
        (hti : r.1.timeBeginOut = s.e.timeBeginOut) :
        ({ s with e := r.1, out := r.2.1 } : Sys).Timing m cb pc ∧ completions r.2.2 = [] ∧
          r.1.stateOut = s.e.stateOut ∧ r.1.timeBeginOut = s.e.timeBeginOut := by
      refine ⟨⟨hg, hst.trans h.stateModem, ?_, h.modem, ?_, hc, hawake⟩, hes, hso, hti⟩
      · exact (congrArg Prod.snd hmv.sameIn.stop).trans h.callbackParam
      · rw [hmv.sameIn.modParsOut]
        exact h.data
    clear hg hr
    obtain ⟨e, now, pc₀, inn, modem⟩ := s
    cases hmv with
    | quiet f d t n hi hi' hl hes ht hc =>
      refine keep rfl ?_ ?_ rfl (ht hdata)
      · rcases hc with hc | hc <;> simp [hc]
      · rcases hes with rfl | rfl <;> rfl
    | prepare l => cases hb
    | calls kind extra l after =>
      refine keep rfl (fun h => by cases h) ?_ rfl rfl
      have hkind : kind ≠ .paramOut := fun hk => h.calm (by rw [hk]; rfl)
      cases kind <;> first | rfl | exact absurd rfl hkind
    | redo ha hr hp => exact keep rfl (fun h => by cases h) rfl rfl rfl
    | data l count => exact absurd rfl (hpend count)
    | leaves l => exact keep rfl (fun h => by cases h) rfl rfl rfl
    | again hr => exact keep rfl (fun h => by cases h) rfl rfl rfl
    | packet hr => exact keep rfl (fun h => by cases h) rfl rfl rfl

/-- The body of `PreparePacket` brings the CED or the silence nearer to its end. -/
theorem out_body (h : s.Timing m cb pc) (hm : m.isOut = true) (hs : Steps s .out s' es)
    (hb : s.out.isBody = true) : completions es = [] ∧
      (s'.Timing m cb pc ∧ (s.e.stateOut = .stOutNoSig ∧ s'.e.stateOut = .stOutIdle ∨
        s.e.stateOut = .stOutIdle ∧ s.now < s.e.timeBeginOut ∧ s'.e = s.e ∨
        s.e.stateOut = .stOutIdle ∧ s'.e.stateOut.isTimed = true) ∨
      s.e.stateOut.isTimed = true ∧ s'.Completing cb pc) := by
  have hg := grammatical_step h.grammatical hs
  have ht := h.times hm
  cases hs with
  | receives ha => cases ha
  | @out r hr =>
    have hmv := hr ▸ h.attached.moves
    have hstep : ∃ l, r = OutPc.ofOutcome (s.e.prepare s.now l) := by
      cases hpc : s.out with
      | body l =>
        refine ⟨l, ?_⟩
        rw [← hr, hpc]
        simp [OutPc.step, h.attached.lostOut]
      | _ => simp [hpc, OutPc.isBody] at hb
    obtain ⟨l, hl⟩ := hstep
    have htimed : OutPc.Timed s.e s.now r := hl ▸ OutPc.prepare_timed ht l
    have keep (hst : r.1.stateModem = s.e.stateModem) (hpc : ∃ l', r.2.1 = .leave l') :
        ({ s with e := r.1, out := r.2.1 } : Sys).Timing m cb pc := by
      obtain ⟨l', hl'⟩ := hpc
      refine ⟨hg, hst.trans h.stateModem, ?_, h.modem, ?_, ?_, ?_⟩
      · exact (congrArg Prod.snd hmv.sameIn.stop).trans h.callbackParam
      · rw [hmv.sameIn.modParsOut]
        exact h.data
      · rw [hl']
        exact fun hp => by cases hp
      · rw [hl']
        exact fun h7 => by simp [OutPc.bodyRank] at h7
    have hcb := h.callbackParam
    have hpc := h.modem
    clear hr hl hmv
    cases htimed with
    | noSig l hs hst hs' => exact ⟨rfl, .inl ⟨keep hst ⟨l, rfl⟩, .inl ⟨hs, hs'⟩⟩⟩
    | early l hs ht => exact ⟨rfl, .inl ⟨keep rfl ⟨l, rfl⟩, .inr (.inl ⟨hs, ht, rfl⟩)⟩⟩
    | begins l hs hst hs' => exact ⟨rfl, .inl ⟨keep hst ⟨l, rfl⟩, .inr (.inr ⟨hs, hs'⟩)⟩⟩
    | ends l after hs hst =>
      refine ⟨rfl, .inr ⟨hs, hg, ?_, hpc, l, after, by rw [hcb]⟩⟩
      dsimp only
      rw [hst]
      rfl

end Timing

/-- Between the call that starts a CED or a silence and the one that stops it nothing is completed. -/
theorem Timing.early_step (h : s.Timing m cb pc) (hm : m.isOut = true) (hok : s.Early a) (hs : Steps s a s' es) :
    s'.Timing m cb pc ∧ completions es = [] := by
  obtain ⟨hmodem, hbody⟩ := hok
  by_cases ha : a = .out
  · subst ha
    cases hb : s.out.isBody with
    | false =>
      obtain ⟨ht, hc, -, -⟩ := h.out_quiet hm hs hb
      exact ⟨ht, hc⟩
    | true =>
      obtain ⟨hc, ⟨ht, -⟩ | ⟨hi, -⟩⟩ := h.out_body hm hs hb
      · exact ⟨ht, hc⟩
      · rw [hbody rfl hb] at hi
        cases hi
  · have hb := hs.beside_other ha (.inl hmodem)
    exact ⟨h.of_beside hm (grammatical_step h.grammatical hs) hb, hb.completions⟩

/-- After the call that stops it the sender goes on until it is complete. -/
theorem Timing.patient_step (h : s.Timing .stmOutNoMoreData cb .out) (hok : s.Patient a) (hs : Steps s a s' es) :
    completions es = [] ∧ (s'.Timing .stmOutNoMoreData cb .out ∨ s'.Completing cb .out) := by
  by_cases ha : a = .out
  · subst ha
    cases hb : s.out.isBody with
    | false =>
      obtain ⟨ht, hc, -, -⟩ := h.out_quiet rfl hs hb
      exact ⟨hc, .inl ht⟩
    | true =>
      obtain ⟨hc, ⟨ht, -⟩ | ⟨-, ht⟩⟩ := h.out_body rfl hs hb
      · exact ⟨hc, .inl ht⟩
      · exact ⟨hc, .inr ht⟩
  · have hb := hs.beside_patient ha hok h.modem (by simp [h.stateModem])
    exact ⟨hb.completions, .inl (h.of_beside rfl (grammatical_step h.grammatical hs) hb)⟩

theorem not_more (h : s.e.stateModem.isOut = false) : s.e.stateModem ≠ .stmOutMoreData := fun hm => by
  rw [hm] at h
  cases h

/-- The modem is called with the parameter of the operation. -/
theorem Completing.patient_step (h : s.Completing cb .out) (hok : s.Patient a) (hs : Steps s a s' es) :
    a = .out ∧ completions es = [cb] ∧ s'.Resting ∨ a ≠ .out ∧ completions es = [] ∧ s'.Completing cb .out := by
  have hg := grammatical_step h.grammatical hs
  obtain ⟨l, after, hcall⟩ := h.call
  by_cases ha : a = .out
  · subst ha
    cases hs with
    | receives ha => cases ha
    | @out r hr =>
      rw [hcall] at hr
      subst hr
      exact .inl ⟨rfl, rfl, hg, h.idle, h.modem, nofun⟩
  · have hb := hs.beside_patient ha hok h.modem (not_more h.idle)
    exact .inr ⟨ha, hb.completions, hg, hb.isOut.trans h.idle, hb.modem.trans h.modem, l, after, hb.out.trans hcall⟩

/-- As long as the modem starts nothing, nothing is completed. -/
theorem Resting.patient_step (h : s.Resting) (hok : s.Patient a) (hs : Steps s a s' es) :
    completions es = [] ∧ s'.Resting := by
  have hg := grammatical_step h.grammatical hs
  by_cases ha : a = .out
  · subst ha
    obtain ⟨ps, hgr⟩ := h.grammatical
    obtain ⟨o, -, hat⟩ := hgr.begun
    have hidle := h.idle
    cases hs with
    | receives ha => cases ha
    | @out r hr =>
      have hmv := hr ▸ hgr.attached.moves
      have hcalm := h.calm
      have hmodem := h.modem
      clear hr hgr h
      obtain ⟨e, now, pc, inn, modem⟩ := s
      dsimp only at hmv hat hidle hcalm hmodem hg ⊢
      cases hmv with
      | quiet f d t n hi hi' hl hes ht hc =>
        refine ⟨?_, hg, hidle, hmodem, ?_⟩
        · rcases hes with rfl | rfl <;> rfl
        · rcases hc with hc | hc <;> simp [hc]
      | prepare l =>
        obtain ⟨-, hk⟩ := (OutPc.at_idle rfl).mp hat
        obtain ⟨hst, hc, hes⟩ := OutPc.prepare_rests now hk hidle l
        exact ⟨by rw [hes]; rfl, hg, by rw [hst]; exact hidle, hmodem, by rw [hc]; nofun⟩
      | calls kind extra l after =>
        refine ⟨?_, hg, hidle, hmodem, nofun⟩
        have hkind : kind ≠ .paramOut := fun hk => hcalm (by rw [hk]; rfl)
        cases kind <;> first | rfl | exact absurd rfl hkind
      | data l count =>
        obtain ⟨-, hk, hd⟩ := hat
        have hbusy := hk.busy (by simp [hd]) (by simp [hd])
        exact absurd (hidle.symm.trans hbusy) nofun
      | redo ha hr hp => exact ⟨rfl, hg, hidle, hmodem, nofun⟩
      | leaves l => exact ⟨rfl, hg, hidle, hmodem, nofun⟩
      | again hr => exact ⟨rfl, hg, hidle, hmodem, nofun⟩
      | packet hr => exact ⟨rfl, hg, hidle, hmodem, nofun⟩
  · have hb := hs.beside_patient ha hok h.modem (not_more h.idle)
    exact ⟨hb.completions, hg, hb.isOut.trans h.idle, hb.modem.trans h.modem, hb.out ▸ h.calm⟩

/-- The start of a CED or a silence. -/
theorem Timing.of_sendStart (hg : ∃ ps, s.Grammatical ps) (hidle : s.e.stateModem = .stmIdle)
    (hcalm : s.out.callback ≠ some .paramOut) {dataType : DataType} (ht : dataType = .dtCed ∨ dataType = .dtSilence)
    (ms : Int) (hs : Steps s (.sendStart dataType ms) s' es) :
    es = [.sendStart dataType true] ∧ s'.Timing .stmOutMoreData s.e.callbackParamOut .out := by
  have hg' := grammatical_step hg hs
  obtain ⟨ps, hgr⟩ := hg
  have hopen : s.e.modemOpen = true := hgr.attached.modemOpen
  cases hs with
  | receives ha => cases ha
  | sendStart dataType param hm =>
    rcases ht with rfl | rfl
    · simp only [T38Engine.sendStart, T38Engine.isModemOpen, hopen, hidle, T38Engine.outPars] at hg' ⊢
      exact ⟨rfl, hg', rfl, rfl, hm, .inl rfl, hcalm, fun _ => rfl⟩
    · simp only [T38Engine.sendStart, T38Engine.isModemOpen, hopen, hidle, T38Engine.outPars] at hg' ⊢
      exact ⟨rfl, hg', rfl, rfl, hm, .inr rfl, hcalm, fun _ => rfl⟩

section

variable {p : Machine.Path machine Patient} {n : Nat}

/-- The time of a CED or a silence is over some day. -/
theorem Timing.ends (fair : Lively p) (h : ∀ m, n ≤ m → (p.state m).Timing .stmOutNoMoreData cb .out) : False := by
  have att : ∀ m, n ≤ m → (p.state m).Attached := fun m hm => (h m hm).attached
  have awake : ∀ m, n ≤ m → OutPc.Awake (p.state m).e (p.state m).out := fun m hm => (h m hm).awake
  have steps (m : Nat) := Lively.steps p m
  have body {m : Nat} (hm : n ≤ m) (ha : p.act m = .out) (hb : (p.state m).out.isBody = true) :
      (p.state m).e.stateOut = .stOutNoSig ∧ (p.state (m + 1)).e.stateOut = .stOutIdle ∨
        (p.state m).e.stateOut = .stOutIdle ∧ (p.state m).now < (p.state m).e.timeBeginOut ∧
          (p.state (m + 1)).e = (p.state m).e ∨
        (p.state m).e.stateOut = .stOutIdle ∧ (p.state (m + 1)).e.stateOut.isTimed = true := by
    obtain ⟨-, ⟨-, hcase⟩ | ⟨-, hc⟩⟩ := (h m hm).out_body rfl (ha ▸ steps m) hb
    · exact hcase
    · have hidle := hc.idle
      rw [(h (m + 1) (by omega)).stateModem] at hidle
      cases hidle
  have still {m : Nat} (hm : n ≤ m) (hb : p.act m = .out → (p.state m).out.isBody = false) :
      (p.state (m + 1)).e.stateOut = (p.state m).e.stateOut ∧
        (p.state (m + 1)).e.timeBeginOut = (p.state m).e.timeBeginOut := by
    by_cases ha : p.act m = .out
    · obtain ⟨-, -, hs, ht⟩ := (h m hm).out_quiet rfl (ha ▸ steps m) (hb ha)
      exact ⟨hs, ht⟩
    · have hbe := (steps m).beside_patient ha (p.allowed m) (h m hm).modem (by simp [(h m hm).stateModem])
      exact ⟨hbe.stateOut, hbe.timeBeginOut⟩
  have not_timed : ∀ m, n ≤ m → (p.state m).e.stateOut.isTimed = false := by
    intro m hm
    by_contra hne
    have timed : ∀ k, m ≤ k → (p.state k).e.stateOut.isTimed = true := by
      intro k hk
      induction hk with
      | refl => simpa using hne
      | @step k hk ih =>
        have hk : m ≤ k := hk
        by_cases hb : p.act k = .out ∧ (p.state k).out.isBody = true
        · rcases body (by omega) hb.1 hb.2 with ⟨hs, -⟩ | ⟨hs, -⟩ | ⟨hs, -⟩ <;> simp [hs, StateOut.isTimed] at ih
        · rw [(still (by omega) fun ha => by simpa [ha] using hb).1]
          exact ih
    obtain ⟨k, hk, -, ha, hb⟩ := fair.body_again (n := m) (fun i hi => att i (by omega)) (fun i hi => awake i (by omega)) 0
    have hk' := timed k hk
    rcases body (by omega) ha hb with ⟨hs, -⟩ | ⟨hs, -⟩ | ⟨hs, -⟩ <;> simp [hs, StateOut.isTimed] at hk'
  -- the first run of the body brings the sender to its idle state, and the first one that is late enough out of it
  obtain ⟨m, hm, -, ha, hb⟩ := fair.body_again att awake 0
  have hidle : (p.state (m + 1)).e.stateOut = .stOutIdle := by
    rcases body hm ha hb with ⟨-, hs⟩ | ⟨hs, -, he⟩ | ⟨-, hs⟩
    · exact hs
    · rw [he]
      exact hs
    · rw [not_timed (m + 1) (by omega)] at hs
      cases hs
  have wait : ∀ k, m + 1 ≤ k → (p.state k).e.stateOut = .stOutIdle ∧
      (p.state k).e.timeBeginOut = (p.state (m + 1)).e.timeBeginOut := by
    intro k hk
    induction hk with
    | refl => exact ⟨hidle, rfl⟩
    | @step k hk ih =>
      have hk : m + 1 ≤ k := hk
      by_cases hb : p.act k = .out ∧ (p.state k).out.isBody = true
      · rcases body (by omega) hb.1 hb.2 with ⟨hs, -⟩ | ⟨-, -, he⟩ | ⟨-, hs⟩
        · exact absurd (hs.symm.trans ih.1) nofun
        · rw [he]
          exact ih
        · rw [not_timed (k + 1) (by omega)] at hs
          cases hs
      · obtain ⟨hs, ht⟩ := still (m := k) (by omega) fun ha => by simpa [ha] using hb
        exact ⟨hs.trans ih.1, ht.trans ih.2⟩
  obtain ⟨k, hk, hlate, ha, hb⟩ := fair.body_again (n := m + 1) (fun i hi => att i (by omega))
    (fun i hi => awake i (by omega)) (p.state (m + 1)).e.timeBeginOut
  obtain ⟨hs, ht⟩ := wait k hk
  rcases body (by omega) ha hb with ⟨hs', -⟩ | ⟨-, hnow, -⟩ | ⟨-, hs'⟩
  · exact absurd (hs'.symm.trans hs) nofun
  · omega
  · rw [not_timed (k + 1) (by omega)] at hs'
    cases hs'

end

/-- How far the operation with the parameter `cb` has come, and what the modem has been told. -/
def Progress (cb : Int) (es : List Event) (s : Sys) : Prop :=
  completions es = [] ∧ (s.Timing .stmOutNoMoreData cb .out ∨ s.Completing cb .out) ∨
    completions es = [cb] ∧ s.Resting

theorem run_progress {s₀ : Sys} (h₀ : s₀.Timing .stmOutNoMoreData cb .out) {as : List Act}
    (h : machine.Run Patient s₀ as es s) : s.Progress cb es := by
  refine h.invariant (I := fun es s => s.Progress cb es) (.inl ⟨rfl, .inl h₀⟩) fun es s a s' es' hi hok hs => ?_
  unfold Progress
  rw [completions_append]
  rcases hi with ⟨hc, ht | ht⟩ | ⟨hc, ht⟩
  · obtain ⟨hc', hn⟩ := ht.patient_step hok (step_cases hs)
    exact .inl ⟨by rw [hc, hc', List.append_nil], hn⟩
  · rcases ht.patient_step hok (step_cases hs) with ⟨-, hc', hn⟩ | ⟨-, hc', hn⟩
    · exact .inr ⟨by rw [hc, hc', List.nil_append], hn⟩
    · exact .inl ⟨by rw [hc, hc', List.append_nil], .inr hn⟩
  · obtain ⟨hc', hn⟩ := ht.patient_step hok (step_cases hs)
    exact .inr ⟨by rw [hc, hc', List.append_nil], hn⟩

/-- The modem is told once. -/
theorem path_completes {p : Machine.Path machine Patient} (fair : Lively p)
    (h₀ : (p.state 0).Timing .stmOutNoMoreData cb .out) : ∃ n, completions (p.events n) = [cb] := by
  by_contra hne
  have before : ∀ n, completions (p.events n) = [] ∧
      ((p.state n).Timing .stmOutNoMoreData cb .out ∨ (p.state n).Completing cb .out) := fun n =>
    (run_progress h₀ (p.run n)).resolve_right fun hr => hne ⟨n, hr.1⟩
  have not_completing : ∀ n, ¬(p.state n).Completing cb .out := by
    intro n hn
    have keep {m : Nat} (hm : (p.state m).Completing cb .out) :
        p.act m ≠ .out ∧ (p.state (m + 1)).Completing cb .out := by
      rcases hm.patient_step (p.allowed m) (Lively.steps p m) with ⟨-, hc, -⟩ | ⟨ha, -, hn'⟩
      · have hnext := (before (m + 1)).1
        rw [p.events_succ, completions_append, (before m).1, hc] at hnext
        cases hnext
      · exact ⟨ha, hn'⟩
    have stays : ∀ m, n ≤ m → (p.state m).Completing cb .out := by
      intro m hm
      induction hm with
      | refl => exact hn
      | step _ ih => exact (keep ih).2
    obtain ⟨m, hm, ha⟩ := fair.often n
    exact (keep (stays m hm)).1 ha
  exact Timing.ends (n := 0) fair fun m _ => (before m).2.resolve_right (not_completing m)

/-- The call that stops an operation succeeds, whatever `ok` lets happen during it, and the modem is told
once and not before. -/
def Completes (ok : Sys → Act → Prop) (cb : Int) (s : Sys) : Prop :=
  ∃ s₁, machine.step s (.sendStop false cb) = some (s₁, []) ∧ ∀ as es s₂, machine.Run ok s₁ as es s₂ →
    completions es = [] ∧ ∃ s₃, machine.step s₂ .modem = some (s₃, [.sendStop false cb true]) ∧
      (∀ as es s₄, machine.Run Patient s₃ as es s₄ → completions es = [] ∨ completions es = [cb]) ∧
      ∀ p : Machine.Path machine Patient, p.state 0 = s₃ → Lively p → ∃ n, completions (p.events n) = [cb]

theorem Timing.completes (h : s.Timing .stmOutMoreData cb .out) (cb' : Int) : s.Completes Early cb' := by
  have hcan : s.e.canSend = true := by
    obtain ⟨ps, hg⟩ := h.grammatical
    simp [T38Engine.canSend, T38Engine.isModemOpen, hg.attached.modemOpen, h.stateModem]
  have hcheck : machine.step s (.sendStop false cb') = some ({ s with modem := .sendStop false cb' }, []) := by
    simp [machine, step, h.modem, hcan]
  refine ⟨_, hcheck, fun as es s₂ hr => ?_⟩
  have h₁ : ({ s with modem := .sendStop false cb' } : Sys).Timing .stmOutMoreData cb (.sendStop false cb') :=
    ⟨grammatical_step h.grammatical (step_cases hcheck), h.stateModem, h.callbackParam, rfl, h.data, h.calm, h.awake⟩
  have h₂ : s₂.Timing .stmOutMoreData cb (.sendStop false cb') ∧ completions es = [] := by
    refine hr.invariant (I := fun es s => s.Timing .stmOutMoreData cb (.sendStop false cb') ∧ completions es = [])
      ⟨h₁, rfl⟩ fun es s a s' es' hi hok hs => ?_
    obtain ⟨ht, hc⟩ := hi.1.early_step rfl hok (step_cases hs)
    exact ⟨ht, by rw [completions_append, hi.2, hc, List.append_nil]⟩
  have hstop : machine.step s₂ .modem =
      some ({ s₂ with e := s₂.e.sendStop false cb', modem := .out }, [.sendStop false cb' true]) := by
    simp [machine, step, modemStep, h₂.1.modem]
  have h₃ : ({ s₂ with e := s₂.e.sendStop false cb', modem := .out } : Sys).Timing .stmOutNoMoreData cb' .out :=
    ⟨grammatical_step h₂.1.grammatical (step_cases hstop), rfl, rfl, rfl, h₂.1.data, h₂.1.calm, fun _ => rfl⟩
  refine ⟨h₂.2, _, hstop, fun as es s₄ hp => ?_, fun p hp fair => ?_⟩
  · exact (run_progress h₃ hp).imp And.left And.left
  · exact path_completes fair (hp ▸ h₃)

/-- A CED or a silence that does not end before the modem has stopped it is completed once. -/
theorem run_completes {junk : Hdlc} {now : Int} {as : List Act} {es : List Event} {s₀ : Sys}
    (h : machine.Run (fun _ _ => True) (Sys.start junk now) as es s₀) (hidle : s₀.e.stateModem = .stmIdle)
    (hcalm : s₀.out.callback ≠ some .paramOut) {dataType : DataType} (ht : dataType = .dtCed ∨ dataType = .dtSilence)
    {ms : Int} {s₁ : Sys} {es₁ : List Event} (h₁ : machine.step s₀ (.sendStart dataType ms) = some (s₁, es₁))
    {as₂ : List Act} {es₂ : List Event} {s₂ : Sys} (h₂ : machine.Run Early s₁ as₂ es₂ s₂) (cb : Int) :
    es₁ = [.sendStart dataType true] ∧ completions es₂ = [] ∧ s₂.Completes Early cb := by
  have hg : ∃ ps, s₀.Grammatical ps :=
    h.state_invariant (I := fun s => ∃ ps, s.Grammatical ps) ⟨[], .start junk now⟩
      fun s a s' es' hi _ hs => grammatical_step hi (step_cases hs)
  obtain ⟨hes, htiming⟩ := Timing.of_sendStart hg hidle hcalm ht ms (step_cases h₁)
  have hrun : s₂.Timing .stmOutMoreData s₀.e.callbackParamOut .out ∧ completions es₂ = [] := by
    refine h₂.invariant
      (I := fun es s => s.Timing .stmOutMoreData s₀.e.callbackParamOut .out ∧ completions es = []) ⟨htiming, rfl⟩
      fun es s a s' es' hi hok hs => ?_
    obtain ⟨ht, hc⟩ := hi.1.early_step rfl hok (step_cases hs)
    exact ⟨ht, by rw [completions_append, hi.2, hc, List.append_nil]⟩
  exact ⟨hes, hrun.2, hrun.1.completes cb⟩

/-- The silence is over before the modem stops it, and the callback comes with the parameter of an earlier
operation. -/
theorem outrun_not_completes :
    ¬∀ (junk : Hdlc) (now : Int) (as : List Act) (es : List Event) (s₀ s₁ s₂ : Sys) (dataType : DataType) (ms cb : Int)
        (es₁ : List Event) (as₂ : List Act) (es₂ : List Event),
      machine.Run (fun _ _ => True) (Sys.start junk now) as es s₀ → s₀.e.stateModem = .stmIdle →
      s₀.out.callback ≠ some .paramOut → dataType = .dtCed ∨ dataType = .dtSilence → 0 ≤ ms →
      machine.step s₀ (.sendStart dataType ms) = some (s₁, es₁) →
      machine.Run (fun _ a => a.ofModem = false) s₁ as₂ es₂ s₂ →
      completions es₂ = [] ∧ s₂.Completes (fun _ a => a.ofModem = false) cb := by
  intro h
  have hstart : machine.step first (.sendStart .dtSilence 0) = some (_, [.sendStart .dtSilence true]) := rfl
  have hx : (machine.exec (fun _ a => a.ofModem = false) { first with e := (first.e.sendStart .dtSilence 0).2 }
      (.tick 30 :: List.replicate 8 .out)).map Prod.snd = some [.callbackOut .paramOut cbpReset] := rfl
  obtain ⟨s₂, h₂⟩ := Machine.exec_run hx
  obtain ⟨hc, -⟩ := h _ _ _ _ _ _ _ _ _ 1 _ _ _ run_first rfl nofun (.inr rfl) (Int.le_refl 0) hstart h₂
  cases hc

/-- A silence of 200 ms that the modem stops when it has lasted 100. -/
theorem early_completes : ∃ es s, machine.Run Early { first with e := (first.e.sendStart .dtSilence 200).2 }
      ([.tick 10] ++ List.replicate 6 .out ++ [.tick 30] ++ List.replicate 5 .out ++ [.tick 100] ++
        List.replicate 3 .out) es s ∧
    s.e.stateOut = .stOutSilenceWait ∧ completions es = [] ∧ s.Completes Early 1 := by
  have hstart : machine.step first (.sendStart .dtSilence 200) = some (_, [.sendStart .dtSilence true]) := rfl
  have hx : (machine.exec Early { first with e := (first.e.sendStart .dtSilence 200).2 }
      ([.tick 10] ++ List.replicate 6 .out ++ [.tick 30] ++ List.replicate 5 .out ++ [.tick 100] ++
        List.replicate 3 .out)).any (fun x => decide (x.1.e.stateOut = .stOutSilenceWait)) = true := by decide +kernel
  obtain ⟨s, es, h, hs⟩ := Machine.exec_passes hx
  exact ⟨es, s, h, of_decide_eq_true hs, (run_completes run_first rfl nofun (.inr rfl) hstart h 1).2⟩

end Sys

end T38Modem
