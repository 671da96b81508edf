import T38Modem.System

namespace T38Modem

/-- What receiving leaves alone: the out side, but for the signal that wakes it, its owner, and the
state of the modem while it sends. -/
structure SameOut (e e' : T38Engine) : Prop where
  outSide : { e'.toOutSide with outDataReady := e.outDataReady } = e.toOutSide
  ready : e.outDataReady = true → e'.outDataReady = true
  modemOpen : e'.modemOpen = e.modemOpen
  hOwnerIn : e'.hOwnerIn = e.hOwnerIn
  hOwnerOut : e'.hOwnerOut = e.hOwnerOut
  firstOut : e'.firstOut = e.firstOut
  junk : e'.junk = e.junk
  stateModem : e'.stateModem = e.stateModem ∨ e.stateModem.isOut = false ∧ e'.stateModem.isOut = false

namespace SameOut

variable {e e' e'' : T38Engine}

/-- The out side and the state of the modem are not written at all. -/
theorem of_eq (ho : e'.toOutSide = e.toOutSide) (hm : e'.modemOpen = e.modemOpen)
    (hi : e'.hOwnerIn = e.hOwnerIn) (hw : e'.hOwnerOut = e.hOwnerOut) (hf : e'.firstOut = e.firstOut)
    (hj : e'.junk = e.junk) (hs : e'.stateModem = e.stateModem) : SameOut e e' :=
  ⟨by rw [ho], fun h => by rw [show e'.outDataReady = e'.toOutSide.outDataReady from rfl, ho]; exact h,
    hm, hi, hw, hf, hj, .inl hs⟩

theorem refl (e : T38Engine) : SameOut e e := .of_eq rfl rfl rfl rfl rfl rfl rfl

/-- The state of the modem is written too, and the modem does not send. -/
theorem of_state (hs : e.stateModem.isOut = false) (ho : e'.toOutSide = e.toOutSide)
    (hm : e'.modemOpen = e.modemOpen) (hi : e'.hOwnerIn = e.hOwnerIn) (hw : e'.hOwnerOut = e.hOwnerOut)
    (hf : e'.firstOut = e.firstOut) (hj : e'.junk = e.junk) (hs' : e'.stateModem.isOut = false) : SameOut e e' :=
  ⟨by rw [ho], fun h => by rw [show e'.outDataReady = e'.toOutSide.outDataReady from rfl, ho]; exact h,
    hm, hi, hw, hf, hj, .inr ⟨hs, hs'⟩⟩

theorem trans (a : SameOut e e') (b : SameOut e' e'') : SameOut e e'' := by
  refine ⟨?_, fun h => b.ready (a.ready h), b.modemOpen.trans a.modemOpen, b.hOwnerIn.trans a.hOwnerIn,
    b.hOwnerOut.trans a.hOwnerOut, b.firstOut.trans a.firstOut, b.junk.trans a.junk, ?_⟩
  · rw [← a.outSide, ← b.outSide]
  · rcases a.stateModem with ha | ha <;> rcases b.stateModem with hb | hb
    · exact .inl (hb.trans ha)
    · exact .inr ⟨ha ▸ hb.1, hb.2⟩
    · exact .inr ⟨ha.1, hb ▸ ha.2⟩
    · exact .inr ⟨ha.1, hb.2⟩

theorem stateOut (h : SameOut e e') : e'.stateOut = e.stateOut := congrArg (·.stateOut) h.outSide
theorem modParsOut (h : SameOut e e') : e'.modParsOut = e.modParsOut := congrArg (·.modParsOut) h.outSide
theorem countOut (h : SameOut e e') : e'.countOut = e.countOut := congrArg (·.countOut) h.outSide
theorem bufOut (h : SameOut e e') : e'.bufOut = e.bufOut := congrArg (·.bufOut) h.outSide
theorem hdlcOut (h : SameOut e e') : e'.hdlcOut = e.hdlcOut := congrArg (·.hdlcOut) h.outSide
theorem moreFramesOut (h : SameOut e e') : e'.moreFramesOut = e.moreFramesOut :=
  congrArg (·.moreFramesOut) h.outSide
theorem callbackParamOut (h : SameOut e e') : e'.callbackParamOut = e.callbackParamOut :=
  congrArg (·.callbackParamOut) h.outSide

theorem isOut (h : SameOut e e') : e'.stateModem.isOut = e.stateModem.isOut := by
  rcases h.stateModem with hs | hs
  · rw [hs]
  · rw [hs.1, hs.2]

end SameOut

/-- The engine that `HandlePacket` leaves at its next stop. -/
def InOutcome.engine : InOutcome → T38Engine
  | .ret e => e
  | .call e _ _ _ => e

namespace T38Engine

variable (e : T38Engine)

theorem updateStream_sameOut (f : ModStream → ModStream) (p : Option Place) :
    SameOut e (e.updateStream f p) := by
  cases p with
  | none => exact .refl e
  | some p => cases p <;> exact .of_eq rfl rfl rfl rfl rfl rfl rfl

theorem finishIn_sameOut : SameOut e e.finishIn.engine := by
  unfold finishIn
  split <;> exact .of_eq rfl rfl rfl rfl rfl rfl rfl

theorem endSilence_sameOut (after : AfterIn) {otherwise : T38Engine → InOutcome}
    (h : SameOut e (otherwise e).engine) : SameOut e (e.endSilence after otherwise).engine := by
  unfold endSilence
  split
  next hs => exact .of_state (by rw [hs]; rfl) rfl rfl rfl rfl rfl rfl rfl
  next => exact h

theorem dropCarrier_sameOut : SameOut e e.dropCarrier.engine := by
  have h : SameOut e { e with isCarrierIn := 0 } := .of_eq rfl rfl rfl rfl rfl rfl rfl
  exact h.trans (endSilence_sameOut _ _ (finishIn_sameOut _))

theorem userInput_sameOut (tone : Byte) : SameOut e (e.userInput tone).engine := by
  unfold userInput
  split
  next => exact e.dropCarrier_sameOut
  next =>
    split
    next => exact e.dropCarrier_sameOut
    next => exact .of_eq rfl rfl rfl rfl rfl rfl rfl

theorem endWaitData_sameOut : SameOut e e.endWaitData.engine := by
  unfold endWaitData
  split
  next hs =>
    have hout : e.stateModem.isOut = false := by rw [hs]; rfl
    dsimp only
    split
    next =>
      split <;> exact .of_state hout rfl rfl rfl rfl rfl rfl rfl
    next => exact .of_state hout rfl rfl rfl rfl rfl rfl rfl
  next => exact e.finishIn_sameOut

theorem training_sameOut (type : Indicator) : SameOut e (e.training type).engine := by
  unfold training
  refine SameOut.trans ?_ (endSilence_sameOut _ _ (endWaitData_sameOut _))
  exact .of_eq rfl rfl rfl rfl rfl rfl rfl

theorem indicatorSwitch_sameOut (type : Indicator) : SameOut e (e.indicatorSwitch type).engine := by
  have h : SameOut e { e with modStreamInSaved := none } := .of_eq rfl rfl rfl rfl rfl rfl rfl
  refine h.trans ?_
  unfold indicatorSwitch
  split
  · exact dropCarrier_sameOut _
  · exact userInput_sameOut _ _
  · exact userInput_sameOut _ _
  · exact finishIn_sameOut _
  · exact training_sameOut _ _

theorem handleIndicator_sameOut (type : Indicator) : SameOut e (e.handleIndicator type).engine := by
  unfold handleIndicator
  split
  · exact e.finishIn_sameOut
  · split
    · split
      · exact e.finishIn_sameOut
      · have h := e.updateStream_sameOut (·.putEof (diagOutOfOrder ||| diagNoCarrier)) (some .modStreamIn)
        dsimp only
        split
        · exact h
        · exact h.trans (indicatorSwitch_sameOut _ _)
    · exact e.indicatorSwitch_sameOut type

theorem fieldData_sameOut (p : Option Place) (f : DataField) : SameOut e (e.fieldData p f) := by
  unfold fieldData
  split
  · exact .refl e
  · exact .refl e
  · exact (e.updateStream_sameOut _ p).trans (.of_eq rfl rfl rfl rfl rfl rfl rfl)

theorem pushBufAt_sameOut (p : Option Place) : SameOut e (e.pushBufAt p) :=
  (e.updateStream_sameOut _ p).trans (.of_eq rfl rfl rfl rfl rfl rfl rfl)

theorem closeBuf_sameOut (p : Option Place) : SameOut e (e.closeBuf p) := by
  unfold closeBuf
  split
  · exact .refl e
  · exact (e.updateStream_sameOut _ p).trans (pushBufAt_sameOut _ p)

theorem fieldFcs_sameOut (p : Option Place) (f : DataField) : SameOut e (e.fieldFcs p f) := by
  unfold fieldFcs
  split
  · exact (e.updateStream_sameOut _ p).trans (closeBuf_sameOut _ p)
  · exact (e.updateStream_sameOut _ p).trans (closeBuf_sameOut _ p)
  · exact e.closeBuf_sameOut p
  · exact e.closeBuf_sameOut p
  · exact .refl e

theorem handleFields_sameOut (p : Option Place) (fs : List DataField) :
    SameOut e (e.handleFields p fs).engine := by
  induction fs generalizing e p with
  | nil =>
    unfold handleFields afterFields
    split
    · exact .refl e
    · exact e.finishIn_sameOut
  | cons f rest ih =>
    have h := (e.fieldData_sameOut p f).trans (fieldFcs_sameOut _ p f)
    rw [handleFields]
    split
    · have hend := h.trans (updateStream_sameOut _ (·.putEof diagNoCarrier) p)
      generalize ((e.fieldData p f).fieldFcs p f).updateStream (·.putEof diagNoCarrier) p = e' at hend
      have hdrop : SameOut e { e' with isCarrierIn := 0 } := hend.trans (.of_eq rfl rfl rfl rfl rfl rfl rfl)
      dsimp only
      split
      next hs => exact hdrop.trans (.of_state (by rw [hs]; rfl) rfl rfl rfl rfl rfl rfl rfl)
      next => exact hdrop.trans (ih _ _)
    · exact h.trans (ih _ _)

theorem handlePacket_sameOut (ifp : Ifp) : SameOut e (e.handlePacket ifp).engine := by
  cases ifp with
  | t30Indicator type => exact e.handleIndicator_sameOut type
  | data type fields =>
    unfold handlePacket handleData
    dsimp only
    split
    · exact (e.updateStream_sameOut _ _).trans (handleFields_sameOut _ _ _)
    · exact e.handleFields_sameOut _ _
  | badTag => exact e.finishIn_sameOut

theorem resumePacket_sameOut (after : AfterIn) : SameOut e (e.resumePacket after).engine := by
  cases after with
  | indicator type => exact e.indicatorSwitch_sameOut type
  | dropCarrier => exact e.dropCarrier_sameOut
  | fields rest => exact e.handleFields_sameOut none rest
  | finish => exact e.finishIn_sameOut
  | ret => exact .refl e

theorem handlePacketLost_sameOut : SameOut e e.handlePacketLost :=
  e.updateStream_sameOut _ _

theorem openStream_sameOut (hs : e.stateModem.isOut = false) (m : ModPars) (t : DataType) :
    SameOut e (e.openStream m t).1 := by
  unfold openStream
  dsimp only
  split
  · exact .of_state hs rfl rfl rfl rfl rfl rfl rfl
  · split <;> exact .of_state hs rfl rfl rfl rfl rfl rfl rfl

theorem recvWait_sameOut (t : DataType) (param cb : Int) : SameOut e (e.recvWait t param cb).2.2 := by
  unfold recvWait
  split
  · exact .refl e
  · split
    · exact .refl e
    · next hs =>
      have hidle : e.stateModem.isOut = false := by
        rw [show e.stateModem = .stmIdle from not_not.mp hs]
        rfl
      have hwait (m : ModPars) :
          SameOut e (({ e with callbackParamIn := cb } : T38Engine).openStream m t).1 :=
        (SameOut.of_eq rfl rfl rfl rfl rfl rfl rfl : SameOut e { e with callbackParamIn := cb }).trans
          (openStream_sameOut { e with callbackParamIn := cb } hidle m t)
      have hready (m : Option ModStream) :
          SameOut e { e with callbackParamIn := cb, modStreamIn := m, stateModem := .stmInReadyData } :=
        .of_state hidle rfl rfl rfl rfl rfl rfl rfl
      split
      · split
        · exact .refl e
        · dsimp only
          split
          · exact .of_state hidle rfl rfl rfl rfl rfl rfl rfl
          · exact .of_eq rfl rfl rfl rfl rfl rfl rfl
      · dsimp only
        split
        · exact .refl e
        · split
          · exact hwait _
          · split
            · exact hready _
            · exact hwait _
      · dsimp only
        split
        · exact .refl e
        · split
          · exact hwait _
          · split
            · exact hready _
            · exact hwait _
      · exact .refl e

theorem recvStart_sameOut (cb : Int) : SameOut e (e.recvStart cb).2 := by
  unfold recvStart
  split
  · exact .refl e
  · split
    · exact .refl e
    · next hs =>
      have hin : e.stateModem.isOut = false := by
        rw [show e.stateModem = .stmInReadyData from not_not.mp hs]
        rfl
      dsimp only
      split
      · exact .of_state hin rfl rfl rfl rfl rfl rfl rfl
      · split <;> exact .of_state hin rfl rfl rfl rfl rfl rfl rfl

theorem recv_sameOut (count : Nat) : SameOut e (e.recv count).2 := by
  unfold recv
  split
  · exact .refl e
  · split
    · exact .refl e
    · split
      · exact .refl e
      · exact .of_eq rfl rfl rfl rfl rfl rfl rfl

theorem recvStop_sameOut : SameOut e e.recvStop := by
  unfold recvStop
  split
  · exact .refl e
  · split
    · exact .refl e
    · next hs =>
      have hin : e.stateModem.isOut = false := by
        cases h : e.stateModem <;> simp [StateModem.isIn, StateModem.isOut, h] at hs ⊢
      exact .of_state hin rfl rfl rfl rfl rfl rfl rfl

theorem reopenIn_sameOut : SameOut e (Sys.reopenIn e) :=
  ⟨rfl, fun _ => rfl, rfl, rfl, rfl, rfl, rfl, .inl rfl⟩

end T38Engine

/-- A step of the receiving half, as the sending half sees it. -/
structure Receives (s s' : Sys) (es : List Event) : Prop where
  engine : SameOut s.e s'.e
  out : s'.out = s.out
  modem : s'.modem = s.modem
  now : s'.now = s.now
  events : ∀ ev ∈ es, ev.sending = false

namespace Sys

variable {s s' : Sys} {es : List Event}

theorem ofInOutcome_receives {r : InOutcome} (ifp : Ifp) (h : SameOut s.e r.engine) :
    Receives s (s.ofInOutcome ifp r).1 (s.ofInOutcome ifp r).2 := by
  cases r with
  | ret e => exact ⟨h, rfl, rfl, rfl, by simp [ofInOutcome, Event.sending]⟩
  | call e kind extra after => exact ⟨h, rfl, rfl, rfl, by simp [ofInOutcome]⟩

theorem modemCall_receives {r : T38Engine × List Event} (h : SameOut s.e r.1)
    (hes : ∀ ev ∈ r.2, ev.sending = false) (hs : s.modemCall r = some (s', es)) : Receives s s' es := by
  unfold modemCall at hs
  split at hs
  · cases Option.some.inj hs
    exact ⟨h, rfl, rfl, rfl, hes⟩
  · cases hs

theorem step_receives {a : Act} (ha : a.receiving = true) (h : machine.step s a = some (s', es)) :
    Receives s s' es := by
  simp only [machine] at h
  cases a with
  | openIn =>
    simp only [step] at h
    split at h
    · cases Option.some.inj h
      exact ⟨s.e.reopenIn_sameOut, rfl, rfl, rfl, by simp [Event.sending]⟩
    · cases h
  | handlePacket ifp =>
    simp only [step] at h
    split at h
    · cases h
    · split at h
      · cases Option.some.inj h
        exact ⟨.refl _, rfl, rfl, rfl, by simp [Event.sending]⟩
      · have := ofInOutcome_receives (s := s) ifp (s.e.handlePacket_sameOut ifp)
        rwa [Option.some.inj h] at this
  | inn =>
    simp only [step, innStep] at h
    split at h
    · cases h
    · cases Option.some.inj h
      exact ⟨.refl _, rfl, rfl, rfl, by simp [Event.sending]⟩
    · next ifp after _ =>
      split at h
      · cases Option.some.inj h
        exact ⟨.refl _, rfl, rfl, rfl, by simp [Event.sending]⟩
      · have := ofInOutcome_receives (s := s) ifp (s.e.resumePacket_sameOut after)
        rwa [Option.some.inj h] at this
  | handlePacketLost =>
    simp only [step] at h
    split at h
    · cases h
    · split at h <;> cases Option.some.inj h
      · exact ⟨.refl _, rfl, rfl, rfl, by simp⟩
      · exact ⟨s.e.handlePacketLost_sameOut, rfl, rfl, rfl, by simp⟩
  | recvWait t param cb => exact modemCall_receives (s.e.recvWait_sameOut t param cb) (by simp [Event.sending]) h
  | recvStart cb => exact modemCall_receives (s.e.recvStart_sameOut cb) (by simp [Event.sending]) h
  | recv n => exact modemCall_receives (s.e.recv_sameOut n) (by simp [Event.sending]) h
  | recvDiag => exact modemCall_receives (.refl _) (by simp [Event.sending]) h
  | recvStop => exact modemCall_receives s.e.recvStop_sameOut (by simp) h
  | _ => cases ha

end Sys

end T38Modem
