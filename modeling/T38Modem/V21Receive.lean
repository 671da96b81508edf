import T38Modem.StreamKeeping

namespace T38Modem

namespace T38Engine

/-- The DTE is receiving a V.21 frame. -/
def v21In (e : T38Engine) : Bool :=
  decide (e.stateModem = .stmInRecvData) && e.modStreamIn.any fun m => decide (m.modPars.msgType = .v21)

/-- Nothing is learnt, and no receive of V.21 is begun. -/
structure Deaf (e e' : T38Engine) : Prop where
  t30 : e'.t30 = e.t30
  v21In : e'.v21In = true → e.v21In = true

variable {e e' e'' : T38Engine} {f : ModStream → ModStream} {p : Option Place}

namespace Deaf

theorem refl (e : T38Engine) : Deaf e e := ⟨rfl, id⟩

theorem trans (h : Deaf e e') (h' : Deaf e' e'') : Deaf e e'' := ⟨h'.t30.trans h.t30, h.v21In ∘ h'.v21In⟩

theorem of_eq (ht : e'.t30 = e.t30) (hs : e'.stateModem = e.stateModem) (hi : e'.modStreamIn = e.modStreamIn) :
    Deaf e e' := by
  refine ⟨ht, fun h => ?_⟩
  rwa [T38Engine.v21In, hs, hi] at h

theorem of_state (ht : e'.t30 = e.t30) (hs : e'.stateModem ≠ .stmInRecvData) : Deaf e e' := by
  refine ⟨ht, fun h => ?_⟩
  rw [T38Engine.v21In, Bool.and_eq_true, decide_eq_true_eq] at h
  exact absurd h.1 hs

end Deaf

theorem updateStream_deaf (hf : ∀ m : ModStream, (f m).modPars = m.modPars) : Deaf e (e.updateStream f p) := by
  match p with
  | none => exact .refl e
  | some .modStreamIn =>
    refine ⟨rfl, fun h => ?_⟩
    cases hm : e.modStreamIn with
    | none => simp [T38Engine.v21In, updateStream, hm] at h
    | some m => simpa [T38Engine.v21In, updateStream, hm, hf] using h
  | some .modStreamInSaved => exact .of_eq rfl rfl rfl

theorem putEof_modPars {d : Diag} (m : ModStream) : (m.putEof d).modPars = m.modPars := ModStream.putEof_closes.modPars

theorem finishIn_deaf : Deaf e e.finishIn.engine := by
  unfold finishIn
  split <;> exact .of_eq rfl rfl rfl

theorem endSilence_deaf (after : AfterIn) {otherwise : T38Engine → InOutcome} (h : Deaf e (otherwise e).engine) :
    Deaf e (e.endSilence after otherwise).engine := by
  unfold endSilence
  split
  next => exact .of_state rfl (by simp [InOutcome.engine])
  next => exact h

theorem dropCarrier_deaf : Deaf e e.dropCarrier.engine := by
  have h : Deaf e { e with isCarrierIn := 0 } := .of_eq rfl rfl rfl
  exact h.trans (endSilence_deaf _ finishIn_deaf)

theorem userInput_deaf (tone : Byte) : Deaf e (e.userInput tone).engine := by
  unfold userInput
  split
  next => exact dropCarrier_deaf
  next =>
    split
    next => exact dropCarrier_deaf
    next => exact .of_eq rfl rfl rfl

theorem endWaitData_deaf : Deaf e e.endWaitData.engine := by
  unfold endWaitData
  split
  next =>
    dsimp only
    split
    next =>
      split <;> exact .of_state rfl (by simp [InOutcome.engine])
    next => exact .of_state rfl (by simp [InOutcome.engine])
  next => exact finishIn_deaf

theorem training_deaf (type : Indicator) : Deaf e (e.training type).engine := by
  unfold training
  refine Deaf.trans ?_ (endSilence_deaf _ endWaitData_deaf)
  exact .of_eq rfl rfl rfl

theorem indicatorSwitch_deaf (type : Indicator) : Deaf e (e.indicatorSwitch type).engine := by
  have h : Deaf e { e with modStreamInSaved := none } := .of_eq rfl rfl rfl
  refine h.trans ?_
  unfold indicatorSwitch
  split
  · exact dropCarrier_deaf
  · exact userInput_deaf _
  · exact userInput_deaf _
  · exact finishIn_deaf
  · exact training_deaf _

theorem handleIndicator_deaf (type : Indicator) : Deaf e (e.handleIndicator type).engine := by
  unfold handleIndicator
  split
  · exact finishIn_deaf
  · split
    · split
      · exact finishIn_deaf
      · have h : Deaf e (e.updateStream (·.putEof (diagOutOfOrder ||| diagNoCarrier)) (some .modStreamIn)) :=
          updateStream_deaf putEof_modPars
        dsimp only
        split
        · exact h
        · exact h.trans (indicatorSwitch_deaf _)
    · exact indicatorSwitch_deaf type

theorem fieldData_deaf (fd : DataField) : Deaf e (e.fieldData p fd) := by
  unfold fieldData
  split
  · exact .refl e
  · exact .refl e
  · exact (updateStream_deaf fun _ => ModStream.putData_closes.modPars).trans (.of_eq rfl rfl rfl)

theorem closeBuf_deaf : Deaf e (e.closeBuf p) := by
  unfold closeBuf
  split
  · exact .refl e
  · have hpush : ∀ e : T38Engine, Deaf e (e.pushBufAt p) := fun e =>
      (updateStream_deaf (f := (·.pushBuf e.nextBuf)) fun _ => rfl).trans (.of_eq rfl rfl rfl)
    exact (updateStream_deaf putEof_modPars).trans (hpush _)

theorem fieldFcs_deaf (fd : DataField) : Deaf e (e.fieldFcs p fd) := by
  unfold fieldFcs
  split
  · exact (updateStream_deaf fun _ => ModStream.setDiag_closes.modPars).trans closeBuf_deaf
  · exact (updateStream_deaf fun _ => ModStream.setDiag_closes.modPars).trans closeBuf_deaf
  · exact closeBuf_deaf
  · exact closeBuf_deaf
  · exact .refl e

theorem handleFields_deaf (fs : List DataField) : Deaf e (e.handleFields p fs).engine := by
  induction fs generalizing e p with
  | nil =>
    unfold handleFields afterFields
    split
    · exact .refl e
    · exact finishIn_deaf
  | cons fd rest ih =>
    have h : Deaf e ((e.fieldData p fd).fieldFcs p fd) := (fieldData_deaf fd).trans (fieldFcs_deaf fd)
    rw [handleFields]
    split
    · have hend : Deaf e (((e.fieldData p fd).fieldFcs p fd).updateStream (·.putEof diagNoCarrier) p) :=
        h.trans (updateStream_deaf putEof_modPars)
      generalize ((e.fieldData p fd).fieldFcs p fd).updateStream (·.putEof diagNoCarrier) p = e' at hend
      have hdrop : Deaf e { e' with isCarrierIn := 0 } := hend.trans (.of_eq rfl rfl rfl)
      dsimp only
      split
      next => exact hdrop.trans (.of_state rfl (by simp [InOutcome.engine]))
      next => exact hdrop.trans ih
    · exact h.trans ih

theorem handlePacket_deaf (ifp : Ifp) : Deaf e (e.handlePacket ifp).engine := by
  cases ifp with
  | t30Indicator type => exact handleIndicator_deaf type
  | data type fields =>
    unfold handlePacket handleData
    dsimp only
    split
    · exact (updateStream_deaf putEof_modPars).trans (handleFields_deaf _)
    · exact handleFields_deaf _
  | badTag => exact finishIn_deaf

theorem resumePacket_deaf (after : AfterIn) : Deaf e (e.resumePacket after).engine := by
  cases after with
  | indicator type => exact indicatorSwitch_deaf type
  | dropCarrier => exact dropCarrier_deaf
  | fields rest => exact handleFields_deaf rest
  | finish => exact finishIn_deaf
  | ret => exact .refl e

theorem handlePacketLost_deaf : Deaf e e.handlePacketLost := by
  refine updateStream_deaf fun m => ?_
  split
  · exact ModStream.setDiag_closes.modPars
  · rfl

theorem openStream_deaf (m : ModPars) (t : DataType) : Deaf e (e.openStream m t).1 := by
  unfold openStream
  dsimp only
  split
  · exact .of_state rfl (by simp)
  · split <;> exact .of_state rfl (by simp)

/-- `RecvWait` does nothing unless the modem is idle. -/
theorem recvWait_busy (t : DataType) (param cb : Int) (h : e.stateModem ≠ .stmIdle) :
    e.recvWait t param cb = (false, false, e) := by
  unfold recvWait
  rw [if_pos h]
  split <;> rfl

theorem recvWait_deaf (t : DataType) (param cb : Int) : Deaf e (e.recvWait t param cb).2.2 := by
  by_cases hidle : e.stateModem = .stmIdle
  · have hwait (m : ModPars) : Deaf e (({ e with callbackParamIn := cb } : T38Engine).openStream m t).1 :=
      (Deaf.of_eq rfl rfl rfl : Deaf e { e with callbackParamIn := cb }).trans (openStream_deaf m t)
    unfold recvWait
    rw [if_neg (not_not.mpr hidle)]
    split
    · exact .refl e
    · split
      · split
        · exact .refl e
        · dsimp only
          split <;> exact .of_state rfl (by simp [hidle])
      · dsimp only
        split
        · exact .refl e
        · split
          · exact hwait _
          · split
            · exact .of_state rfl (by simp)
            · exact hwait _
      · dsimp only
        split
        · exact .refl e
        · split
          · exact hwait _
          · split
            · exact .of_state rfl (by simp)
            · exact hwait _
      · exact .refl e
  · rw [recvWait_busy t param cb hidle]
    exact .refl e

theorem recvStop_deaf : Deaf e e.recvStop := by
  unfold recvStop
  split
  · exact .refl e
  · split
    · exact .refl e
    · exact .of_state rfl (by simp)

/-- `RecvStart` begins a frame when the signal is a V.21 one. -/
theorem recvStart_v21 (cb : Int) :
    (∃ e', e.recvStart cb = (false, e') ∧ Deaf e e') ∨
    (∃ e', e.recvStart cb = (true, e') ∧ e.stateModem = .stmInReadyData ∧
      e'.t30 = if e'.v21In then e.t30.v21Begin else e.t30) := by
  unfold recvStart
  split
  next => exact .inl ⟨_, rfl, .refl e⟩
  next =>
    split
    next => exact .inl ⟨_, rfl, .refl e⟩
    next hs =>
      dsimp only
      split
      next => exact .inl ⟨_, rfl, .of_state rfl (by simp)⟩
      next m _ =>
        split
        next m' _ => exact .inr ⟨_, rfl, not_not.mp hs, by simp [T38Engine.v21In]⟩
        next => exact .inl ⟨_, rfl, .of_state rfl (by simp)⟩

/-- What `Recv` tells the T.30 engine when it is a V.21 frame that the DTE receives. -/
def hear (t : T30) : Option (List Byte) → T30
  | none => t.v21End
  | some bs => t.v21Data bs

theorem recv_v21 (count : Nat) (ho : e.modemOpen = true) :
    ∃ res e', e.recv count = (res, e') ∧ e'.v21In = e.v21In ∧ e'.t30 = if e.v21In then hear e.t30 res else e.t30 := by
  unfold recv
  rw [if_neg (by simp [isModemOpen, ho])]
  by_cases hs : e.stateModem = .stmInRecvData
  · rw [if_neg (not_not.mpr hs)]
    cases hm : e.modStreamIn with
    | none =>
      have hv : e.v21In = false := by simp [T38Engine.v21In, hm]
      exact ⟨_, _, rfl, rfl, by rw [hv]; rfl⟩
    | some m =>
      have hpars : (m.getData count).2.modPars = m.modPars := ModStream.getData_closes.modPars
      have hv : e.v21In = decide (m.modPars.msgType = .v21) := by simp [T38Engine.v21In, hs, hm]
      dsimp only
      cases hg : m.getData count with
      | mk res m' =>
        rw [hg] at hpars
        dsimp only at hpars ⊢
        refine ⟨_, _, rfl, ?_, ?_⟩
        · rw [hv]
          simp [T38Engine.v21In, hs, hpars]
        · rw [hv, hpars]
          by_cases h21 : m.modPars.msgType = .v21
          · rw [if_pos h21, if_pos (by simpa using h21)]
            match res with
            | none => rfl
            | some [] => simp [hear, T30.v21Data]
            | some (_ :: _) => rfl
          · rw [if_neg h21, if_neg (by simpa using h21)]
  · have hv : e.v21In = false := by simp [T38Engine.v21In, hs]
    rw [if_pos hs]
    exact ⟨_, _, rfl, rfl, by rw [hv]; rfl⟩

end T38Engine

end T38Modem
