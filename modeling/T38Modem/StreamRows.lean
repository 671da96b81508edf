import T38Modem.Repeated
import T38Modem.StreamReaders

namespace T38Modem

namespace T38Engine

open ModStream (Closes)

variable {e e' : T38Engine}

/-- Every stream is of a signal of the table. -/
def Rows (e : T38Engine) : Prop := ∀ q m, e.streamAt q = some m → m.modPars.ind ≠ .noSignal

theorem mods_ind {m : ModPars} (h : m ∈ mods) : m.ind ≠ .noSignal := by
  have hall : ∀ m ∈ mods, m.ind ≠ .noSignal := by decide
  exact hall m h

theorem getModParsByInd_ind (type : Indicator) : (getModParsByInd type).ind ≠ .noSignal := by
  unfold getModParsByInd
  cases hf : mods.find? (·.ind = type) with
  | none => exact nofun
  | some m => exact mods_ind (List.mem_of_find?_eq_some hf)

theorem Rows.of (hi : ∀ m', e'.modStreamIn = some m' → m'.modPars.ind ≠ .noSignal)
    (hs : ∀ m', e'.modStreamInSaved = some m' → m'.modPars.ind ≠ .noSignal) : e'.Rows := by
  intro q m' hm'
  cases q with
  | modStreamIn => exact hi m' hm'
  | modStreamInSaved => exact hs m' hm'

section

variable {P : ModPars → Prop} {type : Indicator}

/-- The stream that waits for the DTE, if there is one, is of a signal of the kind `P`. -/
def SavedOf (P : ModPars → Prop) (e : T38Engine) : Prop := ∀ m, e.modStreamInSaved = some m → P m.modPars

theorem SavedOf.none (h : e.modStreamInSaved = none) : e.SavedOf P := fun m hm =>
  absurd (h.symm.trans hm).symm (Option.some_ne_none m)

theorem SavedOf.keeps (h : e.SavedOf P) (hk : Keeps e e') : e'.SavedOf P := by
  intro m' hm'
  obtain ⟨m, hm, hc⟩ := hk.saved m' hm'
  rw [hc.modPars]
  exact h m hm

theorem training_saved (hp : P (getModParsByInd type)) : (e.training type).engine.SavedOf P := by
  have hwait {e : T38Engine} (hs : e.SavedOf P) : e.endWaitData.engine.SavedOf P := by
    unfold endWaitData
    split
    next =>
      dsimp only
      split
      next =>
        split
        next => exact .none rfl
        next => exact hs
      next => exact hs
    next =>
      unfold finishIn
      split <;> exact hs
  have hnew (m' : ModStream) (hm' : some ((e.newStream (getModParsByInd type)).pushBuf e.nextBuf) = some m') :
      P m'.modPars := by
    rw [← Option.some.inj hm']
    exact hp
  unfold training endSilence
  dsimp only
  split
  next => exact hnew
  next => exact hwait hnew

theorem indicatorSwitch_saved (hp : type.isTraining = true → P (getModParsByInd type)) :
    (e.indicatorSwitch type).engine.SavedOf P := by
  have hnone {r : InOutcome} (hc : Calm { e with modStreamInSaved := none } r) : r.engine.SavedOf P :=
    .none (hc.1.saved_none rfl)
  unfold indicatorSwitch
  dsimp only
  split
  · exact hnone dropCarrier_calm
  · exact hnone (userInput_calm _)
  · exact hnone (userInput_calm _)
  · exact hnone finishIn_calm
  next hsig hced hcng hother =>
    refine training_saved (hp ?_)
    cases type <;> first | rfl | contradiction | exact absurd rfl (hother _)

theorem handlePacket_saved (h : e.SavedOf P) {ifp : Ifp}
    (hp : ∀ type, ifp = .t30Indicator type → type.isTraining = true → P (getModParsByInd type)) :
    (e.handlePacket ifp).engine.SavedOf P := by
  cases ifp with
  | t30Indicator type =>
    show (e.handleIndicator type).engine.SavedOf P
    unfold handleIndicator
    split
    next => exact h.keeps finishIn_calm.1
    next =>
      split
      next =>
        split
        next => exact h.keeps finishIn_calm.1
        next =>
          dsimp only
          split
          next => exact h
          next => exact indicatorSwitch_saved (hp type rfl)
      next => exact indicatorSwitch_saved (hp type rfl)
  | data type fields => exact h.keeps (handleData_calm type fields).1
  | badTag => exact h.keeps finishIn_calm.1

theorem resumePacket_saved (h : e.SavedOf P) {after : AfterIn}
    (hp : ∀ type, after = .indicator type → type.isTraining = true → P (getModParsByInd type)) :
    (e.resumePacket after).engine.SavedOf P := by
  cases after with
  | indicator type => exact indicatorSwitch_saved (hp type rfl)
  | dropCarrier => exact h.keeps dropCarrier_calm.1
  | fields rest => exact h.keeps (handleFields_calm (p := none) rest nofun).1
  | finish => exact h.keeps finishIn_calm.1
  | ret => exact h

end

theorem openStream_stream {m : ModPars} {t : DataType} {m' : ModStream} (hm' : (e.openStream m t).1.modStreamIn = some m') :
    m'.modPars.msgType = m.msgType ∧ m'.modPars.ind = m.ind := by
  unfold openStream at hm'
  dsimp only at hm'
  split at hm'
  next =>
    rw [← Option.some.inj hm']
    exact ⟨rfl, rfl⟩
  next =>
    split at hm'
    next =>
      rw [← Option.some.inj hm']
      exact ⟨rfl, rfl⟩
    next =>
      rw [← Option.some.inj hm', ModStream.putEof_closes.modPars]
      exact ⟨rfl, rfl⟩

/-- The signal that `RecvWait` gives to a stream of the DTE. -/
theorem recvWait_stream {t : DataType} {param cb : Int} {m' : ModStream}
    (hm' : (e.recvWait t param cb).2.2.modStreamIn = some m') : (∃ m, e.modStreamIn = some m ∧
      m'.modPars.msgType = m.modPars.msgType ∧ m'.modPars.ind = m.modPars.ind) ∨
      (getModPars param).isModValid = true ∧ m'.modPars.msgType = (getModPars param).msgType ∧
        m'.modPars.ind = (getModPars param).ind := by
  have hold (hm : e.modStreamIn = some m') : ∃ m, e.modStreamIn = some m ∧
      m'.modPars.msgType = m.modPars.msgType ∧ m'.modPars.ind = m.modPars.ind := ⟨m', hm, rfl, rfl⟩
  unfold recvWait at hm'
  split at hm'
  · exact .inl (hold hm')
  · split at hm'
    · exact .inl (hold hm')
    · cases t with
      | dtSilence =>
        dsimp only at hm'
        split at hm'
        next hn => exact .inl (hold hm')
        next => split at hm' <;> exact absurd hm'.symm (Option.some_ne_none m')
      | dtHdlc | dtRaw =>
        dsimp only at hm'
        split at hm'
        next => exact .inl (hold hm')
        next hv =>
          have hvalid : (getModPars param).isModValid = true := by simpa using hv
          split at hm'
          next => exact .inr ⟨hvalid, openStream_stream hm'⟩
          next s hs =>
            split at hm'
            next =>
              obtain ⟨m, hm, rfl⟩ := Option.map_eq_some_iff.mp hs
              have hp : m.deleteFirstBuf.modPars = m.modPars := ModStream.deleteFirstBuf_closes.modPars
              refine .inl ⟨m, hm, ?_⟩
              rw [← Option.some.inj hm', ← hp]
              exact ⟨rfl, rfl⟩
            next => exact .inr ⟨hvalid, openStream_stream hm'⟩
      | _ => exact .inl (hold hm')

/-- The DTE goes on with the stream it has, if it keeps one. -/
def Retains (e e' : T38Engine) : Prop := ∀ m', e'.modStreamIn = some m' → ∃ m, e.modStreamIn = some m ∧ Closes m m'

theorem Retains.of_eq (h : e'.modStreamIn = e.modStreamIn) : Retains e e' := fun m' hm' => ⟨m', h ▸ hm', .refl m'⟩

theorem Retains.none (h : e'.modStreamIn = none) : Retains e e' := fun m' hm' =>
  absurd (h.symm.trans hm').symm (Option.some_ne_none m')

theorem Retains.deleteFirst (h : e'.modStreamIn = e.modStreamIn.map ModStream.deleteFirstBuf) : Retains e e' := by
  intro m' hm'
  obtain ⟨m, hm, rfl⟩ := Option.map_eq_some_iff.mp (h ▸ hm')
  exact ⟨m, hm, ModStream.deleteFirstBuf_closes⟩

theorem recvStart_retains (cb : Int) : Retains e (e.recvStart cb).2 := by
  unfold recvStart
  split
  · exact .of_eq rfl
  · split
    · exact .of_eq rfl
    · dsimp only
      split
      next => exact .of_eq rfl
      next m hm =>
        have hp := @ModStream.popBuf_closes m e.junk
        split
        next m₁ hr =>
          rw [hr] at hp
          intro m' hm'
          rw [← Option.some.inj hm']
          exact ⟨m, hm, hp⟩
        next => exact .none rfl

theorem recv_retains (count : Nat) : Retains e (e.recv count).2 := by
  unfold recv
  split
  · exact .of_eq rfl
  · split
    · exact .of_eq rfl
    · split
      next => exact .of_eq rfl
      next m hm =>
        intro m' hm'
        rw [← Option.some.inj hm']
        exact ⟨m, hm, ModStream.getData_closes⟩

theorem recvStop_retains : Retains e e.recvStop := by
  unfold recvStop
  split
  next => exact .of_eq rfl
  next =>
    split
    next => exact .of_eq rfl
    next => exact .deleteFirst rfl

theorem sendStart_retains (t : DataType) (param : Int) : Retains e (e.sendStart t param).2 := by
  unfold sendStart
  split
  · exact .of_eq rfl
  · split
    · exact .of_eq rfl
    · dsimp only
      split <;> split <;> exact .none rfl

theorem Rows.saved (h : e.Rows) : e.SavedOf (·.ind ≠ .noSignal) := h .modStreamInSaved

theorem Rows.retains (h : e.Rows) (hr : Retains e e') (hk : Keeps e e') : e'.Rows := by
  refine .of (fun m' hm' => ?_) (h.saved.keeps hk)
  obtain ⟨m, hm, hc⟩ := hr m' hm'
  rw [hc.modPars]
  exact h .modStreamIn m hm

theorem Rows.of_reader (h : e.Rows) (hr : e'.reader = e.reader) (hs : e'.SavedOf (·.ind ≠ .noSignal)) : e'.Rows := by
  refine .of (fun m' hm' => ?_) hs
  unfold reader at hr
  rw [hm'] at hr
  obtain ⟨m, hm, hmr⟩ := Option.map_eq_some_iff.mp hr.symm
  have hp : m.modPars = m'.modPars := congrArg Prod.fst hmr
  rw [← hp]
  exact h .modStreamIn m hm

theorem handlePacket_rows (h : e.Rows) (ifp : Ifp) : (e.handlePacket ifp).engine.Rows :=
  h.of_reader (handlePacket_reader ifp) (handlePacket_saved h.saved fun type _ _ => getModParsByInd_ind type)

theorem resumePacket_rows (h : e.Rows) (after : AfterIn) : (e.resumePacket after).engine.Rows :=
  h.of_reader (resumePacket_reader after) (resumePacket_saved h.saved fun type _ _ => getModParsByInd_ind type)

theorem recvWait_rows (h : e.Rows) (t : DataType) (param cb : Int) : (e.recvWait t param cb).2.2.Rows := by
  refine .of (fun m' hm' => ?_) (h.saved.keeps (recvWait_keeps t param cb))
  rcases recvWait_stream hm' with ⟨m, hm, -, hind⟩ | ⟨hv, -, hind⟩
  · rw [hind]
    exact h .modStreamIn m hm
  · rw [hind]
    exact mods_ind (getModPars_mem hv)

/-- No call of the DTE changes what is known of the carrier. -/
theorem openStream_carrier (m : ModPars) (t : DataType) : (e.openStream m t).1.isCarrierIn = e.isCarrierIn := by
  unfold openStream
  dsimp only
  split
  next => rfl
  next => split <;> rfl

theorem recvWait_carrier (t : DataType) (param cb : Int) : (e.recvWait t param cb).2.2.isCarrierIn = e.isCarrierIn := by
  unfold recvWait
  split
  · rfl
  · split
    · rfl
    · cases t with
      | dtSilence =>
        dsimp only
        split
        next => rfl
        next => split <;> rfl
      | dtHdlc | dtRaw =>
        dsimp only
        split
        next => rfl
        next =>
          split
          next => exact openStream_carrier _ _
          next =>
            split
            next => rfl
            next => exact openStream_carrier _ _
      | _ => rfl

theorem recvStart_carrier (cb : Int) : (e.recvStart cb).2.isCarrierIn = e.isCarrierIn := by
  unfold recvStart
  split
  · rfl
  · split
    · rfl
    · dsimp only
      split
      next => rfl
      next => split <;> rfl

theorem recv_carrier (count : Nat) : (e.recv count).2.isCarrierIn = e.isCarrierIn := by
  unfold recv
  split
  · rfl
  · split
    · rfl
    · split <;> rfl

theorem recvStop_carrier : e.recvStop.isCarrierIn = e.isCarrierIn := by
  unfold recvStop
  split
  · rfl
  · split <;> rfl

theorem sendStart_carrier (t : DataType) (param : Int) : (e.sendStart t param).2.isCarrierIn = e.isCarrierIn := by
  unfold sendStart
  split
  · rfl
  · split
    · rfl
    · dsimp only
      split <;> split <;> rfl

end T38Engine

end T38Modem
