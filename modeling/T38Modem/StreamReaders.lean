import T38Modem.StreamReading

namespace T38Modem

namespace T38Engine

variable {e e' e'' : T38Engine} {p : Option Place} {f : ModStream → ModStream}

/-- What the DTE has of the stream it reads. -/
def reader (e : T38Engine) : Option (ModPars × Hdlc × Option BufId) := e.modStreamIn.map ModStream.reader

def Encodes (e : T38Engine) : Prop := ∀ m, e.modStreamIn = some m → m.Encodes

theorem Encodes.congr (he : e.Encodes) (hr : e'.reader = e.reader) : e'.Encodes := by
  intro m' hm'
  unfold reader at hr
  rw [hm'] at hr
  obtain ⟨m, hm, hmr⟩ := Option.map_eq_some_iff.mp hr.symm
  exact (he m hm).congr hmr.symm

theorem Encodes.of_in (he : e.Encodes) (hi : e'.modStreamIn = e.modStreamIn) : e'.Encodes := fun m hm => he m (hi ▸ hm)

theorem Encodes.of_none (hi : e'.modStreamIn = none) : e'.Encodes := fun m hm =>
  absurd (hi.symm.trans hm).symm (Option.some_ne_none m)

theorem Encodes.of_some {m : ModStream} (hm : m.Encodes) (hi : e'.modStreamIn = some m) : e'.Encodes := by
  intro m' hm'
  rw [← Option.some.inj (hi.symm.trans hm')]
  exact hm

theorem updateStream_reader (hf : ∀ m, (f m).reader = m.reader) : (e.updateStream f p).reader = e.reader := by
  match p with
  | none => rfl
  | some .modStreamIn =>
    show (e.modStreamIn.map f).map ModStream.reader = _
    rw [Option.map_map]
    exact congrArg (Option.map · e.modStreamIn) (funext hf)
  | some .modStreamInSaved => rfl

theorem closeBuf_reader : (e.closeBuf p).reader = e.reader := by
  unfold closeBuf
  split
  next => rfl
  next =>
    have hput : ((e.updateStream (·.putEof 0) p).pushBufAt p).reader = (e.updateStream (·.putEof 0) p).reader :=
      updateStream_reader fun _ => rfl
    exact hput.trans (updateStream_reader fun _ => ModStream.putEof_reader)

theorem fieldData_reader (fd : DataField) : (e.fieldData p fd).reader = e.reader := by
  unfold fieldData
  split
  · rfl
  · rfl
  · exact updateStream_reader fun _ => ModStream.putData_reader

theorem fieldFcs_reader (fd : DataField) : (e.fieldFcs p fd).reader = e.reader := by
  have bad : ((e.updateStream (·.setDiag diagBadFcs) p).closeBuf p).reader = e.reader :=
    closeBuf_reader.trans (updateStream_reader fun _ => ModStream.setDiag_reader)
  unfold fieldFcs
  split
  · exact bad
  · exact bad
  · exact closeBuf_reader
  · exact closeBuf_reader
  · rfl

theorem finishIn_reader : e.finishIn.engine.reader = e.reader := by
  unfold finishIn
  split <;> rfl

theorem dropCarrier_reader : e.dropCarrier.engine.reader = e.reader := by
  unfold dropCarrier endSilence
  split
  next => rfl
  next => exact finishIn_reader

theorem userInput_reader (tone : Byte) : (e.userInput tone).engine.reader = e.reader := by
  unfold userInput
  split
  next => exact dropCarrier_reader
  next =>
    split
    next => exact dropCarrier_reader
    next => rfl

theorem endWaitData_reader : e.endWaitData.engine.reader = e.reader := by
  unfold endWaitData
  split
  next =>
    dsimp only
    split
    next s saved hs _ =>
      have he : e.reader = some s.reader := congrArg (Option.map ModStream.reader) hs
      split
      next => exact he.symm
      next =>
        have hput : ((s.pushBuf e.nextBuf).putEof diagDiffSig).reader = s.reader := ModStream.putEof_reader
        exact (congrArg some hput).trans he.symm
    next => rfl
  next => exact finishIn_reader

theorem training_reader (type : Indicator) : (e.training type).engine.reader = e.reader := by
  unfold training endSilence
  dsimp only
  split
  next => rfl
  next => exact endWaitData_reader

theorem indicatorSwitch_reader (type : Indicator) : (e.indicatorSwitch type).engine.reader = e.reader := by
  unfold indicatorSwitch
  split
  · exact dropCarrier_reader
  · exact userInput_reader _
  · exact userInput_reader _
  · exact finishIn_reader
  · exact training_reader type

theorem handleIndicator_reader (type : Indicator) : (e.handleIndicator type).engine.reader = e.reader := by
  have hend : (e.updateStream (·.putEof (diagOutOfOrder ||| diagNoCarrier)) (some .modStreamIn)).reader = e.reader :=
    updateStream_reader fun _ => ModStream.putEof_reader
  unfold handleIndicator
  split
  next => exact finishIn_reader
  next =>
    split
    next =>
      split
      next => exact finishIn_reader
      next =>
        dsimp only
        split
        next => exact hend
        next => exact (indicatorSwitch_reader type).trans hend
    next => exact indicatorSwitch_reader type

theorem afterFields_reader : e.afterFields.engine.reader = e.reader := by
  unfold afterFields
  split
  next => rfl
  next => exact finishIn_reader

theorem handleFields_reader (fs : List DataField) : (e.handleFields p fs).engine.reader = e.reader := by
  induction fs generalizing e p with
  | nil => exact afterFields_reader
  | cons fd rest ih =>
    have hf : ((e.fieldData p fd).fieldFcs p fd).reader = e.reader := (fieldFcs_reader fd).trans (fieldData_reader fd)
    have hend : (updateStream ((e.fieldData p fd).fieldFcs p fd) (·.putEof diagNoCarrier) p).reader = e.reader :=
      (updateStream_reader fun _ => ModStream.putEof_reader).trans hf
    unfold handleFields
    dsimp only
    split
    next =>
      split
      next => exact hend
      next => exact ih.trans hend
    next => exact ih.trans hf

theorem handlePacket_reader (ifp : Ifp) : (e.handlePacket ifp).engine.reader = e.reader := by
  cases ifp with
  | t30Indicator type => exact handleIndicator_reader type
  | data type fields =>
    have hend : (e.updateStream (·.putEof (diagOutOfOrder ||| diagNoCarrier)) e.openPlace).reader = e.reader :=
      updateStream_reader fun _ => ModStream.putEof_reader
    unfold handlePacket handleData
    dsimp only
    split
    next => exact (handleFields_reader _).trans hend
    next => exact handleFields_reader _
  | badTag => exact finishIn_reader

theorem resumePacket_reader (after : AfterIn) : (e.resumePacket after).engine.reader = e.reader := by
  cases after with
  | indicator t => exact indicatorSwitch_reader t
  | dropCarrier => exact dropCarrier_reader
  | fields rest => exact handleFields_reader rest
  | finish => exact finishIn_reader
  | ret => rfl

theorem handlePacketLost_reader : e.handlePacketLost.reader = e.reader :=
  updateStream_reader fun m => by
    split
    · exact ModStream.setDiag_reader
    · rfl

theorem openStream_encodes (m : ModPars) (t : DataType) : (e.openStream m t).1.Encodes := by
  have hnew (s : ModStream) (hs : s.firstBuf = none) {e' : T38Engine} (hi : e'.modStreamIn = some s) : e'.Encodes :=
    .of_some (.of_none hs) hi
  unfold openStream
  dsimp only
  split
  next => exact hnew _ rfl rfl
  next =>
    split
    next => exact hnew _ rfl rfl
    next => exact hnew _ rfl rfl

theorem recvWait_encodes (he : e.Encodes) (t : DataType) (param cb : Int) : (e.recvWait t param cb).2.2.Encodes := by
  unfold recvWait
  split
  · exact he
  · split
    · exact he
    · cases t with
      | dtSilence =>
        dsimp only
        split
        next => exact he
        next => split <;> exact .of_none rfl
      | dtHdlc | dtRaw =>
        dsimp only
        split
        next => exact he
        next =>
          split
          next => exact openStream_encodes _ _
          next s hs =>
            split
            next =>
              intro m' hm'
              obtain ⟨m, -, rfl⟩ := Option.map_eq_some_iff.mp hs
              rw [← Option.some.inj hm']
              exact .of_none (show m.deleteFirstBuf.firstBuf = none from ModStream.deleteFirstBuf_none)
            next => exact openStream_encodes _ _
      | _ => exact he

theorem recvStart_encodes (he : e.Encodes) (cb : Int) : (e.recvStart cb).2.Encodes := by
  unfold recvStart
  split
  · exact he
  · split
    · exact he
    · dsimp only
      split
      next hm => exact .of_none hm
      next m hm =>
        have hp := @ModStream.popBuf_encodes m e.junk
        split
        next m' hr =>
          rw [hr] at hp
          exact .of_some hp rfl
        next => exact .of_none rfl

theorem recv_encodes (he : e.Encodes) (count : Nat) : (e.recv count).2.Encodes := by
  unfold recv
  split
  · exact he
  · split
    · exact he
    · split
      next hm => exact .of_none hm
      next m hm => exact .of_some (ModStream.getData_encodes (he m hm)) rfl

/-- The buffer that is read is thrown away. -/
theorem deleteFirst_encodes (hi : e'.modStreamIn = e.modStreamIn.map ModStream.deleteFirstBuf) : e'.Encodes := by
  intro m' hm'
  obtain ⟨m, -, rfl⟩ := Option.map_eq_some_iff.mp (hi ▸ hm')
  exact ModStream.deleteFirstBuf_encodes

theorem recvStop_encodes (he : e.Encodes) : e.recvStop.Encodes := by
  unfold recvStop
  split
  · exact he
  · split
    · exact he
    · exact deleteFirst_encodes (e := e) rfl

theorem sendStart_encodes (he : e.Encodes) (t : DataType) (param : Int) : (e.sendStart t param).2.Encodes := by
  unfold sendStart
  split
  · exact he
  · split
    · exact he
    · dsimp only
      split <;> split <;> exact .of_none rfl

/-- Where no signal is received, the DTE that reads is told so only once before it gets -1. -/
theorem recv_closed (he : e.Encodes) (hp : e.Paired) (hc : isOpen e.modStreamIn = false) {n : Nat} (hn : 0 < n)
    (hr : (e.recv n).1 = some []) (k : Nat) : ((e.recv n).2.recv k).1 = none := by
  have hgone {e' : T38Engine} (hg : ∀ m, e'.modStreamIn = some m → m.firstBuf = none) : (e'.recv k).1 = none := by
    unfold recv
    split
    · rfl
    · split
      · rfl
      · split
        next => rfl
        next m hm => exact ModStream.getData_gone (hg m hm)
  refine hgone fun m' hm' => ?_
  unfold recv at hr hm'
  split at hr
  · cases hr
  · split at hr
    · cases hr
    · split at hr
      · cases hr
      · next hopen hstate _ m hm =>
        rw [if_neg hopen, if_neg hstate, hm] at hm'
        rw [← Option.some.inj hm']
        have hl : m.lastBuf = none := by
          rw [hm] at hc
          exact ModStream.isOpen_false hc
        exact ModStream.getData_closed (he m hm) (hp.left m hm) hl hn hr

end T38Engine

end T38Modem
