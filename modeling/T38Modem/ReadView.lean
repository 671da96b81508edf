import T38Modem.SignalView

namespace T38Modem

open Tape (Cell)

namespace T38Engine

variable {e e' e'' : T38Engine} {l : Incoming} {k : Nat} {got bs : List Byte} {p : Option Place} {f : ModStream → ModStream}
  {type : Indicator} {P : ModPars → Prop}

/-- The DTE gets the octets as they come. -/
def Plain (p : ModPars) : Prop := p.dataTypeT38 = p.dataType

/-- What the DTE is about goes with the stream it has, which is of the kind that it receives. -/
structure ReadPhase (P : ModPars → Prop) (e : T38Engine) : Prop where
  first : ∀ m, e.modStreamIn = some m → (m.firstBuf.isSome = true ↔ e.stateModem = .stmInRecvData)
  reads : e.stateModem.isIn = true → ∃ m, e.modStreamIn = some m ∧ P m.modPars
  ready : e.stateModem = .stmInReadyData → viewOf [] e.modStreamIn ≠ []

/-- What `HandlePacket` does to what the DTE is about. -/
structure Advances (e e' : T38Engine) : Prop where
  reader : e'.reader = e.reader
  filled : viewOf [] e.modStreamIn ≠ [] → viewOf [] e'.modStreamIn ≠ []
  state : e'.stateModem = e.stateModem ∨ e.stateModem = .stmInWaitSilence ∧ e'.stateModem = .stmIdle ∨
    e.stateModem = .stmInWaitData ∧ e'.stateModem = .stmInReadyData ∧ viewOf [] e'.modStreamIn ≠ []

theorem Advances.refl (e : T38Engine) : Advances e e := ⟨rfl, id, .inl rfl⟩

theorem Advances.trans (h : Advances e e') (h' : Advances e' e'') : Advances e e'' := by
  refine ⟨h'.reader.trans h.reader, h'.filled ∘ h.filled, ?_⟩
  rcases h.state with hs | ⟨hs, hs'⟩ | ⟨hs, hs', hv⟩
  · rw [← hs]
    exact h'.state
  · rcases h'.state with ht | ⟨ht, -⟩ | ⟨ht, -⟩
    · exact .inr (.inl ⟨hs, ht.trans hs'⟩)
    · exact absurd (hs'.symm.trans ht) (by simp)
    · exact absurd (hs'.symm.trans ht) (by simp)
  · rcases h'.state with ht | ⟨ht, -⟩ | ⟨ht, -⟩
    · exact .inr (.inr ⟨hs, ht.trans hs', h'.filled hv⟩)
    · exact absurd (hs'.symm.trans ht) (by simp)
    · exact absurd (hs'.symm.trans ht) (by simp)

theorem Advances.of_eq (hi : e'.modStreamIn = e.modStreamIn) (hs : e'.stateModem = e.stateModem) : Advances e e' := by
  refine ⟨congrArg (Option.map ModStream.reader) hi, ?_, .inl hs⟩
  rw [hi]
  exact id

theorem Advances.of_silence (hi : e'.modStreamIn = e.modStreamIn) (hs : e.stateModem = .stmInWaitSilence)
    (hs' : e'.stateModem = .stmIdle) : Advances e e' := by
  refine ⟨congrArg (Option.map ModStream.reader) hi, ?_, .inr (.inl ⟨hs, hs'⟩)⟩
  rw [hi]
  exact id

theorem viewOf_ne {o : Option ModStream} : viewOf got o ≠ [] ↔ ∃ m, o = some m ∧ m.bufs ≠ [] := by
  cases o with
  | none => simp [viewOf]
  | some m =>
    have hv : viewOf got (some m) = m.view got := rfl
    simp [hv, ModStream.view_nil]

theorem updateStream_advances (hr : ∀ m, (f m).reader = m.reader) (hf : ∀ m, m.bufs ≠ [] → (f m).bufs ≠ []) :
    Advances e (e.updateStream f p) := by
  refine ⟨updateStream_reader hr, fun h => ?_, .inl ?_⟩
  · obtain ⟨m, hm, hne⟩ := viewOf_ne.mp h
    match p with
    | none => exact h
    | some .modStreamIn =>
      refine viewOf_ne.mpr ⟨f m, ?_, hf m hne⟩
      show e.modStreamIn.map f = _
      rw [hm, Option.map_some]
    | some .modStreamInSaved => exact h
  · match p with
    | none => rfl
    | some .modStreamIn => rfl
    | some .modStreamInSaved => rfl

theorem finishIn_advances : Advances e e.finishIn.engine := by
  unfold finishIn
  split <;> exact .of_eq rfl rfl

theorem endSilence_advances (after : AfterIn) {otherwise : T38Engine → InOutcome} (h : Advances e (otherwise e).engine) :
    Advances e (e.endSilence after otherwise).engine := by
  unfold endSilence
  split
  next hs => exact .of_silence rfl hs rfl
  next => exact h

theorem dropCarrier_advances : Advances e e.dropCarrier.engine := by
  have h : Advances e { e with isCarrierIn := 0 } := .of_eq rfl rfl
  exact h.trans (endSilence_advances _ finishIn_advances)

theorem userInput_advances (tone : Byte) : Advances e (e.userInput tone).engine := by
  unfold userInput
  split
  next => exact dropCarrier_advances
  next =>
    split
    next => exact dropCarrier_advances
    next => exact .of_eq rfl rfl

/-- The DTE that waits is given what has come, or told that it is another signal. -/
theorem endWaitData_some {m s : ModStream} (hwait : e.stateModem = .stmInWaitData) (hm : e.modStreamIn = some m)
    (hs : e.modStreamInSaved = some s) : ∃ e', e.endWaitData = .call e' .paramIn e.callbackParamIn .finish ∧
      e'.stateModem = .stmInReadyData ∧
      (e'.modStreamIn = some (m.move s) ∨ e'.modStreamIn = some ((m.pushBuf e.nextBuf).putEof diagDiffSig)) := by
  unfold endWaitData
  rw [if_pos hwait, hm, hs]
  dsimp only
  split
  · exact ⟨_, rfl, rfl, .inl rfl⟩
  · exact ⟨_, rfl, rfl, .inr rfl⟩

theorem endWaitData_advances (hw : e.stateModem = .stmInWaitData → e.modStreamIn ≠ none)
    (hs : ∀ m, e.modStreamInSaved = some m → m.bufs ≠ []) (hn : e.modStreamInSaved ≠ none) :
    Advances e e.endWaitData.engine := by
  by_cases hwait : e.stateModem = .stmInWaitData
  · obtain ⟨m, hm⟩ := Option.ne_none_iff_exists'.mp (hw hwait)
    obtain ⟨s, hsaved⟩ := Option.ne_none_iff_exists'.mp hn
    have hr := endWaitData_reader (e := e)
    obtain ⟨e', he, hstate, hin⟩ := endWaitData_some hwait hm hsaved
    have hmove : (m.move s).bufs = m.bufs ++ s.bufs := by simp [ModStream.bufs, ModStream.move]
    have hfilled : viewOf [] e'.modStreamIn ≠ [] := by
      rcases hin with hin | hin
      · exact viewOf_ne.mpr ⟨_, hin, by simp [hmove, hs s hsaved]⟩
      · exact viewOf_ne.mpr ⟨_, hin, Edit.putEof_bufs _ (by simp [ModStream.bufs, ModStream.pushBuf])⟩
    rw [he] at hr ⊢
    exact ⟨hr, fun _ => hfilled, .inr (.inr ⟨hwait, hstate, hfilled⟩)⟩
  · unfold endWaitData
    rw [if_neg hwait]
    exact finishIn_advances

theorem training_advances (hw : e.stateModem = .stmInWaitData → e.modStreamIn ≠ none) (type : Indicator) :
    Advances e (e.training type).engine := by
  unfold training
  dsimp only
  refine Advances.trans ?_ (endSilence_advances _ (endWaitData_advances hw (fun m hm => ?_) (Option.some_ne_none _)))
  · exact .of_eq rfl rfl
  · rw [← Option.some.inj hm]
    simp [ModStream.bufs, ModStream.pushBuf]

theorem indicatorSwitch_advances (hw : e.stateModem = .stmInWaitData → e.modStreamIn ≠ none) (type : Indicator) :
    Advances e (e.indicatorSwitch type).engine := by
  have h : Advances e { e with modStreamInSaved := none } := .of_eq rfl rfl
  refine h.trans ?_
  unfold indicatorSwitch
  split
  · exact dropCarrier_advances
  · exact userInput_advances _
  · exact userInput_advances _
  · exact finishIn_advances
  · exact training_advances (e := { e with modStreamInSaved := none }) hw type

theorem putEof_advances (d : Diag) (p : Option Place) : Advances e (e.updateStream (·.putEof d) p) :=
  updateStream_advances (fun _ => ModStream.putEof_reader) fun _ => Edit.putEof_bufs d

theorem handleIndicator_advances (hw : e.stateModem = .stmInWaitData → e.modStreamIn ≠ none) (type : Indicator) :
    Advances e (e.handleIndicator type).engine := by
  unfold handleIndicator
  split
  · exact finishIn_advances
  · split
    · split
      · exact finishIn_advances
      · have h : Advances e (e.updateStream (·.putEof (diagOutOfOrder ||| diagNoCarrier)) (some .modStreamIn)) :=
          putEof_advances _ _
        dsimp only
        split
        · exact h
        · have hw' (hs : e.stateModem = .stmInWaitData) : e.modStreamIn.map (·.putEof (diagOutOfOrder ||| diagNoCarrier)) ≠
              none := fun hn => hw hs (Option.map_eq_none_iff.mp hn)
          exact h.trans (indicatorSwitch_advances
            (e := e.updateStream (·.putEof (diagOutOfOrder ||| diagNoCarrier)) (some .modStreamIn)) hw' type)
    · exact indicatorSwitch_advances hw type

theorem fieldData_advances (fd : DataField) : Advances e (e.fieldData p fd) := by
  rcases fieldData_cases (e := e) p fd with ⟨he, -⟩ | ⟨bs, n, he, -⟩
  · rw [he]
    exact .refl e
  · rw [he]
    have h : Advances e (e.updateStream (·.putData bs) p) :=
      updateStream_advances (fun _ => ModStream.putData_reader) (Edit.putData bs).bufs
    exact h.trans (.of_eq rfl rfl)

theorem closeBuf_advances : Advances e (e.closeBuf p) := by
  unfold closeBuf
  split
  · exact .refl e
  · have hpush (e : T38Engine) : Advances e (e.pushBufAt p) := by
      have h : Advances e (e.updateStream (·.pushBuf e.nextBuf) p) :=
        updateStream_advances (fun _ => rfl) fun m _ => by simp [ModStream.bufs, ModStream.pushBuf]
      exact h.trans (.of_eq rfl rfl)
    exact (putEof_advances 0 p).trans (hpush _)

theorem fieldFcs_advances (fd : DataField) : Advances e (e.fieldFcs p fd) := by
  have bad : Advances e ((e.updateStream (·.setDiag diagBadFcs) p).closeBuf p) :=
    (updateStream_advances (fun _ => ModStream.setDiag_reader) (Edit.setDiag diagBadFcs).bufs).trans closeBuf_advances
  unfold fieldFcs
  split
  · exact bad
  · exact bad
  · exact closeBuf_advances
  · exact closeBuf_advances
  · exact .refl e

theorem handleFields_advances (fs : List DataField) : Advances e (e.handleFields p fs).engine := by
  induction fs generalizing e p with
  | nil =>
    unfold handleFields afterFields
    split
    · exact .refl e
    · exact finishIn_advances
  | cons fd rest ih =>
    have h : Advances e ((e.fieldData p fd).fieldFcs p fd) := (fieldData_advances fd).trans (fieldFcs_advances fd)
    unfold handleFields
    dsimp only
    split
    · have hend : Advances e { ((e.fieldData p fd).fieldFcs p fd).updateStream (·.putEof diagNoCarrier) p with
          isCarrierIn := 0 } := (h.trans (putEof_advances _ _)).trans (.of_eq rfl rfl)
      split
      next hs => exact hend.trans (.of_silence rfl hs rfl)
      next => exact hend.trans ih
    · exact h.trans ih

theorem handlePacket_advances (hw : e.stateModem = .stmInWaitData → e.modStreamIn ≠ none) (ifp : Ifp) :
    Advances e (e.handlePacket ifp).engine := by
  cases ifp with
  | t30Indicator type => exact handleIndicator_advances hw type
  | data type fields =>
    unfold handlePacket handleData
    dsimp only
    split
    · exact (putEof_advances _ _).trans (handleFields_advances _)
    · exact handleFields_advances _
  | badTag => exact finishIn_advances

theorem resumePacket_advances (hw : e.stateModem = .stmInWaitData → e.modStreamIn ≠ none) (after : AfterIn) :
    Advances e (e.resumePacket after).engine := by
  cases after with
  | indicator type => exact indicatorSwitch_advances hw type
  | dropCarrier => exact dropCarrier_advances
  | fields rest => exact handleFields_advances rest
  | finish => exact finishIn_advances
  | ret => exact .refl e

theorem handlePacketLost_advances : Advances e e.handlePacketLost := by
  refine updateStream_advances (fun m => ?_) fun m h => ?_
  · split
    · exact ModStream.setDiag_reader
    · rfl
  · split
    · exact (Edit.setDiag diagBadFcs).bufs m h
    · exact h

theorem handlePacketLost_state : e.handlePacketLost.stateModem = e.stateModem := by
  unfold handlePacketLost
  match e.openPlace with
  | none => rfl
  | some .modStreamIn => rfl
  | some .modStreamInSaved => rfl

/-- Only the end of a signal is left to be told behind a callback. -/
theorem pending_ends {ifp : Ifp} (ht : e.PacketInTurn ifp) {t : Indicator}
    (h : (e.handlePacket ifp).after = some (.indicator t)) : t.isTraining = false := by
  cases ifp with
  | t30Indicator type =>
    have h : (e.handleIndicator type).after = some (.indicator t) := h
    unfold handleIndicator at h
    split at h
    next => exact absurd h (finishIn_calm.2 t)
    next hrep =>
      split at h
      next ho =>
        obtain ⟨-, hi, -⟩ := (ht type rfl).resolve_left fun ht => hrep ht.2
        obtain ⟨rfl, hc⟩ := hi ho
        rw [if_neg fun hn => hc hn.2.1] at h
        dsimp only at h
        split at h
        next =>
          rw [← AfterIn.indicator.inj (Option.some.inj h)]
          rfl
        next => exact absurd h (indicatorSwitch_after _ t)
      next => exact absurd h (indicatorSwitch_after type t)
  | data type fields => exact absurd h ((handleData_calm type fields).2 t)
  | badTag => exact absurd h (finishIn_calm.2 t)

/-- The stream that the DTE has is the one it had. -/
theorem reader_some (hr : e'.reader = e.reader) {m' : ModStream} (hm' : e'.modStreamIn = some m') :
    ∃ m, e.modStreamIn = some m ∧ m'.reader = m.reader := by
  unfold reader at hr
  rw [hm'] at hr
  obtain ⟨m, hm, hmr⟩ := Option.map_eq_some_iff.mp hr.symm
  exact ⟨m, hm, hmr.symm⟩

theorem ReadPhase.advances (h : ReadPhase P e) (ha : Advances e e') : ReadPhase P e' := by
  have hfirst {m m' : ModStream} (hr : m'.reader = m.reader) : m'.firstBuf.isSome = m.firstBuf.isSome := by
    have hid : m'.firstBuf.map Buf.id = m.firstBuf.map Buf.id := congrArg (·.2.2) hr
    rw [← Option.isSome_map (f := Buf.id), hid, Option.isSome_map]
  have hrecv : e'.stateModem = .stmInRecvData ↔ e.stateModem = .stmInRecvData := by
    rcases ha.state with hs | ⟨hs, hs'⟩ | ⟨hs, hs', -⟩
    · rw [hs]
    · rw [hs, hs']
      simp
    · rw [hs, hs']
      simp
  refine ⟨fun m' hm' => ?_, fun hi => ?_, fun hs => ?_⟩
  · obtain ⟨m, hm, hr⟩ := reader_some ha.reader hm'
    rw [hfirst hr, hrecv]
    exact h.first m hm
  · have hi' : e.stateModem.isIn = true := by
      rcases ha.state with hs | ⟨-, hs⟩ | ⟨hs, -⟩
      · rwa [hs] at hi
      · rw [hs] at hi
        cases hi
      · rw [hs]
        rfl
    obtain ⟨m, hm, hp⟩ := h.reads hi'
    have hr := ha.reader
    unfold reader at hr
    rw [hm] at hr
    obtain ⟨m', hm', hmr⟩ := Option.map_eq_some_iff.mp hr
    have hpars : m'.modPars = m.modPars := congrArg Prod.fst hmr
    refine ⟨m', hm', ?_⟩
    rw [hpars]
    exact hp
  · rcases ha.state with hs' | ⟨-, hs'⟩ | ⟨-, -, hv⟩
    · exact ha.filled (h.ready (hs'.symm.trans hs))
    · exact absurd (hs'.symm.trans hs) (by simp)
    · exact hv

theorem ReadPhase.of_state (h : ReadPhase P e) (hi : e'.modStreamIn = e.modStreamIn) (hs : e'.stateModem = e.stateModem) :
    ReadPhase P e' := h.advances (.of_eq hi hs)

theorem ne_of_isIn {s s' : StateModem} (h : s.isIn = false) (h' : s'.isIn = true) : s ≠ s' := by
  rintro rfl
  exact Bool.false_ne_true (h.symm.trans h')

/-- The DTE does not receive, before and after. -/
theorem ReadPhase.of_notIn (h : ReadPhase P e) (hi : e'.modStreamIn = e.modStreamIn) (hs : e.stateModem.isIn = false)
    (hs' : e'.stateModem.isIn = false) : ReadPhase P e' := by
  refine ⟨fun m hm => ?_, fun hin => absurd (hs'.symm.trans hin) Bool.false_ne_true,
    fun hr => absurd hr (ne_of_isIn hs' rfl)⟩
  have hm := h.first m (hi.symm.trans hm)
  exact ⟨fun hf => absurd (hm.mp hf) (ne_of_isIn hs rfl), fun hr => absurd hr (ne_of_isIn hs' rfl)⟩

end T38Engine

end T38Modem
