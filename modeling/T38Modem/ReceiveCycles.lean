import T38Modem.ReceptionEnd

namespace T38Modem

open T38Engine

namespace T38Engine

variable {e : T38Engine} {p : Option Place}

theorem updateStream_aside {f : ModStream → ModStream} (hp : p ≠ some .modStreamIn) :
    (e.updateStream f p).modStreamIn = e.modStreamIn := by
  match p with
  | none => rfl
  | some .modStreamIn => exact absurd rfl hp
  | some .modStreamInSaved => rfl

theorem closeBuf_aside (hp : p ≠ some .modStreamIn) : (e.closeBuf p).modStreamIn = e.modStreamIn := by
  unfold closeBuf
  split
  · rfl
  · exact (updateStream_aside hp).trans (updateStream_aside hp)

theorem field_aside (hp : p ≠ some .modStreamIn) (fd : DataField) :
    ((e.fieldData p fd).fieldFcs p fd).modStreamIn = e.modStreamIn := by
  have hdata : (e.fieldData p fd).modStreamIn = e.modStreamIn := by
    unfold fieldData
    split
    · rfl
    · rfl
    · exact updateStream_aside hp
  refine Eq.trans ?_ hdata
  unfold fieldFcs
  split
  · exact (closeBuf_aside hp).trans (updateStream_aside hp)
  · exact (closeBuf_aside hp).trans (updateStream_aside hp)
  · exact closeBuf_aside hp
  · exact closeBuf_aside hp
  · rfl

theorem handleFields_aside (hp : p ≠ some .modStreamIn) (fs : List DataField) :
    (e.handleFields p fs).engine.modStreamIn = e.modStreamIn := by
  induction fs generalizing e p with
  | nil => exact afterFields_streams.1
  | cons fd rest ih =>
    have hfield := field_aside (e := e) hp fd
    unfold handleFields
    dsimp only
    split
    · split
      · exact (updateStream_aside hp).trans hfield
      · exact (ih (by simp)).trans ((updateStream_aside hp).trans hfield)
    · exact (ih hp).trans hfield

/-- While the DTE does not wait, no signal comes into its stream but the one that it is already of. -/
theorem indicatorSwitch_aside (hw : e.stateModem ≠ .stmInWaitData) (type : Indicator) :
    (e.indicatorSwitch type).engine.modStreamIn = e.modStreamIn := by
  have htraining (e : T38Engine) (hw : e.stateModem ≠ .stmInWaitData) (type : Indicator) :
      (e.training type).engine.modStreamIn = e.modStreamIn := by
    unfold training endSilence
    dsimp only
    split
    · rfl
    · unfold endWaitData
      rw [if_neg hw]
      exact finishIn_streams.1
  unfold indicatorSwitch
  dsimp only
  split
  · exact dropCarrier_streams.1
  · exact (userInput_streams _).1
  · exact (userInput_streams _).1
  · exact finishIn_streams.1
  · exact htraining { e with modStreamInSaved := none } hw type

theorem openPlace_aside (ho : isOpen e.modStreamIn = false) : e.openPlace ≠ some .modStreamIn := by
  unfold openPlace
  rw [if_neg (by simp [ho])]
  split <;> simp

theorem handleData_aside (ho : isOpen e.modStreamIn = false) (type : MsgType) (fields : Option (List DataField)) :
    (e.handleData type fields).engine.modStreamIn = e.modStreamIn := by
  have hp := openPlace_aside ho
  unfold handleData
  dsimp only
  split
  · exact (handleFields_aside (by simp) _).trans (updateStream_aside hp)
  · exact handleFields_aside hp _

theorem handlePacket_aside (ho : isOpen e.modStreamIn = false) (hw : e.stateModem ≠ .stmInWaitData) (ifp : Ifp) :
    (e.handlePacket ifp).engine.modStreamIn = e.modStreamIn := by
  cases ifp with
  | t30Indicator type =>
    show (e.handleIndicator type).engine.modStreamIn = _
    unfold handleIndicator
    split
    · exact finishIn_streams.1
    · rw [if_neg (by simp [ho])]
      exact indicatorSwitch_aside hw type
  | data type fields => exact handleData_aside ho type fields
  | badTag => exact finishIn_streams.1

theorem handlePacketLost_aside (ho : isOpen e.modStreamIn = false) : e.handlePacketLost.modStreamIn = e.modStreamIn :=
  updateStream_aside (openPlace_aside ho)

theorem resumePacket_aside (hw : e.stateModem ≠ .stmInWaitData) (after : AfterIn) :
    (e.resumePacket after).engine.modStreamIn = e.modStreamIn := by
  cases after with
  | indicator type => exact indicatorSwitch_aside hw type
  | dropCarrier => exact dropCarrier_streams.1
  | fields rest => exact handleFields_aside (by simp) rest
  | finish => exact finishIn_streams.1
  | ret => rfl

/-- The modem is idle, or it receives a signal. -/
def StateModem.Receptive (m : StateModem) : Prop := m = .stmIdle ∨ m.isIn = true

theorem recvStart_shape (e : T38Engine) (cb : Int) :
    (e.stateModem ≠ .stmInReadyData → (e.recvStart cb).2 = e) ∧
      (e.recvStart cb).2.modStreamInSaved = e.modStreamInSaved ∧
      (StateModem.Receptive e.stateModem → StateModem.Receptive (e.recvStart cb).2.stateModem) := by
  unfold recvStart
  split
  · exact ⟨fun _ => rfl, rfl, id⟩
  · split
    · exact ⟨fun _ => rfl, rfl, id⟩
    next hs =>
      dsimp only
      split
      · exact ⟨fun hne => absurd hne hs, rfl, fun _ => .inl rfl⟩
      · split
        · exact ⟨fun hne => absurd hne hs, rfl, fun _ => .inr rfl⟩
        · exact ⟨fun hne => absurd hne hs, rfl, fun _ => .inl rfl⟩

theorem recv_shape (e : T38Engine) (n : Nat) :
    (e.recv n).2.stateModem = e.stateModem ∧ (e.recv n).2.modStreamInSaved = e.modStreamInSaved := by
  unfold recv
  split
  · exact ⟨rfl, rfl⟩
  · split
    · exact ⟨rfl, rfl⟩
    · split <;> exact ⟨rfl, rfl⟩

theorem recvStop_shape (e : T38Engine) :
    (e.stateModem.isIn = false → e.recvStop = e) ∧ e.recvStop.modStreamInSaved = e.modStreamInSaved ∧
      (StateModem.Receptive e.stateModem → StateModem.Receptive e.recvStop.stateModem) := by
  unfold recvStop
  split
  · exact ⟨fun _ => rfl, rfl, id⟩
  · split
    · exact ⟨fun _ => rfl, rfl, id⟩
    next hin => exact ⟨fun hn => absurd hn hin, rfl, fun _ => .inl rfl⟩

/-- All that is kept for the DTE, and the stream that it has asked for, are of one modulation. -/
structure OfSignal (type : MsgType) (e : T38Engine) : Prop where
  stream : ∀ m, e.modStreamIn = some m → m.modPars.msgType = type ∨ m.bufs = [] ∧ e.stateModem = .stmIdle
  saved : e.SavedOf (·.msgType = type)

variable {e' : T38Engine} {type : MsgType} {t : DataType} {param : Int}

namespace OfSignal

theorem filled (h : e.OfSignal type) {m : ModStream} (hm : e.modStreamIn = some m) (hb : m.bufs ≠ []) :
    m.modPars.msgType = type :=
  (h.stream m hm).resolve_right fun hn => hb hn.1

theorem taken (h : e.OfSignal type) {m : ModStream} (hm : e.modStreamIn = some m) (hs : e.stateModem ≠ .stmIdle) :
    m.modPars.msgType = type :=
  (h.stream m hm).resolve_right fun hn => hs hn.2

/-- What comes next is of the signal. -/
theorem pending (h : e.OfSignal type) {type' : MsgType} (htype : e.pendingType = some type') : type = type' := by
  by_cases hv : viewOf [] e.modStreamIn = []
  · cases hs : e.modStreamInSaved with
    | none => simp [pendingType, hv, hs] at htype
    | some m =>
      rw [pendingType_saved hv hs] at htype
      rw [← Option.some.inj htype]
      exact (h.saved m hs).symm
  · obtain ⟨m, hm, hb⟩ := viewOf_ne.mp hv
    rw [pendingType_in hm hb] at htype
    rw [← Option.some.inj htype]
    exact (h.filled hm hb).symm

/-- The DTE that asks for the signal asks for what comes next. -/
theorem asks (h : e.OfSignal type) (ht : t = .dtHdlc ∨ t = .dtRaw) (hp : (getModPars param).msgType = type)
    (hh : hdlcT38 (getModPars param) e.t30.hdlcOnly = t) : e.Asks t param := by
  have hpending (type' : MsgType) (htype : e.pendingType = some type') : (getModPars param).msgType = type' :=
    hp.trans (h.pending htype)
  rcases ht with rfl | rfl <;> exact ⟨hpending, hh⟩

/-- The indicator of the signal comes in its turn when nothing else has come. -/
theorem inTurn (h : e.OfSignal type) {ind : Indicator} (ht : (getModParsByInd ind).msgType = type)
    (hs : e.modStreamInSaved = none) (ho : isOpen e.modStreamIn = false) : e.InTurn ind := by
  refine .inr ⟨hs, fun hopen => absurd (ho.symm.trans hopen) Bool.false_ne_true, fun _ hw m hm => ?_⟩
  rw [ht]
  exact h.taken hm (by simp [hw])

/-- What the thread with the packets does keeps to the signal. -/
theorem advances (h : e.OfSignal type) (ha : Advances e e') (hs : e'.SavedOf (·.msgType = type))
    (haside : viewOf [] e.modStreamIn = [] → e.stateModem ≠ .stmInWaitData → e'.modStreamIn = e.modStreamIn) :
    e'.OfSignal type := by
  refine ⟨fun m' hm' => ?_, hs⟩
  obtain ⟨m, hm, hr⟩ := reader_some ha.reader hm'
  have hp : m'.modPars = m.modPars := congrArg Prod.fst hr
  rcases h.stream m hm with htype | ⟨hb, hidle⟩
  · exact .inl (hp ▸ htype)
  · have hv : viewOf [] e.modStreamIn = [] := by
      by_contra hv
      obtain ⟨m₁, hm₁, hb₁⟩ := viewOf_ne.mp hv
      rw [hm] at hm₁
      exact hb₁ (Option.some.inj hm₁ ▸ hb)
    have hsame := haside hv (by simp [hidle])
    rw [hsame, hm] at hm'
    refine .inr ⟨Option.some.inj hm' ▸ hb, ?_⟩
    rcases ha.state with hst | ⟨hst, -⟩ | ⟨hst, -⟩
    · exact hst.trans hidle
    · exact absurd (hidle.symm.trans hst) (by simp)
    · exact absurd (hidle.symm.trans hst) (by simp)

/-- What the DTE does behind `RecvWait` keeps to the signal. -/
theorem retains (h : e.OfSignal type) (hr : Retains e e') (hs : e'.modStreamInSaved = e.modStreamInSaved)
    (hst : e.stateModem ≠ .stmIdle ∨ e'.modStreamIn = e.modStreamIn ∧ e'.stateModem = e.stateModem) :
    e'.OfSignal type := by
  refine ⟨fun m' hm' => ?_, fun m hm => h.saved m (hs ▸ hm)⟩
  rcases hst with hne | ⟨hi, hsame⟩
  · obtain ⟨m, hm, hc⟩ := hr m' hm'
    rw [hc.modPars]
    exact .inl (h.taken hm hne)
  · rw [hsame]
    exact h.stream m' (hi ▸ hm')

theorem recvWait (h : e.OfSignal type) (ht : t = .dtHdlc ∨ t = .dtRaw) (hp : (getModPars param).msgType = type)
    (cb : Int) :
    (e.recvWait t param cb).2.2.OfSignal type := by
  refine ⟨fun m' hm' => ?_, h.saved.keeps (recvWait_keeps t param cb)⟩
  rcases recvWait_cases e param cb ht with ⟨-, he⟩ | ⟨-, ⟨-, -, he⟩ | ⟨m, hm, hq, he⟩⟩
  · rw [he] at hm' ⊢
    exact h.stream m' hm'
  · rw [he] at hm'
    exact .inl ((openStream_stream hm').1.trans hp)
  · have hb : m.bufs ≠ [] := by
      intro hn
      have hsame : m.deleteFirstBuf = m := ModStream.deleteFirstBuf_same (by simpa using (List.append_eq_nil_iff.mp hn).1)
      rw [hsame] at hq
      exact hq (List.append_eq_nil_iff.mp hn).2
    have htype := h.filled hm hb
    rw [he] at hm'
    rw [← Option.some.inj hm']
    exact .inl htype

end OfSignal

end T38Engine

namespace Sys

variable {s s' : Sys} {a : Act} {es : List Event} {x x' : Sys × DteLog} {type : MsgType} {t : DataType}

/-- In every run the DTE can ask for the signal that its stream is of. -/
theorem run_known {junk : Hdlc} {now : Int} {as : List Act}
    (h : machine.Run (fun _ _ => True) (start junk now) as es s) :
    ∀ m, s.e.modStreamIn = some m → Known m.modPars.msgType := by
  have hinv : s.Attached ∧ ∀ m, s.e.modStreamIn = some m → Known m.modPars.msgType := by
    refine h.state_invariant (I := fun s => s.Attached ∧ ∀ m, s.e.modStreamIn = some m → Known m.modPars.msgType)
      ⟨.start junk now, fun m hm => absurd hm.symm (Option.some_ne_none m)⟩ fun s a s' es' hi _ hs => ?_
    obtain ⟨att, hk⟩ := hi
    have hst := step_cases hs
    have retains {e' : T38Engine} (hr : Retains s.e e') (m' : ModStream) (hm' : e'.modStreamIn = some m') :
        Known m'.modPars.msgType := by
      obtain ⟨m, hm, hc⟩ := hr m' hm'
      rw [hc.modPars]
      exact hk m hm
    have reads {e' : T38Engine} (hr : e'.reader = s.e.reader) (m' : ModStream) (hm' : e'.modStreamIn = some m') :
        Known m'.modPars.msgType := by
      obtain ⟨m, hm, hmr⟩ := reader_some hr hm'
      have hp : m'.modPars = m.modPars := congrArg Prod.fst hmr
      rw [hp]
      exact hk m hm
    refine ⟨att.step hst, ?_⟩
    cases step_hears att hs with
    | speaks _ hsp => exact retains (.of_eq (congrArg InSide.modStreamIn hsp.inSide))
    | sendStart t param => exact retains (sendStart_retains t param)
    | resetModemState => exact retains (.deleteFirst rfl)
    | openIn => exact hk
    | handlePacket ifp =>
      rw [ofInOutcome_engine]
      exact reads (handlePacket_reader ifp)
    | calls => exact hk
    | resumes =>
      rw [ofInOutcome_engine]
      exact reads (resumePacket_reader _)
    | handlePacketLost => exact reads handlePacketLost_reader
    | recvWait t param cb =>
      intro m' hm'
      rcases recvWait_stream hm' with ⟨m, hm, htype, -⟩ | ⟨hv, htype, -⟩
      · rw [htype]
        exact hk m hm
      · exact ⟨param, hv, htype.symm⟩
    | recvStart cb => exact retains (recvStart_retains cb)
    | recv n => exact retains (recv_retains n)
    | recvDiag => exact hk
    | recvStop => exact retains recvStop_retains
  exact hinv.2

/-- The modem does nothing, no packet is being handled, and no data that has come waits for the DTE. -/
structure Vacant (s : Sys) : Prop where
  stateModem : s.e.stateModem = .stmIdle
  modem : s.modem = .out
  inn : s.inn = .out
  stream : ∀ m, s.e.modStreamIn = some m → m.bufs = []
  saved : s.e.modStreamInSaved = none

namespace Vacant

theorem view (h : s.Vacant) : viewOf [] s.e.modStreamIn = [] := by
  by_contra hn
  obtain ⟨m, hm, hb⟩ := viewOf_ne.mp hn
  exact hb (h.stream m hm)

theorem firstBuf (h : s.Vacant) {m : ModStream} (hm : s.e.modStreamIn = some m) : m.firstBuf = none := by
  have hb := h.stream m hm
  simpa using (List.append_eq_nil_iff.mp hb).1

section

variable {junk : Hdlc} {now : Int} {as : List Act}

/-- Whatever has been before, the DTE begins with nothing, and may receive what it will. -/
theorem ordered {P : ModPars → Prop} (h : s.Vacant) (h₀ : machine.Run (fun _ _ => True) (start junk now) as es s) :
    Ordered P s := by
  have hg : ∃ ps, s.Grammatical ps :=
    h₀.state_invariant (I := fun s => ∃ ps, s.Grammatical ps) ⟨[], .start junk now⟩
      fun s a s' es' hi _ hs => grammatical_step hi (step_cases hs)
  have hphase : ReadPhase P s.e :=
    ⟨fun m hm => by simp [h.firstBuf hm, h.stateModem], fun hin => by simp [h.stateModem, StateModem.isIn] at hin,
      fun hr => absurd (h.stateModem.symm.trans hr) (by simp)⟩
  refine ⟨⟨_, run_tidy h₀⟩, hg, hphase, fun t ht => ?_, fun hne => absurd h.modem hne⟩
  rw [h.inn] at ht
  cases ht

theorem tracks (h : s.Vacant) (h₀ : machine.Run (fun _ _ => True) (start junk now) as es s) : Tracks {} 0 [] s.e := by
  have ho : isOpen s.e.modStreamIn = false := viewOf_closed (run_tidy h₀).paired h.view
  have hno (q : Place) (m : ModStream) (hm : s.e.streamAt q = some m) : s.e.modStreamIn = some m := by
    cases q with
    | modStreamIn => exact hm
    | modStreamInSaved => exact absurd (h.saved.symm.trans hm).symm (Option.some_ne_none m)
  refine ⟨Nat.le_refl 0, ?_, ?_, fun _ => h.saved, fun m hm => ?_, fun q m hm hmo => ?_, fun q m hm => ?_⟩
  · unfold T38Engine.view
    rw [h.view, h.saved]
    rfl
  · unfold anyOpen
    rw [ho, h.saved]
    rfl
  · exact absurd (h.saved.symm.trans hm).symm (Option.some_ne_none m)
  · rw [hno q m hm, isOpen_some, hmo] at ho
    cases ho
  · exact run_known h₀ m (hno q m hm)

theorem received (h : s.Vacant) (h₀ : machine.Run (fun _ _ => True) (start junk now) as es s) : Received {} (s, {}) :=
  ⟨h.ordered h₀, rfl, .idle (by simp [h.stateModem]) rfl (h.tracks h₀)⟩

end

end Vacant

/-- Nothing is sent, and the DTE receives no signal but one, as data of the kind `t`. -/
def OneSignal (type : MsgType) (t : DataType) : Act → Prop
  | .recvWait t' param _ => t' = t ∧ (getModPars param).msgType = type
  | .sendStart .. | .resetModemState => False
  | _ => True

/-- The DTE does nothing but receive the signal, as data of the kind `t` over that of the kind `t38`: it stops behind the
diagnostics of a record. -/
def Cycles (type : MsgType) (t t38 : DataType) (x : Sys × DteLog) : Act → Prop
  | .recvWait t' param _ =>
    t' = t ∧ (getModPars param).msgType = type ∧ hdlcT38 (getModPars param) x.1.e.t30.hdlcOnly = t38
  | .recvStop => x.2.text = none
  | .sendStart .. | .resetModemState => False
  | _ => True

theorem Cycles.oneSignal {t38 : DataType} (h : Cycles type t t38 x a) : OneSignal type t a := by
  cases a with
  | recvWait => exact ⟨h.1, h.2.1⟩
  | sendStart | resetModemState => cases h
  | _ => trivial

instance (type : MsgType) (t t38 : DataType) (x : Sys × DteLog) : ∀ a, Decidable (Cycles type t t38 x a)
  | .recvWait .. => inferInstanceAs (Decidable (_ ∧ _ ∧ _))
  | .recvStop => inferInstanceAs (Decidable (x.2.text = none))
  | .sendStart .. | .resetModemState => .isFalse id
  | .tick _ | .out | .setPreparePacketTimeout .. | .openIn | .inn | .handlePacket _ | .handlePacketLost | .sendOnIdle _
  | .send _ | .sendStop .. | .modem | .recvStart _ | .recv _ | .recvDiag => .isTrue trivial

/-- The modem that does not send is left alone by the sending side. -/
theorem Steps.unsent {ps : List Ifp} (hs : Steps s a s' es) (hg : s.Grammatical ps) (hm : s.modem = .out)
    (hq : s.e.stateModem.isOut = false) (ha : a.receiving = false) (hc : s.Patient a) :
    s'.e.stateModem = s.e.stateModem ∧ s'.modem = .out := by
  have hcan : s.e.canSend = false := by
    have hne : s.e.stateModem ≠ .stmOutMoreData := by
      intro hx
      rw [hx] at hq
      cases hq
    simp [canSend, hne]
  cases hs with
  | tick ms => exact ⟨rfl, hm⟩
  | @out r hout =>
    obtain ⟨o, -, hat⟩ := hg.begun
    exact ⟨moves_rests (hout ▸ hg.attached.moves) hat hq, hm⟩
  | setPreparePacketTimeout timeout period =>
    unfold T38Engine.setPreparePacketTimeout
    split <;> exact ⟨rfl, hm⟩
  | receives ha' => exact absurd (ha.symm.trans ha') Bool.false_ne_true
  | sendOnIdle dataType => exact ⟨rfl, hm⟩
  | sendStart => cases hc
  | checkSend bs _ hcan' => exact absurd (hcan.symm.trans hcan') Bool.false_ne_true
  | refuseSend => exact ⟨rfl, hm⟩
  | checkSendStop moreFrames cb _ hcan' => exact absurd (hcan.symm.trans hcan') Bool.false_ne_true
  | refuseSendStop => exact ⟨rfl, hm⟩
  | send bs hx => cases hm.symm.trans hx
  | sendStop moreFrames cb hx => cases hm.symm.trans hx
  | resetModemState => cases hc

/-- The DTE receives the signal, and nothing is sent. -/
structure Cycling (type : MsgType) (s : Sys) : Prop where
  ofSignal : s.e.OfSignal type
  modem : s.modem = .out
  phase : StateModem.Receptive s.e.stateModem

theorem Vacant.cycling (h : s.Vacant) (type : MsgType) : Cycling type s :=
  ⟨⟨fun m hm => .inr ⟨h.stream m hm, h.stateModem⟩, .none h.saved⟩, h.modem, .inl h.stateModem⟩

/-- The calls of the thread with the packets, and of the DTE, keep to the signal. -/
theorem Cycling.step {P : ModPars → Prop} (h : Cycling type s) (hr : Ordered P s) (ht : t = .dtHdlc ∨ t = .dtRaw)
    (hok : OneSignal type t a)
    (hind : ∀ ind, a = .handlePacket (.t30Indicator ind) → (getModParsByInd ind).msgType = type)
    (hs : machine.step s a = some (s', es)) : Cycling type s' := by
  obtain ⟨hsig, hm, hq⟩ := h
  obtain ⟨ps, hg⟩ := hr.grammatical
  obtain ⟨es₀, htidy⟩ := hr.tidy
  have hpaired : s.e.Paired := htidy.paired
  have hout : s.e.stateModem.isOut = false := by
    rcases hq with hq | hq <;> cases hst : s.e.stateModem <;> rw [hst] at hq <;> first | rfl | cases hq
  -- `HandlePacket` ends no operation, only the wait for data
  have advances {e' : T38Engine} (ha : Advances s.e e') : StateModem.Receptive e'.stateModem := by
    rcases ha.state with hst | ⟨-, hst⟩ | ⟨-, hst, -⟩
    · rw [hst]
      exact hq
    · exact .inl hst
    · rw [hst]
      exact .inr rfl
  cases step_hears hr.attached hs with
  | speaks ha hsp =>
    have hc : s.Patient a := by cases a <;> first | rfl | cases hok
    obtain ⟨hst, hm'⟩ := (step_cases hs).unsent hg hm hout ha hc
    have hi : s'.e.modStreamIn = s.e.modStreamIn := congrArg InSide.modStreamIn hsp.inSide
    have hv : s'.e.modStreamInSaved = s.e.modStreamInSaved := congrArg InSide.modStreamInSaved hsp.inSide
    exact ⟨hsig.retains (.of_eq hi) hv (.inr ⟨hi, hst⟩), hm', by rw [hst]; exact hq⟩
  | sendStart => cases hok
  | resetModemState => cases hok
  | openIn => exact ⟨hsig.retains (.of_eq rfl) rfl (.inr ⟨rfl, rfl⟩), hm, hq⟩
  | handlePacket ifp hi =>
    have ha := handlePacket_advances hr.waits ifp
    have hmodem : (s.ofInOutcome ifp (s.e.handlePacket ifp)).1.modem = s.modem := by cases s.e.handlePacket ifp <;> rfl
    refine ⟨?_, hmodem.trans hm, ?_⟩
    · rw [ofInOutcome_engine]
      exact hsig.advances ha (handlePacket_saved hsig.saved fun ind hifp _ => hind ind (by rw [hifp]))
        fun hv hw => handlePacket_aside (viewOf_closed hpaired hv) hw ifp
    · rw [ofInOutcome_engine]
      exact advances ha
  | calls => exact ⟨hsig, hm, hq⟩
  | @resumes ifp after hi =>
    have ha := resumePacket_advances hr.waits after
    have hmodem : (s.ofInOutcome ifp (s.e.resumePacket after)).1.modem = s.modem := by
      cases s.e.resumePacket after <;> rfl
    refine ⟨?_, hmodem.trans hm, ?_⟩
    · rw [ofInOutcome_engine]
      refine hsig.advances ha (resumePacket_saved hsig.saved fun ind hafter htr => ?_)
        fun _ hw => resumePacket_aside hw after
      have hpend := hr.pending ind (by rw [hi, hafter]; rfl)
      exact absurd (hpend.symm.trans htr) Bool.false_ne_true
    · rw [ofInOutcome_engine]
      exact advances ha
  | handlePacketLost hi =>
    exact ⟨hsig.advances handlePacketLost_advances (hsig.saved.keeps handlePacketLost_keeps)
      fun hv _ => handlePacketLost_aside (viewOf_closed hpaired hv), hm, advances handlePacketLost_advances⟩
  | recvWait t' param cb =>
    obtain ⟨rfl, hp⟩ := hok
    refine ⟨hsig.recvWait ht hp cb, hm, ?_⟩
    rcases recvWait_cases s.e param cb ht with ⟨-, he⟩ | ⟨-, ⟨-, -, he⟩ | ⟨m, -, -, he⟩⟩
    · dsimp only
      rw [he]
      exact hq
    · dsimp only
      rw [he]
      unfold openStream
      dsimp only
      split
      · exact .inr rfl
      · split <;> exact .inr rfl
    · dsimp only
      rw [he]
      exact .inr rfl
  | recvStart cb =>
    obtain ⟨hsame, hsaved, hout⟩ := recvStart_shape s.e cb
    by_cases hready : s.e.stateModem = .stmInReadyData
    · exact ⟨hsig.retains (recvStart_retains cb) hsaved (.inl (by simp [hready])), hm, hout hq⟩
    · exact ⟨(hsame hready).symm ▸ hsig, hm, hout hq⟩
  | recv n =>
    obtain ⟨hst, hsaved⟩ := recv_shape s.e n
    have hout : StateModem.Receptive (s.e.recv n).2.stateModem := by rw [hst]; exact hq
    by_cases hrecv : s.e.stateModem = .stmInRecvData
    · exact ⟨hsig.retains (recv_retains n) hsaved (.inl (by simp [hrecv])), hm, hout⟩
    · have he : (s.e.recv n).2 = s.e := by rw [recv_other hrecv]
      exact ⟨he.symm ▸ hsig, hm, hout⟩
  | recvDiag => exact ⟨hsig, hm, hq⟩
  | recvStop =>
    obtain ⟨hsame, hsaved, hout⟩ := recvStop_shape s.e
    by_cases hin : s.e.stateModem.isIn = true
    · refine ⟨hsig.retains recvStop_retains hsaved (.inl fun hidle => ?_), hm, hout hq⟩
      rw [hidle] at hin
      cases hin
    · exact ⟨(hsame (by simpa using hin)).symm ▸ hsig, hm, hout hq⟩

/-- The indicator of the signal comes in its turn when nothing has come. -/
theorem Cycling.inTurn {ind : Indicator} {k : Nat} {got : List Byte} (h : Cycling (getModParsByInd ind).msgType s)
    (htr : Tracks {} k got s.e) : s.e.InTurn ind := by
  have hview : s.e.view got = [] := htr.view.trans List.drop_nil
  have hopen : s.e.anyOpen = false := htr.opened
  refine h.ofSignal.inTurn rfl ?_ (Bool.or_eq_false_iff.mp hopen).1
  cases hs : s.e.modStreamInSaved with
  | none => rfl
  | some m =>
    have hin : viewOf [] s.e.modStreamInSaved = [] := (List.append_eq_nil_iff.mp hview).2
    exact absurd hin (viewOf_ne.mpr ⟨m, hs, htr.saved m hs⟩)

/-- The packets of a signal: its indicator, and its fields as they are cut. -/
def signalPackets (ind : Indicator) (pkts : List (List DataField)) : List (Option Ifp) :=
  some (.t30Indicator ind) :: pkts.map fun fs => some (.data (getModParsByInd ind).msgType (some fs))

/-- No indicator comes but that of the signal, and it comes in front of all else. -/
def Leads (ind : Indicator) (ps : List (Option Ifp)) : Prop :=
  ∀ before ind', before ++ [some (.t30Indicator ind')] <+: ps → before = [] ∧ ind' = ind

theorem Leads.front {ind : Indicator} {ps qs : List (Option Ifp)} (h : Leads ind qs) (hp : ps <+: qs) : Leads ind ps :=
  fun before ind' hb => h before ind' (hb.trans hp)

/-- No indicator comes inside a signal. -/
theorem leads_cons {ind : Indicator} {ps : List (Option Ifp)} (h : ∀ ind', some (.t30Indicator ind') ∉ ps) :
    Leads ind (some (.t30Indicator ind) :: ps) := by
  intro before ind' hp
  cases before with
  | nil =>
    obtain ⟨rest, hrest⟩ := hp
    rw [List.nil_append, List.cons_append, List.cons.injEq] at hrest
    exact ⟨rfl, Ifp.t30Indicator.inj (Option.some.inj hrest.1)⟩
  | cons p before =>
    rw [List.cons_append, List.cons_prefix_cons] at hp
    exact absurd (hp.2.subset (List.mem_append_right before (List.mem_singleton_self _))) (h ind')

theorem signalPackets_leads (ind : Indicator) (pkts : List (List DataField)) : Leads ind (signalPackets ind pkts) :=
  leads_cons fun ind' hmem => by
    obtain ⟨fs, -, hfs⟩ := List.mem_map.mp hmem
    cases hfs

/-- The indicator comes when nothing has come. -/
theorem Leads.first {ind ind' : Indicator} (h : Leads ind (arrivals as ++ arrivals [a]))
    (ha : a = .handlePacket (.t30Indicator ind')) : incoming as = {} ∧ ind' = ind := by
  subst ha
  obtain ⟨hnone, hind⟩ := h (arrivals as) ind' (List.prefix_refl _)
  refine ⟨?_, hind⟩
  rw [incoming, incoming_arrivals, hnone]
  rfl

theorem signalPackets_fields (ind : Indicator) (pkts : List (List DataField)) :
    SignalPackets ind (pkts.map fun fs => .data (getModParsByInd ind).msgType (some fs)) pkts.flatten := by
  induction pkts with
  | nil => exact .nil
  | cons fs pkts ih => exact .data fs ih

/-- What a signal that has come whole is on the tape. -/
theorem signalPackets_tape {ind : Indicator} {pkts : List (List DataField)} {rs : List (List Byte × Diag)}
    (htr : ind.isTraining = true) (hf : Brings pkts.flatten rs) :
    ((signalPackets ind pkts).foldl Incoming.arrive {}).tape = { closed := rs } := by
  have hpackets := Incoming.packets_signal (l := {}) htr rfl (signalPackets_fields ind pkts) hf
  rw [List.nil_append] at hpackets
  rw [← hpackets, signalPackets, List.foldl_cons, List.foldl_cons, List.foldl_map, List.foldl_map]
  rfl

section

variable {junk : Hdlc} {now : Int} {as₀ as : List Act} {es₀ : List Event} {s₀ : Sys} {ind : Indicator}
  {pkts : List (List DataField)}

/-- A run in cycles is in turn. -/
theorem run_cycling (h₀ : machine.Run (fun _ _ => True) (start junk now) as₀ es₀ s₀) (hv : s₀.Vacant)
    (ht : t = .dtHdlc ∨ t = .dtRaw) (h : reception.Run (Cycles (getModParsByInd ind).msgType t t) (s₀, {}) as es x)
    (hl : Leads ind (arrivals as)) : Received (incoming as) x ∧ Cycling (getModParsByInd ind).msgType x.1 := by
  induction h with
  | start =>
    exact ⟨hv.received h₀, hv.cycling _⟩
  | @next as es x a x' es' hr hok hs ih =>
    rw [arrivals_append] at hl
    obtain ⟨hrec, hcyc⟩ := ih (hl.front (List.prefix_append _ _))
    obtain ⟨s, d⟩ := x
    obtain ⟨hstep, -⟩ := Machine.watched_step hs
    have hkeeps : KeepsTurn (s, d) a := by
      cases a with
      | handlePacket ifp =>
        rintro ind' rfl
        obtain ⟨hnone, rfl⟩ := hl.first rfl
        rw [hnone] at hrec
        obtain ⟨k, got, htr⟩ := hrec.reading.tracked
        exact hcyc.inTurn htr
      | recvWait t' param cb =>
        obtain ⟨rfl, hp, hh⟩ := hok
        exact fun _ => hcyc.ofSignal.asks ht hp hh
      | recvStop => exact hok
      | sendStart => cases hok
      | resetModemState => cases hok
      | _ => trivial
    refine ⟨?_, hcyc.step hrec.toOrdered ht hok.oneSignal (fun ind' hp => by rw [(hl.first hp).2]) hstep⟩
    rw [incoming, List.foldl_append]
    exact hrec.step hkeeps hs

/-- A signal comes to an engine that nothing waits in, in packets of any kind, and the DTE receives it in cycles that
begin when they will: the cycles give the DTE the frames of the signal in their order, each of them whole, with
`diagBadFcs` where its check sequence is bad, and behind them one cycle the end of the signal; or the one cycle of a
signal without frames gives it the octets. Of the cycle that is going on the DTE has the beginning, and all of it where
`Recv` has said that it has ended. When the signal has come the DTE can get all of it. -/
theorem cycles_received {rs : List (List Byte × Diag)}
    (h₀ : machine.Run (fun _ _ => True) (start junk now) as₀ es₀ s₀) (hv : s₀.Vacant) (htr : ind.isTraining = true)
    (hf : Brings pkts.flatten rs) (ht : t = .dtHdlc ∨ t = .dtRaw)
    (h : reception.Run (Cycles (getModParsByInd ind).msgType t t) (s₀, {}) as es x)
    (ha : arrivals as <+: signalPackets ind pkts) :
    x.2.records <+: rs ∧
      (∀ text, x.2.text = some text → ∃ r, rs[x.2.records.length]? = some r ∧ text <+: r.1 ∧
        (x.2.ended = true → text = r.1)) ∧
      (arrivals as = signalPackets ind pkts →
        ∃ as' es' x', reception.Run Receiving x as' es' x' ∧ x'.2.records = rs) := by
  obtain ⟨hrec, hcyc⟩ := run_cycling h₀ hv ht h ((signalPackets_leads ind pkts).front ha)
  obtain ⟨rest, hrest⟩ := ha
  -- what is still to come is written behind what has come
  have hall : (rest.foldl Incoming.arrive (incoming as)).tape = { closed := rs, current := none } := by
    rw [incoming, incoming_arrivals, ← List.foldl_append, hrest, signalPackets_tape htr hf]
  have hclosed : (incoming as).tape.closed <+: rs := by
    have := Incoming.arrives_closed (l := incoming as) rest
    rwa [hall] at this
  obtain ⟨s, d⟩ := x
  have hrecords : d.records = (incoming as).tape.closed.take d.records.length := hrec.records
  refine ⟨?_, fun text htext => ?_, fun hdone => ?_⟩
  · rw [show d.records = _ from hrecords]
    exact (List.take_prefix _ _).trans hclosed
  · cases hrec.reading with
    | idle _ hn => exact absurd (hn.symm.trans htext) (Option.some_ne_none text).symm
    | told _ _ _ _ _ hn => exact absurd (hn.symm.trans htext) (Option.some_ne_none text).symm
    | reads got hs hgot htr hend =>
      obtain rfl : got = text := Option.some.inj (hgot.symm.trans htext)
      obtain ⟨m, b, cs, -, -, -, hc⟩ := reading_record htr hrec.phase hs
      have hext : (incoming as).tape.Extends { closed := rs } := by
        have hx := Incoming.arrives_extends (l := incoming as) rest
        rwa [hall] at hx
      obtain ⟨r, hr, hpre, hfull⟩ := Tape.cell_of_finished hclosed hext hc
      refine ⟨r, hr, (List.prefix_append _ _).trans hpre, fun he => ?_⟩
      obtain ⟨mark, cs', hc'⟩ := hend he
      rw [hc] at hc'
      obtain ⟨hb, -⟩ := List.cons.inj hc'
      rw [← hfull (by rw [hb]), hb]
      rfl
  · have hnil : rest = [] := by
      rw [hdone] at hrest
      simpa using hrest
    subst hnil
    have htape : (incoming as).tape = { closed := rs, current := none } := hall
    obtain ⟨x', ⟨as', es', hrun⟩, hgot⟩ := goes_all hrec hcyc.modem (by rw [htape]) hcyc.phase
    rw [htape] at hgot
    exact ⟨as', es', x', hrun, hgot⟩

end

/-- The signal of two frames, the second of them with a bad check sequence, in three packets. -/
def cyclesPackets : List (List DataField) :=
  [[⟨.hdlcData, some [0xFF]⟩], [⟨.hdlcData, some [0x03]⟩, ⟨.hdlcFcsOK, none⟩, ⟨.hdlcData, some [0xFF, 0x13]⟩],
    [⟨.hdlcFcsBADSigEnd, none⟩]]

/-- The DTE waits for the signal before it comes, reads the first frame while its packets are coming, and has begun to read
the second frame when that ends. -/
def cyclesRun : List Act :=
  [.recvWait .dtHdlc 3 1, .handlePacket (.t30Indicator .v21Preamble), .inn, .inn, .recvStart 2,
    .handlePacket (.data .v21 (some [⟨.hdlcData, some [0xFF]⟩])), .inn, .inn, .recv 5,
    .handlePacket (.data .v21 (some [⟨.hdlcData, some [0x03]⟩, ⟨.hdlcFcsOK, none⟩, ⟨.hdlcData, some [0xFF, 0x13]⟩])), .inn, .inn,
    .recv 5, .recv 5, .recvDiag, .recvStop, .recvWait .dtHdlc 3 1, .recvStart 4, .recv 1,
    .handlePacket (.data .v21 (some [⟨.hdlcFcsBADSigEnd, none⟩])), .inn, .inn]

def halfway (r : (Sys × DteLog) × List Event) : Bool :=
  decide (r.1.2.records = [([0xFF, 0x03], 0)]) && decide (r.1.2.text = some [0xFF])

theorem two_cycles : ∃ es x as' es' x', reception.Run (Cycles .v21 .dtHdlc .dtHdlc) (start default 0, {}) cyclesRun es x ∧
    x.2.records = [([0xFF, 0x03], 0)] ∧ x.2.text = some [0xFF] ∧ reception.Run Receiving x as' es' x' ∧
    x'.2.records = [([0xFF, 0x03], 0), ([0xFF, 0x13], diagBadFcs), ([], diagNoCarrier)] := by
  obtain ⟨x, es, hr, ht⟩ : ∃ x es, reception.Run (Cycles .v21 .dtHdlc .dtHdlc) (start default 0, {}) cyclesRun es x ∧
      halfway (x, es) = true := Machine.exec_passes (by decide +kernel)
  unfold halfway at ht
  simp only [Bool.and_eq_true, decide_eq_true_eq] at ht
  have hvacant : (start default 0).Vacant := ⟨rfl, rfl, rfl, fun m hm => absurd hm.symm (Option.some_ne_none m), rfl⟩
  have htraining : Indicator.v21Preamble.isTraining = true := rfl
  have hlast := @Carries.last [⟨.hdlcData, some [0xFF, 0x13]⟩] ⟨.hdlcFcsBADSigEnd, none⟩ false (by simp) rfl
  have hframes := @Carries.frame [⟨.hdlcData, some [0xFF]⟩, ⟨.hdlcData, some [0x03]⟩] ⟨.hdlcFcsOK, none⟩ true _ _
    (by simp) rfl hlast
  have hbrings : Brings cyclesPackets.flatten _ := .hdlc hframes
  have harrivals : arrivals cyclesRun = signalPackets .v21Preamble cyclesPackets := by decide
  obtain ⟨-, -, hall⟩ :=
    cycles_received .start hvacant htraining hbrings (.inl rfl) hr ⟨[], by rw [List.append_nil, harrivals]⟩
  obtain ⟨as', es', x', hrun, hrec⟩ := hall harrivals
  exact ⟨es, x, as', es', x', hr, ht.1, ht.2, hrun, hrec⟩

end Sys

end T38Modem
