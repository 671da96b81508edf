import T38Modem.ReceiveFrame
import T38Modem.SendFrame

namespace T38Modem

/-- Nothing is made yet. -/
def Locals.Clean (l : Locals) : Prop := l.redo = false ∧ l.ifp = none

namespace OutPc

/-- The local variables at a place of the thread. -/
def locals : OutPc → Locals
  | .out | .begin => {}
  | .period l | .delay l | .body l | .wait l | .waiting l _ _ | .woken l | .leave l => l
  | .calling _ _ l _ | .called l _ => l

/-- What of a round is still to do behind a callback. -/
def pending : OutPc → AfterOut
  | .calling _ _ _ after | .called _ after => after
  | .leave _ => .leave
  | _ => .wait

/-- The callback that the thread is about to make. -/
def callback : OutPc → Option Callback
  | .calling kind _ _ _ => some kind
  | _ => none

/-- The thread is between two rounds, or waits in one that has made nothing. -/
def idle (pc : OutPc) : Bool := pc.pending = .wait ∨ pc.pending = .begin

/-- What the thread writes between its rounds. -/
def quietEngine (e : T38Engine) (firstOut outDataReady : Bool) (timeBeginOut : Int) (rawCount : Nat) : T38Engine :=
  { e with firstOut, outDataReady, timeBeginOut, hdlcOut := { e.hdlcOut with rawCount } }

/-- The steps of the thread `hOwner` in `PreparePacket` while it is the owner. -/
inductive Moves (e : T38Engine) (now : Int) : OutPc → T38Engine × OutPc × List Event → Prop
  | quiet {pc pc' : OutPc} {es : List Event} (firstOut outDataReady : Bool) (timeBeginOut : Int) (rawCount : Nat)
      (hi : pc.idle = true) (hi' : pc'.idle = true) (hl : pc.locals.Clean → pc'.locals.Clean)
      (hes : es = [] ∨ es = [.timeout]) (ht : e.stateOut ≠ .stOutData → timeBeginOut = e.timeBeginOut)
      (hc : pc'.callback = none ∨ pc'.callback = some .updateState) :
      Moves e now pc (quietEngine e firstOut outDataReady timeBeginOut rawCount, pc', es)
  | prepare (l : Locals) : Moves e now (.body l) (ofOutcome (e.prepare now l))
  | calls (kind : Callback) (extra : Int) (l : Locals) (after : AfterOut) :
      Moves e now (.calling kind extra l after) (e, .called l after, [.callbackOut kind extra])
  | redo {l l' : Locals} {after : AfterOut} (ha : after = .redo ∨ after = .redoNoDelay)
      (hr : l'.redo = true) (hp : l'.ifp = l.ifp) : Moves e now (.called l after) (e, .leave l', [])
  | data (l : Locals) (count : Option (List Byte)) :
      Moves e now (.called l (.data count)) (ofOutcome (e.dataSwitch now l count))
  | leaves (l : Locals) : Moves e now (.called l .leave) (e, .leave l, [])
  | again {l : Locals} (hr : l.redo = true) :
      Moves e now (.leave l) ({ e with timeDelayEndOut := e.delayEnd now }, .delay { l with redo := false }, [])
  | packet {l : Locals} (hr : l.redo = false) :
      Moves e now (.leave l) ({ e with timeDelayEndOut := e.delayEnd now }, .out, [.packet l.ifp])

theorem ofOutcome_engine (r : Outcome) : (ofOutcome r).1 = r.engine := by
  cases r <;> rfl

theorem Moves.sameIn {e : T38Engine} {now : Int} {pc : OutPc} {r : T38Engine × OutPc × List Event}
    (h : Moves e now pc r) : SameIn e { r.1 with firstOut := e.firstOut } := by
  have of_same {e' : T38Engine} (hs : SameIn e e') : SameIn e { e' with firstOut := e.firstOut } :=
    ⟨by rw [hs.base], hs.inSide, hs.junk, hs.modParsOut, hs.stop⟩
  cases h with
  | prepare l =>
    rw [ofOutcome_engine]
    exact of_same (e.prepare_sameIn now l)
  | data l count =>
    rw [ofOutcome_engine]
    exact of_same (e.dataSwitch_sameIn now l count)
  | _ => exact ⟨rfl, rfl, rfl, rfl, rfl⟩

theorem step_moves {hOwner : Owner} {e : T38Engine} (ho : e.lostOut hOwner = false) (now : Int) (pc : OutPc) :
    Moves e now pc (pc.step hOwner e now) := by
  have same {pc pc' : OutPc} {es : List Event} (hi : pc.idle = true) (hi' : pc'.idle = true)
      (hl : pc.locals.Clean → pc'.locals.Clean) (hes : es = [] ∨ es = [.timeout])
      (hc : pc'.callback = none ∨ pc'.callback = some .updateState) :
      Moves e now pc (e, pc', es) :=
    .quiet e.firstOut e.outDataReady e.timeBeginOut e.hdlcOut.rawCount hi hi' hl hes (fun _ => rfl) hc
  cases pc with
  | out =>
    simp only [step, ho, Bool.false_eq_true, if_false]
    split
    · exact .quiet false e.outDataReady e.timeBeginOut e.hdlcOut.rawCount rfl rfl id (.inl rfl) (fun _ => rfl)
        (.inr rfl)
    · exact same rfl rfl id (.inl rfl) (.inl rfl)
  | begin =>
    simp only [step]
    split
    · exact same rfl rfl (fun _ => ⟨rfl, rfl⟩) (.inl rfl) (.inl rfl)
    · exact same rfl rfl (fun _ => ⟨rfl, rfl⟩) (.inl rfl) (.inl rfl)
  | period l =>
    simp only [step, ho, Bool.false_eq_true, if_false]
    exact same rfl rfl id (.inl rfl) (.inl rfl)
  | delay l =>
    simp only [step, ho, Bool.false_eq_true, if_false]
    split
    · split
      · exact same rfl rfl id (.inl rfl) (.inl rfl)
      · split
        · exact same rfl rfl (fun _ => ⟨rfl, rfl⟩) (.inr rfl) (.inl rfl)
        · exact same rfl rfl id (.inl rfl) (.inl rfl)
    · exact same rfl rfl id (.inl rfl) (.inl rfl)
  | body l =>
    simp only [step, ho, Bool.false_eq_true, if_false]
    exact .prepare l
  | calling kind extra l after => exact .calls kind extra l after
  | called l after =>
    simp only [step, ho, Bool.false_eq_true, if_false]
    cases after with
    | begin => exact same rfl rfl (fun _ => ⟨rfl, rfl⟩) (.inl rfl) (.inl rfl)
    | redo => exact .redo (.inl rfl) rfl rfl
    | redoNoDelay => exact .redo (.inr rfl) rfl rfl
    | data count => exact .data l count
    | wait => exact same rfl rfl id (.inl rfl) (.inl rfl)
    | leave => exact .leaves l
  | wait l =>
    simp only [step]
    split
    · split
      · exact same rfl rfl (fun _ => ⟨rfl, rfl⟩) (.inr rfl) (.inl rfl)
      · exact same rfl rfl id (.inl rfl) (.inl rfl)
    · split
      · split
        · exact same rfl rfl id (.inl rfl) (.inl rfl)
        · exact same rfl rfl id (.inl rfl) (.inl rfl)
      · exact same rfl rfl id (.inl rfl) (.inl rfl)
  | waiting l timeout fails =>
    simp only [step]
    split
    · exact .quiet e.firstOut false e.timeBeginOut e.hdlcOut.rawCount rfl rfl id (.inl rfl) (fun _ => rfl) (.inl rfl)
    · split
      · exact same rfl rfl id (.inl rfl) (.inl rfl)
      · split
        · exact same rfl rfl id (.inl rfl) (.inl rfl)
        · split
          · exact same rfl rfl (fun _ => ⟨rfl, rfl⟩) (.inr rfl) (.inl rfl)
          · exact same rfl rfl id (.inl rfl) (.inl rfl)
  | woken l =>
    simp only [step, ho, Bool.false_eq_true, if_false, T38Engine.dataDelay]
    split
    next hs => exact .quiet e.firstOut e.outDataReady _ 0 rfl rfl id (.inl rfl) (fun hne => absurd hs hne) (.inl rfl)
    next => exact same rfl rfl id (.inl rfl) (.inl rfl)
  | leave l =>
    simp only [step]
    split
    next hr => exact .again hr
    next hr => exact .packet (by simpa using hr)

end OutPc

namespace Sys

/-- The steps as the sending half sees them. -/
inductive Steps (s : Sys) : Act → Sys → List Event → Prop
  | tick (ms : Nat) : Steps s (.tick ms) { s with now := s.now + ms } []
  | out {r : T38Engine × OutPc × List Event} (h : s.out.step hOwnerOut s.e s.now = r) :
      Steps s .out { s with e := r.1, out := r.2.1 } r.2.2
  | setPreparePacketTimeout (timeout period : Int) :
      Steps s (.setPreparePacketTimeout timeout period)
        { s with e := s.e.setPreparePacketTimeout hOwnerOut timeout period } []
  | receives {a : Act} {s' : Sys} {es : List Event} (ha : a.receiving = true) (h : Receives s s' es) :
      Steps s a s' es
  | sendOnIdle (dataType : DataType) (hm : s.modem = .out) :
      Steps s (.sendOnIdle dataType) { s with e := s.e.sendOnIdle dataType } []
  | sendStart (dataType : DataType) (param : Int) (hm : s.modem = .out) :
      Steps s (.sendStart dataType param) { s with e := (s.e.sendStart dataType param).2 }
        [.sendStart dataType (s.e.sendStart dataType param).1]
  | checkSend (bs : List Byte) (hm : s.modem = .out) (hc : s.e.canSend = true) :
      Steps s (.send bs) { s with modem := .send bs } []
  | refuseSend (bs : List Byte) (hm : s.modem = .out) (hc : s.e.canSend = false) :
      Steps s (.send bs) s [.send bs none]
  | checkSendStop (moreFrames : Bool) (callbackParam : Int) (hm : s.modem = .out) (hc : s.e.canSend = true) :
      Steps s (.sendStop moreFrames callbackParam) { s with modem := .sendStop moreFrames callbackParam } []
  | refuseSendStop (moreFrames : Bool) (callbackParam : Int) (hm : s.modem = .out) (hc : s.e.canSend = false) :
      Steps s (.sendStop moreFrames callbackParam) s [.sendStop moreFrames callbackParam false]
  | send (bs : List Byte) (hm : s.modem = .send bs) :
      Steps s .modem { s with e := (s.e.send bs).2, modem := .out } [.send bs (s.e.send bs).1]
  | sendStop (moreFrames : Bool) (callbackParam : Int) (hm : s.modem = .sendStop moreFrames callbackParam) :
      Steps s .modem { s with e := s.e.sendStop moreFrames callbackParam, modem := .out }
        [.sendStop moreFrames callbackParam true]
  | resetModemState (hm : s.modem = .out) : Steps s .resetModemState { s with e := s.e.onResetModemState } []

/-- The modem lets its operation be. -/
def Patient (_ : Sys) (a : Act) : Prop := a.command = false

instance (s : Sys) (a : Act) : Decidable (s.Patient a) := inferInstanceAs (Decidable (_ = _))

theorem modemCall_some {s s' : Sys} {r : T38Engine × List Event} {es : List Event}
    (h : s.modemCall r = some (s', es)) : s.modem = .out ∧ { s with e := r.1 } = s' ∧ r.2 = es := by
  unfold modemCall at h
  split at h
  next hm =>
    cases Option.some.inj h
    exact ⟨hm, rfl, rfl⟩
  next => cases h

theorem step_cases {s s' : Sys} {a : Act} {es : List Event} (h : machine.step s a = some (s', es)) :
    Steps s a s' es := by
  by_cases ha : a.receiving = true
  · exact .receives ha (step_receives ha h)
  · simp only [machine] at h
    cases a with
    | tick ms =>
      cases Option.some.inj h
      exact .tick ms
    | out =>
      cases Option.some.inj h
      exact .out rfl
    | setPreparePacketTimeout timeout period =>
      simp only [step] at h
      split at h
      · cases Option.some.inj h
        exact .setPreparePacketTimeout timeout period
      · cases h
    | sendOnIdle dataType =>
      obtain ⟨hm, rfl, rfl⟩ := modemCall_some h
      exact .sendOnIdle dataType hm
    | sendStart dataType param =>
      obtain ⟨hm, rfl, rfl⟩ := modemCall_some h
      exact .sendStart dataType param hm
    | send bs =>
      simp only [step] at h
      split at h
      · cases h
      next hm =>
        split at h
        next hc =>
          cases Option.some.inj h
          exact .checkSend bs (not_not.mp hm) hc
        next hc =>
          cases Option.some.inj h
          exact .refuseSend bs (not_not.mp hm) (by simpa using hc)
    | sendStop moreFrames callbackParam =>
      simp only [step] at h
      split at h
      · cases h
      next hm =>
        split at h
        next hc =>
          cases Option.some.inj h
          exact .checkSendStop moreFrames callbackParam (not_not.mp hm) hc
        next hc =>
          cases Option.some.inj h
          exact .refuseSendStop moreFrames callbackParam (not_not.mp hm) (by simpa using hc)
    | modem =>
      simp only [step, modemStep] at h
      split at h
      · cases h
      next bs hm =>
        cases Option.some.inj h
        exact .send bs hm
      next moreFrames callbackParam hm =>
        cases Option.some.inj h
        exact .sendStop moreFrames callbackParam hm
    | resetModemState =>
      obtain ⟨hm, rfl, rfl⟩ := modemCall_some h
      exact .resetModemState hm
    | _ => exact absurd rfl ha

/-- The threads own the engine, and the modem is attached. -/
structure Attached (s : Sys) : Prop where
  modemOpen : s.e.modemOpen = true
  hOwnerIn : s.e.hOwnerIn = some hOwnerIn
  hOwnerOut : s.e.hOwnerOut = some hOwnerOut

namespace Attached

variable {s s' : Sys} {a : Act} {es : List Event}

theorem lostOut (h : s.Attached) : s.e.lostOut Sys.hOwnerOut = false := by
  simp [T38Engine.lostOut, T38Engine.isModemOpen, h.modemOpen, h.hOwnerOut]

theorem lostIn (h : s.Attached) : s.e.lostIn Sys.hOwnerIn = false := by
  simp [T38Engine.lostIn, T38Engine.isModemOpen, h.modemOpen, h.hOwnerIn]

theorem moves (h : s.Attached) : OutPc.Moves s.e s.now s.out (s.out.step Sys.hOwnerOut s.e s.now) :=
  OutPc.step_moves h.lostOut s.now s.out

theorem of_base (h : s.Attached) (hm : s'.e.modemOpen = s.e.modemOpen) (hi : s'.e.hOwnerIn = s.e.hOwnerIn)
    (ho : s'.e.hOwnerOut = s.e.hOwnerOut) : s'.Attached :=
  ⟨hm.trans h.modemOpen, hi.trans h.hOwnerIn, ho.trans h.hOwnerOut⟩

theorem sendStart_base (e : T38Engine) (dataType : DataType) (param : Int) :
    (e.sendStart dataType param).2.toEngineBase = e.toEngineBase := by
  unfold T38Engine.sendStart
  split
  · rfl
  · split
    · rfl
    · dsimp only
      split
      · split <;> rfl
      · split <;> rfl

theorem step (h : s.Attached) (hs : Steps s a s' es) : s'.Attached := by
  cases hs with
  | @out r hr =>
    have hb := (hr ▸ h.moves).sameIn.base
    exact h.of_base (congrArg (·.modemOpen) hb) (congrArg (·.hOwnerIn) hb) (congrArg (·.hOwnerOut) hb)
  | receives ha hr => exact h.of_base hr.engine.modemOpen hr.engine.hOwnerIn hr.engine.hOwnerOut
  | setPreparePacketTimeout timeout period =>
    unfold T38Engine.setPreparePacketTimeout
    split <;> exact ⟨h.modemOpen, h.hOwnerIn, h.hOwnerOut⟩
  | sendStart dataType param =>
    have hb := sendStart_base s.e dataType param
    exact h.of_base (congrArg (·.modemOpen) hb) (congrArg (·.hOwnerIn) hb) (congrArg (·.hOwnerOut) hb)
  | _ => exact ⟨h.modemOpen, h.hOwnerIn, h.hOwnerOut⟩

theorem start (junk : Hdlc) (now : Int) : (Sys.start junk now).Attached := ⟨rfl, rfl, rfl⟩

end Attached

end Sys

end T38Modem
