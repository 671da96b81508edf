import T38Modem.ModemSystem
import T38Modem.CallLine

namespace T38Modem

/-- The states in which the modem waits for the network, be there a tone to play or not. -/
def awaits : ModemState → SubStateConnectHandle → Bool
  | .stConnectWait, _ | .stReqModeAckWait, _ | .stRecvBegWait, _ => true
  | .stConnectHandle, .chWaitAudioEngine | .stConnectHandle, .chWaitPlayTone
  | .stConnectHandle, .chConnectionEstablishDelay => true
  | _, _ => false

theorem awaits_cases {s : ModemState} {c : SubStateConnectHandle} (h : awaits s c = true) :
    s = .stConnectWait ∨ s = .stReqModeAckWait ∨ s = .stRecvBegWait ∨ s = .stConnectHandle := by
  revert h
  cases s <;> simp [awaits]

/-- What of the modem has to do with its `timeout`. -/
structure ModemClock where
  state : ModemState
  subState : SubStateConnectHandle
  off_hook : Bool
  pPlayTone : Bool
  audioEngine : Bool
  timeout : Timeout

namespace ModemClock

/-- A modem that waits has its timer on. A call is set up off-hook, and the audio engine that has come is there. -/
structure Clocked (v : ModemClock) : Prop where
  onLine : v.state.dials = true → v.off_hook = true
  armed : awaits v.state v.subState = true → v.timeout ≠ .stopped
  attached : v.state = .stConnectHandle → v.subState = .chAudioEngineAttached → v.audioEngine = true

/-- A tone is to be played by the engine that has come, and the timer is off. -/
structure ToneHeld (v : ModemClock) : Prop where
  state : v.state = .stConnectHandle
  subState : v.subState = .chAudioEngineAttached
  tone : v.pPlayTone = true
  timeout : v.timeout = .stopped

/-- A tone that is held is known to the modem's thread. -/
structure Guarded (ready : Bool) (v : ModemClock) : Prop extends Clocked v where
  signalled : v.ToneHeld → ready = true

/-- No tone is to be played next. -/
structure Clear (v : ModemClock) : Prop extends Clocked v where
  other : v.state = .stConnectHandle → v.subState ≠ .chConnected ∧ v.subState ≠ .chAudioEngineAttached

/-- What `CheckState` is about to do is to put off a tone with the timer off. -/
structure Unarmed (outOpen : Bool) (v : ModemClock) : Prop where
  state : v.state = .stConnectHandle
  subState : v.subState = .chConnected ∨ v.subState = .chAudioEngineAttached
  tone : v.pPlayTone = true
  audioEngine : v.audioEngine = true
  closed : outOpen = false
  timeout : v.timeout = .stopped

/-- What is said of the clock where the modem's thread is. -/
def At (v : ModemClock) : BodyPc → Prop
  | .dialing _ => v.off_hook = true
  | .detaching .. | .clearing _ => v.off_hook = false
  | .answering _ => v.timeout ≠ .stopped ∧
      (v.state = .stConnectWait ∨ v.state = .stDial ∨ v.state = .stConnectHandle ∧ v.subState = .chConnected)
  | _ => True

variable {v : ModemClock} {ready outOpen : Bool}

theorem Clocked.of_state (hd : v.state.dials = false) (ha : awaits v.state v.subState = false) : Clocked v where
  onLine h := absurd (hd.symm.trans h) Bool.false_ne_true
  armed h := absurd (ha.symm.trans h) Bool.false_ne_true
  attached h := absurd (hd.symm.trans (by rw [h]; rfl)) Bool.false_ne_true

theorem Clocked.guarded (h : Clocked v) (hs : v.state = .stConnectHandle → v.subState ≠ .chAudioEngineAttached) :
    Guarded ready v :=
  ⟨h, fun hh => absurd hh.subState (hs hh.state)⟩

theorem Clocked.tone (h : Clocked v) (tone : Bool) : Clocked { v with pPlayTone := tone } :=
  ⟨h.onLine, h.armed, h.attached⟩

theorem Clocked.clear_onHook (h : Clocked v) (ho : v.off_hook = false) : Clear v := by
  refine ⟨h, fun hs => ?_⟩
  have hd := h.onLine (by rw [hs]; rfl)
  exact absurd (ho.symm.trans hd) Bool.false_ne_true

theorem Clear.of_state (hd : v.state.dials = false) (ha : awaits v.state v.subState = false) : Clear v :=
  ⟨.of_state hd ha, fun hs => absurd (hd.symm.trans (by rw [hs]; rfl)) Bool.false_ne_true⟩

theorem Clear.guarded (h : Clear v) : Guarded ready v := h.toClocked.guarded fun hs => (h.other hs).2

/-- A timer that is on is all that a modem needs whose call is not connected. -/
theorem Clear.of_timeout (hl : v.state.dials = true → v.off_hook = true) (ht : v.timeout ≠ .stopped)
    (hs : v.state ≠ .stConnectHandle) : Clear v :=
  ⟨⟨hl, fun _ => ht, fun h => absurd h hs⟩, fun h => absurd h hs⟩

/-- Off the hook the modem may wait for anything with its timer on. -/
theorem Guarded.of_timeout (ho : v.off_hook = true) (ht : v.timeout ≠ .stopped)
    (hs : v.subState ≠ .chAudioEngineAttached) : Guarded ready v :=
  Clocked.guarded ⟨fun _ => ho, fun _ => ht, fun _ h => absurd h hs⟩ fun _ => hs

theorem Clear.armed_tone (h : Clear v) : ¬v.Unarmed outOpen := fun hu =>
  hu.subState.elim (h.other hu.state).1 (h.other hu.state).2

theorem Guarded.of_state (hd : v.state.dials = false) (ha : awaits v.state v.subState = false) : Guarded ready v :=
  (Clear.of_state hd ha).guarded

end ModemClock

namespace ModemEngineBody

open ModemClock

def clock (b : ModemEngineBody) : ModemClock :=
  { state := b.state
    subState := b.subState
    off_hook := b.off_hook
    pPlayTone := b.pPlayTone
    audioEngine := b.audioEngine
    timeout := b.timeout }

/-- What holds of the clock when the modem's thread lets the mutex go. -/
def OnClock (ready : Bool) (n : ModemNext) : Prop := Guarded ready n.1.clock ∧ n.1.clock.At n.2.1

variable {ready : Bool} {a : Answers} {b : ModemEngineBody} {k : ModemEngineBody → ModemNext} {after : AfterHook}
  {resp : Option ResultCode}

@[simp] theorem after_onClock (out : List ModemOut) (n : ModemNext) :
    OnClock ready (n.after out) = OnClock ready n := rfl

theorem endClear_clock : b.endClear.clock = b.clock := by
  unfold endClear
  dsimp only
  split <;> rfl

/-- The clock of a modem that is off the line when its call begins to be cleared. -/
theorem beginClear_onHook (ho : b.off_hook = false) :
    (b.beginClear a).clock = { b.clock with pPlayTone := (b.beginClear a).pPlayTone } := by
  unfold beginClear
  dsimp only
  split
  next =>
    split
    next h => exact absurd (ho.symm.trans h) Bool.false_ne_true
    next => rfl
  next => rfl

/-- What follows `OnHook` and `Answer` is right. -/
def FollowsClock (ready : Bool) (k : ModemEngineBody → ModemNext) : Prop :=
  ∀ b : ModemEngineBody, Clear b.clock → OnClock ready (k b)

theorem clearCall_onClock (hk : FollowsClock ready k) (h : Clocked b.clock) (ho : b.off_hook = false) :
    OnClock ready (b.clearCall a after k) := by
  unfold clearCall
  split
  next => exact hk b (h.clear_onHook ho)
  next =>
    have hc : Clear (b.beginClear a).clock := by
      rw [beginClear_onHook ho]
      exact (h.tone _).clear_onHook ho
    have hoff : (b.beginClear a).off_hook = false := by
      have he := congrArg ModemClock.off_hook (beginClear_onHook (a := a) ho)
      exact he.trans ho
    dsimp only
    split
    next => exact ⟨hc.guarded, hoff⟩
    next =>
      refine hk _ ?_
      rw [endClear_clock]
      exact hc

theorem detached_clocked (mce : ModemClassEngine) (h : Clocked b.clock) (ho : b.off_hook = false) :
    Clocked (b.detached mce).clock ∧ (b.detached mce).off_hook = false := by
  have hs (engine : Bool) : Clocked { b.clock with audioEngine := engine } :=
    ⟨h.onLine, h.armed, fun hst => absurd (ho.symm.trans (h.onLine (by rw [show b.clock.state = _ from hst]; rfl)))
      Bool.false_ne_true⟩
  cases mce with
  | mceAudio =>
    unfold detached setActiveEngine
    dsimp only
    split <;> exact ⟨hs false, ho⟩
  | mceT38 =>
    unfold detached setActiveEngine
    dsimp only
    split <;> exact ⟨h, ho⟩

theorem detachEngine_onClock {mce : ModemClassEngine} {waited : Bool}
    (hk : ∀ b : ModemEngineBody, Clocked b.clock → b.off_hook = false → OnClock ready (k b)) (h : Clocked b.clock)
    (ho : b.off_hook = false) : OnClock ready (b.detachEngine a mce waited after k) := by
  have hkept : Guarded ready b.clock := (h.clear_onHook ho).guarded
  unfold detachEngine
  split
  next => exact hk b h ho
  next =>
    split
    next => exact ⟨hkept, ho⟩
    next =>
      split
      next =>
        obtain ⟨ht, hn⟩ := detached_clocked mce h ho
        exact hk _ ht hn
      next => exact ⟨hkept, ho⟩

theorem onHookAudio_onClock {waited : Bool} (hk : FollowsClock ready k) (h : Clocked b.clock)
    (ho : b.off_hook = false) : OnClock ready (b.onHookAudio a waited after k) :=
  detachEngine_onClock (fun _ h ho => clearCall_onClock hk h ho) h ho

theorem onHookT38_onClock {waited : Bool} (hk : FollowsClock ready k) (h : Clocked b.clock)
    (ho : b.off_hook = false) : OnClock ready (b.onHookT38 a waited after k) :=
  detachEngine_onClock (fun _ h ho => onHookAudio_onClock hk h ho) h ho

theorem onHook_onClock (hk : FollowsClock ready k) (h : b.off_hook = false → Clocked b.clock) :
    OnClock ready (b.onHook a after k) := by
  unfold onHook
  split
  next => exact onHookT38_onClock hk (.of_state rfl rfl) rfl
  next ho =>
    have ho : b.off_hook = false := by simpa using ho
    exact clearCall_onClock hk (h ho) ho

theorem answer_onClock (hk : FollowsClock ready k) : OnClock ready (b.answer a after k) := by
  unfold answer
  dsimp only
  split
  next =>
    split
    next =>
      refine ⟨(Clear.of_timeout (fun _ => rfl) ?_ ?_).guarded, ?_, .inl rfl⟩
      all_goals exact fun h => by cases h
    next => exact onHook_onClock hk fun ho => absurd ho (fun h => by cases h)
  next =>
    refine hk _ ⟨⟨fun _ => rfl, fun h => ?_, fun _ h => ?_⟩, fun _ => ⟨fun h => ?_, fun h => ?_⟩⟩
    all_goals cases h

theorem sendSilence_guarded : Guarded ready (b.sendSilence a).2.clock := by
  unfold sendSilence
  dsimp only
  split
  next =>
    split
    next => split <;> exact .of_state rfl rfl
    next => exact .of_state rfl rfl
  next => exact .of_state rfl rfl

theorem sendStart_guarded (dt : DataType) : Guarded ready (b.sendStart a dt).2.clock := by
  unfold sendStart
  dsimp only
  split <;> exact .of_state rfl rfl

/-- A modem that waits for a signal has started its timer. -/
theorem recvWait_guarded (b : ModemEngineBody) :
    Guarded ready { b.setState .stRecvBegWait with timeout := .start false }.clock := by
  refine (Clear.of_timeout ?_ ?_ ?_).guarded
  all_goals exact fun h => by cases h

theorem recvStart_guarded (dt : DataType) : Guarded ready (b.recvStart a dt).2.clock := by
  unfold recvStart
  dsimp only
  split
  next => exact .of_state rfl rfl
  next =>
    split
    next => exact .of_state rfl rfl
    next => exact recvWait_guarded { b with dataType := dt }.setBitRevDleData

theorem recvSilence_guarded : Guarded ready (b.recvSilence a).2.clock := by
  unfold recvSilence
  dsimp only
  split
  next =>
    split
    next => exact sendSilence_guarded
    next => exact recvWait_guarded { b with dataType := .dtSilence }
  next => exact .of_state rfl rfl

theorem sendTones_guarded : Guarded ready (b.sendTones a).2.clock := by
  unfold sendTones
  dsimp only
  split
  next => split <;> exact .of_state rfl rfl
  next => exact .of_state rfl rfl

theorem stopSending_guarded : Guarded ready (b.stopSending a).1.clock := by
  unfold stopSending
  dsimp only
  split <;> exact .of_state rfl rfl

theorem done_onClock (h : Guarded ready b.clock) : OnClock ready (done resp b) := ⟨h, trivial⟩

theorem dial_onClock {d : DialString} (hs : b.state = .stCommand) : OnClock ready (b.dial a d) := by
  have hdone : FollowsClock ready (done none) := fun b h => done_onClock h.guarded
  unfold dial
  dsimp only
  generalize hp : (if b.offHook.callToken ≠ "" then b.offHook else { b.offHook with pPlayTone := false }) = b'
  have ho : b'.off_hook = true := by
    rw [← hp]
    split <;> rfl
  have hs' : b'.state = .stCommand := by
    rw [← hp]
    split <;> exact hs
  have hcommand : Guarded ready b'.clock := by
    refine .of_state ?_ ?_
    · rw [show b'.clock.state = _ from hs']
      rfl
    · rw [show b'.clock.state = _ from hs']
      rfl
  have hgive : OnClock ready (b'.onHook a (.done none) (done none)) :=
    onHook_onClock hdone fun hn => absurd (ho.symm.trans hn) (fun h => by cases h)
  split
  next =>
    split
    next => exact hgive
    next => exact done_onClock hcommand
  next =>
    split
    next =>
      split
      next =>
        refine done_onClock (Clocked.guarded ⟨fun _ => ho, fun h => ?_, fun _ h => ?_⟩ fun _ h => ?_)
        all_goals cases h
      next => exact hgive
    next =>
      refine done_onClock (Clocked.guarded ⟨fun _ => ho, fun h => ?_, fun h => ?_⟩ fun h => ?_)
      all_goals cases h

theorem command_onClock {c : Command} (h : Guarded ready b.clock) (hs : b.state = .stCommand) :
    OnClock ready (b.command a c) := by
  have hdone : FollowsClock ready (done none) := fun b h => done_onClock h.guarded
  cases c with
  | answer direction => exact answer_onClock hdone
  | dial d => exact dial_onClock hs
  | hook class1 =>
    unfold command
    dsimp only
    generalize hp : (if class1 then { b with modemClass := .mcFax }.onChangeModemClass else b) = b'
    have hl : b'.clock = b.clock := by
      rw [← hp]
      split <;> rfl
    split
    next => exact onHook_onClock hdone fun _ => hl ▸ h.toClocked
    next => exact done_onClock (hl ▸ h)
  | reset cl =>
    unfold command
    dsimp only
    split
    next => exact onHook_onClock hdone fun _ => h.toClocked
    next => exact done_onClock h
  | fclass cl => exact done_onClock h
  | sendSilence => exact done_onClock sendSilence_guarded
  | recvSilence => exact done_onClock recvSilence_guarded
  | sendStart dt => exact done_onClock (sendStart_guarded dt)
  | recvStart dt => exact done_onClock (recvStart_guarded dt)
  | sendTones => exact done_onClock sendTones_guarded

end ModemEngineBody

end T38Modem
