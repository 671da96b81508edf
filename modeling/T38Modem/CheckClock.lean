import T38Modem.ModemClock

namespace T38Modem

namespace ModemEngineBody

open ModemClock

variable {ready : Bool} {a : Answers} {b : ModemEngineBody} {after : AfterHook} {resp : Option ResultCode}

/-- What `CheckState` needs of the clock where it comes to the `switch` on `state`. -/
structure Checkable (a : Answers) (b : ModemEngineBody) : Prop extends Clocked b.clock where
  armed_tone : ¬b.clock.Unarmed a.isOpenOut

theorem Checkable.of_clear (h : Clear b.clock) : b.Checkable a := ⟨h.toClocked, h.armed_tone⟩

theorem drainLoop_onClock {n : Nat} (h : Guarded ready b.clock) : OnClock ready (drainLoop n b resp) := by
  induction n generalizing b with
  | zero => exact done_onClock h
  | succ n ih =>
    unfold drainLoop
    split
    next => exact done_onClock (.of_state rfl rfl)
    next => exact done_onClock h
    next => exact ih h

theorem recvLoop_onClock {rs : List (Option (List Byte))} (h : Guarded ready b.clock) :
    OnClock ready (recvLoop a resp rs b) := by
  induction rs generalizing b with
  | nil =>
    unfold recvLoop
    split <;> exact drainLoop_onClock h
  | cons r rs ih =>
    unfold recvLoop
    split
    next => exact drainLoop_onClock h
    next =>
      match r with
      | none => exact drainLoop_onClock h
      | some [] => exact drainLoop_onClock h
      | some (c :: cs) =>
        dsimp only
        split
        next =>
          split
          next => exact ih h
          next =>
            split
            next =>
              split
              next => exact ⟨h, trivial⟩
              next => exact ih h
            next => exact ih h
          next => exact ih h
        next => exact ih h

theorem recvBegin_onClock : OnClock ready (b.recvBegin a resp) := by
  unfold recvBegin
  split
  next => exact done_onClock sendSilence_guarded
  next =>
    split
    next => exact done_onClock (.of_state rfl rfl)
    next =>
      split
      next => exact done_onClock (.of_state rfl rfl)
      next =>
        split
        next =>
          dsimp only
          split <;> exact done_onClock (.of_state rfl rfl)
        next => exact done_onClock (.of_state rfl rfl)
      next => exact done_onClock (.of_state rfl rfl)

theorem establish_onClock : OnClock ready (b.establish resp) := by
  unfold establish
  dsimp only
  split
  next => exact done_onClock (.of_state rfl rfl)
  next =>
    split
    next => exact done_onClock (.of_state rfl rfl)
    next =>
      refine ⟨(Clear.of_timeout ?_ ?_ ?_).guarded, trivial⟩
      all_goals exact fun h => by cases h

theorem tonePlayed_onClock (ho : b.off_hook = true) : OnClock ready (b.tonePlayed resp) := by
  unfold tonePlayed
  split
  next => exact done_onClock (.of_timeout ho (fun h => by cases h) fun h => by cases h)
  next => exact establish_onClock

/-- A tone is put off with the timer on, or it is played with a timer of its own. -/
theorem playTone_onClock (h : Clocked b.clock) (hs : b.state = .stConnectHandle)
    (hsub : b.subState = .chAudioEngineAttached) (hu : ¬b.clock.Unarmed a.isOpenOut) :
    OnClock ready (b.playTone a resp) := by
  have ho : b.off_hook = true := h.onLine (by rw [show b.clock.state = _ from hs]; rfl)
  have ha : b.audioEngine = true := h.attached hs hsub
  unfold playTone
  split
  next htone =>
    split
    next hn => exact absurd (ha.symm.trans hn) (fun h => by cases h)
    next =>
      split
      next hopen => exact done_onClock ⟨h, fun hh => absurd ⟨hs, .inr hsub, htone, ha, hopen, hh.timeout⟩ hu⟩
      next =>
        split
        next => exact done_onClock (.of_timeout ho (fun h => by cases h) fun h => by cases h)
        next =>
          refine onHook_onClock (fun b h => done_onClock ⟨h.toClocked.tone false, ?_⟩) fun _ => .of_state rfl rfl
          exact fun hh => absurd hh.tone (fun h => by cases h)
  next => exact tonePlayed_onClock ho

theorem connectHandle_onClock (h : b.Checkable a) (hs : b.state = .stConnectHandle) :
    OnClock ready (b.connectHandle a resp) := by
  have ho : b.off_hook = true := h.onLine (by rw [show b.clock.state = _ from hs]; rfl)
  unfold connectHandle
  split
  next hsub =>
    split
    next => exact done_onClock (.of_timeout ho (fun h => by cases h) fun h => by cases h)
    next ha =>
      have ha : b.audioEngine = true := by simpa using ha
      refine playTone_onClock ⟨fun _ => ho, fun hw => ?_, fun _ _ => ha⟩ hs rfl fun hu => ?_
      · rw [show (b.setSubState .chAudioEngineAttached).clock.state = _ from hs] at hw
        cases hw
      · exact h.armed_tone ⟨hs, .inl hsub, hu.tone, ha, hu.closed, hu.timeout⟩
  next hsub => exact playTone_onClock h.toClocked hs hsub h.armed_tone
  next => exact tonePlayed_onClock ho
  next => exact establish_onClock
  next hn _ _ => exact done_onClock (h.guarded fun _ => hn)

theorem reqModeAck_onClock : OnClock ready (b.reqModeAck a resp) := by
  unfold reqModeAck
  split
  next =>
    dsimp only
    split
    next => split <;> exact done_onClock (.of_state rfl rfl)
    next => exact done_onClock (.of_state rfl rfl)
  next => exact done_onClock (recvStart_guarded .dtHdlc)
  next => exact done_onClock (.of_state rfl rfl)

theorem sendAck_onClock (h : Guarded ready b.clock) : OnClock ready (b.sendAck a resp) := by
  unfold sendAck
  split
  next => exact done_onClock (sendStart_guarded .dtHdlc)
  next => exact done_onClock (.of_state rfl rfl)
  next => split <;> exact done_onClock (.of_state rfl rfl)
  next => split <;> exact done_onClock (.of_state rfl rfl)
  next => exact done_onClock h

theorem switchState_onClock (h : b.Checkable a) : OnClock ready (b.switchState a resp) := by
  have hkept (hs : b.state ≠ .stConnectHandle) : Guarded ready b.clock := h.guarded fun h => absurd h hs
  unfold switchState
  split
  next hs =>
    have ho : b.off_hook = true := h.onLine (by rw [show b.clock.state = _ from hs]; rfl)
    split
    next => exact ⟨.of_timeout ho (fun h => by cases h) (fun h => by cases h), ho⟩
    next =>
      refine onHook_onClock (fun _ h => done_onClock h.guarded) fun hn => ?_
      exact absurd (ho.symm.trans hn) fun h => by cases h
  next => exact (done_onClock stopSending_guarded : OnClock ready (done resp (b.stopSending a).1))
  next hs => exact connectHandle_onClock h hs
  next => exact reqModeAck_onClock
  next hs => exact sendAck_onClock (hkept fun h => by rw [hs] at h; cases h)
  next => exact recvBegin_onClock
  next hs => exact recvLoop_onClock (hkept fun h => by rw [hs] at h; cases h)
  next hn _ _ _ _ => exact done_onClock (hkept hn)

theorem checkReleasing_onClock (h : b.Checkable a) : OnClock ready (b.checkReleasing a resp) := by
  unfold checkReleasing
  rw [after_onClock]
  split
  next hr =>
    dsimp only
    split
    next =>
      refine onHook_onClock (fun _ h => switchState_onClock (.of_clear h)) fun hn => ?_
      exact absurd (hr.1.symm.trans hn) fun h => by cases h
    next => exact switchState_onClock ⟨h.toClocked, h.armed_tone⟩
  next => exact switchState_onClock h

theorem get_unfired (h : b.timeout ≠ .fired) : b.timeout.get false = (false, b.timeout) := by
  revert h
  cases b.timeout with
  | fired => exact fun h => absurd rfl h
  | _ => exact fun _ => rfl

theorem checkTimeout_onClock (h : b.Checkable a) : OnClock ready (b.checkTimeout a resp) := by
  unfold checkTimeout
  by_cases ht : b.timeout = .fired
  · -- the timer that has fired is off, and no state that waits for it is left
    have hget : b.timeout.get false = (true, .stopped) := by rw [ht]; rfl
    have hline : b.state.dials = true → b.off_hook = true := h.onLine
    have hgo (resp : Option ResultCode) : FollowsClock ready fun b => b.checkReleasing a resp := fun _ h =>
      checkReleasing_onClock (.of_clear h)
    rw [hget]
    dsimp only
    rw [if_pos rfl]
    split
    next =>
      split
      next => exact checkReleasing_onClock (.of_clear (.of_state rfl rfl))
      next => exact onHook_onClock (hgo _) fun _ => .of_state rfl rfl
    next =>
      split
      next => exact checkReleasing_onClock (.of_clear (.of_state rfl rfl))
      next => exact onHook_onClock (hgo _) fun _ => .of_state rfl rfl
    next hs =>
      have ho : b.off_hook = true := hline (by rw [hs]; rfl)
      split
      next =>
        refine checkReleasing_onClock (.of_clear
          ⟨⟨fun _ => ho, fun hw => ?_, fun _ h => ?_⟩, fun _ => ⟨fun h => ?_, fun h => ?_⟩⟩)
        · have hw : awaits b.state .chConnectionEstablished = true := hw
          rw [hs] at hw
          cases hw
        all_goals cases h
      next => exact onHook_onClock (hgo _) fun hn => absurd (ho.symm.trans hn) fun h => by cases h
    next hs =>
      have ho : b.off_hook = true := hline (by rw [hs]; rfl)
      exact onHook_onClock (hgo _) fun hn => absurd (ho.symm.trans hn) fun h => by cases h
    next h1 h2 h3 h4 =>
      refine checkReleasing_onClock (.of_clear
        ⟨⟨hline, fun hw => ?_, fun hs => absurd hs h3⟩, fun hs => absurd hs h3⟩)
      rcases awaits_cases hw with h | h | h | h
      · exact absurd h h4
      · exact absurd h h1
      · exact absurd h h2
      · exact absurd h h3
  · rw [get_unfired ht]
    exact checkReleasing_onClock h

theorem checkRing_onClock (h : b.Checkable a) : OnClock ready (b.checkRing a) := by
  unfold checkRing
  dsimp only
  split
  next =>
    split
    next => exact checkTimeout_onClock ⟨h.toClocked, h.armed_tone⟩
    next =>
      split
      next =>
        split
        next => exact answer_onClock fun _ h => checkTimeout_onClock (.of_clear h)
        next => exact checkTimeout_onClock ⟨h.toClocked, h.armed_tone⟩
      next => exact checkTimeout_onClock ⟨h.toClocked, h.armed_tone⟩
  next => exact checkTimeout_onClock ⟨h.toClocked, h.armed_tone⟩

theorem checkState_onClock (h : b.Checkable a) : OnClock ready (b.checkState a) := by
  unfold checkState
  split
  next => exact checkRing_onClock ⟨h.toClocked, h.armed_tone⟩
  next => exact checkTimeout_onClock h

theorem goOn_onClock (h : Guarded ready b.clock) (hu : ¬b.clock.Unarmed a.isOpenOut) :
    OnClock ready (b.goOn a after) := by
  cases after with
  | done resp => exact done_onClock h
  | aborted => exact ⟨h, trivial⟩
  | dropTone => exact done_onClock ⟨h.toClocked.tone false, fun hh => absurd hh.tone fun h => by cases h⟩
  | switchState resp => exact switchState_onClock ⟨h.toClocked, hu⟩
  | releasing => exact checkReleasing_onClock ⟨h.toClocked, hu⟩
  | timeouts => exact checkTimeout_onClock ⟨h.toClocked, hu⟩

theorem abort_onClock {rest : List Byte} : OnClock ready (b.abort a rest) := by
  unfold abort
  dsimp only
  rw [after_onClock]
  split
  next => exact ⟨.of_state rfl rfl, trivial⟩
  next => exact onHook_onClock (fun _ h => ⟨h.guarded, trivial⟩) fun _ => .of_state rfl rfl

theorem handleData_onClock {bs : List Byte} (h : Guarded ready b.clock) : OnClock ready (b.handleData a bs) := by
  cases bs with
  | nil => exact ⟨h, trivial⟩
  | cons c cs =>
    unfold handleData
    dsimp only
    split
    next => exact ⟨h, trivial⟩
    next => exact ⟨h, trivial⟩
    next => exact ⟨.of_state rfl rfl, trivial⟩
    next => exact abort_onClock

theorem sendRound_onClock {rest : List Byte} (h : Guarded ready b.clock) : OnClock ready (b.sendRound a rest) := by
  unfold sendRound
  split
  next => exact ⟨stopSending_guarded, trivial⟩
  next => exact ⟨h, trivial⟩
  next => exact ⟨h, trivial⟩

theorem resume_onClock {pc : BodyPc} {reply : Option String} {n : ModemNext} (h : Guarded ready b.clock)
    (hp : b.clock.At pc) (hs : b.resume a reply pc = some n) : OnClock ready n := by
  have hgo (after : AfterHook) : FollowsClock ready fun b => b.goOn a after :=
    fun _ h => goOn_onClock h.guarded h.armed_tone
  cases pc with
  | idle => cases hs
  | handling rest =>
    cases hs
    exact handleData_onClock h
  | sending rest =>
    cases hs
    exact sendRound_onClock h
  | detaching mce after =>
    cases mce <;> cases hs
    · exact onHookAudio_onClock (hgo after) h.toClocked hp
    · exact onHookT38_onClock (hgo after) h.toClocked hp
  | clearing after =>
    cases hs
    refine hgo after _ ?_
    rw [endClear_clock]
    exact h.toClocked.clear_onHook hp
  | answering after =>
    cases hs
    unfold answered
    split
    next => exact goOn_onClock h fun hu => absurd hu.timeout hp.1
    next => exact onHook_onClock (hgo after) fun _ => h.toClocked
  | dialing resp =>
    cases hs
    cases reply with
    | some token => exact done_onClock h
    | none =>
      refine onHook_onClock (fun _ h => done_onClock h.guarded) fun hn => ?_
      exact absurd (hp.symm.trans hn) fun h => by cases h
  | requestingMode resp =>
    cases hs
    unfold modeRequested
    split
    next => exact done_onClock (.of_state rfl rfl)
    next => exact done_onClock h
  | delaying count resp =>
    cases hs
    exact recvLoop_onClock h

end ModemEngineBody

end T38Modem
