import T38Modem.CheckClock

namespace T38Modem

namespace ModemClock

/-- An engine has come: it is there, and the modem that waited for it goes on with its timer off. -/
inductive Attaches (v : ModemClock) : ModemClock → Prop
  | same : Attaches v v
  | audio : Attaches v { v with audioEngine := true }
  | reqMode (hs : v.state = .stReqModeAckWait) :
      Attaches v { v with state := .stReqModeAckHandle, subState := .chConnected, timeout := .stopped }
  | connect (hs : v.state = .stConnectHandle) (hsub : v.subState = .chWaitAudioEngine) :
      Attaches v { v with audioEngine := true, subState := .chAudioEngineAttached, timeout := .stopped }

/-- The endpoint has asked for something. -/
inductive Requested (v : ModemClock) : ModemClock → Prop
  | same : Requested v v
  | connects (hs : v.state = .stConnectWait) (st : ModemState) (hst : st = .stConnectHandle ∨ st = .stDial)
      (engine : Bool) :
      Requested v { v with state := st, subState := .chConnected, audioEngine := engine }
  | clears {v' : ModemClock} (h : Attaches { v with pPlayTone := false } v') : Requested v v'

/-- The engine has told how it is with an operation. -/
inductive Notified (v : ModemClock) : ModemClock → Prop
  | same : Notified v v
  | handle (st : ModemState) (t : Timeout) (hs : v.state.dials = false) (hd : st.dials = false)
      (hw : awaits st .chConnected = false) : Notified v { v with state := st, subState := .chConnected, timeout := t }
  | played (hs : v.state = .stConnectHandle) (hsub : v.subState = .chWaitPlayTone) :
      Notified v { v with subState := .chTonePlayed, timeout := .stopped }

/-- The modem has been moved on. -/
def moved (v v' : ModemClock) : Bool := v'.state != v.state || v'.subState != v.subState

variable {ready : Bool} {v v' : ModemClock} {pc : BodyPc}

theorem onTimeout_stopped {t : Timeout} (h : t.onTimeout = .stopped) : t = .stopped := by
  cases t with
  | stopped => rfl
  | _ => cases h

theorem Guarded.mono (h : Guarded ready v) (more : Bool) : Guarded (ready || more) v :=
  ⟨h.toClocked, fun hh => by rw [h.signalled hh, Bool.true_or]⟩

theorem Clocked.known (h : Clocked v) : Guarded true v := ⟨h, fun _ => rfl⟩

theorem Attaches.clocked (h : Attaches v v') (ht : Clocked v) : Clocked v' := by
  cases h with
  | same => exact ht
  | audio => exact ⟨ht.onLine, ht.armed, fun _ _ => rfl⟩
  | reqMode => exact .of_state rfl rfl
  | connect hs =>
    refine ⟨ht.onLine, fun hw => ?_, fun _ _ => rfl⟩
    have hw : awaits v.state .chAudioEngineAttached = true := hw
    rw [hs] at hw
    cases hw

/-- A tone that is held from now on is one that the engine has come for. -/
theorem Attaches.guarded (h : Attaches v v') (hk : Guarded ready v) : Guarded (ready || moved v v') v' := by
  refine ⟨h.clocked hk.toClocked, fun hh => ?_⟩
  cases h with
  | same => rw [hk.signalled hh, Bool.true_or]
  | audio => rw [hk.signalled ⟨hh.state, hh.subState, hh.tone, hh.timeout⟩, Bool.true_or]
  | reqMode => cases hh.state
  | connect _ hsub => simp [moved, hsub]

theorem Attaches.tone (h : Attaches v v') : v'.pPlayTone = v.pPlayTone := by
  cases h <;> rfl

theorem Attaches.at (h : Attaches v v') (hp : v.At pc) : v'.At pc := by
  cases pc with
  | answering after =>
    obtain ⟨ht, hs⟩ := hp
    cases h with
    | same => exact ⟨ht, hs⟩
    | audio => exact ⟨ht, hs⟩
    | reqMode hr => simp [hr] at hs
    | connect hr hsub => simp [hr, hsub] at hs
  | _ => cases h <;> exact hp

theorem Requested.guarded (h : Requested v v') (hk : Guarded ready v) : Guarded ready v' := by
  cases h with
  | same => exact hk
  | connects hs st hst engine =>
    have hon : v.off_hook = true := hk.onLine (by rw [hs]; rfl)
    refine Clocked.guarded ⟨fun _ => hon, fun hw => ?_, fun _ h => (by cases h)⟩ fun _ h => by cases h
    rcases hst with rfl | rfl <;> cases hw
  | clears ha =>
    refine ⟨ha.clocked (hk.toClocked.tone false), fun hh => ?_⟩
    exact absurd (hh.tone.symm.trans ha.tone) fun h => by cases h

theorem Requested.at (h : Requested v v') (hp : v.At pc) : v'.At pc := by
  cases h with
  | same => exact hp
  | connects hs st hst engine =>
    cases pc with
    | answering after => exact ⟨hp.1, .inr (hst.symm.imp_right fun h => ⟨h, rfl⟩)⟩
    | _ => exact hp
  | clears ha =>
    refine ha.at ?_
    cases pc <;> exact hp

theorem Notified.clocked (h : Notified v v') (ht : Clocked v) : Clocked v' := by
  cases h with
  | same => exact ht
  | handle st t hs hd hw => exact .of_state hd hw
  | played hs =>
    refine ⟨ht.onLine, fun hw => ?_, fun _ h => by cases h⟩
    have hw : awaits v.state .chTonePlayed = true := hw
    rw [hs] at hw
    cases hw

/-- The timer has run out where it ran. -/
theorem Clocked.onTimeout (h : Clocked v) : Clocked { v with timeout := v.timeout.onTimeout } :=
  ⟨h.onLine, fun hw ht => h.armed hw (onTimeout_stopped ht), h.attached⟩

theorem At.onTimeout (h : v.At pc) : At { v with timeout := v.timeout.onTimeout } pc := by
  cases pc with
  | answering after => exact ⟨fun ht => h.1 (onTimeout_stopped ht), h.2⟩
  | _ => exact h

theorem Notified.at (h : Notified v v') (hp : v.At pc) : v'.At pc := by
  cases pc with
  | answering after =>
    obtain ⟨ht, hs⟩ := hp
    cases h with
    | same => exact ⟨ht, hs⟩
    | handle st t hn =>
      have hd : v.state.dials = true := by
        rcases hs with h | h | h
        · rw [h]; rfl
        · rw [h]; rfl
        · rw [h.1]; rfl
      exact absurd (hn.symm.trans hd) fun h => by cases h
    | played hr hsub => simp [hr, hsub] at hs
  | _ => cases h <;> exact hp

end ModemClock

namespace ModemEngineBody

open ModemClock

variable {a : Answers} {b : ModemEngineBody}

theorem attachEngine_attaches (mce : ModemClassEngine) : Attaches b.clock (b.attachEngine a mce).clock := by
  unfold attachEngine
  split
  next => exact .same
  next =>
    cases mce with
    | mceT38 =>
      dsimp only [setActiveEngine]
      split
      next =>
        split
        next hs => exact .reqMode hs
        next => exact .same
      next =>
        split
        next hs => exact .reqMode hs
        next => exact .same
    | mceAudio =>
      dsimp only [setActiveEngine]
      split
      next =>
        split
        next hs => exact .connect hs.1 hs.2
        next => exact .audio
      next =>
        split
        next hs => exact .connect hs.1 hs.2
        next => exact .audio

theorem needAudio_attaches : Attaches b.clock (b.needAudio a).clock := by
  unfold needAudio
  split
  next => exact .same
  next => exact attachEngine_attaches .mceAudio

/-- Where nothing waits for the engine it only comes. -/
theorem needAudio_connected (hs : b.state = .stConnectHandle) (hsub : b.subState = .chConnected) :
    ∃ engine, (b.needAudio a).clock = { b.clock with audioEngine := engine } := by
  generalize hv : (b.needAudio a).clock = v
  have h : Attaches b.clock v := hv ▸ needAudio_attaches
  cases h with
  | same => exact ⟨b.audioEngine, rfl⟩
  | audio => exact ⟨true, rfl⟩
  | reqMode hr => exact absurd (hs.symm.trans hr) fun h => by cases h
  | connect _ hw => exact absurd (hsub.symm.trans hw) fun h => by cases h

theorem beginClear_requested (hr : b.callState ≠ .cstReleasing) : Requested b.clock (b.beginClear a).clock := by
  refine .clears ?_
  unfold beginClear
  dsimp only
  rw [if_pos hr]
  split
  next =>
    exact needAudio_attaches (b := {
      { b with lockReleasingState := b.lockReleasingState + 1 }.setCallState .cstReleasing with
      timerRing := .stopped, connectionEstablished := false, pPlayTone := false, timerBusy := .start true })
  next => exact .same

theorem request_requested (r : Request) : Requested b.clock (b.request a r).1.clock := by
  cases r with
  | call token =>
    dsimp only [request]
    split <;> exact .same
  | alerting token =>
    dsimp only [request]
    split
    next => exact .same
    next =>
      split
      next =>
        split
        next hs =>
          obtain ⟨engine, he⟩ := needAudio_connected (a := a)
            (b := { (b.setCallState .cstAlerted).setState .stConnectHandle .chConnected with timerRing := .start true })
            rfl rfl
          exact he ▸ .connects hs.1 .stConnectHandle (.inl rfl) engine
        next => exact .same
      next => exact .same
  | established token =>
    dsimp only [request]
    split
    next => exact .same
    next =>
      split
      next =>
        split
        next hs => exact .connects hs .stConnectHandle (.inl rfl) b.audioEngine
        next => exact .same
      next => exact .same
  | clearcall token trynextcommand =>
    dsimp only [request]
    split
    next => exact .same
    next hn =>
      split
      next =>
        split
        next hd => exact .connects hd.2.1 .stDial (.inr rfl) b.audioEngine
        next =>
          rw [endClear_clock]
          exact beginClear_requested (b := { b with callToken := "" }) (not_or.mp hn).2
      next => exact .same

theorem onOutBufEmpty_notified : Notified b.clock b.onOutBufEmpty.clock := by
  unfold onOutBufEmpty
  split
  next hs => exact .handle .stSendBufEmptyHandle b.timeout (by rw [show b.clock.state = _ from hs]; rfl) rfl rfl
  next => exact .same

theorem onSeq_notified : Notified b.clock b.onSeq.clock := by
  unfold onSeq
  split
  next hs => exact .handle .stSendAckHandle .stopped (by rw [show b.clock.state = _ from hs]; rfl) rfl rfl
  next hs => exact .handle .stRecvBegHandle .stopped (by rw [show b.clock.state = _ from hs]; rfl) rfl rfl
  next hs =>
    split
    next hsub => exact .played hs hsub
    next => exact .same
  next => exact .same

/-- The tone is put off. -/
theorem switchState_unarmed {resp : Option ResultCode} (h : b.clock.Unarmed a.isOpenOut) :
    b.switchState a resp = done resp (b.setSubState .chAudioEngineAttached) := by
  have hs : b.state = .stConnectHandle := h.state
  have ha : b.audioEngine = true := h.audioEngine
  have htone : b.pPlayTone = true := h.tone
  have hplay (c : ModemEngineBody) (hc : c.clock = { b.clock with subState := .chAudioEngineAttached }) :
      c.playTone a resp = done resp c := by
    have htone : c.pPlayTone = true := (congrArg ModemClock.pPlayTone hc).trans htone
    have ha : c.audioEngine = true := (congrArg ModemClock.audioEngine hc).trans ha
    rw [playTone, if_pos htone, if_neg (by simp [ha]), if_pos h.closed]
  unfold switchState connectHandle
  rcases h.subState with hsub | hsub
  · have hsub : b.subState = .chConnected := hsub
    simp only [hs, hsub, ha, Bool.true_eq_false, if_false]
    exact hplay _ rfl
  · have hsub : b.subState = .chAudioEngineAttached := hsub
    have hb : b.setSubState .chAudioEngineAttached = b := by rw [← hsub]; rfl
    simp only [hs, hsub]
    rw [hb]
    exact hplay b (by rw [← hsub]; rfl)

theorem checkTimeout_unarmed {resp : Option ResultCode} (h : b.clock.Unarmed a.isOpenOut)
    (hc : b.callState ≠ .cstReleasing) :
    ∃ out, b.checkTimeout a resp = (b.setSubState .chAudioEngineAttached, .idle, out) := by
  have ht : b.timeout = .stopped := h.timeout
  unfold checkTimeout
  rw [get_unfired fun hf => absurd (ht.symm.trans hf) fun h => by cases h]
  dsimp only
  unfold checkReleasing
  rw [if_neg Bool.false_ne_true, if_neg fun hr => hc hr.2.1, switchState_unarmed h]
  exact ⟨_, rfl⟩

/-- `CheckState` leaves the modem with its tone, its timer off and nothing to wake it. -/
theorem checkState_unarmed (h : b.clock.Unarmed a.isOpenOut) (ho : b.off_hook = true)
    (hc : b.callState ≠ .cstReleasing) :
    ∃ t t' out, b.checkState a =
      ({ b.setSubState .chAudioEngineAttached with timerRing := t, timerBusy := t' }, .idle, out) := by
  have htone : b.pPlayTone = true := h.tone
  unfold checkState
  split
  next =>
    have hring : checkRing a { b with timerBusy := (b.timerBusy.get true).2 } =
        checkTimeout a { b with timerBusy := (b.timerBusy.get true).2, timerRing := (b.timerRing.get true).2 } none := by
      unfold checkRing
      dsimp only
      split
      next => rw [if_neg (by simp [htone]), if_neg (by simp [ho])]
      next => rfl
    obtain ⟨out, he⟩ := checkTimeout_unarmed (a := a)
      (b := { b with timerBusy := (b.timerBusy.get true).2, timerRing := (b.timerRing.get true).2 }) h hc
    exact ⟨_, _, _, congrArg (ModemNext.after _) (hring.trans he)⟩
  next =>
    obtain ⟨out, he⟩ := checkTimeout_unarmed (a := a) h hc
    exact ⟨b.timerRing, b.timerBusy, out, he⟩

end ModemEngineBody

open ModemClock ModemEngineBody

/-- The modem beside the out side of its audio engine, and whether its thread is still to be woken. -/
structure WaitingModem extends Modem where
  outOpen : Bool := false
  ready : Bool := false

inductive WaitAct where
  | modem (act : ModemAct)
  | openOut
  | closeOut

/-- The engine answers for its out side. -/
def ModemAct.seeing (outOpen : Bool) : ModemAct → ModemAct
  | .checkState a => .checkState { a with isOpenOut := outOpen }
  | .resume a reply => .resume { a with isOpenOut := outOpen } reply
  | act => act

namespace WaitingModem

/-- The modem's thread takes the signal up with `CheckState`. The engines and the timers signal it, an engine that comes
where the modem waits for it, and the endpoint with what it asks for but a call. What the modem's thread signals to
itself is left out. -/
def signalled (l : WaitingModem) (m : Modem) : ModemAct → Bool
  | .checkState _ => false
  | .newPtrEngine .. => l.ready || moved l.body.clock m.body.clock
  | .request _ (.call _) => l.ready
  | .request a r => l.ready || (l.body.request a r).2
  | .onOutBufEmpty | .onSeq | .onTimeout _ => true
  | .command .. | .handleData _ | .resume .. => l.ready

def step (l : WaitingModem) : WaitAct → Option (WaitingModem × List ModemSeen)
  | .modem act => (l.toModem.step (act.seeing l.outOpen)).map fun r =>
    ({ toModem := r.1, outOpen := l.outOpen, ready := l.signalled r.1 act }, r.2)
  | .openOut => some ({ l with outOpen := true, ready := true }, [])
  | .closeOut => some ({ l with outOpen := false, ready := true }, [])

def machine : Machine WaitingModem WaitAct ModemSeen := ⟨step⟩

/-- The modem waits for something that comes from the network. -/
def AwaitsNetwork (l : WaitingModem) : Prop :=
  awaits l.body.state l.body.subState = true ∨
    l.body.state = .stConnectHandle ∧ l.body.subState = .chAudioEngineAttached ∧ l.body.pPlayTone = true ∧
      l.outOpen = false

/-- `CheckState` does not come to a tone for which the out side is not open, with the timer off. -/
def Armed (l : WaitingModem) : WaitAct → Prop
  | .modem (.checkState _) => ¬l.body.clock.Unarmed l.outOpen
  | _ => True

/-- What every step keeps. -/
structure Wakeful (l : WaitingModem) : Prop where
  guarded : Guarded l.ready l.body.clock
  thread : l.body.clock.At l.pc

variable {l l' : WaitingModem} {act : WaitAct} {as : List WaitAct} {es : List ModemSeen} {m : Modem} {n : ModemNext}
  {ready : Bool}

/-- The modem's thread has come to where it lets the mutex go. -/
theorem Wakeful.of_next (h : OnClock ready n) (hr : l'.ready = ready) (hm : l'.toModem = (Modem.ofNext n).1) :
    Wakeful l' := by
  subst hr
  refine ⟨?_, ?_⟩
  · rw [hm]
    exact h.1
  · rw [hm]
    exact h.2

theorem Wakeful.step (h : Wakeful l) (hok : Armed l act) (hs : machine.step l act = some (l', es)) : Wakeful l' := by
  cases act with
  | openOut =>
    cases hs
    exact ⟨h.guarded.toClocked.known, h.thread⟩
  | closeOut =>
    cases hs
    exact ⟨h.guarded.toClocked.known, h.thread⟩
  | modem act =>
    obtain ⟨r, hr, he⟩ := Option.map_eq_some_iff.mp hs
    cases he
    cases act with
    | command a c =>
      simp only [ModemAct.seeing, Modem.step, Option.ite_none_right_eq_some] at hr
      obtain ⟨⟨-, hst⟩, hr⟩ := hr
      cases Option.some.inj hr
      exact .of_next (command_onClock h.guarded hst) rfl rfl
    | handleData bs =>
      simp only [ModemAct.seeing, Modem.step, Option.ite_none_right_eq_some] at hr
      obtain ⟨-, hr⟩ := hr
      cases Option.some.inj hr
      exact ⟨h.guarded, trivial⟩
    | checkState a =>
      simp only [ModemAct.seeing, Modem.step, Option.ite_none_right_eq_some] at hr
      obtain ⟨-, hr⟩ := hr
      cases Option.some.inj hr
      exact .of_next (checkState_onClock (a := { a with isOpenOut := l.outOpen }) ⟨h.guarded.toClocked, hok⟩) rfl rfl
    | resume a reply =>
      obtain ⟨n, hn, hr⟩ := Option.map_eq_some_iff.mp hr
      cases hr
      exact .of_next (resume_onClock h.guarded h.thread hn) rfl rfl
    | request a r =>
      cases hr
      have hq := request_requested (a := a) (b := l.body) r
      refine ⟨?_, hq.at h.thread⟩
      cases r with
      | call token => exact hq.guarded h.guarded
      | _ => exact (hq.guarded h.guarded).mono _
    | newPtrEngine a mce =>
      cases hr
      have ha := attachEngine_attaches (a := a) (b := l.body) mce
      exact ⟨ha.guarded h.guarded, ha.at h.thread⟩
    | onOutBufEmpty =>
      cases hr
      exact ⟨(onOutBufEmpty_notified.clocked h.guarded.toClocked).known, onOutBufEmpty_notified.at h.thread⟩
    | onSeq =>
      cases hr
      exact ⟨(onSeq_notified.clocked h.guarded.toClocked).known, onSeq_notified.at h.thread⟩
    | onTimeout timer =>
      cases timer with
      | timeout =>
        cases hr
        exact ⟨h.guarded.toClocked.onTimeout.known, At.onTimeout h.thread⟩
      | ring =>
        cases hr
        exact ⟨h.guarded.toClocked.known, h.thread⟩
      | busy =>
        cases hr
        exact ⟨h.guarded.toClocked.known, h.thread⟩

theorem run_wakeful (h : machine.Run Armed {} as es l) : l.Wakeful :=
  h.state_invariant (I := Wakeful) ⟨.of_state rfl rfl, trivial⟩ fun _ _ _ _ h hok hs => h.step hok hs

/-- A modem that waits for the network, and to whose thread nothing is signalled, has its timer on. -/
theorem run_timerOn (h : machine.Run Armed {} as es l) (hready : l.ready = false) (hw : l.AwaitsNetwork) :
    l.body.timeout = .running ∨ l.body.timeout = .fired := by
  have hs := run_wakeful h
  have hon : l.body.timeout ≠ .stopped := by
    rcases hw with hw | ⟨hst, hsub, htone, -⟩
    · exact hs.guarded.armed hw
    · exact fun ht => absurd (hready.symm.trans (hs.guarded.signalled ⟨hst, hsub, htone, ht⟩)) fun h => by cases h
  cases ht : l.body.timeout with
  | stopped => exact absurd ht hon
  | running => exact .inl rfl
  | fired => exact .inr rfl

instance (l : WaitingModem) : Decidable l.AwaitsNetwork := inferInstanceAs (Decidable (_ ∨ _))

instance (outOpen : Bool) (v : ModemClock) : Decidable (v.Unarmed outOpen) :=
  decidable_of_iff (v.state = .stConnectHandle ∧ (v.subState = .chConnected ∨ v.subState = .chAudioEngineAttached) ∧
      v.pPlayTone = true ∧ v.audioEngine = true ∧ outOpen = false ∧ v.timeout = .stopped)
    ⟨fun ⟨h₁, h₂, h₃, h₄, h₅, h₆⟩ => ⟨h₁, h₂, h₃, h₄, h₅, h₆⟩,
      fun h => ⟨h.1, h.2, h.3, h.4, h.5, h.6⟩⟩

instance (l : WaitingModem) : ∀ act, Decidable (Armed l act)
  | .modem (.checkState _) => inferInstanceAs (Decidable (¬_))
  | .modem (.command ..) | .modem (.handleData _) | .modem (.resume ..) | .modem (.request ..)
  | .modem (.newPtrEngine ..) | .modem .onOutBufEmpty | .modem .onSeq | .modem (.onTimeout _) | .openOut | .closeOut =>
    .isTrue trivial

/-- A call dialled with a tone to play, up to where the audio engine has come. -/
def toneDialled : List WaitAct :=
  [.modem (.command {} (.dial { err := false, semicolon := false, forceFax := false, tone := true })),
    .modem (.checkState {}), .modem (.resume {} (some "T")), .modem (.request {} (.established "T")),
    .modem (.checkState {}), .modem (.newPtrEngine {} .mceAudio)]

/-- The out side of the engine is open when `CheckState` comes to the tone. -/
theorem tone_timerOn : ∃ es l, machine.Run Armed {} (toneDialled ++ [.openOut, .modem (.checkState {})]) es l ∧
    l.body.subState = .chWaitPlayTone ∧ (l.body.timeout = .running ∨ l.body.timeout = .fired) := by
  have hx : (machine.exec Armed {} (toneDialled ++ [.openOut, .modem (.checkState {})])).any (fun x =>
      decide (x.1.ready = false ∧ x.1.AwaitsNetwork ∧ x.1.body.subState = .chWaitPlayTone)) = true := by
    decide +kernel
  obtain ⟨l, es, h, ht⟩ := Machine.exec_passes hx
  obtain ⟨hready, hw, hsub⟩ := of_decide_eq_true ht
  exact ⟨es, l, h, hsub, run_timerOn h hready hw⟩

/-- A tone is put off, and the call goes on. -/
structure Stuck (l : WaitingModem) : Prop where
  unarmed : l.body.clock.Unarmed l.outOpen
  off_hook : l.body.off_hook = true
  call : l.body.callState ≠ .cstReleasing

/-- The modem's thread does nothing but `CheckState`. -/
def Checks (_ : WaitingModem) (act : WaitAct) : Prop := ∃ a, act = .modem (.checkState a)

theorem Stuck.step (h : Stuck l) (hok : Checks l act) (hs : machine.step l act = some (l', es)) :
    Stuck l' ∧ l'.ready = false ∧ l'.AwaitsNetwork := by
  obtain ⟨a, rfl⟩ := hok
  obtain ⟨r, hr, he⟩ := Option.map_eq_some_iff.mp hs
  cases he
  simp only [ModemAct.seeing, Modem.step, Option.ite_none_right_eq_some] at hr
  obtain ⟨-, hr⟩ := hr
  obtain ⟨t, t', out, hc⟩ :=
    checkState_unarmed (a := { a with isOpenOut := l.outOpen }) h.unarmed h.off_hook h.call
  rw [hc] at hr
  cases Option.some.inj hr
  have hu := h.unarmed
  exact ⟨⟨⟨hu.state, .inr rfl, hu.tone, hu.audioEngine, hu.closed, hu.timeout⟩, h.off_hook, h.call⟩, rfl,
    .inr ⟨hu.state, rfl, hu.tone, hu.closed⟩⟩

/-- A tone that `CheckState` has put off with the timer off is put off for ever, unless something else comes. -/
theorem Stuck.run (h : Stuck l) (hready : l.ready = false) (hw : l.AwaitsNetwork)
    (hr : machine.Run Checks l as es l') : l'.ready = false ∧ l'.AwaitsNetwork ∧ l'.body.timeout = .stopped := by
  have hs := hr.state_invariant (I := fun l => Stuck l ∧ l.ready = false ∧ l.AwaitsNetwork) ⟨h, hready, hw⟩
    fun _ _ _ _ h hok hs => h.1.step hok hs
  exact ⟨hs.2.1, hs.2.2, hs.1.unarmed.timeout⟩

/-- The engine that the modem waits for has come, and its out side is not open: the modem waits on with no timer. -/
theorem tone_timerOff : ∃ es l, machine.Run (fun _ _ => True) {} (toneDialled ++ [.modem (.checkState {})]) es l ∧
    l.pc = .idle ∧ l.ready = false ∧ l.AwaitsNetwork ∧ l.body.timeout = .stopped ∧
      ∀ as es' l', machine.Run Checks l as es' l' →
        l'.ready = false ∧ l'.AwaitsNetwork ∧ l'.body.timeout = .stopped := by
  have hx : (machine.exec (fun _ _ => True) {} (toneDialled ++ [.modem (.checkState {})])).any (fun x =>
      decide (x.1.pc = .idle ∧ x.1.ready = false ∧ x.1.AwaitsNetwork ∧ x.1.body.timeout = .stopped ∧
        x.1.body.clock.Unarmed x.1.outOpen ∧ x.1.body.off_hook = true ∧ x.1.body.callState ≠ .cstReleasing)) = true := by
    decide +kernel
  obtain ⟨l, es, h, ht⟩ := Machine.exec_passes hx
  obtain ⟨hpc, hready, hw, hstop, hu, ho, hc⟩ := of_decide_eq_true ht
  exact ⟨es, l, h, hpc, hready, hw, hstop, fun _ _ _ hr => Stuck.run ⟨hu, ho, hc⟩ hready hw hr⟩

end WaitingModem

end T38Modem
