import T38Modem.ModemSystem

namespace T38Modem

/-- The table of `CallState`, by the hook state, with `cstReleasing` between a call that is cleared
and `cstCleared`. -/
def inCallTable : Bool → CallState → CallState → Bool
  | true, .cstCleared, .cstDialing => true
  | true, .cstCalled, .cstAnswering => true
  | true, .cstDialing, .cstAlerted => true
  | true, .cstDialing, .cstEstablished => true
  | true, .cstAlerted, .cstEstablished => true
  | true, .cstAnswering, .cstEstablished => true
  -- the next command is tried
  | true, .cstDialing, .cstCleared => true
  | false, .cstCleared, .cstCalled => true
  | false, .cstReleasing, .cstCleared => true
  | _, .cstDialing, .cstReleasing => true
  | _, .cstAlerted, .cstReleasing => true
  | _, .cstCalled, .cstReleasing => true
  | _, .cstAnswering, .cstReleasing => true
  | _, .cstEstablished, .cstReleasing => true
  | _, _, _ => false

/-- The moves lead from `c` to `c'` along the table. -/
def AlongTable (c : CallState) : List (Bool × CallState × CallState) → CallState → Prop
  | [], c' => c' = c
  | (h, old, new) :: ms, c' => old = c ∧ inCallTable h old new = true ∧ AlongTable new ms c'

theorem AlongTable.move {c c' new : CallState} {h : Bool} {ms : List (Bool × CallState × CallState)}
    (hm : AlongTable c ms c') (ht : inCallTable h c' new = true) : AlongTable c (ms ++ [(h, c', new)]) new := by
  induction ms generalizing c with
  | nil =>
    cases hm
    exact ⟨rfl, ht, rfl⟩
  | cons m ms ih =>
    obtain ⟨h₀, old, next⟩ := m
    obtain ⟨ho, ht₀, hm⟩ := hm
    exact ⟨ho, ht₀, ih hm⟩

/-- The states in which a call is set up. -/
def ModemState.dials : ModemState → Bool
  | .stDial | .stConnectWait | .stConnectHandle => true
  | _ => false

/-- What of the modem has to do with the call. -/
structure CallLine where
  state : ModemState
  off_hook : Bool
  callState : CallState
  callSubState : Nat
  connectionEstablished : Bool
  callToken : String
  lockReleasingState : Int
  moves : List (Bool × CallState × CallState)

namespace CallLine

/-- What holds of the call wherever the modem's thread is. -/
structure Sound (l : CallLine) : Prop where
  called : l.callState = .cstCalled → l.off_hook = false ∧ l.callToken ≠ ""
  dialing : l.state.dials = true → l.off_hook = true
  connected : l.connectionEstablished = true → l.callState = .cstAlerted ∨ l.callState = .cstEstablished
  handled : l.state = .stConnectHandle → l.callState = .cstAlerted ∨ l.callState = .cstEstablished ∨
    l.callState = .cstReleasing ∧ l.callSubState = 0
  moves : AlongTable .cstCleared l.moves l.callState

/-- The modem's thread is neither in `_DetachEngine` nor in the callback of `_ClearCall`. -/
structure Rest (l : CallLine) : Prop extends Sound l where
  unlocked : l.lockReleasingState = 0
  settled : l.off_hook = false → l.callState = .cstCleared ∨ l.callState = .cstCalled

end CallLine

/-- What is said of the call token in a state of the call, and what the modem's thread needs to keep
it: `hung` in `_DetachEngine`, `dialing` in the callback of a dial, and `calm` anywhere else. -/
structure TokenRule where
  calm : CallState → String → Prop
  hung : CallState → String → Prop
  dialing : CallState → String → Prop
  hang {c t} : calm c t → hung c t
  giveUp {c t} : dialing c t → hung c t
  cleared : calm .cstCleared ""
  stays {t} : hung .cstCleared t → calm .cstCleared t
  answer {t} : calm .cstCalled t → calm .cstAnswering t
  dial {t} : calm .cstCleared t → dialing .cstDialing t

/-- Nothing is said. -/
def TokenRule.any : TokenRule where
  calm _ _ := True
  hung _ _ := True
  dialing _ _ := True
  hang _ := trivial
  giveUp _ := trivial
  cleared := trivial
  stays _ := trivial
  answer _ := trivial
  dial _ := trivial

/-- What is said where the modem's thread is. -/
def TokenRule.at (R : TokenRule) : BodyPc → CallState → String → Prop
  | .detaching _ _ => R.hung
  | .clearing _ => fun _ _ => True
  | .dialing _ => R.dialing
  | _ => R.calm

namespace CallLine

structure Calm (R : TokenRule) (l : CallLine) : Prop extends Rest l where
  token : R.calm l.callState l.callToken

/-- The modem's thread is in the callback of a dial. -/
structure Calling (R : TokenRule) (l : CallLine) : Prop extends Rest l where
  offHook : l.off_hook = true
  token : R.dialing l.callState l.callToken

/-- It is in `_DetachEngine`. -/
structure Hung (R : TokenRule) (l : CallLine) : Prop extends Sound l where
  unlocked : l.lockReleasingState = 0
  onHook : l.off_hook = false
  token : R.hung l.callState l.callToken

/-- It is in the callback of `_ClearCall`. -/
structure Clearing (l : CallLine) : Prop extends Sound l where
  locked : l.lockReleasingState = 1
  onHook : l.off_hook = false
  releasing : l.callState = .cstReleasing
  token : l.callToken = ""

/-- The call is as it was, and no call set-up begins. -/
structure Quiet (l l' : CallLine) : Prop where
  same : l' = { l with state := l'.state }
  state : l'.state = l.state ∨ l'.state.dials = false

variable {R : TokenRule} {l l' l'' : CallLine}

theorem Quiet.refl (l : CallLine) : Quiet l l := ⟨rfl, .inl rfl⟩

theorem Quiet.of_state {st : ModemState} (h : st.dials = false) : Quiet l { l with state := st } := ⟨rfl, .inr h⟩

theorem Quiet.trans (h : Quiet l l') (h' : Quiet l' l'') : Quiet l l'' := by
  have hs : l''.state = l.state ∨ l''.state.dials = false := by
    rcases h'.state with he | hd
    · rw [he]
      exact h.state
    · exact .inr hd
  refine ⟨?_, hs⟩
  rw [h'.same, h.same]

theorem Quiet.noToken (h : Quiet l l') : Quiet { l with callToken := "" } { l' with callToken := "" } := by
  have he := h.same
  have hs := h.state
  generalize l'.state = st at he hs
  subst he
  exact ⟨rfl, hs⟩

theorem Sound.quiet (h : Sound l) (hq : Quiet l l') : Sound l' := by
  rw [hq.same]
  refine ⟨h.called, ?_, h.connected, ?_, h.moves⟩
  · intro hd
    rcases hq.state with he | hn
    · exact h.dialing (he ▸ hd)
    · exact absurd (hn ▸ hd) nofun
  · intro hd
    rcases hq.state with he | hn
    · exact h.handled (he ▸ hd)
    · exact absurd (hd ▸ hn) nofun

theorem Rest.quiet (h : Rest l) (hq : Quiet l l') : Rest l' := by
  have hs := h.toSound.quiet hq
  have he := hq.same
  generalize l'.state = st at he
  subst he
  exact ⟨hs, h.unlocked, h.settled⟩

theorem Calm.quiet (h : Calm R l) (hq : Quiet l l') : Calm R l' := by
  refine ⟨h.toRest.quiet hq, ?_⟩
  rw [hq.same]
  exact h.token

theorem Calling.quiet (h : Calling R l) (hq : Quiet l l') : Calling R l' := by
  refine ⟨h.toRest.quiet hq, ?_, ?_⟩
  · rw [hq.same]
    exact h.offHook
  · rw [hq.same]
    exact h.token

theorem Hung.quiet (h : Hung R l) (hq : Quiet l l') : Hung R l' := by
  have hs := h.toSound.quiet hq
  have he := hq.same
  generalize l'.state = st at he
  subst he
  exact ⟨hs, h.unlocked, h.onHook, h.token⟩

theorem Clearing.quiet (h : Clearing l) (hq : Quiet l l') : Clearing l' := by
  have hs := h.toSound.quiet hq
  have he := hq.same
  generalize l'.state = st at he
  subst he
  exact ⟨hs, h.locked, h.onHook, h.releasing, h.token⟩

theorem Sound.not_called (h : Sound l) (hc : l.connectionEstablished = true) : l.callState ≠ .cstCalled := by
  intro hd
  rcases h.connected hc with hs | hs <;> exact absurd (hd.symm.trans hs) nofun

/-- The call when the modem is hung up. -/
def hungUp (l : CallLine) : CallLine := { l with off_hook := false, state := .stCommand }

theorem Rest.hungUp (h : Rest l) (ht : R.hung l.callState l.callToken) : Hung R l.hungUp :=
  ⟨⟨fun hc => ⟨rfl, (h.called hc).2⟩, nofun, h.connected, nofun, h.moves⟩, h.unlocked, rfl, ht⟩

theorem Calm.hungUp (h : Calm R l) : Hung R l.hungUp := h.toRest.hungUp (R.hang h.token)

/-- `SetCallState` -/
def move (l : CallLine) (new : CallState) : CallLine :=
  { l with
    callState := new
    callSubState := 0
    moves := if l.callState = new then l.moves else l.moves ++ [(l.off_hook, l.callState, new)] }

theorem move_moves {h : Bool} {c new : CallState} (hm : AlongTable .cstCleared l.moves l.callState)
    (ho : l.off_hook = h) (hc : l.callState = c) (ht : inCallTable h c new = true) :
    AlongTable .cstCleared (l.move new).moves new := by
  subst ho hc
  unfold move
  dsimp only
  split
  next he => exact he ▸ hm
  next => exact hm.move ht

/-- The call when `_ClearCall` has begun. -/
def released (l : CallLine) : CallLine :=
  if l.callState = .cstReleasing then { l with lockReleasingState := l.lockReleasingState + 1 }
  else
    { l.move .cstReleasing with
      connectionEstablished := false
      lockReleasingState := l.lockReleasingState + 1 }

/-- The call when `_ClearCall` has ended on-hook. -/
def cleared (l : CallLine) : CallLine := { l.move .cstCleared with lockReleasingState := 0 }

theorem inCallTable_releasing {h : Bool} {c : CallState} (hc : c ≠ .cstCleared) (hr : c ≠ .cstReleasing) :
    inCallTable h c .cstReleasing = true := by
  cases h <;> cases c <;> first | rfl | contradiction

theorem Sound.released (h : Sound l) (hc : l.callState ≠ .cstCleared) (token : String) :
    Sound { l with callToken := token }.released := by
  unfold CallLine.released
  dsimp only
  split
  next hr =>
    refine ⟨fun hd => ?_, h.dialing, h.connected, h.handled, h.moves⟩
    exact absurd (hd.symm.trans hr) nofun
  next hr =>
    exact ⟨nofun, h.dialing, nofun, fun _ => .inr (.inr ⟨rfl, rfl⟩), move_moves h.moves rfl rfl (inCallTable_releasing hc hr)⟩

@[simp] theorem released_off_hook : l.released.off_hook = l.off_hook := by
  unfold CallLine.released
  split <;> rfl

@[simp] theorem released_lock : l.released.lockReleasingState = l.lockReleasingState + 1 := by
  unfold CallLine.released
  split <;> rfl

theorem released_noToken : { l with callToken := "" }.released = { l.released with callToken := "" } := by
  unfold CallLine.released
  dsimp only
  split <;> rfl

@[simp] theorem released_callToken : l.released.callToken = l.callToken := by
  unfold CallLine.released
  split <;> rfl

@[simp] theorem released_callState : l.released.callState = .cstReleasing := by
  unfold CallLine.released
  split
  next h => exact h
  next => rfl

theorem Hung.released (h : Hung R l) (hc : l.callState ≠ .cstCleared) :
    Clearing { l with callToken := "" }.released :=
  ⟨h.toSound.released hc "", by simp [h.unlocked], by simp [h.onHook], by simp, by simp⟩

theorem Clearing.cleared_rest (h : Clearing l) : Rest l.cleared := by
  have hn : l.connectionEstablished ≠ true := by
    intro hc
    rcases h.connected hc with hs | hs <;> exact absurd (h.releasing.symm.trans hs) nofun
  refine ⟨⟨nofun, h.dialing, fun hc => absurd hc hn, ?_, ?_⟩, rfl, fun _ => .inl rfl⟩
  · intro (hs : l.state = .stConnectHandle)
    have hd := h.dialing (by rw [hs]; rfl)
    exact absurd (h.onHook.symm.trans hd) nofun
  · exact move_moves h.moves h.onHook h.releasing rfl

theorem Clearing.cleared (h : Clearing l) : Calm R l.cleared := by
  refine ⟨h.cleared_rest, ?_⟩
  rw [show l.cleared.callToken = "" from h.token]
  exact R.cleared

end CallLine

namespace ModemEngineBody

open CallLine

def line (b : ModemEngineBody) : CallLine :=
  { state := b.state
    off_hook := b.off_hook
    callState := b.callState
    callSubState := b.callSubState
    connectionEstablished := b.connectionEstablished
    callToken := b.callToken
    lockReleasingState := b.lockReleasingState
    moves := b.moves }

variable {R : TokenRule} {a : Answers} {b : ModemEngineBody}

/-- The invariant of the modem, by where its thread is. -/
def Holds (R : TokenRule) (b : ModemEngineBody) : BodyPc → Prop
  | .detaching _ _ => Hung R b.line
  | .clearing _ => Clearing b.line
  | .answering after => Calm R b.line ∧ ∀ resp, after ≠ .switchState resp
  | .dialing _ => Calling R b.line
  | _ => Calm R b.line

theorem hangUp_line : b.hangUp.line = b.line.hungUp := rfl

theorem attachEngine_quiet (mce : ModemClassEngine) : Quiet b.line (b.attachEngine a mce).line := by
  unfold attachEngine
  split
  next => exact .refl _
  next =>
    cases mce with
    | mceT38 =>
      dsimp only [setActiveEngine]
      split <;> split <;> first | exact .refl _ | exact .of_state rfl
    | mceAudio =>
      dsimp only [setActiveEngine]
      split <;> split <;> exact .refl _

theorem needAudio_quiet : Quiet b.line (b.needAudio a).line := by
  unfold needAudio
  split
  next => exact .refl _
  next => exact attachEngine_quiet .mceAudio

theorem detached_line (mce : ModemClassEngine) : (b.detached mce).line = b.line := by
  cases mce <;> (unfold detached setActiveEngine; dsimp only; split <;> rfl)

theorem beginClear_quiet : Quiet b.line.released (b.beginClear a).line := by
  unfold beginClear released
  dsimp only
  by_cases hr : b.callState = .cstReleasing
  · rw [if_neg (not_not.mpr hr), if_pos (show b.line.callState = _ from hr)]
    exact .refl _
  · rw [if_pos hr, if_neg (show b.line.callState ≠ _ from hr)]
    split
    next =>
      refine Quiet.trans ?_ needAudio_quiet
      exact .refl _
    next => exact .refl _

theorem endClear_line (hl : b.lockReleasingState = 1) (ho : b.off_hook = false) : b.endClear.line = b.line.cleared := by
  unfold endClear
  dsimp only
  rw [if_pos ⟨by omega, ho⟩]
  simp [line, setCallState, CallLine.cleared, CallLine.move, hl]

theorem endClear_line_off_hook (hl : b.lockReleasingState = 1) (ho : b.off_hook = true) :
    b.endClear.line = { b.line with lockReleasingState := 0 } := by
  unfold endClear
  dsimp only
  rw [if_neg (by simp [ho])]
  simp [line, hl]

theorem endClear_calm (h : Clearing b.line) : Calm R b.endClear.line := by
  rw [endClear_line h.locked h.onHook]
  exact h.cleared

theorem endClear_off_hook : b.endClear.off_hook = b.off_hook := by
  unfold endClear
  dsimp only
  split <;> rfl

end ModemEngineBody

end T38Modem
