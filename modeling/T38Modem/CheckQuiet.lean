import T38Modem.CheckState

namespace T38Modem

/-- The states in which `CheckState` does nothing about an expired `timeout` and a released call. -/
def ModemState.untimed : ModemState → Bool
  | .stCommand | .stSend | .stSendBufEmptyHandle | .stSendAckWait | .stSendAckHandle | .stRecv | .stRecvBegHandle => true
  | _ => false

namespace ModemEngineBody

/-- The modem with other timers, and with or without the release of the call noticed. -/
def retimed (b : ModemEngineBody) (timeout timerRing timerBusy : Timeout) (callSubState : Nat) : ModemEngineBody :=
  { b with timeout, timerRing, timerBusy, callSubState }

variable {b : ModemEngineBody}

theorem userInput_fax {a : Answers} (h : b.modemClass = .mcFax) : b.userInput a = [] := by
  simp [userInput, h]

theorem inSetUp_of_untimed {s : ModemState} (h : s.untimed = true) : s.inSetUp = false := by
  cases s <;> first | rfl | cases h

theorem checkReleasing_quiet (a : Answers) (resp : Option ResultCode) (h : b.modemClass = .mcFax)
    (hs : b.state.untimed = true) :
    ∃ n, b.checkReleasing a resp = (b.retimed b.timeout b.timerRing b.timerBusy n).switchState a resp := by
  unfold checkReleasing
  rw [userInput_fax h]
  split
  next =>
    refine ⟨1, ?_⟩
    dsimp only
    rw [if_neg (by simp [inSetUp_of_untimed hs])]
    rfl
  next => exact ⟨b.callSubState, rfl⟩

theorem checkTimeout_quiet (a : Answers) (resp : Option ResultCode) (h : b.modemClass = .mcFax)
    (hs : b.state.untimed = true) :
    ∃ t n, b.checkTimeout a resp = (b.retimed t b.timerRing b.timerBusy n).switchState a resp := by
  obtain ⟨n, he⟩ := checkReleasing_quiet (b := { b with timeout := (b.timeout.get false).2 }) a resp h hs
  refine ⟨(b.timeout.get false).2, n, Eq.trans ?_ he⟩
  unfold checkTimeout
  dsimp only
  split
  next => cases hst : b.state <;> first | rfl | (rw [hst] at hs; cases hs)
  next => rfl

/-- What `CheckState` has to say of a ring. -/
def ringing (b : ModemEngineBody) : Option ResultCode :=
  if (b.timerRing.get true).1 ∧ b.off_hook = false ∧ b.callState = .cstCalled then some .ring else none

theorem checkRing_quiet (a : Answers) (h : b.modemClass = .mcFax) (hs : b.state.untimed = true)
    (hq : ¬(a.autoAnswer = true ∧ b.off_hook = false ∧ b.callState = .cstCalled)) :
    ∃ t t' n, b.checkRing a = (b.retimed t t' b.timerBusy n).switchState a b.ringing := by
  obtain ⟨t, n, he⟩ :=
    checkTimeout_quiet (b := { b with timerRing := (b.timerRing.get true).2 }) a b.ringing h hs
  refine ⟨t, (b.timerRing.get true).2, n, Eq.trans ?_ he⟩
  unfold checkRing ringing
  dsimp only
  by_cases hr : (b.timerRing.get true).1 = true
  · rw [if_pos hr]
    have haudio : ¬(b.off_hook = true ∧ b.pPlayTone = false ∧ b.modemClass = .mcAudio) := by simp [h]
    rw [if_neg haudio]
    by_cases hcall : b.off_hook = false ∧ b.callState = .cstCalled
    · have hauto : ¬a.autoAnswer = true := fun ha => hq ⟨ha, hcall⟩
      rw [if_pos hcall, if_neg hauto, if_pos ⟨hr, hcall⟩]
    · rw [if_neg hcall, if_neg fun hn => hcall hn.2]
  · rw [if_neg hr, if_neg fun hn => hr hn.1]

/-- While a fax is sent or received, and no call is answered by itself, `CheckState` comes to its last
`switch` with nothing done but a ring told of. -/
theorem checkState_quiet (a : Answers) (h : b.modemClass = .mcFax) (hs : b.state.untimed = true)
    (hq : ¬(a.autoAnswer = true ∧ b.off_hook = false ∧ b.callState = .cstCalled)) :
    ∃ t t' t'' n resp, b.checkState a = (b.retimed t t' t'' n).switchState a resp ∧
      (resp = none ∨ resp = some .ring ∧ b.off_hook = false ∧ b.callState = .cstCalled) := by
  unfold checkState
  split
  next =>
    obtain ⟨t, t', n, he⟩ := checkRing_quiet (b := { b with timerBusy := (b.timerBusy.get true).2 }) a h hs hq
    refine ⟨t, t', (b.timerBusy.get true).2, n, b.ringing, ?_, ?_⟩
    · dsimp only
      rw [he, if_neg (by simp [h])]
      rfl
    · unfold ringing
      split
      next hr => exact .inr ⟨rfl, hr.2⟩
      next => exact .inl rfl
  next =>
    obtain ⟨t, n, he⟩ := checkTimeout_quiet a none h hs
    exact ⟨t, b.timerRing, b.timerBusy, n, none, he, .inl rfl⟩

end ModemEngineBody

end T38Modem
