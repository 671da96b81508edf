import T38Modem.CallSteps

namespace T38Modem

namespace ModemEngineBody

open CallLine

variable {R R' : TokenRule} {a : Answers} {b b' : ModemEngineBody}

/-- The outcome of a request where the modem's thread is not in the callback of `_ClearCall`. -/
structure Served (b b' : ModemEngineBody) : Prop where
  sound : Sound b'.line
  unlocked : b'.lockReleasingState = 0
  off_hook : b'.off_hook = b.off_hook
  settled : b.off_hook = false → b'.callState = b.callState ∨ b'.callState = .cstCleared ∨ b'.callState = .cstCalled

theorem Served.same (h : Sound b.line) (hl : b.lockReleasingState = 0) : Served b b := ⟨h, hl, rfl, fun _ => .inl rfl⟩

/-- `_ClearCall` when the endpoint is not called. -/
theorem clear_served (h : Sound b.line) (hl : b.lockReleasingState = 0) (hc : b.callState ≠ .cstCleared) :
    Served b ({ b with callToken := "" }.beginClear a).endClear := by
  generalize hb : { b with callToken := "" }.beginClear a = b'
  have hq : Quiet { b.line with callToken := "" }.released b'.line := by
    rw [← hb]
    exact beginClear_quiet (b := { b with callToken := "" })
  have hs : Sound b'.line := (h.released hc "").quiet hq
  have hlock : b'.lockReleasingState = 1 := by
    have := congrArg CallLine.lockReleasingState hq.same
    simpa [line, hl] using this
  have hoff : b'.off_hook = b.off_hook := by
    have := congrArg CallLine.off_hook hq.same
    simpa [line] using this
  have hrel : b'.callState = .cstReleasing := by
    have := congrArg CallLine.callState hq.same
    simpa [line] using this
  by_cases ho : b.off_hook = true
  · have hline := endClear_line_off_hook hlock (hoff.trans ho)
    refine ⟨hline ▸ ⟨hs.called, hs.dialing, hs.connected, hs.handled, hs.moves⟩, congrArg CallLine.lockReleasingState hline,
      (congrArg CallLine.off_hook hline).trans hoff, ?_⟩
    exact fun hn => absurd (ho.symm.trans hn).symm Bool.false_ne_true
  · have hon : b'.off_hook = false := hoff.trans (by simpa using ho)
    have hline := endClear_line hlock hon
    have htok : b'.callToken = "" := by
      have := congrArg CallLine.callToken hq.same
      simpa [line] using this
    have hrest : Rest b'.line.cleared := Clearing.cleared_rest ⟨hs, hlock, hon, hrel, htok⟩
    refine ⟨hline ▸ hrest.toSound, congrArg CallLine.lockReleasingState hline,
      (congrArg CallLine.off_hook hline).trans hoff, fun _ => .inr (.inl ?_)⟩
    exact congrArg CallLine.callState hline

theorem Served.quiet {b'' : ModemEngineBody} (h : Served b b') (hq : Quiet b'.line b''.line) : Served b b'' := by
  have hl := congrArg CallLine.lockReleasingState hq.same
  have ho := congrArg CallLine.off_hook hq.same
  have hc := congrArg CallLine.callState hq.same
  refine ⟨h.sound.quiet hq, hl.trans h.unlocked, ho.trans h.off_hook, fun hn => ?_⟩
  rw [show b''.callState = b'.callState from hc]
  exact h.settled hn

/-- A set-up of the call comes to its end. -/
theorem Served.connect (h : Served b b') (hs : b'.SetUp) (ho : b'.off_hook = true) :
    Served b (b'.setState .stConnectHandle) :=
  ⟨⟨h.sound.called, fun _ => ho, h.sound.connected, fun _ => hs.imp_right .inl, h.sound.moves⟩, h.unlocked, h.off_hook,
    h.settled⟩

theorem request_served {r : Request} (hr : r.token ≠ "") (h : Sound b.line) (hl : b.lockReleasingState = 0) :
    Served b (b.request a r).1 := by
  cases r with
  | call token =>
    dsimp only [request]
    split
    next => exact .same h hl
    next hn =>
      obtain ⟨hc, ho⟩ := not_or.mp hn
      have hc : b.callState = .cstCleared := not_not.mp hc
      have ho : b.off_hook = false := by simpa using ho
      refine ⟨⟨fun _ => ⟨ho, hr⟩, h.dialing, fun hce => ?_, fun hs => ?_, ?_⟩, hl, rfl, fun _ => .inr (.inr rfl)⟩
      · rcases h.connected hce with hd | hd <;> exact absurd (hc.symm.trans hd) nofun
      · have hd := h.dialing (show b.state.dials = true by rw [show b.state = _ from hs]; rfl)
        exact absurd (ho.symm.trans hd) nofun
      · exact move_moves (l := b.line) h.moves ho hc rfl
  | alerting token =>
    dsimp only [request]
    split
    next => exact .same h hl
    next hn =>
      obtain ⟨hc, ho⟩ := not_or.mp hn
      have hc : b.callState = .cstDialing := not_not.mp hc
      have ho : b.off_hook = true := by simpa using ho
      split
      next =>
        have hs : Served b (b.setCallState .cstAlerted) := by
          refine ⟨⟨nofun, h.dialing, fun _ => .inl rfl, fun _ => .inl rfl, ?_⟩, hl, rfl, ?_⟩
          · exact move_moves (l := b.line) h.moves ho hc rfl
          · exact fun hn => absurd (ho.symm.trans hn).symm Bool.false_ne_true
        split
        next =>
          refine (hs.connect (.inl rfl) ho).quiet ?_
          exact needAudio_quiet (b := { (b.setCallState .cstAlerted).setState .stConnectHandle with timerRing := .start true })
        next => exact hs
      next => exact .same h hl
  | established token =>
    dsimp only [request]
    split
    next => exact .same h hl
    next hn =>
      obtain ⟨hc, ho⟩ := not_or.mp hn
      have ho : b.off_hook = true := by simpa using ho
      have ht : inCallTable true b.callState .cstEstablished = true := by
        revert hc
        cases b.callState <;> decide
      split
      next =>
        have hs : Served b ({ b with timerRing := .stopped }.setCallState .cstEstablished) := by
          refine ⟨⟨nofun, h.dialing, fun _ => .inr rfl, fun _ => .inr (.inl rfl), ?_⟩, hl, rfl, ?_⟩
          · exact move_moves (l := b.line) h.moves ho rfl ht
          · exact fun hn => absurd (ho.symm.trans hn).symm Bool.false_ne_true
        split
        next => exact hs.connect (.inr rfl) ho
        next => exact hs
      next => exact .same h hl
  | clearcall token trynextcommand =>
    dsimp only [request]
    split
    next => exact .same h hl
    next hn =>
      obtain ⟨hc, -⟩ := not_or.mp hn
      split
      next =>
        split
        next hd =>
          obtain ⟨hc, hs, -⟩ := hd
          have ho : b.off_hook = true := h.dialing (show b.state.dials = true by rw [show b.state = _ from hs]; rfl)
          refine ⟨⟨nofun, fun _ => ho, fun hce => ?_, nofun, ?_⟩, hl, rfl, fun _ => .inr (.inl rfl)⟩
          · rcases h.connected hce with hd | hd <;> exact absurd (hc.symm.trans hd) nofun
          · exact move_moves (l := { b.line with callToken := "" }) h.moves ho hc rfl
        next => exact clear_served h hl hc
      next => exact .same h hl

/-- Nothing is asked of a call that is being cleared. -/
theorem request_releasing {r : Request} (hc : b.callState = .cstReleasing) : (b.request a r).1 = b := by
  cases r <;> simp [request, hc]

theorem request_holds {pc : BodyPc} {r : Request} (hr : r.token ≠ "") (h : b.Holds R pc)
    (ht : R'.at pc (b.request a r).1.callState (b.request a r).1.callToken) : (b.request a r).1.Holds R' pc := by
  have hrest : Rest b.line → Rest (b.request a r).1.line := by
    intro h
    have hs := request_served (a := a) hr h.toSound h.unlocked
    refine ⟨hs.sound, hs.unlocked, fun ho => ?_⟩
    have ho : b.off_hook = false := hs.off_hook.symm.trans ho
    rcases hs.settled ho with he | hc
    · exact (h.settled ho).imp he.trans he.trans
    · exact hc
  cases pc with
  | detaching mce after =>
    have hs := request_served (a := a) hr h.toSound h.unlocked
    exact ⟨hs.sound, hs.unlocked, hs.off_hook.trans h.onHook, ht⟩
  | clearing after =>
    have hs : (b.request a r).1 = b := request_releasing h.releasing
    rw [hs]
    exact h
  | answering after => exact ⟨⟨hrest h.1.toRest, ht⟩, h.2⟩
  | dialing resp =>
    have hs := request_served (a := a) hr h.toSound h.unlocked
    exact ⟨hrest h.toRest, hs.off_hook.trans h.offHook, ht⟩
  | idle | handling | sending | requestingMode | delaying => exact ⟨hrest (Calm.toRest h), ht⟩

theorem Holds.quiet {pc : BodyPc} (h : b.Holds R pc) (hq : Quiet b.line b'.line) : b'.Holds R pc := by
  cases pc with
  | detaching => exact CallLine.Hung.quiet h hq
  | clearing => exact CallLine.Clearing.quiet h hq
  | answering => exact ⟨h.1.quiet hq, h.2⟩
  | dialing => exact CallLine.Calling.quiet h hq
  | idle | handling | sending | requestingMode | delaying => exact CallLine.Calm.quiet h hq

theorem onOutBufEmpty_quiet : Quiet b.line b.onOutBufEmpty.line := by
  unfold onOutBufEmpty
  split
  next => exact .of_state rfl
  next => exact .refl _

theorem onSeq_quiet : Quiet b.line b.onSeq.line := by
  unfold onSeq
  split
  next => exact .of_state rfl
  next => exact .of_state rfl
  next => split <;> exact .refl _
  next => exact .refl _

end ModemEngineBody

namespace Modem

open ModemEngineBody

variable {R : TokenRule} {m m' : Modem} {act : ModemAct} {as : List ModemAct} {es : List ModemSeen}

/-- The calls of the endpoint have names. -/
def Named (_ : Modem) : ModemAct → Prop
  | .request _ r => r.token ≠ ""
  | _ => True

theorem ofNext_holds {n : ModemNext} (h : n.Holds R) (hs : ofNext n = (m', es)) : m'.body.Holds R m'.pc := by
  cases hs
  exact h

/-- What is left to show of a token rule: that the endpoint keeps it. -/
def Keeps (R : TokenRule) (m : Modem) : ModemAct → Prop
  | .resume _ (some token) => ∀ resp, m.pc = .dialing resp → R.calm m.body.callState token
  | .request a r => R.at m.pc (m.body.request a r).1.callState (m.body.request a r).1.callToken
  | _ => True

theorem step_holds (hs : machine.step m act = some (m', es)) (h : m.body.Holds R m.pc) (hok : Named m act)
    (hk : Keeps R m act) : m'.body.Holds R m'.pc := by
  cases act with
  | command a c =>
    simp only [machine, step, Option.ite_none_right_eq_some] at hs
    obtain ⟨⟨hpc, -⟩, hs⟩ := hs
    rw [hpc] at h
    exact ofNext_holds (command_holds h) (Option.some.inj hs)
  | handleData bs =>
    simp only [machine, step, Option.ite_none_right_eq_some] at hs
    obtain ⟨hpc, hs⟩ := hs
    rw [hpc] at h
    cases hs
    exact h
  | checkState a =>
    simp only [machine, step, Option.ite_none_right_eq_some] at hs
    obtain ⟨hpc, hs⟩ := hs
    rw [hpc] at h
    exact ofNext_holds (checkState_holds h) (Option.some.inj hs)
  | resume a reply =>
    obtain ⟨n, hn, hs⟩ := Option.map_eq_some_iff.mp hs
    refine ofNext_holds (resume_holds h (fun resp token hpc hr => ?_) hn) hs
    subst hr
    exact hk resp hpc
  | request a r =>
    cases hs
    exact request_holds hok h hk
  | newPtrEngine a mce =>
    cases hs
    exact h.quiet (attachEngine_quiet mce)
  | onOutBufEmpty =>
    cases hs
    exact h.quiet onOutBufEmpty_quiet
  | onSeq =>
    cases hs
    exact h.quiet onSeq_quiet
  | onTimeout timer => cases timer <;> (cases hs; exact h.quiet (.refl _))

theorem start_holds : ({} : Modem).body.Holds R ({} : Modem).pc :=
  ⟨⟨⟨nofun, nofun, nofun, nofun, rfl⟩, rfl, fun _ => .inl rfl⟩, R.cleared⟩

theorem any_at {c : CallState} {token : String} (pc : BodyPc) : TokenRule.any.at pc c token := by
  cases pc <;> trivial

theorem run_holds (h : machine.Run Named {} as es m) : m.body.Holds .any m.pc := by
  refine h.state_invariant (I := fun m => m.body.Holds .any m.pc) start_holds ?_
  intro m act m' es h hok hs
  refine step_holds hs h hok ?_
  cases act with
  | resume a reply =>
    cases reply with
    | none => trivial
    | some token => exact fun _ _ => trivial
  | request a r => exact any_at m.pc
  | _ => trivial

theorem Holds.sound {b : ModemEngineBody} {pc : BodyPc} (h : b.Holds R pc) : b.line.Sound := by
  cases pc with
  | idle | handling | sending | requestingMode | delaying => exact (CallLine.Calm.toRest h).toSound
  | answering => exact h.1.toSound
  | dialing => exact (CallLine.Calling.toRest h).toSound
  | detaching => exact CallLine.Hung.toSound h
  | clearing => exact CallLine.Clearing.toSound h

/-- The call has gone along the table, and a modem that is at rest is not left on-hook with a call, but
for one that is coming in. -/
structure InOrder (m : Modem) : Prop where
  moves : AlongTable .cstCleared m.body.moves m.body.callState
  offHook : m.pc = .idle →
    m.body.callState = .cstDialing ∨ m.body.callState = .cstAlerted ∨ m.body.callState = .cstAnswering ∨
      m.body.callState = .cstEstablished ∨ m.body.callState = .cstReleasing → m.body.off_hook = true
  onHook : m.pc = .idle → m.body.callState = .cstCalled → m.body.off_hook = false
  unlocked : m.pc = .idle → m.body.lockReleasingState = 0

theorem run_inOrder (h : machine.Run Named {} as es m) : m.InOrder := by
  have hh := run_holds h
  have hcalm : m.pc = .idle → m.body.line.Calm .any := by
    intro hpc
    rw [hpc] at hh
    exact hh
  refine ⟨(Holds.sound hh).moves, fun hpc hs => ?_, fun hpc hs => ((hcalm hpc).called hs).1, fun hpc => (hcalm hpc).unlocked⟩
  by_contra ho
  have hoff : m.body.off_hook = false := by simpa using ho
  rcases (hcalm hpc).settled hoff with hd | hd
  all_goals
    have hd : m.body.callState = _ := hd
    rw [hd] at hs
    simp at hs

instance (m : Modem) (act : ModemAct) : Decidable (Named m act) :=
  match act with
  | .request _ r => inferInstanceAs (Decidable (r.token ≠ ""))
  | .command .. | .handleData _ | .checkState _ | .resume .. | .newPtrEngine .. | .onOutBufEmpty | .onSeq
  | .onTimeout _ => .isTrue trivial

/-- A call that is answered and cleared before it is connected. -/
def ringing : List ModemAct :=
  [.request {} (.call "T"), .command {} (.answer .cdIncoming), .request {} (.established "T"),
    .resume {} (some "T"), .checkState {}, .request {} (.clearcall "T" false), .checkState {}]

theorem ringing_inOrder : ∃ es m, machine.Run Named {} ringing es m ∧ m.InOrder := by
  obtain ⟨m, hr⟩ : ∃ m, machine.Run Named {} ringing
      [.response (.call "T") true, .out (.callback (.answer "T")), .response (.established "T") true,
        .response (.clearcall "T" false) true, .out (.result .error)] m := Machine.exec_run (by decide +kernel)
  exact ⟨_, m, hr, run_inOrder hr⟩

end Modem

end T38Modem
