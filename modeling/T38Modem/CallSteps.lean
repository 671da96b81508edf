import T38Modem.CallLine

namespace T38Modem

namespace ModemNext

open ModemEngineBody

def Holds (R : TokenRule) (n : ModemNext) : Prop := ModemEngineBody.Holds R n.1 n.2.1

@[simp] theorem after_holds (R : TokenRule) (out : List ModemOut) (n : ModemNext) : (n.after out).Holds R = n.Holds R := rfl

end ModemNext

namespace ModemEngineBody

open CallLine

variable {R : TokenRule} {a : Answers} {b : ModemEngineBody} {k : ModemEngineBody → ModemNext} {after : AfterHook}
  {resp : Option ResultCode}

/-- What follows `OnHook` is right. -/
def Follows (R : TokenRule) (k : ModemEngineBody → ModemNext) : Prop :=
  ∀ b : ModemEngineBody, Calm R b.line → b.off_hook = false → (k b).Holds R

theorem clearCall_holds (hk : Follows R k) (h : Hung R b.line) : (b.clearCall a after k).Holds R := by
  unfold clearCall
  split
  next hc =>
    have ht := h.token
    rw [show b.line.callState = .cstCleared from hc] at ht
    refine hk b ⟨⟨h.toSound, h.unlocked, fun _ => .inl hc⟩, ?_⟩ h.onHook
    rw [show b.line.callState = .cstCleared from hc]
    exact R.stays ht
  next hc =>
    dsimp only
    have hr : Clearing { (b.beginClear a).line with callToken := "" } := by
      have hc := h.released hc
      rw [released_noToken] at hc
      exact hc.quiet beginClear_quiet.noToken
    split
    next => exact hr
    next hn =>
      have hn : (b.beginClear a).line.callToken = "" := not_not.mp hn
      have hr : Clearing (b.beginClear a).line := by
        rw [← hn] at hr
        exact hr
      exact hk _ (endClear_calm hr) (endClear_off_hook.trans hr.onHook)

theorem detachEngine_holds {mce : ModemClassEngine} {waited : Bool}
    (hk : ∀ b : ModemEngineBody, Hung R b.line → (k b).Holds R) (h : Hung R b.line) :
    (b.detachEngine a mce waited after k).Holds R := by
  unfold detachEngine
  split
  next => exact hk b h
  next =>
    split
    next => exact h
    next =>
      split
      next =>
        refine hk _ ?_
        rw [detached_line]
        exact h
      next => exact h

theorem onHookAudio_holds {waited : Bool} (hk : Follows R k) (h : Hung R b.line) :
    (b.onHookAudio a waited after k).Holds R :=
  detachEngine_holds (fun _ h => clearCall_holds hk h) h

theorem onHookT38_holds {waited : Bool} (hk : Follows R k) (h : Hung R b.line) :
    (b.onHookT38 a waited after k).Holds R :=
  detachEngine_holds (fun _ h => onHookAudio_holds hk h) h

theorem onHook_holds (hk : Follows R k) (h : Hung R b.hangUp.line) (hn : b.off_hook = false → Hung R b.line) :
    (b.onHook a after k).Holds R := by
  unfold onHook
  split
  next => exact onHookT38_holds hk h
  next ho => exact clearCall_holds hk (hn (by simpa using ho))

theorem onHook_calm (hk : Follows R k) (h : Calm R b.line) : (b.onHook a after k).Holds R :=
  onHook_holds hk h.hungUp fun ho => ⟨h.toSound, h.unlocked, ho, R.hang h.token⟩

theorem answer_holds (hk : ∀ b : ModemEngineBody, Calm R b.line → (k b).Holds R) (ha : ∀ resp, after ≠ .switchState resp)
    (h : Calm R b.line) : (b.answer a after k).Holds R := by
  unfold answer
  dsimp only
  split
  next hc =>
    split
    next hs =>
      have hs' : b.callState = .cstCalled := hs
      have ht := h.token
      rw [show b.line.callState = .cstCalled from hs'] at ht
      refine ⟨⟨⟨⟨nofun, fun _ => rfl, ?_, nofun, ?_⟩, h.unlocked, nofun⟩, R.answer ht⟩, ha⟩
      · exact fun hd => absurd (hc.symm.trans hd) nofun
      · exact move_moves (l := { b.line with off_hook := true }) h.moves rfl hs' rfl
    next hs =>
      exact onHook_holds (fun b h _ => hk b h) h.hungUp nofun
  next hc =>
    have hc' : b.connectionEstablished = true := by simpa [offHook] using hc
    refine hk _ ⟨⟨⟨?_, fun _ => rfl, h.connected, fun _ => ?_, h.moves⟩, h.unlocked, nofun⟩, h.token⟩
    · exact fun hd => absurd hd (h.not_called hc')
    · exact (h.connected hc').imp_right .inl

theorem answered_holds {confirm : Bool} (hk : ∀ b : ModemEngineBody, Calm R b.line → (k b).Holds R) (h : Calm R b.line) :
    (b.answered a confirm after k).Holds R := by
  unfold answered
  split
  next => exact hk b h
  next => exact onHook_calm (fun b h _ => hk b h) h

theorem done_holds (h : Calm R b.line) : (done resp b).Holds R := h

theorem dial_holds {d : DialString} (h : Calm R b.line) : (b.dial a d).Holds R := by
  have hdone : Follows R (done none) := fun b h _ => h
  -- a call that is coming in is given up before the modem goes off-hook for good
  have hcalm : b.callState ≠ .cstCalled → Calm R b.offHook.line := fun hn =>
    ⟨⟨⟨fun hd => absurd hd hn, fun _ => rfl, h.connected, h.handled, h.moves⟩, h.unlocked, nofun⟩, h.token⟩
  unfold dial
  dsimp only
  generalize hp : (if b.offHook.callToken ≠ "" then b.offHook else { b.offHook with pPlayTone := false }) = b'
  have hl : b'.line = b.offHook.line := by
    rw [← hp]
    split <;> rfl
  have ht : b'.callToken = b.callToken := congrArg CallLine.callToken hl
  have hc : b'.connectionEstablished = b.connectionEstablished := congrArg CallLine.connectionEstablished hl
  have ho : b'.off_hook = true := congrArg CallLine.off_hook hl
  have hgive : (b'.onHook a (.done none) (done none)).Holds R := by
    refine onHook_holds hdone ?_ fun hn => absurd (ho.symm.trans hn) nofun
    rw [hangUp_line, hl]
    exact h.hungUp
  split
  next =>
    split
    next => exact hgive
    next hn =>
      refine done_holds (hl ▸ hcalm fun hd => hn ?_)
      have hoff : b.off_hook = false := (h.called hd).1
      rw [hoff]
      rfl
  next =>
    split
    next =>
      split
      next hce =>
        have hcd := hcalm (h.not_called (hc.symm.trans hce))
        rw [← hl] at hcd
        refine done_holds
          ⟨⟨⟨hcd.called, fun _ => ho, hcd.connected, fun _ => ?_, hcd.moves⟩, hcd.unlocked, hcd.settled⟩, hcd.token⟩
        exact (hcd.connected hce).imp_right .inl
      next => exact hgive
    next htok =>
      have hcd := hcalm fun hd => htok (ht ▸ (h.called hd).2)
      rw [← hl] at hcd
      exact done_holds
        ⟨⟨⟨hcd.called, fun _ => ho, hcd.connected, nofun, hcd.moves⟩, hcd.unlocked, hcd.settled⟩, hcd.token⟩

theorem sendSilence_quiet : Quiet b.line (b.sendSilence a).2.line := by
  unfold sendSilence
  dsimp only
  split
  next =>
    split
    next => split <;> exact .of_state rfl
    next => exact .of_state rfl
  next => exact .of_state rfl

theorem setBitRevDleData_line : b.setBitRevDleData.line = b.line := by
  unfold setBitRevDleData
  split <;> rfl

theorem sendStart_quiet (dt : DataType) : Quiet b.line (b.sendStart a dt).2.line := by
  unfold sendStart
  dsimp only
  generalize hp : { b with dataType := dt }.resetDleData.setBitRevDleData = b'
  have hl : b'.line = b.line := by rw [← hp, setBitRevDleData_line]; rfl
  rw [← hl]
  split <;> exact .of_state rfl

theorem recvStart_quiet (dt : DataType) : Quiet b.line (b.recvStart a dt).2.line := by
  unfold recvStart
  dsimp only
  generalize hp : { b with dataType := dt }.setBitRevDleData = b'
  have hl : b'.line = b.line := by rw [← hp, setBitRevDleData_line]; rfl
  rw [← hl]
  split
  next => exact .of_state rfl
  next => split <;> exact .of_state rfl

theorem recvSilence_quiet : Quiet b.line (b.recvSilence a).2.line := by
  unfold recvSilence
  dsimp only
  split
  next =>
    split
    next =>
      refine Quiet.trans ?_ sendSilence_quiet
      exact .of_state rfl
    next => exact .of_state rfl
  next => exact .of_state rfl

theorem sendTones_quiet : Quiet b.line (b.sendTones a).2.line := by
  unfold sendTones
  dsimp only
  split
  next => split <;> exact .of_state rfl
  next => exact .of_state rfl

theorem stopSending_quiet : Quiet b.line (b.stopSending a).1.line := by
  unfold stopSending
  dsimp only
  split <;> exact .of_state rfl

theorem command_holds {c : Command} (h : Calm R b.line) : (b.command a c).Holds R := by
  cases c with
  | answer direction => exact answer_holds (fun _ h => h) nofun h
  | dial d => exact dial_holds h
  | hook class1 =>
    unfold command
    dsimp only
    generalize hp : (if class1 then { b with modemClass := .mcFax }.onChangeModemClass else b) = b'
    have hl : b'.line = b.line := by
      rw [← hp]
      split <;> rfl
    split
    next => exact onHook_calm (fun _ h _ => h) (hl ▸ h)
    next => exact done_holds (hl ▸ h)
  | reset cl =>
    unfold command
    dsimp only
    split
    next => exact onHook_calm (fun _ h _ => h) h
    next => exact h
  | fclass cl => exact h
  | sendSilence => exact h.quiet sendSilence_quiet
  | recvSilence => exact h.quiet recvSilence_quiet
  | sendStart dt => exact h.quiet (sendStart_quiet dt)
  | recvStart dt => exact h.quiet (recvStart_quiet dt)
  | sendTones => exact h.quiet sendTones_quiet

theorem drainLoop_holds {n : Nat} (h : Calm R b.line) : (drainLoop n b resp).Holds R := by
  induction n generalizing b with
  | zero => exact h
  | succ n ih =>
    unfold drainLoop
    split
    next => exact h.quiet (.of_state rfl)
    next => exact h
    next => exact ih h

theorem drain_holds {ended : Bool} (h : Calm R b.line) : (b.drain ended resp).Holds R := drainLoop_holds h

theorem recvLoop_holds {rs : List (Option (List Byte))} (h : Calm R b.line) : (recvLoop a resp rs b).Holds R := by
  induction rs generalizing b with
  | nil =>
    unfold recvLoop
    split <;> exact drain_holds h
  | cons r rs ih =>
    unfold recvLoop
    split
    next => exact drain_holds h
    next =>
      match r with
      | none => exact drain_holds h
      | some [] => exact drain_holds h
      | some (c :: cs) =>
        dsimp only
        split
        next =>
          split
          next => exact ih h
          next =>
            split
            next =>
              split
              next => exact h
              next => exact ih h
            next => exact ih h
          next => exact ih h
        next => exact ih h

theorem delayed_holds {count : Nat} (h : Calm R b.line) : (b.delayed a count resp).Holds R := recvLoop_holds h

theorem recvBegin_holds (h : Calm R b.line) : (b.recvBegin a resp).Holds R := by
  unfold recvBegin
  split
  next => exact h.quiet sendSilence_quiet
  next =>
    split
    next => exact h.quiet (.of_state rfl)
    next =>
      split
      next => exact h.quiet (.of_state rfl)
      next =>
        split
        next =>
          dsimp only
          split <;> exact h.quiet (.of_state rfl)
        next => exact h.quiet (.of_state rfl)
      next => exact h.quiet (.of_state rfl)

/-- A call that is set up and not being cleared. -/
def SetUp (b : ModemEngineBody) : Prop := b.callState = .cstAlerted ∨ b.callState = .cstEstablished

theorem establish_holds (h : Calm R b.line) (hs : b.SetUp) : (b.establish resp).Holds R := by
  have hc : Calm R { b.line with connectionEstablished := true } :=
    ⟨⟨⟨h.called, h.dialing, fun _ => hs, h.handled, h.moves⟩, h.unlocked, h.settled⟩, h.token⟩
  unfold establish
  dsimp only
  split
  next => exact hc.quiet (.of_state rfl)
  next => split <;> exact hc.quiet (.of_state rfl)

theorem tonePlayed_holds (h : Calm R b.line) (hs : b.SetUp) : (b.tonePlayed resp).Holds R := by
  unfold tonePlayed
  split
  next => exact h
  next => exact establish_holds h hs

theorem playTone_holds (h : Calm R b.line) (hs : b.SetUp) : (b.playTone a resp).Holds R := by
  unfold playTone
  split
  next =>
    split
    next => exact h
    next =>
      split
      next => exact h
      next =>
        split
        next => exact h
        next => exact onHook_calm (fun _ h _ => h) (h.quiet (.of_state rfl))
  next => exact tonePlayed_holds h hs

theorem connectHandle_holds (h : Calm R b.line) (hs : b.SetUp) : (b.connectHandle a resp).Holds R := by
  unfold connectHandle
  split
  next =>
    split
    next => exact h
    next => exact playTone_holds h hs
  next => exact playTone_holds h hs
  next => exact tonePlayed_holds h hs
  next => exact establish_holds h hs
  next => exact h

theorem reqModeAck_holds (h : Calm R b.line) : (b.reqModeAck a resp).Holds R := by
  unfold reqModeAck
  split
  next =>
    dsimp only
    split
    next => split <;> exact h.quiet (.of_state rfl)
    next => exact h.quiet (.of_state rfl)
  next => exact h.quiet (recvStart_quiet .dtHdlc)
  next => exact h.quiet (.of_state rfl)

theorem sendAck_holds (h : Calm R b.line) : (b.sendAck a resp).Holds R := by
  unfold sendAck
  split
  next => exact h.quiet (sendStart_quiet .dtHdlc)
  next => exact h.quiet (.of_state rfl)
  next => split <;> exact h.quiet (.of_state rfl)
  next => split <;> exact h.quiet (.of_state rfl)
  next => exact h

/-- A set-up that has come to its end is not of a call that is being cleared. -/
def Fresh (b : ModemEngineBody) : Prop := b.state = .stConnectHandle → b.callState ≠ .cstReleasing

theorem fresh_of_onHook (h : Calm R b.line) (ho : b.off_hook = false) : b.Fresh := by
  intro hs
  have hd : b.off_hook = true := h.dialing (show b.state.dials = true by rw [hs]; rfl)
  exact absurd (ho.symm.trans hd) nofun

theorem switchState_holds (h : Calm R b.line) (hf : b.Fresh) : (b.switchState a resp).Holds R := by
  unfold switchState
  split
  next hs =>
    have ho : b.off_hook = true := h.dialing (show b.state.dials = true by rw [hs]; rfl)
    split
    next hc =>
      have hn : ¬b.connectionEstablished = true := by
        intro hce
        rcases h.connected hce with hd | hd <;> exact absurd (hc.symm.trans hd) nofun
      have ht := h.token
      rw [show b.line.callState = .cstCleared from hc] at ht
      refine ⟨⟨⟨nofun, fun _ => ho, fun hce => absurd hce hn, nofun, ?_⟩, h.unlocked, ?_⟩, ho, R.dial ht⟩
      · exact move_moves (l := b.line) h.moves ho hc rfl
      · exact fun hoff => absurd (hoff.symm.trans ho) nofun
    next => exact onHook_calm (fun _ h _ => h) h
  next => exact h.quiet stopSending_quiet
  next hs =>
    have hset : b.SetUp := by
      rcases h.handled hs with ha | he | ⟨hr, -⟩
      · exact .inl ha
      · exact .inr he
      · exact absurd hr (hf hs)
    exact connectHandle_holds h hset
  next => exact reqModeAck_holds h
  next => exact sendAck_holds h
  next => exact recvBegin_holds h
  next => exact recvLoop_holds h
  next => exact h

theorem checkReleasing_holds (h : Calm R b.line) : (b.checkReleasing a resp).Holds R := by
  unfold checkReleasing
  split
  next hr =>
    have ho : b.line.off_hook = true := hr.1
    dsimp only
    split
    next =>
      have hh := h.hungUp
      refine onHook_holds (fun b h ho => switchState_holds h (fresh_of_onHook h ho)) ?_ ?_
      · exact ⟨⟨hh.called, hh.dialing, hh.connected, nofun, hh.moves⟩, hh.unlocked, hh.onHook, hh.token⟩
      · exact fun hn => absurd (ho.symm.trans hn) nofun
    next hn =>
      have hne : b.state ≠ .stConnectHandle := fun hs => hn (by rw [hs]; rfl)
      refine switchState_holds ⟨⟨⟨h.called, h.dialing, h.connected, ?_, h.moves⟩, h.unlocked, h.settled⟩, h.token⟩ ?_
      · exact fun hs => absurd hs hne
      · exact fun hs => absurd hs hne
  next hr =>
    refine switchState_holds h fun hs hrel => hr ?_
    have ho : b.off_hook = true := h.dialing (show b.state.dials = true by rw [hs]; rfl)
    rcases h.handled hs with ha | he | ⟨-, hsub⟩
    · exact absurd (hrel.symm.trans ha) nofun
    · exact absurd (hrel.symm.trans he) nofun
    · exact ⟨ho, hrel, hsub⟩

theorem checkTimeout_holds (h : Calm R b.line) : (b.checkTimeout a resp).Holds R := by
  unfold checkTimeout
  dsimp only
  split
  next =>
    split
    next =>
      split
      next => exact checkReleasing_holds (h.quiet (.of_state rfl))
      next => exact onHook_calm (fun _ h _ => checkReleasing_holds h) (h.quiet (.of_state rfl))
    next =>
      split
      next => exact checkReleasing_holds (h.quiet (.of_state rfl))
      next => exact onHook_calm (fun _ h _ => checkReleasing_holds h) (h.quiet (.of_state rfl))
    next =>
      split
      next => exact checkReleasing_holds h
      next => exact onHook_calm (fun _ h _ => checkReleasing_holds h) h
    next => exact onHook_calm (fun _ h _ => checkReleasing_holds h) h
    next => exact checkReleasing_holds h
  next => exact checkReleasing_holds h

theorem checkRing_holds (h : Calm R b.line) : (b.checkRing a).Holds R := by
  unfold checkRing
  dsimp only
  split
  next =>
    split
    next => exact checkTimeout_holds h
    next =>
      split
      next =>
        split
        next => exact answer_holds (fun _ h => checkTimeout_holds h) nofun h
        next => exact checkTimeout_holds h
      next => exact checkTimeout_holds h
  next => exact checkTimeout_holds h

theorem checkState_holds (h : Calm R b.line) : (b.checkState a).Holds R := by
  unfold checkState
  split
  next => exact checkRing_holds h
  next => exact checkTimeout_holds h

theorem goOn_holds (h : Calm R b.line) (hf : ∀ resp, after = .switchState resp → b.Fresh) :
    (b.goOn a after).Holds R := by
  cases after with
  | done => exact h
  | aborted => exact h
  | dropTone => exact h
  | switchState resp => exact switchState_holds h (hf resp rfl)
  | releasing => exact checkReleasing_holds h
  | timeouts => exact checkTimeout_holds h

theorem abort_holds {rest : List Byte} (h : Calm R b.line) : (b.abort a rest).Holds R := by
  unfold abort
  dsimp only
  rw [ModemNext.after_holds]
  split
  next => exact h.quiet (.of_state rfl)
  next => exact onHook_calm (fun _ h _ => h) (h.quiet (.of_state rfl))

theorem handleData_holds {bs : List Byte} (h : Calm R b.line) : (b.handleData a bs).Holds R := by
  cases bs with
  | nil => exact h
  | cons c cs =>
    unfold handleData
    dsimp only
    split
    next => exact h
    next => exact h
    next => exact h.quiet (.of_state rfl)
    next => exact abort_holds h

theorem sendRound_holds {rest : List Byte} (h : Calm R b.line) : (b.sendRound a rest).Holds R := by
  unfold sendRound
  split
  next d _ =>
    refine h.quiet ?_
    exact stopSending_quiet (b := { b with dleData := { b.dleData with toDataStream := d } })
  next => exact h
  next => exact h

theorem resume_holds {pc : BodyPc} {reply : Option String} {n : ModemNext} (h : b.Holds R pc)
    (ht : ∀ resp token, pc = .dialing resp → reply = some token → R.calm b.callState token)
    (hs : b.resume a reply pc = some n) : n.Holds R := by
  have hgo : ∀ after, Follows R fun b => b.goOn a after := fun _ _ h ho =>
    goOn_holds h fun _ _ => fresh_of_onHook h ho
  cases pc with
  | idle => exact absurd hs nofun
  | handling rest =>
    cases hs
    exact handleData_holds h
  | sending rest =>
    cases hs
    exact sendRound_holds h
  | detaching mce after =>
    cases mce <;> cases hs
    · exact onHookAudio_holds (hgo after) h
    · exact onHookT38_holds (hgo after) h
  | clearing after =>
    cases hs
    exact hgo after _ (endClear_calm h) (endClear_off_hook.trans h.onHook)
  | answering after =>
    cases hs
    exact answered_holds (fun b hc => goOn_holds hc fun resp hr => absurd hr (h.2 resp)) h.1
  | dialing resp =>
    cases hs
    cases reply with
    | some token =>
      have hn : b.callState ≠ .cstCalled := fun hd => absurd ((h.called hd).1.symm.trans h.offHook) nofun
      exact ⟨⟨⟨fun hd => absurd hd hn, h.dialing, h.connected, h.handled, h.moves⟩, h.unlocked, h.settled⟩,
        ht resp token rfl rfl⟩
    | none =>
      refine onHook_holds (fun _ h _ => h) (h.toRest.hungUp (R.giveUp h.token)) ?_
      exact fun ho => absurd (h.offHook.symm.trans ho) nofun
  | requestingMode resp =>
    cases hs
    unfold modeRequested
    split
    next => exact h.quiet (.of_state rfl)
    next => exact h
  | delaying count resp =>
    cases hs
    exact delayed_holds h

end ModemEngineBody

end T38Modem
