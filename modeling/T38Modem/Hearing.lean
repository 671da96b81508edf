import T38Modem.SenderSteps

namespace T38Modem

namespace Sys

/-- A step that the receiving half only sees the carrier of. -/
structure Speaks (s s' : Sys) (es : List Event) : Prop where
  inSide : s'.e.toInSide = s.e.toInSide
  firstIn : s'.e.firstIn = s.e.firstIn
  recvUserInput : s'.e.recvUserInput = s.e.recvUserInput
  junk : s'.e.junk = s.e.junk
  inn : s'.inn = s.inn
  carrier : s.e.isCarrierIn = 0 → s'.e.isCarrierIn = 0
  events : ∀ ev ∈ es, ev.sending = true

/-- The steps as the receiving half sees them. -/
inductive Hears (s : Sys) : Act → Sys → List Event → Prop
  | speaks {a : Act} {s' : Sys} {es : List Event} (ha : a.receiving = false) (h : Speaks s s' es) : Hears s a s' es
  | sendStart (dataType : DataType) (param : Int) :
      Hears s (.sendStart dataType param) { s with e := (s.e.sendStart dataType param).2 }
        [.sendStart dataType (s.e.sendStart dataType param).1]
  | resetModemState : Hears s .resetModemState { s with e := s.e.onResetModemState } []
  | openIn (hi : s.inn = .out) : Hears s .openIn { s with e := reopenIn s.e } [.openIn]
  | handlePacket (ifp : Ifp) (hi : s.inn = .out) :
      Hears s (.handlePacket ifp) (s.ofInOutcome ifp (s.e.handlePacket ifp)).1
        (s.ofInOutcome ifp (s.e.handlePacket ifp)).2
  | calls {ifp : Ifp} {kind : Callback} {extra : Int} {after : AfterIn}
      (hi : s.inn = .calling ifp kind extra after) :
      Hears s .inn { s with inn := .called ifp after } [.callbackIn kind extra]
  | resumes {ifp : Ifp} {after : AfterIn} (hi : s.inn = .called ifp after) :
      Hears s .inn (s.ofInOutcome ifp (s.e.resumePacket after)).1 (s.ofInOutcome ifp (s.e.resumePacket after)).2
  | handlePacketLost (hi : s.inn = .out) : Hears s .handlePacketLost { s with e := s.e.handlePacketLost } []
  | recvWait (dataType : DataType) (param callbackParam : Int) :
      Hears s (.recvWait dataType param callbackParam)
        { s with e := (s.e.recvWait dataType param callbackParam).2.2 }
        [.recvWait (s.e.recvWait dataType param callbackParam).1 (s.e.recvWait dataType param callbackParam).2.1]
  | recvStart (callbackParam : Int) :
      Hears s (.recvStart callbackParam) { s with e := (s.e.recvStart callbackParam).2 }
        [.recvStart (s.e.recvStart callbackParam).1]
  | recv (count : Nat) :
      Hears s (.recv count) { s with e := (s.e.recv count).2 } [.recv (s.e.recv count).1]
  | recvDiag : Hears s .recvDiag s [.recvDiag s.e.recvDiag]
  | recvStop : Hears s .recvStop { s with e := s.e.recvStop } []

end Sys

namespace T38Engine

variable {e : T38Engine} {now : Int} {l : Locals}

theorem waitCarrier_carrier (h : e.isCarrierIn = 0) : (e.waitCarrier now).2.isCarrierIn = 0 := by
  unfold waitCarrier
  rw [if_pos (.inl h)]
  exact h

theorem dataSwitch_carrier (count : Option (List Byte)) :
    (e.dataSwitch now l count).engine.isCarrierIn = e.isCarrierIn := by
  unfold dataSwitch
  split
  · dsimp only
    split <;> rfl
  · split
    · rfl
    · split
      · rfl
      · split <;> rfl
  · dsimp only
    split <;> rfl

/-- No part of `PreparePacket` takes up the carrier of the other side. -/
theorem prepare_carrier (h : e.isCarrierIn = 0) : (e.prepare now l).engine.isCarrierIn = 0 := by
  unfold prepare
  split
  · split
    · unfold outIdle
      split
      · exact h
      · have hw := @waitCarrier_carrier { e with delaySignalOut := false } now h
        split
        next e' he =>
          rw [he] at hw
          exact hw
        next e' he =>
          rw [he] at hw
          split <;> exact hw
    · exact h
    · exact h
    · unfold outIndWait
      dsimp only
      split
      · exact h
      · split
        · exact h
        · split <;> exact h
        · exact h
    · unfold outData
      obtain ⟨count, hdlcOut, bufOut⟩ := e.hdlcOut.getData e.bufOut (dataLen e.modParsOut.br)
      have hd := @dataSwitch_carrier { e with hdlcOut, bufOut } now l count
      dsimp only at hd ⊢
      split
      · exact h
      · exact hd.trans h
    · unfold outHdlcFcs
      dsimp only
      split
      · split <;> exact h
      · split
        · exact h
        · split <;> exact h
    · unfold outDataNoSig
      split
      · exact h
      · dsimp only
        split <;> exact h
    · exact h
  · unfold onIdle
    split <;> exact h

end T38Engine

namespace OutPc

variable {e : T38Engine} {now : Int} {pc : OutPc} {r : T38Engine × OutPc × List Event}

theorem ofOutcome_events (o : Outcome) : ∀ ev ∈ (ofOutcome o).2.2, ev.sending = true := by
  cases o <;> simp [ofOutcome, Event.sending]

theorem Moves.events (h : Moves e now pc r) : ∀ ev ∈ r.2.2, ev.sending = true := by
  cases h with
  | quiet _ _ _ _ _ _ _ hes => rcases hes with rfl | rfl <;> simp [Event.sending]
  | prepare => exact ofOutcome_events _
  | data => exact ofOutcome_events _
  | calls => simp [Event.sending]
  | packet => simp [Event.sending]
  | _ => simp

theorem Moves.carrier (h : Moves e now pc r) (hc : e.isCarrierIn = 0) : r.1.isCarrierIn = 0 := by
  cases h with
  | prepare l =>
    rw [ofOutcome_engine]
    exact T38Engine.prepare_carrier hc
  | data l count =>
    rw [ofOutcome_engine]
    exact (T38Engine.dataSwitch_carrier count).trans hc
  | _ => exact hc

/-- The thread in `PreparePacket` writes no flag of the in side. -/
theorem Moves.firstIn (h : Moves e now pc r) : r.1.firstIn = e.firstIn ∧ r.1.recvUserInput = e.recvUserInput := by
  have hb := h.sameIn.base
  exact ⟨(congrArg EngineBase.firstIn hb :), (congrArg EngineBase.recvUserInput hb :)⟩

end OutPc

namespace Sys

variable {s s' : Sys} {a : Act} {es : List Event}

theorem Speaks.of_eq (hi : s'.e.toInSide = s.e.toInSide) (hb : s'.e.toEngineBase = s.e.toEngineBase)
    (hj : s'.e.junk = s.e.junk) (hn : s'.inn = s.inn) (hc : s'.e.isCarrierIn = s.e.isCarrierIn)
    (hes : ∀ ev ∈ es, ev.sending = true) : Speaks s s' es :=
  ⟨hi, congrArg EngineBase.firstIn hb, congrArg EngineBase.recvUserInput hb, hj, hn, fun h => hc.trans h, hes⟩

theorem step_hears (ha : s.Attached) (h : machine.step s a = some (s', es)) : Hears s a s' es := by
  by_cases hr : a.receiving = true
  · simp only [machine] at h
    cases a with
    | openIn =>
      obtain ⟨hi, he⟩ := Option.ite_none_right_eq_some.mp h
      cases he
      exact .openIn hi
    | handlePacket ifp =>
      obtain ⟨hi, he⟩ := Option.ite_none_left_eq_some.mp h
      rw [ha.lostIn, if_neg Bool.false_ne_true] at he
      have hh := Hears.handlePacket ifp (not_not.mp hi)
      rwa [Option.some.inj he] at hh
    | inn =>
      simp only [step, innStep] at h
      split at h
      next => cases h
      next hi =>
        cases h
        exact .calls hi
      next hi =>
        rw [ha.lostIn, if_neg (by simp)] at h
        have hh := Hears.resumes hi
        rwa [Option.some.inj h] at hh
    | handlePacketLost =>
      obtain ⟨hi, he⟩ := Option.ite_none_left_eq_some.mp h
      rw [ha.lostIn, if_neg Bool.false_ne_true] at he
      cases he
      exact .handlePacketLost (not_not.mp hi)
    | recvWait t param cb =>
      obtain ⟨-, rfl, rfl⟩ := modemCall_some h
      exact .recvWait t param cb
    | recvStart cb =>
      obtain ⟨-, rfl, rfl⟩ := modemCall_some h
      exact .recvStart cb
    | recv count =>
      obtain ⟨-, rfl, rfl⟩ := modemCall_some h
      exact .recv count
    | recvDiag =>
      obtain ⟨-, rfl, rfl⟩ := modemCall_some h
      exact .recvDiag
    | recvStop =>
      obtain ⟨-, rfl, rfl⟩ := modemCall_some h
      exact .recvStop
    | _ => cases hr
  · have hf : a.receiving = false := by simpa using hr
    cases step_cases h with
    | receives hr' => exact absurd hr' hr
    | sendStart dataType param => exact .sendStart dataType param
    | resetModemState => exact .resetModemState
    | @out r hr' =>
      have hm := hr' ▸ ha.moves
      have hb := hm.sameIn
      exact .speaks hf ⟨hb.inSide, hm.firstIn.1, hm.firstIn.2, hb.junk, rfl, hm.carrier, hm.events⟩
    | setPreparePacketTimeout timeout period =>
      refine .speaks hf ?_
      unfold T38Engine.setPreparePacketTimeout
      split <;> exact .of_eq rfl rfl rfl rfl rfl (by simp)
    | tick ms => exact .speaks hf (.of_eq rfl rfl rfl rfl rfl (by simp))
    | sendOnIdle dataType => exact .speaks hf (.of_eq rfl rfl rfl rfl rfl (by simp))
    | checkSend bs => exact .speaks hf (.of_eq rfl rfl rfl rfl rfl (by simp))
    | refuseSend bs => exact .speaks hf (.of_eq rfl rfl rfl rfl rfl (by simp [Event.sending]))
    | checkSendStop m cb => exact .speaks hf (.of_eq rfl rfl rfl rfl rfl (by simp))
    | refuseSendStop m cb => exact .speaks hf (.of_eq rfl rfl rfl rfl rfl (by simp [Event.sending]))
    | send bs => exact .speaks hf (.of_eq rfl rfl rfl rfl rfl (by simp [Event.sending]))
    | sendStop m cb => exact .speaks hf (.of_eq rfl rfl rfl rfl rfl (by simp [Event.sending]))

end Sys

end T38Modem
