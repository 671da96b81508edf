import T38Modem.Sender

namespace T38Modem

/-- What `PreparePacket` leaves alone: the in side, and what the modem has asked for. -/
structure SameIn (e e' : T38Engine) : Prop where
  base : e'.toEngineBase = e.toEngineBase
  inSide : e'.toInSide = e.toInSide
  junk : e'.junk = e.junk
  modParsOut : e'.modParsOut = e.modParsOut
  stop : (e'.moreFramesOut, e'.callbackParamOut) = (e.moreFramesOut, e.callbackParamOut)

/-- The engine at the end of a part of `PreparePacket`. -/
def Outcome.engine : Outcome → T38Engine
  | .exit _ e => e
  | .done e _ _ => e
  | .call e _ _ _ _ => e

namespace T38Engine

variable (e : T38Engine) (now : Int) (l : Locals)

theorem waitCarrier_sameIn : SameIn e (e.waitCarrier now).2 := by
  unfold waitCarrier
  dsimp only
  split
  · exact ⟨rfl, rfl, rfl, rfl, rfl⟩
  · split
    · exact ⟨rfl, rfl, rfl, rfl, rfl⟩
    · split <;> exact ⟨rfl, rfl, rfl, rfl, rfl⟩

theorem waitCarrier_bufOut : (e.waitCarrier now).2.bufOut = e.bufOut := by
  unfold waitCarrier
  dsimp only
  split
  · rfl
  · split
    · rfl
    · split <;> rfl

theorem outIdle_sameIn : SameIn e (e.outIdle now l).engine := by
  unfold outIdle
  split
  · exact ⟨rfl, rfl, rfl, rfl, rfl⟩
  · have hw := waitCarrier_sameIn { e with delaySignalOut := false } now
    split
    next e' he =>
      rw [he] at hw
      exact ⟨hw.base, hw.inSide, hw.junk, hw.modParsOut, hw.stop⟩
    next e' he =>
      rw [he] at hw
      split <;> exact ⟨hw.base, hw.inSide, hw.junk, hw.modParsOut, hw.stop⟩

theorem outIndWait_sameIn : SameIn e (e.outIndWait now l).engine := by
  unfold outIndWait
  dsimp only
  split
  · exact ⟨rfl, rfl, rfl, rfl, rfl⟩
  · split
    · exact ⟨rfl, rfl, rfl, rfl, rfl⟩
    · split <;> exact ⟨rfl, rfl, rfl, rfl, rfl⟩
    · exact ⟨rfl, rfl, rfl, rfl, rfl⟩

theorem dataSwitch_sameIn (count : Option (List Byte)) : SameIn e (e.dataSwitch now l count).engine := by
  unfold dataSwitch
  split
  · dsimp only
    split <;> exact ⟨rfl, rfl, rfl, rfl, rfl⟩
  · split
    · exact ⟨rfl, rfl, rfl, rfl, rfl⟩
    · split
      · exact ⟨rfl, rfl, rfl, rfl, rfl⟩
      · split <;> exact ⟨rfl, rfl, rfl, rfl, rfl⟩
  · dsimp only
    split <;> exact ⟨rfl, rfl, rfl, rfl, rfl⟩

theorem outData_sameIn : SameIn e (e.outData now l).engine := by
  unfold outData
  obtain ⟨count, hdlcOut, bufOut⟩ := e.hdlcOut.getData e.bufOut (dataLen e.modParsOut.br)
  have h := dataSwitch_sameIn { e with hdlcOut, bufOut } now l count
  dsimp only
  split
  · exact ⟨rfl, rfl, rfl, rfl, rfl⟩
  · exact ⟨h.base, h.inSide, h.junk, h.modParsOut, h.stop⟩

theorem outHdlcFcs_sameIn : SameIn e (e.outHdlcFcs l).engine := by
  unfold outHdlcFcs
  dsimp only
  split
  · split <;> exact ⟨rfl, rfl, rfl, rfl, rfl⟩
  · split
    · exact ⟨rfl, rfl, rfl, rfl, rfl⟩
    · split <;> exact ⟨rfl, rfl, rfl, rfl, rfl⟩

theorem outDataNoSig_sameIn : SameIn e (e.outDataNoSig l).engine := by
  unfold outDataNoSig
  split
  · exact ⟨rfl, rfl, rfl, rfl, rfl⟩
  · dsimp only
    split <;> exact ⟨rfl, rfl, rfl, rfl, rfl⟩

theorem onIdle_sameIn : SameIn e (e.onIdle l).engine := by
  unfold onIdle
  split <;> exact ⟨rfl, rfl, rfl, rfl, rfl⟩

theorem prepare_sameIn : SameIn e (e.prepare now l).engine := by
  unfold prepare
  split
  · split
    · exact e.outIdle_sameIn now l
    · exact ⟨rfl, rfl, rfl, rfl, rfl⟩
    · exact ⟨rfl, rfl, rfl, rfl, rfl⟩
    · exact e.outIndWait_sameIn now l
    · exact e.outData_sameIn now l
    · exact e.outHdlcFcs_sameIn l
    · exact e.outDataNoSig_sameIn l
    · exact ⟨rfl, rfl, rfl, rfl, rfl⟩
  · exact e.onIdle_sameIn l

theorem dataSwitch_stateModem (count : Option (List Byte)) :
    (e.dataSwitch now l count).engine.stateModem = e.stateModem := by
  unfold dataSwitch
  split
  · dsimp only
    split <;> rfl
  · split
    · rfl
    · split
      · rfl
      · split <;> rfl
  · dsimp only
    split <;> rfl

/-- A signal that the modem has not stopped is not ended. -/
theorem prepare_more (hm : e.stateModem = .stmOutMoreData)
    (hs : e.stateOut ≠ .stOutCedWait ∧ e.stateOut ≠ .stOutSilenceWait) :
    (e.prepare now l).engine.stateModem = .stmOutMoreData := by
  unfold prepare
  rw [if_pos (.inl (by rw [hm]; rfl))]
  cases h : e.stateOut with
  | stOutIdle =>
    have hwait (e : T38Engine) : (e.waitCarrier now).2.stateModem = e.stateModem := by
      unfold waitCarrier
      dsimp only
      split
      · rfl
      · split
        · rfl
        · split <;> rfl
    have hw := hwait { e with delaySignalOut := false }
    dsimp only [outIdle]
    split
    · exact hm
    · split
      next e' he =>
        rw [he] at hw
        exact hw.trans hm
      next e' he =>
        rw [he] at hw
        split <;> exact hw.trans hm
  | stOutCedWait => exact absurd h hs.1
  | stOutSilenceWait => exact absurd h hs.2
  | stOutIndWait =>
    dsimp only [outIndWait]
    split
    · exact hm
    · split
      · exact hm
      · split <;> exact hm
      · exact hm
  | stOutData =>
    dsimp only [outData]
    obtain ⟨count, hdlcOut, bufOut⟩ := e.hdlcOut.getData e.bufOut (dataLen e.modParsOut.br)
    have hd := dataSwitch_stateModem { e with hdlcOut, bufOut } now l count
    dsimp only at hd ⊢
    split
    · exact hm
    · exact hd.trans hm
  | stOutHdlcFcs =>
    dsimp only [outHdlcFcs]
    split
    · split <;> exact hm
    · rw [if_pos (by simp [hm])]
      exact hm
  | stOutDataNoSig =>
    dsimp only [outDataNoSig]
    rw [if_pos (by simp [hm])]
    exact hm
  | stOutNoSig => exact hm

end T38Engine

end T38Modem
