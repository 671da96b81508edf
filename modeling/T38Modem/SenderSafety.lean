import T38Modem.SenderGrammar
import T38Modem.HdlcSending

namespace T38Modem

/-- The DTE sends HDLC by itself, and T.38 gets the frames. -/
def ModPars.rawOverHdlc (m : ModPars) : Prop := m.dataType = .dtRaw ∧ m.dataTypeT38 = .dtHdlc

/-- The DTE sends frames in a signal that has none in T.38. -/
def ModPars.hdlcLikeRaw (m : ModPars) : Prop := m.dataType = .dtHdlc ∧ m.dataTypeT38 = .dtRaw

instance (m : ModPars) : Decidable m.rawOverHdlc := inferInstanceAs (Decidable (_ ∧ _))
instance (m : ModPars) : Decidable m.hdlcLikeRaw := inferInstanceAs (Decidable (_ ∧ _))

/-- What keeps `PreparePacket` from the exits that must not happen, but for the input of `hdlcOut`. -/
structure Steady (e : T38Engine) : Prop where
  like : e.modParsOut.isModValid = true → ¬e.modParsOut.hdlcLikeRaw
  eof : e.bufOut.eof = true → e.stateModem = .stmOutMoreData →
    e.modParsOut.dataType ≠ .dtHdlc ∧ e.modParsOut.dataType ≠ .dtRaw
  kind : e.stateOut = .stOutData ∨ e.stateOut = .stOutHdlcFcs →
    e.hdlcOut.inDataType = e.modParsOut.dataType ∧ e.hdlcOut.outDataType = e.modParsOut.dataTypeT38 ∧
      e.hdlcOut.rawByteLen < 8
  fcs : e.stateOut = .stOutHdlcFcs → e.modParsOut.dataType = .dtHdlc → e.stateModem = .stmOutNoMoreData
  noSig : e.stateOut = .stOutDataNoSig → e.stateModem = .stmOutNoMoreData

structure Sound (e : T38Engine) : Prop extends Steady e where
  attached : e.stateOut = .stOutData → ¬e.modParsOut.rawOverHdlc → e.hdlcOut.inData ≠ none

/-- A part of the body of `PreparePacket` does not take an exit that must not happen, but for those
that the grammar excludes. -/
inductive Outcome.Safe : Outcome → Prop
  | exit {why : Exit} {e : T38Engine} (hw : why = .badDataType ∨ why = .badDataTypeT38) : Safe (.exit why e)
  | done {e : T38Engine} {l : Locals} {waitData : Bool} (h : Sound e) : Safe (.done e l waitData)
  | call {e : T38Engine} {l : Locals} {kind : Callback} {extra : Int} {after : AfterOut} (h : Sound e)
      (hd : after = .data none → e.modParsOut.rawOverHdlc) : Safe (.call e l kind extra after)

/-- The sender comes to the end of what it has got between two frames, while the DTE may send more. -/
def T38Engine.endsEarly (e : T38Engine) : Prop :=
  e.stateOut = .stOutHdlcFcs ∧ e.modParsOut.dataType = .dtRaw ∧ e.stateModem = .stmOutMoreData ∧
    Hdlc.shortGap e.hdlcOut.pendingBits e.bufOut.data = true

instance (e : T38Engine) : Decidable e.endsEarly := inferInstanceAs (Decidable (_ ∧ _))

namespace Sound

variable {e e' : T38Engine} {o : Stage} {l : Locals} {now : Int}

/-- In the states without a signal nothing is asked of the sender. -/
theorem of_quiet (like : e.modParsOut.isModValid = true → ¬e.modParsOut.hdlcLikeRaw)
    (eof : e.bufOut.eof = true → e.stateModem ≠ .stmOutMoreData)
    (hs : e.stateOut = .stOutIdle ∨ e.stateOut = .stOutNoSig) : Sound e := by
  refine ⟨⟨like, fun he hm => absurd hm (eof he), ?_, ?_, ?_⟩, ?_⟩ <;>
    rcases hs with hs | hs <;> simp [hs]

theorem of_state (h : Sound e) (hp : e'.modParsOut = e.modParsOut) (hb : e'.bufOut = e.bufOut)
    (hm : e'.stateModem = e.stateModem)
    (hs : e'.stateOut ≠ .stOutData ∧ e'.stateOut ≠ .stOutHdlcFcs ∧ e'.stateOut ≠ .stOutDataNoSig) : Sound e' := by
  refine ⟨⟨hp ▸ h.like, ?_, fun hk => ?_, fun hk => absurd hk hs.2.1, fun hk => absurd hk hs.2.2⟩,
    fun hk => absurd hk hs.1⟩
  · rw [hb, hm, hp]
    exact h.eof
  · rcases hk with hk | hk
    · exact absurd hk hs.1
    · exact absurd hk hs.2.1

/-- Closed data is not followed by more. -/
theorem noMoreData (h : Steady e) (hm : e.stateModem.isOut = true)
    (hd : e.modParsOut.dataType = .dtHdlc ∨ e.modParsOut.dataType = .dtRaw) (he : e.bufOut.eof = true) :
    e.stateModem = .stmOutNoMoreData := by
  simp only [StateModem.isOut, decide_eq_true_eq] at hm
  refine hm.resolve_left fun hmore => ?_
  obtain ⟨h1, h2⟩ := h.eof he hmore
  exact hd.elim h1 h2

theorem outIdle_safe (h : Sound e) (hs : e.stateOut = .stOutIdle) : (e.outIdle now l).Safe := by
  unfold T38Engine.outIdle
  split
  · exact .done h
  · have hw := Sends.waitCarrier_same { e with delaySignalOut := false } now
    have hb := ({ e with delaySignalOut := false } : T38Engine).waitCarrier_bufOut now
    dsimp only at hw hb
    split
    next e' he =>
      rw [he] at hw hb
      obtain ⟨h1, h2, -, h4, -⟩ := hw
      exact .done (h.of_state h2 hb h4 (by rw [h1, hs]; decide))
    next e' he =>
      rw [he] at hw hb
      obtain ⟨-, h2, -, h4, -⟩ := hw
      split
      · exact .done (h.of_state h2 hb h4 ⟨nofun, nofun, nofun⟩)
      · exact .done (h.of_state h2 hb h4 ⟨nofun, nofun, nofun⟩)
      · exact .done (h.of_state h2 hb h4 ⟨nofun, nofun, nofun⟩)
      · exact .done (h.of_state h2 hb h4 ⟨nofun, nofun, nofun⟩)
      · exact .exit (.inr rfl)

theorem outIndWait_safe (h : Sound e) (hv : e.modParsOut.isModValid = true) : (e.outIndWait now l).Safe := by
  have hnot := h.like hv
  have sound (e' : T38Engine) (hp : e'.modParsOut = e.modParsOut) (hb : e'.bufOut = e.bufOut)
      (hm : e'.stateModem = e.stateModem) (hs : e'.stateOut = .stOutData)
      (hi : e'.hdlcOut.inDataType = e.modParsOut.dataType) (ho : e'.hdlcOut.outDataType = e.modParsOut.dataTypeT38)
      (hl : e'.hdlcOut.rawByteLen = 0) (ha : e'.hdlcOut.inData ≠ none) : Sound e' :=
    ⟨⟨hp ▸ h.like, by rw [hb, hm, hp]; exact h.eof, fun _ => by rw [hi, ho, hp, hl]; exact ⟨rfl, rfl, by omega⟩,
      fun hk => by simp [hs] at hk, fun hk => by simp [hs] at hk⟩, fun _ _ => ha⟩
  unfold T38Engine.outIndWait
  dsimp only
  split
  · exact .exit (.inl rfl)
  next hdlcOut hput =>
    split
    next t38 =>
      split at hput
      next data =>
        cases Option.some.inj hput
        exact .done (sound _ rfl rfl rfl rfl data.symm t38.symm rfl (by simp [Hdlc.getHdlcStart, Hdlc.putHdlcData]))
      next data =>
        cases Option.some.inj hput
        exact .done (sound _ rfl rfl rfl rfl data.symm t38.symm rfl (by simp [Hdlc.getHdlcStart, Hdlc.putRawData]))
      next => cases hput
    next t38 =>
      split
      next data => exact absurd ⟨data, t38⟩ hnot
      next =>
        split at hput
        next data => exact absurd ⟨data, t38⟩ hnot
        next data =>
          cases Option.some.inj hput
          exact .done (sound _ rfl rfl rfl rfl data.symm t38.symm rfl (by simp [Hdlc.getRawStart, Hdlc.putRawData]))
        next => cases hput
    next => exact .exit (.inr rfl)

theorem dataSwitch_safe (h : Steady e) (hs : e.stateOut = .stOutData) {count : Option (List Byte)}
    (ha : count ≠ none → ¬e.modParsOut.rawOverHdlc → e.hdlcOut.inData ≠ none)
    (hn : count = none → ¬e.modParsOut.rawOverHdlc → e.stateModem = .stmOutNoMoreData) :
    (e.dataSwitch now l count).Safe := by
  have sound (hne : count ≠ none) : Sound e := ⟨h, fun _ => ha hne⟩
  have kind := h.kind (.inl hs)
  unfold T38Engine.dataSwitch
  split
  · dsimp only
    split
    next t38 =>
      refine .done ⟨⟨h.like, h.eof, fun _ => kind, fun _ data => hn rfl fun hr => ?_, nofun⟩, nofun⟩
      exact absurd (data.symm.trans hr.1) (by decide)
    next t38 =>
      refine .done ⟨⟨h.like, h.eof, nofun, nofun, fun _ => hn rfl fun hr => ?_⟩, nofun⟩
      exact absurd (t38.symm.trans hr.2) (by decide)
    next => exact .exit (.inr rfl)
  · have hsound := sound (by simp)
    split
    · exact .call hsound nofun
    · split
      · exact .done ⟨⟨h.like, h.eof, h.kind, h.fcs, h.noSig⟩, hsound.attached⟩
      · split
        · exact .call hsound nofun
        · exact .done hsound
  · have hsound := sound (by simp)
    dsimp only
    split
    · exact .done ⟨⟨h.like, h.eof, h.kind, h.fcs, h.noSig⟩, hsound.attached⟩
    · exact .done ⟨⟨h.like, h.eof, h.kind, h.fcs, h.noSig⟩, hsound.attached⟩
    · exact .exit (.inr rfl)

/-- A read of the data keeps the object to its kind. At the end of what comes from the DTE as it is sent,
the DTE has said so, and the stream is as it was. -/
theorem getData_steady (h : Sound e) (hs : e.stateOut = .stOutData) (hm : e.stateModem.isOut = true)
    (data : e.modParsOut.dataType = .dtHdlc ∨ e.modParsOut.dataType = .dtRaw)
    (t38 : e.modParsOut.dataTypeT38 = .dtHdlc ∨ e.modParsOut.dataTypeT38 = .dtRaw)
    (hv : e.modParsOut.isModValid = true) {n : Nat} {count : Option (List Byte)} {hdlcOut : Hdlc} {bufOut : DataStream}
    (hg : e.hdlcOut.getData e.bufOut n = (count, hdlcOut, bufOut)) :
    Steady { e with hdlcOut, bufOut } ∧ (count ≠ none → ¬e.modParsOut.rawOverHdlc → hdlcOut.inData ≠ none) ∧
      (count = none → ¬e.modParsOut.rawOverHdlc → bufOut = e.bufOut ∧ e.stateModem = .stmOutNoMoreData) := by
  obtain ⟨hi, ho, hl⟩ := h.kind (.inl hs)
  have steady (hk : Hdlc.SameKind e.hdlcOut hdlcOut) (he : bufOut.eof = e.bufOut.eof) :
      Steady { e with hdlcOut, bufOut } :=
    ⟨h.like, fun hb => h.eof (he ▸ hb), fun _ => ⟨hk.inDataType.trans hi, hk.outDataType.trans ho, hk.len hl⟩,
      h.fcs, h.noSig⟩
  by_cases hr : e.modParsOut.rawOverHdlc
  · have hsame := Hdlc.getHdlcData_same (hi.trans hr.1) hl e.bufOut n
    rw [Hdlc.getData, ho.trans hr.2] at hg
    dsimp only at hg
    rw [hg] at hsame
    exact ⟨steady hsame.1 hsame.2, fun _ hn => absurd hr hn, fun _ hn => absurd hr hn⟩
  · have hnot := h.like hv
    have direct : e.hdlcOut.Direct := by
      refine ⟨?_, h.attached hs hr⟩
      rw [hi, ho]
      rcases data with data | data <;> rcases t38 with t38 | t38
      · exact .inl ⟨data, t38⟩
      · exact absurd ⟨data, t38⟩ hnot
      · exact absurd ⟨data, t38⟩ hr
      · exact .inr ⟨data, t38⟩
    obtain ⟨g, hget, hk, ha⟩ := direct.getData e.bufOut n
    rw [hg] at hget
    simp only [Prod.mk.injEq] at hget
    obtain ⟨hc, rfl, hb⟩ := hget
    refine ⟨steady hk (by rw [hb]; exact (e.bufOut.getData_same n).1), fun hne _ => ?_, fun hnone _ => ?_⟩
    · rw [ha (hc ▸ hne)]
      exact direct.attached
    · rw [hc] at hnone
      exact ⟨hb.trans (DataStream.getData_none_state hnone),
        noMoreData h.toSteady hm data (DataStream.getData_none.mp hnone).2⟩

theorem outData_safe (h : Sound e) (hs : e.stateOut = .stOutData) (hm : e.stateModem.isOut = true)
    (data : e.modParsOut.dataType = .dtHdlc ∨ e.modParsOut.dataType = .dtRaw)
    (t38 : e.modParsOut.dataTypeT38 = .dtHdlc ∨ e.modParsOut.dataTypeT38 = .dtRaw)
    (hv : e.modParsOut.isModValid = true) : (e.outData now l).Safe := by
  unfold T38Engine.outData
  cases hg : e.hdlcOut.getData e.bufOut (T38Engine.dataLen e.modParsOut.br) with
  | mk count r =>
    obtain ⟨hdlcOut, bufOut⟩ := r
    obtain ⟨hst, ha, hn⟩ := h.getData_steady hs hm data t38 hv hg
    dsimp only
    split
    next hfull =>
      -- the stream has got shorter, so this was no end of it
      have hcount : count = none → e.modParsOut.rawOverHdlc := fun hnone => by
        by_contra hr
        rw [(hn hnone hr).1] at hfull
        simp at hfull
      refine .call ⟨hst, fun _ hr => ha (fun hnone => hr (hcount hnone)) hr⟩ fun hc => ?_
      simp only [AfterOut.data.injEq] at hc
      exact hcount hc
    next => exact dataSwitch_safe hst hs ha fun hnone hr => (hn hnone hr).2

theorem outHdlcFcs_safe (h : Sound e) (hs : e.stateOut = .stOutHdlcFcs) (hm : e.stateModem.isOut = true)
    (data : e.modParsOut.dataType = .dtHdlc ∨ e.modParsOut.dataType = .dtRaw)
    (t38 : e.modParsOut.dataTypeT38 = .dtHdlc) (he : ¬e.endsEarly) : (e.outHdlcFcs l).Safe := by
  obtain ⟨hi, ho, hl⟩ := h.kind (.inr hs)
  unfold T38Engine.outHdlcFcs
  dsimp only
  split
  next raw =>
    have hbet := Hdlc.getHdlcStart_between (hi.trans raw)
    generalize e.hdlcOut.getHdlcStart false = g at hbet
    have hlen : g.rawByteLen < 8 := hbet.len ▸ hl
    have hnone : (g.getHdlcData e.bufOut 0).1 = none → e.stateModem = .stmOutNoMoreData := fun hnone => by
      cases hb : e.bufOut.eof with
      | true => exact noMoreData h.toSteady hm data hb
      | false =>
        have hgap := hbet.shortGap hl hb hnone
        by_contra hno
        simp only [StateModem.isOut, decide_eq_true_eq] at hm
        exact he ⟨hs, raw, hm.resolve_right hno, hgap⟩
    have hsame := Hdlc.getHdlcData_same hbet.inDataType hlen e.bufOut 0
    rw [Hdlc.getData, hbet.outDataType]
    dsimp only
    generalize g.getHdlcData e.bufOut 0 = r at hsame hnone
    obtain ⟨count, hdlcOut, bufOut⟩ := r
    dsimp only at hsame hnone ⊢
    have sound (e' : T38Engine) (hp : e'.modParsOut = e.modParsOut) (hb : e'.bufOut = bufOut)
        (hm' : e'.stateModem = e.stateModem) (hh : e'.hdlcOut = hdlcOut)
        (hs' : e'.stateOut = if count ≠ none then .stOutData else .stOutDataNoSig) : Sound e' := by
      refine ⟨⟨hp ▸ h.like, ?_, fun _ => ?_, fun hk => ?_, fun hk => ?_⟩, fun _ hr => absurd ⟨raw, t38⟩ (hp ▸ hr)⟩
      · rw [hb, hm', hp, hsame.2]
        exact h.eof
      · rw [hh, hp]
        exact ⟨hsame.1.inDataType.trans (hbet.inDataType.trans raw.symm), hsame.1.outDataType.trans (hbet.outDataType.trans t38.symm),
          hsame.1.len hlen⟩
      · rw [hs'] at hk
        split at hk <;> cases hk
      · rw [hs'] at hk
        split at hk
        · cases hk
        next hc => exact hm'.trans (hnone (not_not.mp hc))
    split
    · exact .call (sound _ rfl rfl rfl rfl rfl) (fun h => by cases h)
    · exact .done (sound _ rfl rfl rfl rfl rfl)
  next raw =>
    have hdlc : e.modParsOut.dataType = .dtHdlc := data.resolve_right raw
    rw [if_neg (by simp [h.fcs hs hdlc])]
    have hput : ((e.hdlcOut.putHdlcData T38Engine.bufOutId).getHdlcStart false).inDataType = e.modParsOut.dataType ∧
        ((e.hdlcOut.putHdlcData T38Engine.bufOutId).getHdlcStart false).outDataType = e.modParsOut.dataTypeT38 ∧
        ((e.hdlcOut.putHdlcData T38Engine.bufOutId).getHdlcStart false).rawByteLen < 8 :=
      ⟨hdlc.symm, t38.symm, hl⟩
    split
    · exact .call ⟨⟨h.like, fun h => (by cases h), fun _ => hput, fun h => (by cases h), fun h => (by cases h)⟩,
        fun _ _ h => (by cases h)⟩ fun h => by cases h
    · exact .done ⟨⟨h.like, fun h => (by cases h), fun _ => hput, fun h => (by cases h), fun _ => h.fcs hs hdlc⟩,
        fun h => by cases h⟩

theorem outDataNoSig_safe (h : Sound e) (hs : e.stateOut = .stOutDataNoSig) : (e.outDataNoSig l).Safe := by
  unfold T38Engine.outDataNoSig
  rw [if_neg (by simp [h.noSig hs])]
  dsimp only
  split
  · exact .call (of_quiet h.like (fun _ => nofun) (.inr rfl)) nofun
  · exact .call (of_quiet h.like (fun _ => nofun) (.inr rfl)) nofun
  · exact .exit (.inr rfl)

theorem onIdle_safe (h : Sound e) : (e.onIdle l).Safe := by
  unfold T38Engine.onIdle
  split <;> exact .done ⟨⟨h.like, h.eof, h.kind, h.fcs, h.noSig⟩, h.attached⟩

/-- The parameters of a signal come from a row. -/
theorem valid_of_row {m p : ModPars} (hr : IsRow m p) : p.isModValid = true := by
  simp only [ModPars.isModValid, decide_eq_true_eq, hr.val]
  exact (mods_row hr.row).1

/-- The body of `PreparePacket` does not take an exit that must not happen. -/
theorem prepare_safe (h : Sound e) (hk : Sends o e) (he : ¬e.endsEarly) : (e.prepare now l).Safe := by
  unfold T38Engine.prepare
  split
  next hc =>
    cases hs : e.stateOut with
    | stOutIdle => exact h.outIdle_safe hs
    | stOutCedWait => exact .call (of_quiet h.like (fun _ => nofun) (.inr rfl)) nofun
    | stOutSilenceWait => exact .call (of_quiet h.like (fun _ => nofun) (.inl rfl)) nofun
    | stOutIndWait =>
      obtain ⟨hm, data, hst⟩ := hk.signal (.inl hs)
      rcases hst with ⟨m, d, -, row, t38, -⟩ | ⟨m, -, row, t38, -⟩ <;> exact h.outIndWait_safe (valid_of_row row)
    | stOutData =>
      obtain ⟨hm, data, hst⟩ := hk.signal (.inr (.inl hs))
      rcases hst with ⟨m, d, -, row, t38, -⟩ | ⟨m, -, row, t38, -⟩
      · exact h.outData_safe hs hm data (.inl t38) (valid_of_row row)
      · exact h.outData_safe hs hm data (.inr t38) (valid_of_row row)
    | stOutHdlcFcs =>
      obtain ⟨hm, data, hst⟩ := hk.signal (.inr (.inr (.inl hs)))
      rcases hst with ⟨m, d, -, row, t38, -⟩ | ⟨m, -, row, t38, hne⟩
      · exact h.outHdlcFcs_safe hs hm data t38 he
      · exact absurd hs hne
    | stOutDataNoSig => exact h.outDataNoSig_safe hs
    | stOutNoSig => exact .done (h.of_state rfl rfl rfl ⟨nofun, nofun, nofun⟩)
  next => exact h.onIdle_safe

end Sound

end T38Modem
