import T38Modem.PacketGrammar
import T38Modem.SenderSteps

namespace T38Modem

/-- The row of `mods` that the parameters of a signal come from. -/
structure IsRow (m p : ModPars) : Prop where
  row : m ∈ mods
  val : p.val = m.val
  ind : p.ind = m.ind
  msgType : p.msgType = m.msgType
  br : p.br = m.br

/-- What `SendStart` sets the parameters to when it succeeds. -/
inductive OutPars (p : ModPars) : Prop
  | ced (data : p.dataType = .dtCed) (t38 : p.dataTypeT38 = .dtCed) (ind : p.ind = .ced)
  | silence (data : p.dataType = .dtSilence) (t38 : p.dataTypeT38 = .dtSilence)
  | signal (m : ModPars) (row : IsRow m p) (data : p.dataType = .dtHdlc ∨ p.dataType = .dtRaw)
      (t38 : p.dataTypeT38 = .dtHdlc ∨ p.dataTypeT38 = .dtRaw)

theorem outPars_valid {e : T38Engine} {t : DataType} {param : Int} (h : (e.outPars t param).2 = true) :
    OutPars (e.outPars t param).1 := by
  unfold T38Engine.outPars at h ⊢
  have signal (t : DataType) (ht : t = .dtHdlc ∨ t = .dtRaw) (hv : (getModPars param).isModValid = true) :
      OutPars { getModPars param with
        dataType := t, dataTypeT38 := hdlcT38 { getModPars param with dataType := t } e.t30.hdlcOnly } := by
    refine .signal (getModPars param) ⟨getModPars_mem hv, rfl, rfl, rfl, rfl⟩ ht ?_
    unfold hdlcT38
    split
    · exact .inl rfl
    · exact .inr rfl
  cases t with
  | dtCed => exact .ced rfl rfl rfl
  | dtSilence => exact .silence rfl rfl
  | dtHdlc => exact signal .dtHdlc (.inl rfl) h
  | dtRaw => exact signal .dtRaw (.inr rfl) h
  | _ => cases h

/-- The state of the sender that goes with what its packets have begun. -/
inductive AtStage (e : T38Engine) : Stage → Prop
  | start (hs : e.stateOut = .stOutNoSig) : AtStage e .start
  | ended (hs : e.stateOut = .stOutNoSig) : AtStage e .ended
  | cedEnd (hs : e.stateOut = .stOutNoSig) : AtStage e .ced
  | ced (hs : e.stateOut = .stOutCedWait) (t38 : e.modParsOut.dataTypeT38 = .dtCed) : AtStage e .ced
  | idle (hs : e.stateOut = .stOutIdle) : AtStage e .idle
  | silence (hs : e.stateOut = .stOutSilenceWait) (t38 : e.modParsOut.dataTypeT38 = .dtSilence) : AtStage e .idle
  | hdlc (m : ModPars) (d : Bool) (row : IsRow m e.modParsOut) (t38 : e.modParsOut.dataTypeT38 = .dtHdlc)
      (hs : (d = false ∧ (e.stateOut = .stOutIndWait ∨ e.stateOut = .stOutDataNoSig)) ∨
        (d = decide (e.countOut ≠ 0) ∧ (e.stateOut = .stOutData ∨ e.stateOut = .stOutHdlcFcs))) : AtStage e (.hdlc m d)
  | raw (m : ModPars) (row : IsRow m e.modParsOut) (t38 : e.modParsOut.dataTypeT38 = .dtRaw)
      (hs : e.stateOut = .stOutIndWait ∨ e.stateOut = .stOutData ∨ e.stateOut = .stOutDataNoSig) : AtStage e (.raw m)

/-- The sender has begun `o`. While it sends, the modem is in a sending state, and the parameters of
the signal are good. -/
structure Sends (o : Stage) (e : T38Engine) : Prop where
  pars : e.stateModem.isOut = true → OutPars e.modParsOut
  busy : e.stateOut ≠ .stOutIdle → e.stateOut ≠ .stOutNoSig → e.stateModem.isOut = true
  stage : AtStage e o

/-- What has been made of a round: a packet that leads from `o` to `o'`, or none and another round. -/
inductive Made (o : Stage) (l : Locals) : Stage → Prop
  | redo (hr : l.redo = true) (hi : l.ifp = none) : Made o l o
  | packet (o' : Stage) (p : Ifp) (hr : l.redo = false) (hi : l.ifp = some p)
      (begun : ∀ ps, Begun o ps → Begun o' (ps ++ [p])) : Made o l o'

theorem Locals.Clean.redo {l : Locals} (hl : l.Clean) (o : Stage) : Made o { l with redo := true } o :=
  .redo rfl hl.2

theorem Locals.Clean.packet {l : Locals} (hl : l.Clean) {o o' : Stage} {p : Ifp}
    (begun : ∀ ps, Begun o ps → Begun o' (ps ++ [p])) : Made o { l with ifp := some p } o' :=
  .packet o' p hl.1 rfl begun

/-- A part of the body of `PreparePacket` keeps to the grammar. -/
inductive Outcome.Keeps (o : Stage) : Outcome → Prop
  | exit {why : Exit} {e : T38Engine} (hw : why ≠ .badDataType ∧ why ≠ .badDataTypeT38) (h : Sends o e) :
      Keeps o (.exit why e)
  | wait {e : T38Engine} {l : Locals} (hl : l.Clean) (h : Sends o e) : Keeps o (.done e l true)
  | leave {e : T38Engine} {l : Locals} (o' : Stage) (hl : Made o l o') (h : Sends o' e) : Keeps o (.done e l false)
  | call {e : T38Engine} {l : Locals} {kind : Callback} {extra : Int} (o' : Stage) (hl : Made o l o')
      (h : Sends o' e) : Keeps o (.call e l kind extra .leave)
  | pause {e : T38Engine} {l : Locals} {kind : Callback} {extra : Int} {after : AfterOut} (ha : after ≠ .leave)
      (hl : l.Clean) (h : Sends o e) (hd : ∀ c, after = .data c → e.stateOut = .stOutData) :
      Keeps o (.call e l kind extra after)

namespace Sends

variable {o : Stage} {e e' : T38Engine} {l : Locals} {now : Int}

/-- The sender's stage depends on its state, the octets sent of a frame and the parameters of the
signal alone. -/
theorem of_same (h : Sends o e) (hs : e'.stateOut = e.stateOut) (hp : e'.modParsOut = e.modParsOut)
    (hc : e'.countOut = e.countOut) (hm : e'.stateModem.isOut = e.stateModem.isOut) : Sends o e' := by
  refine ⟨fun hi => hp ▸ h.pars (hm ▸ hi), fun h1 h2 => hm ▸ h.busy (hs ▸ h1) (hs ▸ h2), ?_⟩
  rcases h.stage with hst | hst | hst | ⟨hst, t38⟩ | hst | ⟨hst, t38⟩ | ⟨m, d, row, t38, hst⟩ | ⟨m, row, t38, hst⟩
  · exact .start (hs.trans hst)
  · exact .ended (hs.trans hst)
  · exact .cedEnd (hs.trans hst)
  · exact .ced (hs.trans hst) (hp ▸ t38)
  · exact .idle (hs.trans hst)
  · exact .silence (hs.trans hst) (hp ▸ t38)
  · exact .hdlc m d (hp ▸ row) (hp ▸ t38) (by rw [hs, hc]; exact hst)
  · exact .raw m (hp ▸ row) (hp ▸ t38) (by rw [hs]; exact hst)

theorem stage_idle (h : Sends o e) (hs : e.stateOut = .stOutIdle) : o = .idle := by
  rcases h.stage with hst | hst | hst | ⟨hst, -⟩ | - | ⟨hst, -⟩ | ⟨m, d, -, -, hst⟩ | ⟨m, -, -, hst⟩ <;>
    simp_all

theorem waitCarrier_same (e : T38Engine) (now : Int) :
    let e' := (e.waitCarrier now).2
    e'.stateOut = e.stateOut ∧ e'.modParsOut = e.modParsOut ∧ e'.countOut = e.countOut ∧
      e'.stateModem = e.stateModem ∧ e'.delaySignalOut = e.delaySignalOut := by
  unfold T38Engine.waitCarrier
  dsimp only
  split
  · exact ⟨rfl, rfl, rfl, rfl, rfl⟩
  · split
    · exact ⟨rfl, rfl, rfl, rfl, rfl⟩
    · split <;> exact ⟨rfl, rfl, rfl, rfl, rfl⟩

/-- A state other than the two idle ones is only entered while the modem sends. -/
theorem enter (h : Sends o e) (hm : e.stateModem.isOut = true) {o' : Stage} (hs : e'.modParsOut = e.modParsOut)
    (hm' : e'.stateModem = e.stateModem) (stage : AtStage e' o') : Sends o' e' :=
  ⟨fun _ => hs ▸ h.pars hm, fun _ _ => hm' ▸ hm, stage⟩

theorem outIdle_keeps (h : Sends o e) (hl : l.Clean) (hs : e.stateOut = .stOutIdle)
    (hm : e.stateModem.isOut = true) : (e.outIdle now l).Keeps o := by
  obtain rfl := h.stage_idle hs
  unfold T38Engine.outIdle
  split
  · exact .leave _ (hl.redo _) h
  · have hw := waitCarrier_same { e with delaySignalOut := false } now
    dsimp only at hw
    split
    next e' he =>
      rw [he] at hw
      obtain ⟨h1, h2, h3, h4, -⟩ := hw
      exact .leave _ (hl.redo _) (h.of_same h1 h2 h3 (by rw [h4]))
    next e' he =>
      rw [he] at hw
      obtain ⟨h1, h2, h3, h4, -⟩ := hw
      have h' : Sends .idle e' := h.of_same h1 h2 h3 (by rw [h4])
      have hm' : e'.stateModem.isOut = true := by rw [h4]; exact hm
      rcases h'.pars hm' with ⟨-, t38, ind⟩ | ⟨-, t38⟩ | ⟨m, row, -, t38⟩
      · rw [t38]
        refine .leave .ced (hl.packet fun ps hb => ?_) (h'.enter hm' rfl rfl (.ced rfl t38))
        rw [ind]
        exact .ced hb
      · rw [t38]
        exact .leave _ (hl.redo _) (h'.enter hm' rfl rfl (.silence rfl t38))
      · rcases t38 with t38 | t38
        · rw [t38]
          refine .leave (.hdlc m false) (hl.packet fun ps hb => ?_)
            (h'.enter hm' rfl rfl (.hdlc m false row t38 (.inl ⟨rfl, .inl rfl⟩)))
          rw [row.ind]
          exact .hdlc row.row hb
        · rw [t38]
          refine .leave (.raw m) (hl.packet fun ps hb => ?_) (h'.enter hm' rfl rfl (.raw m row t38 (.inl rfl)))
          rw [row.ind]
          exact .raw row.row hb

theorem outCedWait_keeps (h : Sends o e) (hl : l.Clean) (hs : e.stateOut = .stOutCedWait) :
    (e.outCedWait l).Keeps o := by
  have ho : o = .ced := by
    rcases h.stage with hst | hst | hst | ⟨hst, -⟩ | hst | ⟨hst, -⟩ | ⟨m, d, -, -, hst⟩ | ⟨m, -, -, hst⟩ <;>
      simp_all
  subst ho
  exact .pause (by simp) hl ⟨(fun hi => by cases hi), fun _ hn => absurd rfl hn, .cedEnd rfl⟩ (by simp)

theorem outSilenceWait_keeps (h : Sends o e) (hl : l.Clean) (hs : e.stateOut = .stOutSilenceWait) :
    (e.outSilenceWait l).Keeps o := by
  have ho : o = .idle := by
    rcases h.stage with hst | hst | hst | ⟨hst, -⟩ | hst | ⟨hst, -⟩ | ⟨m, d, -, -, hst⟩ | ⟨m, -, -, hst⟩ <;>
      simp_all
  subst ho
  exact .pause (by simp) hl ⟨(fun hi => by cases hi), fun hn _ => absurd rfl hn, .idle rfl⟩ (by simp)

/-- In the states of a signal the parameters are those of a row. -/
theorem signal (h : Sends o e)
    (hs : e.stateOut = .stOutIndWait ∨ e.stateOut = .stOutData ∨ e.stateOut = .stOutHdlcFcs ∨
      e.stateOut = .stOutDataNoSig) :
    e.stateModem.isOut = true ∧ (e.modParsOut.dataType = .dtHdlc ∨ e.modParsOut.dataType = .dtRaw) ∧
      ((∃ m d, o = .hdlc m d ∧ IsRow m e.modParsOut ∧ e.modParsOut.dataTypeT38 = .dtHdlc ∧
          ((d = false ∧ (e.stateOut = .stOutIndWait ∨ e.stateOut = .stOutDataNoSig)) ∨
            (d = decide (e.countOut ≠ 0) ∧ (e.stateOut = .stOutData ∨ e.stateOut = .stOutHdlcFcs)))) ∨
        (∃ m, o = .raw m ∧ IsRow m e.modParsOut ∧ e.modParsOut.dataTypeT38 = .dtRaw ∧
          e.stateOut ≠ .stOutHdlcFcs)) := by
  have hm : e.stateModem.isOut = true := h.busy (by rcases hs with hs | hs | hs | hs <;> simp [hs])
    (by rcases hs with hs | hs | hs | hs <;> simp [hs])
  refine ⟨hm, ?_⟩
  have hstage := h.stage
  rcases hstage with hst | hst | hst | ⟨hst, t38⟩ | hst | ⟨hst, t38⟩ | ⟨m, d, row, t38, hst⟩ | ⟨m, row, t38, hst⟩
  · simp [hst] at hs
  · simp [hst] at hs
  · simp [hst] at hs
  · simp [hst] at hs
  · simp [hst] at hs
  · simp [hst] at hs
  · rcases h.pars hm with ⟨-, t, -⟩ | ⟨-, t⟩ | ⟨-, -, data, -⟩
    · simp [t38] at t
    · simp [t38] at t
    · exact ⟨data, .inl ⟨m, d, rfl, row, t38, hst⟩⟩
  · rcases h.pars hm with ⟨-, t, -⟩ | ⟨-, t⟩ | ⟨-, -, data, -⟩
    · simp [t38] at t
    · simp [t38] at t
    · exact ⟨data, .inr ⟨m, rfl, row, t38, by rcases hst with hst | hst | hst <;> simp [hst]⟩⟩

theorem outIndWait_keeps (h : Sends o e) (hl : l.Clean) (hs : e.stateOut = .stOutIndWait) :
    (e.outIndWait now l).Keeps o := by
  obtain ⟨hm, data, hst⟩ := h.signal (.inl hs)
  unfold T38Engine.outIndWait
  rcases hst with ⟨m, d, rfl, row, t38, hd⟩ | ⟨m, rfl, row, t38, -⟩
  · obtain rfl : d = false := by
      rcases hd with ⟨hd, -⟩ | ⟨-, hd | hd⟩
      · exact hd
      · simp [hs] at hd
      · simp [hs] at hd
    have stage (e' : T38Engine) (hp : e'.modParsOut = e.modParsOut) (hm' : e'.stateModem = e.stateModem)
        (hc : e'.countOut = 0) (hs' : e'.stateOut = .stOutData) : Sends (.hdlc m false) e' :=
      h.enter hm hp hm' (.hdlc m false (hp ▸ row) (hp ▸ t38) (.inr ⟨by simp [hc], .inl hs'⟩))
    rcases data with data | data <;> simp only [data, t38]
    · exact .leave _ (hl.redo _) (stage _ rfl rfl rfl rfl)
    · exact .leave _ (hl.redo _) (stage _ rfl rfl rfl rfl)
  · have stage (e' : T38Engine) (hp : e'.modParsOut = e.modParsOut) (hm' : e'.stateModem = e.stateModem)
        (hs' : e'.stateOut = .stOutData) : Sends (.raw m) e' :=
      h.enter hm hp hm' (.raw m (hp ▸ row) (hp ▸ t38) (.inr (.inl hs')))
    rcases data with data | data <;> simp only [data, t38]
    · exact .exit (by simp) (stage _ rfl rfl rfl)
    · exact .leave _ (hl.redo _) (stage _ rfl rfl rfl)

/-- What is made of the octets, or of their end, is the next packet of the signal or none. -/
theorem dataSwitch_keeps (h : Sends o e) (hl : l.Clean) (hs : e.stateOut = .stOutData)
    (count : Option (List Byte)) : (e.dataSwitch now l count).Keeps o := by
  obtain ⟨hm, -, hst⟩ := h.signal (.inr (.inl hs))
  have empty : (e.dataSwitch now l (some [])).Keeps o := by
    unfold T38Engine.dataSwitch
    dsimp only
    split
    · exact .pause (by simp) hl h (fun c hc => by cases hc)
    · split
      · exact .wait hl (h.of_same rfl rfl rfl rfl)
      · split
        · exact .pause (by simp) hl h (fun c hc => by cases hc)
        · exact .wait hl h
  rcases hst with ⟨m, d, rfl, row, t38, hd⟩ | ⟨m, rfl, row, t38, -⟩
  · have hd' : d = decide (e.countOut ≠ 0) := by
      rcases hd with ⟨-, hd | hd⟩ | ⟨hd, -⟩
      · simp [hs] at hd
      · simp [hs] at hd
      · exact hd
    match count with
    | none =>
      simp only [T38Engine.dataSwitch, t38]
      exact .leave _ (hl.redo _) (h.enter hm rfl rfl (.hdlc m d row t38 (.inr ⟨hd', .inr rfl⟩)))
    | some [] => exact empty
    | some (b :: bs) =>
      simp only [T38Engine.dataSwitch, t38]
      refine .leave (.hdlc m true) (hl.packet fun ps hb => ?_)
        (h.enter hm rfl rfl (.hdlc m true row t38 (.inr ⟨by simp, .inl hs⟩)))
      rw [row.msgType]
      exact .hdlcData _ hb
  · match count with
    | none =>
      simp only [T38Engine.dataSwitch, t38]
      exact .leave _ (hl.redo _) (h.enter hm rfl rfl (.raw m row t38 (.inr (.inr rfl))))
    | some [] => exact empty
    | some (b :: bs) =>
      simp only [T38Engine.dataSwitch, t38]
      refine .leave (.raw m) (hl.packet fun ps hb => ?_) (h.enter hm rfl rfl (.raw m row t38 (.inr (.inl hs))))
      rw [row.msgType]
      exact .rawData _ hb

theorem outData_keeps (h : Sends o e) (hl : l.Clean) (hs : e.stateOut = .stOutData) :
    (e.outData now l).Keeps o := by
  unfold T38Engine.outData
  obtain ⟨count, hdlcOut, bufOut⟩ := e.hdlcOut.getData e.bufOut (T38Engine.dataLen e.modParsOut.br)
  have h' : Sends o { e with hdlcOut, bufOut } := h.of_same rfl rfl rfl rfl
  dsimp only
  split
  · exact .pause (by simp) hl h' (fun _ _ => hs)
  · exact h'.dataSwitch_keeps hl hs count

theorem closeFrame_made {m : ModPars} {d : Bool} (row : IsRow m e.modParsOut) (hl : l.Clean)
    (hd : d = decide (e.countOut ≠ 0)) (ok : Bool) :
    Made (.hdlc m d) (e.closeFrame l (if ok then .hdlcFcsOK else .hdlcFcsBAD)) (.hdlc m false) := by
  unfold T38Engine.closeFrame
  split
  next hc =>
    refine hl.packet fun ps hb => ?_
    rw [hd, decide_eq_true hc] at hb
    rw [row.msgType]
    exact .hdlcFcs ok hb
  next hc =>
    rw [hd, decide_eq_false hc]
    exact hl.redo _

theorem outHdlcFcs_keeps (h : Sends o e) (hl : l.Clean) (hs : e.stateOut = .stOutHdlcFcs) :
    (e.outHdlcFcs l).Keeps o := by
  obtain ⟨hm, data, hst⟩ := h.signal (.inr (.inr (.inl hs)))
  rcases hst with ⟨m, d, rfl, row, t38, hd⟩ | ⟨m, -, -, -, hne⟩
  · have hd' : d = decide (e.countOut ≠ 0) := by
      rcases hd with ⟨-, hd | hd⟩ | ⟨hd, -⟩
      · simp [hs] at hd
      · simp [hs] at hd
      · exact hd
    have stage (e' : T38Engine) (hp : e'.modParsOut = e.modParsOut) (hm' : e'.stateModem.isOut = true)
        (hc : e'.countOut = 0) (hs' : e'.stateOut = .stOutData ∨ e'.stateOut = .stOutDataNoSig) :
        Sends (.hdlc m false) e' := by
      refine ⟨fun _ => hp ▸ h.pars hm, fun _ _ => hm', .hdlc m false (hp ▸ row) (hp ▸ t38) ?_⟩
      rcases hs' with hs' | hs'
      · exact .inr ⟨by simp [hc], .inl hs'⟩
      · exact .inl ⟨rfl, .inr hs'⟩
    have made (ok : Bool) := closeFrame_made row hl hd' ok
    unfold T38Engine.outHdlcFcs
    dsimp only
    split
    next hraw =>
      have hstate (c : Option (List Byte)) :
          (if c ≠ none then StateOut.stOutData else .stOutDataNoSig) = .stOutData ∨
            (if c ≠ none then StateOut.stOutData else .stOutDataNoSig) = .stOutDataNoSig := by
        split
        · exact .inl rfl
        · exact .inr rfl
      split
      · exact .call _ (made e.hdlcOut.isFcsOK) (stage _ rfl hm rfl (hstate _))
      · exact .leave _ (made e.hdlcOut.isFcsOK) (stage _ rfl hm rfl (hstate _))
    next hraw =>
      split
      · exact .exit (by simp) (h.of_same rfl rfl rfl rfl)
      · split
        · exact .call _ (made true) (stage _ rfl rfl rfl (.inl rfl))
        · exact .leave _ (made true) (stage _ rfl hm rfl (.inr rfl))
  · exact absurd hs hne

theorem outDataNoSig_keeps (h : Sends o e) (hl : l.Clean) (hs : e.stateOut = .stOutDataNoSig) :
    (e.outDataNoSig l).Keeps o := by
  obtain ⟨hm, -, hst⟩ := h.signal (.inr (.inr (.inr hs)))
  have stage (e' : T38Engine) (hm' : e'.stateModem = .stmIdle) (hs' : e'.stateOut = .stOutNoSig) : Sends .ended e' :=
    ⟨fun hi => by simp [hm', StateModem.isOut] at hi, fun _ hn => absurd hs' hn, .ended hs'⟩
  unfold T38Engine.outDataNoSig
  split
  · exact .exit (by simp) h
  · rcases hst with ⟨m, d, rfl, row, t38, hd⟩ | ⟨m, rfl, row, t38, -⟩
    · obtain rfl : d = false := by
        rcases hd with ⟨hd, -⟩ | ⟨-, hd | hd⟩
        · exact hd
        · simp [hs] at hd
        · simp [hs] at hd
      simp only [t38]
      refine .call .ended (hl.packet fun ps hb => ?_) (stage _ rfl rfl)
      rw [row.msgType]
      exact .hdlcSigEnd hb
    · simp only [t38]
      refine .call .ended (hl.packet fun ps hb => ?_) (stage _ rfl rfl)
      rw [row.msgType]
      exact .rawSigEnd hb

theorem outNoSig_keeps (h : Sends o e) (hl : l.Clean) (hs : e.stateOut = .stOutNoSig) :
    (e.outNoSig now l).Keeps o := by
  have ho : o = .start ∨ o = .ced ∨ o = .ended := by
    rcases h.stage with hst | hst | hst | ⟨hst, -⟩ | hst | ⟨hst, -⟩ | ⟨m, d, -, -, hst⟩ | ⟨m, -, -, hst⟩ <;>
      simp_all
  exact .leave .idle (hl.packet fun ps hb => .noSignal ho hb) ⟨h.pars, fun hn _ => absurd rfl hn, .idle rfl⟩

theorem onIdle_keeps (h : Sends o e) (hl : l.Clean) (hs : e.stateOut = .stOutIdle) : (e.onIdle l).Keeps o := by
  obtain rfl := h.stage_idle hs
  unfold T38Engine.onIdle
  split
  · exact .leave .idle (hl.packet fun ps hb => .cng hb) (h.of_same rfl rfl rfl rfl)
  · exact .wait hl (h.of_same rfl rfl rfl rfl)

/-- The body of `PreparePacket` keeps to the grammar. -/
theorem prepare_keeps (h : Sends o e) (hl : l.Clean) : (e.prepare now l).Keeps o := by
  unfold T38Engine.prepare
  split
  next hc =>
    cases hs : e.stateOut with
    | stOutIdle => exact h.outIdle_keeps hl hs (by simpa [hs] using hc)
    | stOutCedWait => exact h.outCedWait_keeps hl hs
    | stOutSilenceWait => exact h.outSilenceWait_keeps hl hs
    | stOutIndWait => exact h.outIndWait_keeps hl hs
    | stOutData => exact h.outData_keeps hl hs
    | stOutHdlcFcs => exact h.outHdlcFcs_keeps hl hs
    | stOutDataNoSig => exact h.outDataNoSig_keeps hl hs
    | stOutNoSig => exact h.outNoSig_keeps hl hs
  next hc => exact h.onIdle_keeps hl (by simp at hc; exact hc.2)

end Sends

end T38Modem
