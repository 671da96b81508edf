import T38Modem.HdlcInput
import T38Modem.HdlcSending
import T38Modem.Negotiation
import T38Modem.SenderGrammar
import T38Modem.V21Receive

namespace T38Modem

namespace Hdlc

variable {h : Hdlc} {inp : DataStream} {count : Nat}

/-- Reading a frame that is handed through. Its end is found at the end of the input alone. -/
theorem getData_frame (hi : h.inDataType = .dtHdlc) (ho : h.outDataType = .dtHdlc) (inp : DataStream) (count : Nat) :
    let r := h.getData inp count
    r.2.1.inDataType = .dtHdlc ∧ r.2.1.outDataType = .dtHdlc ∧ (r.2.1.inData = none → h.inData = none ∨ inp.eof = true) ∧
      (r.1 = none → h.inData = none ∨ (inp.data = [] ∧ inp.eof = true)) := by
  by_cases hn : h.inData = none
  · have hg : h.getData inp count = (none, h, inp) := by simp [getData, getHdlcData, getInData, hi, ho, hn]
    rw [hg]
    exact ⟨hi, ho, fun _ => .inl hn, fun _ => .inl hn⟩
  · have hd : h.Direct := ⟨.inl ⟨hi, ho⟩, hn⟩
    obtain ⟨g, hg, hk, ha⟩ := hd.getData inp count
    rw [hg]
    refine ⟨hk.inDataType.trans hi, hk.outDataType.trans ho, fun h0 => ?_, fun h0 => .inr (DataStream.getData_none.mp h0)⟩
    by_cases hc : (inp.getData count).1 = none
    · exact .inr (DataStream.getData_none.mp hc).2
    · exact absurd ((ha hc).symm.trans h0) hn

end Hdlc

/-- The V.21 frames as they are seen from outside: the octets sent of a frame that is not closed yet,
those the DTE has got since `RecvStart`, whether it has met their end, and the frames that have passed. -/
structure Watch where
  sent : List Byte := []
  got : List Byte := []
  ended : Bool := false
  passed : List (List Byte) := []
  deriving DecidableEq

namespace Watch

/-- A field of a data packet of V.21 is sent. -/
def field (w : Watch) (bs : List Byte) : FieldType → Watch
  | .hdlcData => { w with sent := w.sent ++ bs }
  | .hdlcFcsOK | .hdlcFcsBAD => { w with sent := [], passed := w.passed ++ [w.sent] }
  | _ => w

/-- A packet is sent. -/
def packet (w : Watch) : Option Ifp → Watch
  | some (.data .v21 (some [fd])) => w.field (fd.fieldData.getD []) fd.fieldType
  | _ => w

@[simp] theorem packet_none (w : Watch) : w.packet none = w := rfl

@[simp] theorem packet_indicator (w : Watch) (i : Indicator) : w.packet (some (t38indicator i)) = w := rfl

theorem packet_v21 (w : Watch) (f : FieldType) (bs : List Byte) :
    w.packet (some (t38data .v21 f bs)) = w.field bs f := by
  by_cases hb : bs = []
  · simp [packet, t38data, hb]
  · simp [packet, t38data, hb]

theorem packet_other {type : MsgType} (w : Watch) (f : FieldType) (bs : List Byte) (h : type ≠ .v21) :
    w.packet (some (t38data type f bs)) = w := by
  cases type with
  | v21 => exact absurd rfl h
  | _ => rfl

end Watch

/-- What of the engine has to do with the frames of V.21. -/
structure FrameSide where
  t30 : T30
  stateModem : StateModem
  stateOut : StateOut
  countOut : Nat
  modParsOut : ModPars
  v21In : Bool
  eof : Bool
  inDataType : DataType
  outDataType : DataType
  inData : Option BufId

/-- A V.21 frame is being sent. -/
def FrameSide.v21Out (x : FrameSide) : Prop :=
  (x.stateOut = .stOutData ∨ x.stateOut = .stOutHdlcFcs) ∧ x.modParsOut.msgType = .v21 ∧ x.modParsOut.dataTypeT38 = .dtHdlc

def T38Engine.frameSide (e : T38Engine) : FrameSide where
  t30 := e.t30
  stateModem := e.stateModem
  stateOut := e.stateOut
  countOut := e.countOut
  modParsOut := e.modParsOut
  v21In := e.v21In
  eof := e.bufOut.eof
  inDataType := e.hdlcOut.inDataType
  outDataType := e.hdlcOut.outDataType
  inData := e.hdlcOut.inData

/-- The two directions share `t30` without mixing their frames. `eof`, `direct` and `fcs` say that the
frame of a DTE that sends octets without flags is only closed when the DTE has ended it. -/
structure Shares (w : Watch) (x : FrameSide) : Prop where
  agrees : x.t30.Agrees w.passed
  sending : x.v21Out → x.t30.v21frame = w.sent ∧ x.countOut = w.sent.length
  apart : ¬x.v21Out → w.sent = []
  receiving : x.v21In = true → x.t30.v21frame = w.got ∧ (w.ended = true → x.t30.v21End = x.t30)
  eof : x.eof = true → x.stateModem ≠ .stmOutMoreData
  direct : x.stateOut = .stOutData → x.modParsOut.dataType = .dtHdlc → x.modParsOut.dataTypeT38 = .dtHdlc →
    x.inDataType = .dtHdlc ∧ x.outDataType = .dtHdlc ∧ (x.inData = none → x.eof = true)
  fcs : x.stateOut = .stOutHdlcFcs → x.modParsOut.dataType = .dtHdlc → x.stateModem = .stmOutNoMoreData

namespace Outcome

/-- The local variables at the end of a part of the body of `PreparePacket`. -/
def locals : Outcome → Locals
  | .exit _ _ => {}
  | .done _ l _ => l
  | .call _ l _ _ _ => l

/-- A part of the body keeps the frames apart, with the packet it has made counted. -/
structure Shares (w : Watch) (r : Outcome) : Prop where
  shares : T38Modem.Shares (w.packet r.locals.ifp) r.engine.frameSide
  settled : r.engine.stateModem.isOut = false → ∀ w : Watch, w.packet r.locals.ifp = w
  ahead : (OutPc.ofOutcome r).2.1.pending = .data none → r.engine.modParsOut.dataType = .dtHdlc →
    r.engine.modParsOut.dataTypeT38 = .dtHdlc → r.engine.stateModem = .stmOutNoMoreData

variable {w : Watch} {r : Outcome}

/-- The packet, if there is one, is none of a frame. -/
theorem Shares.still (h : T38Modem.Shares w r.engine.frameSide) (hp : ∀ w : Watch, w.packet r.locals.ifp = w)
    (ha : (OutPc.ofOutcome r).2.1.pending ≠ .data none) : r.Shares w :=
  ⟨(hp w).symm ▸ h, fun _ => hp, fun hd => absurd hd ha⟩

theorem Shares.sends (h : T38Modem.Shares (w.packet r.locals.ifp) r.engine.frameSide)
    (ho : r.engine.stateModem.isOut = true) (ha : (OutPc.ofOutcome r).2.1.pending ≠ .data none) : r.Shares w :=
  ⟨h, fun hf => absurd (ho.symm.trans hf) (by decide), fun hd => absurd hd ha⟩

end Outcome

namespace Shares

variable {w : Watch} {x y : FrameSide} {e e' : T38Engine} {o : Stage} {l : Locals} {now : Int}

/-- No frame is sent before, and none behind. -/
theorem of_quiet (h : Shares w x) (ht : y.t30 = x.t30) (hx : ¬x.v21Out)
    (hs : y.stateOut ≠ .stOutData ∧ y.stateOut ≠ .stOutHdlcFcs) (hv : y.v21In = true → x.v21In = true)
    (he : y.eof = true → y.stateModem ≠ .stmOutMoreData) : Shares w y := by
  refine ⟨ht ▸ h.agrees, fun hy => ?_, fun _ => h.apart hx, fun hy => ht ▸ h.receiving (hv hy), he,
    fun hy => absurd hy hs.1, fun hy => absurd hy hs.2⟩
  rcases hy.1 with hy | hy
  · exact absurd hy hs.1
  · exact absurd hy hs.2

theorem not_v21Out (h : x.stateOut ≠ .stOutData) (h' : x.stateOut ≠ .stOutHdlcFcs) : ¬x.v21Out := by
  rintro ⟨hx | hx, -⟩
  · exact h hx
  · exact h' hx

/-- While the modem sends it receives no frame. -/
theorem not_v21In (h : e.stateModem.isOut = true) : e.v21In = false := by
  cases hm : e.stateModem <;> simp [T38Engine.v21In, StateModem.isOut, hm] at h ⊢

theorem waitCarrier_frameSide (e : T38Engine) (now : Int) : (e.waitCarrier now).2.frameSide = e.frameSide := by
  unfold T38Engine.waitCarrier
  dsimp only
  split
  · rfl
  · split
    · rfl
    · split <;> rfl

theorem outIdle_shares (h : Shares w e.frameSide) (hl : l.ifp = none) (hs : e.stateOut = .stOutIdle) :
    (e.outIdle now l).Shares w := by
  have hout : ¬e.frameSide.v21Out := not_v21Out (by simp [T38Engine.frameSide, hs]) (by simp [T38Engine.frameSide, hs])
  unfold T38Engine.outIdle
  split
  · exact .still h (by simp [Outcome.locals, hl]) (by simp [OutPc.ofOutcome, OutPc.pending])
  · have hw := waitCarrier_frameSide { e with delaySignalOut := false } now
    split
    next e' he =>
      rw [he] at hw
      refine .still ?_ (by simp [Outcome.locals, hl]) (by simp [OutPc.ofOutcome, OutPc.pending])
      show Shares w e'.frameSide
      rw [hw]
      exact h
    next e' he =>
      rw [he] at hw
      have h' : Shares w e'.frameSide := hw ▸ h
      have hout' : ¬e'.frameSide.v21Out := hw ▸ hout
      split
      · exact .still (h'.of_quiet rfl hout' ⟨fun h => (by cases h), fun h => by cases h⟩ id h'.eof) (fun _ => rfl) fun h => by cases h
      · exact .still (h'.of_quiet rfl hout' ⟨fun h => (by cases h), fun h => by cases h⟩ id h'.eof) (fun _ => rfl) fun h => by cases h
      · exact .still (h'.of_quiet rfl hout' ⟨fun h => (by cases h), fun h => by cases h⟩ id h'.eof) (fun _ => rfl) fun h => by cases h
      · exact .still (h'.of_quiet rfl hout' ⟨fun h => (by cases h), fun h => by cases h⟩ id h'.eof)
          (by simp [Outcome.locals, hl]) fun h => by cases h
      · exact .still h' (fun _ => rfl) fun h => by cases h

theorem outCedWait_shares (h : Shares w e.frameSide) (hl : l.ifp = none) (hs : e.stateOut = .stOutCedWait) :
    (e.outCedWait l).Shares w := by
  have hout : ¬e.frameSide.v21Out := not_v21Out (by simp [T38Engine.frameSide, hs]) (by simp [T38Engine.frameSide, hs])
  refine .still ?_ (by simp [Outcome.locals, T38Engine.outCedWait, hl]) nofun
  exact h.of_quiet rfl hout ⟨nofun, nofun⟩ nofun fun _ => nofun

theorem outSilenceWait_shares (h : Shares w e.frameSide) (hl : l.ifp = none) (hs : e.stateOut = .stOutSilenceWait) :
    (e.outSilenceWait l).Shares w := by
  have hout : ¬e.frameSide.v21Out := not_v21Out (by simp [T38Engine.frameSide, hs]) (by simp [T38Engine.frameSide, hs])
  refine .still ?_ (by simp [Outcome.locals, T38Engine.outSilenceWait, hl]) nofun
  exact h.of_quiet rfl hout ⟨nofun, nofun⟩ nofun fun _ => nofun

/-- The signal begins with a new frame, where it is one of V.21. -/
theorem begin_frame (h : Shares w x) (hx : ¬x.v21Out) (hv : x.v21In = false)
    (ht : y.t30 = if y.modParsOut.msgType = .v21 then x.t30.v21Begin else x.t30) (hc : y.countOut = 0)
    (hs : y.stateOut = .stOutData) (hi : y.v21In = x.v21In) (he : y.eof = true → y.stateModem ≠ .stmOutMoreData)
    (hd : y.modParsOut.dataType = .dtHdlc → y.modParsOut.dataTypeT38 = .dtHdlc →
      y.inDataType = .dtHdlc ∧ y.outDataType = .dtHdlc ∧ (y.inData = none → y.eof = true)) : Shares w y := by
  refine ⟨?_, fun hy => ?_, fun _ => h.apart hx, fun hy => ?_, he, fun _ => hd, fun hy => ?_⟩
  · rw [ht]
    split
    · exact h.agrees.congr rfl rfl
    · exact h.agrees
  · rw [ht, if_pos hy.2.1, hc, h.apart hx]
    exact ⟨rfl, rfl⟩
  · rw [hi, hv] at hy
    cases hy
  · rw [hs] at hy
    cases hy

theorem outIndWait_shares (h : Shares w e.frameSide) (ho : Sends o e) (hl : l.ifp = none) (hs : e.stateOut = .stOutIndWait) :
    (e.outIndWait now l).Shares w := by
  have hout : ¬e.frameSide.v21Out := not_v21Out (by simp [T38Engine.frameSide, hs]) (by simp [T38Engine.frameSide, hs])
  have hin : e.v21In = false := not_v21In (ho.signal (.inl hs)).1
  unfold T38Engine.outIndWait
  dsimp only
  split
  next hput =>
    refine .still (h.begin_frame hout hin rfl rfl rfl rfl h.eof fun hd => ?_) (fun _ => rfl) nofun
    have hd : e.modParsOut.dataType = .dtHdlc := hd
    simp [hd] at hput
  next hdlcOut hput =>
    split
    next ht =>
      refine .still (h.begin_frame hout hin rfl rfl rfl rfl h.eof fun hd _ => ?_) (by simp [Outcome.locals, hl]) nofun
      have hd : e.modParsOut.dataType = .dtHdlc := hd
      simp only [hd, Option.some.injEq] at hput
      subst hput
      exact ⟨rfl, rfl, nofun⟩
    next ht =>
      have hraw : ¬e.modParsOut.dataTypeT38 = .dtHdlc := by simp [ht]
      split
      · exact .still (h.begin_frame hout hin rfl rfl rfl rfl h.eof fun _ hd => absurd hd hraw) (fun _ => rfl) nofun
      · exact .still (h.begin_frame hout hin rfl rfl rfl rfl h.eof fun _ hd => absurd hd hraw)
          (by simp [Outcome.locals, hl]) nofun
    next hno _ =>
      exact .still (h.begin_frame hout hin rfl rfl rfl rfl h.eof fun _ hd => absurd hd hno) (fun _ => rfl) nofun

/-- Octets of the frame are sent. -/
theorem more_octets (h : Shares w e.frameSide) (hin : e.v21In = false) (bs : List Byte) (hs : e.stateOut = .stOutData)
    (ht : e.modParsOut.dataTypeT38 = .dtHdlc) :
    Shares (w.packet (some (t38data e.modParsOut.msgType .hdlcData bs)))
      { e.frameSide with
        t30 := if e.modParsOut.msgType = .v21 then e.t30.v21Data bs else e.t30
        countOut := e.countOut + bs.length } := by
  by_cases hv : e.modParsOut.msgType = .v21
  · obtain ⟨hf, hc⟩ := h.sending ⟨.inl hs, hv, ht⟩
    have hf : e.t30.v21frame = w.sent := hf
    have hc : e.countOut = w.sent.length := hc
    rw [if_pos hv, hv, Watch.packet_v21]
    refine ⟨h.agrees.congr rfl rfl, fun _ => ⟨?_, ?_⟩, fun hy => absurd ⟨.inl hs, hv, ht⟩ hy,
      fun hy => absurd (hin.symm.trans hy) (by decide), h.eof, h.direct, h.fcs⟩
    · simp [T30.v21Data, Watch.field, hf]
    · simp [Watch.field, hc]
  · rw [if_neg hv, Watch.packet_other w _ _ hv]
    exact ⟨h.agrees, fun hy => absurd hy.2.1 hv, fun _ => h.apart fun hx => hv hx.2.1, h.receiving, h.eof, h.direct, h.fcs⟩

theorem dataSwitch_shares (h : Shares w e.frameSide) (ho : Sends o e) (hl : l.ifp = none) (hs : e.stateOut = .stOutData)
    {count : Option (List Byte)} (hc : count = none → e.modParsOut.dataType = .dtHdlc →
      e.modParsOut.dataTypeT38 = .dtHdlc → e.stateModem = .stmOutNoMoreData) : (e.dataSwitch now l count).Shares w := by
  have hout := (ho.signal (.inr (.inl hs))).1
  have hin : e.v21In = false := not_v21In hout
  unfold T38Engine.dataSwitch
  split
  next =>
    dsimp only
    split
    next ht =>
      refine .still ⟨h.agrees, fun hy => h.sending ⟨.inl hs, hy.2⟩, fun hy => h.apart fun hx => hy ⟨.inr rfl, hx.2⟩,
        h.receiving, h.eof, nofun, fun _ hd => hc rfl hd ht⟩ (by simp [Outcome.locals, hl]) nofun
    next ht =>
      have hx : ¬e.frameSide.v21Out := fun hx => by simpa [ht] using hx.2.2.symm.trans (show e.frameSide.modParsOut.dataTypeT38 = _ from ht)
      exact .still (h.of_quiet rfl hx ⟨nofun, nofun⟩ id h.eof) (by simp [Outcome.locals, hl]) nofun
    next => exact .still h (fun _ => rfl) nofun
  next =>
    split
    · exact .still h (by simp [Outcome.locals, hl]) nofun
    · split
      · exact .still h (by simp [Outcome.locals, hl]) nofun
      · split <;> exact .still h (by simp [Outcome.locals, hl]) nofun
  next bs _ =>
    dsimp only
    split
    next ht => exact .sends (h.more_octets hin bs hs ht) hout nofun
    next ht =>
      have hx : ¬e.frameSide.v21Out := fun hx => by simpa [ht] using hx.2.2.symm.trans (show e.frameSide.modParsOut.dataTypeT38 = _ from ht)
      refine .still ⟨h.agrees, fun hy => absurd hy hx, fun _ => h.apart hx, h.receiving, h.eof, h.direct, h.fcs⟩ ?_ nofun
      intro w
      by_cases hv : e.modParsOut.msgType = .v21
      · simp only [Outcome.locals, hv, Watch.packet_v21]
        rfl
      · exact Watch.packet_other w _ _ hv
    next => exact .still h (fun _ => rfl) nofun

theorem outData_shares (h : Shares w e.frameSide) (ho : Sends o e) (hl : l.ifp = none) (hs : e.stateOut = .stOutData) :
    (e.outData now l).Shares w := by
  have hout := (ho.signal (.inr (.inl hs))).1
  have hstop : e.bufOut.eof = true → e.stateModem = .stmOutNoMoreData := by
    intro he
    have hm := h.eof he
    cases hst : e.stateModem <;> simp [T38Engine.frameSide, StateModem.isOut, hst] at hm hout ⊢
  have heof := @Hdlc.getData_eof e.hdlcOut e.bufOut (T38Engine.dataLen e.modParsOut.br)
  have hread := fun h1 h2 => Hdlc.getData_frame (h := e.hdlcOut) h1 h2 e.bufOut (T38Engine.dataLen e.modParsOut.br)
  unfold T38Engine.outData
  cases hg : e.hdlcOut.getData e.bufOut (T38Engine.dataLen e.modParsOut.br) with
  | mk count r =>
    obtain ⟨hdlcOut, bufOut⟩ := r
    simp only [hg] at heof hread
    have h' : Shares w (T38Engine.frameSide { e with hdlcOut, bufOut }) := by
      refine ⟨h.agrees, h.sending, h.apart, h.receiving, fun he => h.eof (heof.symm.trans he), fun _ hd ht => ?_, h.fcs⟩
      obtain ⟨h1, h2, h3⟩ := h.direct hs hd ht
      obtain ⟨r1, r2, r3, -⟩ := hread h1 h2
      exact ⟨r1, r2, fun hn => heof.trans ((r3 hn).elim h3 id)⟩
    -- the end of the frame is found when the DTE has ended it
    have hend : count = none → e.modParsOut.dataType = .dtHdlc → e.modParsOut.dataTypeT38 = .dtHdlc →
        e.stateModem = .stmOutNoMoreData := by
      intro hn hd ht
      obtain ⟨h1, h2, h3⟩ := h.direct hs hd ht
      obtain ⟨-, -, -, r4⟩ := hread h1 h2
      exact hstop ((r4 hn).elim h3 And.right)
    dsimp only
    split
    next =>
      refine ⟨?_, fun hf => absurd (hout.symm.trans hf) (by decide), fun hp => ?_⟩
      · show Shares (w.packet l.ifp) _
        rw [hl]
        exact h'
      · exact hend (by simpa [OutPc.ofOutcome, OutPc.pending] using hp)
    next => exact h'.dataSwitch_shares (ho.of_same rfl rfl rfl rfl) hl hs hend

/-- The frame that is sent is closed, and the next one begins. -/
theorem close_frame (h : Shares w e.frameSide) (hl : l.ifp = none) (hs : e.stateOut = .stOutHdlcFcs)
    (ht : e.modParsOut.dataTypeT38 = .dtHdlc) {f : FieldType} (hf : f = .hdlcFcsOK ∨ f = .hdlcFcsBAD)
    (hy : y.t30 = if e.modParsOut.msgType = .v21 then e.t30.v21End.v21Begin else e.t30) (hc : y.countOut = 0)
    (hi : y.v21In = false) (hso : y.stateOut = .stOutData ∨ y.stateOut = .stOutDataNoSig)
    (hm : y.modParsOut = e.modParsOut) (he : y.eof = true → y.stateModem ≠ .stmOutMoreData)
    (hd : y.stateOut = .stOutData → e.modParsOut.dataType = .dtHdlc → y.inDataType = .dtHdlc ∧ y.outDataType = .dtHdlc ∧
      (y.inData = none → y.eof = true)) : Shares (w.packet (e.closeFrame l f).ifp) y := by
  have hfcs : y.stateOut ≠ .stOutHdlcFcs := by rcases hso with hso | hso <;> simp [hso]
  have hin {w : Watch} : y.v21In = true → y.t30.v21frame = w.got ∧ (w.ended = true → y.t30.v21End = y.t30) := fun hv => by
    rw [hi] at hv
    cases hv
  have hd : y.stateOut = .stOutData → y.modParsOut.dataType = .dtHdlc → y.modParsOut.dataTypeT38 = .dtHdlc →
      y.inDataType = .dtHdlc ∧ y.outDataType = .dtHdlc ∧ (y.inData = none → y.eof = true) :=
    fun h1 h2 _ => hd h1 (hm ▸ h2)
  by_cases hv : e.modParsOut.msgType = .v21
  · obtain ⟨hsent, hcount⟩ := h.sending ⟨.inr hs, hv, ht⟩
    have hsent : e.t30.v21frame = w.sent := hsent
    have hcount : e.countOut = w.sent.length := hcount
    rw [if_pos hv] at hy
    have hframe : y.t30.v21frame = [] := by rw [hy]; rfl
    by_cases hz : e.countOut = 0
    · -- a frame without octets
      have hnil : w.sent = [] := List.eq_nil_of_length_eq_zero (hcount.symm.trans hz)
      have hend : e.t30.v21End = e.t30 := by
        unfold T30.v21End
        rw [hsent, hnil]
      have hp : w.packet (e.closeFrame l f).ifp = w := by simp [T38Engine.closeFrame, hz, hl]
      rw [hp]
      refine ⟨?_, fun _ => ?_, fun _ => hnil, hin, he, hd, fun hx => absurd hx hfcs⟩
      · rw [hy, hend]
        exact h.agrees.congr rfl rfl
      · rw [hframe, hc, hnil]
        exact ⟨rfl, rfl⟩
    · have hp : w.packet (e.closeFrame l f).ifp = { w with sent := [], passed := w.passed ++ [w.sent] } := by
        simp only [T38Engine.closeFrame, if_pos hz, hv, Watch.packet_v21]
        rcases hf with rfl | rfl <;> rfl
      rw [hp]
      refine ⟨?_, fun _ => ?_, fun _ => rfl, hin, he, hd, fun hx => absurd hx hfcs⟩
      · rw [hy, ← hsent]
        exact h.agrees.v21End.congr rfl rfl
      · rw [hframe, hc]
        exact ⟨rfl, rfl⟩
  · have hp : w.packet (e.closeFrame l f).ifp = w := by
      unfold T38Engine.closeFrame
      split
      · exact Watch.packet_other w _ _ hv
      · simp [hl]
    rw [if_neg hv] at hy
    rw [hp]
    exact ⟨hy ▸ h.agrees, fun hx => absurd (hm ▸ hx.2.1) hv, fun _ => h.apart fun hx => hv hx.2.1, hin, he, hd,
      fun hx => absurd hx hfcs⟩

theorem outHdlcFcs_shares (h : Shares w e.frameSide) (ho : Sends o e) (hl : l.ifp = none) (hs : e.stateOut = .stOutHdlcFcs) :
    (e.outHdlcFcs l).Shares w := by
  obtain ⟨hout, hdata, hst⟩ := ho.signal (.inr (.inr (.inl hs)))
  have hin : e.v21In = false := not_v21In hout
  have ht : e.modParsOut.dataTypeT38 = .dtHdlc := by
    rcases hst with ⟨m, d, -, -, ht, -⟩ | ⟨m, -, -, -, hne⟩
    · exact ht
    · exact absurd hs hne
  unfold T38Engine.outHdlcFcs
  dsimp only
  split
  next hraw =>
    have hok : (if e.hdlcOut.isFcsOK = true then FieldType.hdlcFcsOK else .hdlcFcsBAD) = .hdlcFcsOK ∨
        (if e.hdlcOut.isFcsOK = true then FieldType.hdlcFcsOK else .hdlcFcsBAD) = .hdlcFcsBAD := by
      split
      · exact .inl rfl
      · exact .inr rfl
    have heof := @Hdlc.getData_eof (e.hdlcOut.getHdlcStart false) e.bufOut 0
    cases hg : (e.hdlcOut.getHdlcStart false).getData e.bufOut 0 with
    | mk count r =>
      obtain ⟨hdlcOut, bufOut⟩ := r
      rw [hg] at heof
      have hstate : (if count ≠ none then StateOut.stOutData else .stOutDataNoSig) = .stOutData ∨
          (if count ≠ none then StateOut.stOutData else .stOutDataNoSig) = .stOutDataNoSig := by
        split
        · exact .inl rfl
        · exact .inr rfl
      dsimp only
      split
      · refine .sends ?_ hout nofun
        exact h.close_frame hl hs ht hok rfl rfl hin hstate rfl (fun he => h.eof (heof.symm.trans he))
          fun _ hd => by simp [hraw] at hd
      · refine .sends ?_ hout nofun
        exact h.close_frame hl hs ht hok rfl rfl hin hstate rfl (fun he => h.eof (heof.symm.trans he))
          fun _ hd => by simp [hraw] at hd
  next hraw =>
    have hd : e.modParsOut.dataType = .dtHdlc := hdata.resolve_right hraw
    have hno : e.stateModem = .stmOutNoMoreData := h.fcs hs hd
    rw [if_neg (not_not.mpr hno)]
    split
    · refine .sends ?_ rfl nofun
      exact h.close_frame hl hs ht (.inl rfl) rfl rfl rfl (.inl rfl) rfl nofun fun _ _ => ⟨rfl, rfl, nofun⟩
    · refine .sends ?_ hout nofun
      exact h.close_frame hl hs ht (.inl rfl) rfl rfl hin (.inr rfl) rfl nofun fun _ _ => ⟨rfl, rfl, nofun⟩

/-- The end of the signal is no part of a frame. -/
theorem packet_sigEnd {f : FieldType} (hf : f = .hdlcSigEnd ∨ f = .t4NonEcmSigEnd) (type : MsgType) (w : Watch) :
    w.packet (some (t38data type f [])) = w := by
  by_cases hv : type = .v21
  · rw [hv, Watch.packet_v21]
    rcases hf with rfl | rfl <;> rfl
  · exact Watch.packet_other w _ _ hv

theorem outDataNoSig_shares (h : Shares w e.frameSide) (hs : e.stateOut = .stOutDataNoSig) :
    (e.outDataNoSig l).Shares w := by
  have hout : ¬e.frameSide.v21Out := not_v21Out (by simp [T38Engine.frameSide, hs]) (by simp [T38Engine.frameSide, hs])
  unfold T38Engine.outDataNoSig
  split
  · exact .still h (fun _ => rfl) nofun
  · dsimp only
    split
    · exact .still (h.of_quiet rfl hout ⟨nofun, nofun⟩ nofun fun _ => nofun) (packet_sigEnd (.inl rfl) _) nofun
    · exact .still (h.of_quiet rfl hout ⟨nofun, nofun⟩ nofun fun _ => nofun) (packet_sigEnd (.inr rfl) _) nofun
    · exact .still h (fun _ => rfl) nofun

theorem outNoSig_shares (h : Shares w e.frameSide) (hs : e.stateOut = .stOutNoSig) : (e.outNoSig now l).Shares w := by
  have hout : ¬e.frameSide.v21Out := not_v21Out (by simp [T38Engine.frameSide, hs]) (by simp [T38Engine.frameSide, hs])
  exact .still (h.of_quiet rfl hout ⟨nofun, nofun⟩ id h.eof) (fun _ => rfl) nofun

theorem onIdle_shares (h : Shares w e.frameSide) (hl : l.ifp = none) : (e.onIdle l).Shares w := by
  unfold T38Engine.onIdle
  split
  · exact .still h (fun _ => rfl) nofun
  · exact .still h (by simp [Outcome.locals, hl]) nofun

/-- The body of `PreparePacket` keeps the frames of the two directions apart. -/
theorem prepare_shares (h : Shares w e.frameSide) (ho : Sends o e) (hl : l.ifp = none) : (e.prepare now l).Shares w := by
  unfold T38Engine.prepare
  split
  next =>
    cases hs : e.stateOut with
    | stOutIdle => exact h.outIdle_shares hl hs
    | stOutCedWait => exact h.outCedWait_shares hl hs
    | stOutSilenceWait => exact h.outSilenceWait_shares hl hs
    | stOutIndWait => exact h.outIndWait_shares ho hl hs
    | stOutData => exact h.outData_shares ho hl hs
    | stOutHdlcFcs => exact h.outHdlcFcs_shares ho hl hs
    | stOutDataNoSig => exact h.outDataNoSig_shares hs
    | stOutNoSig => exact h.outNoSig_shares hs
  next => exact h.onIdle_shares hl

end Shares

end T38Modem
