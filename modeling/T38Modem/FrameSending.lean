import T38Modem.CheckQuiet
import T38Modem.DleDecode
import T38Modem.ModemSystem

namespace T38Modem

open Escape

namespace DLEData

/-- A call of no more than 1024 octets takes out of them what the reference reader reads. -/
theorem decoded_short {d : DLEData} {p : List Byte} (hr : d.bitRev = true) (hp : p.length ≤ 1024) :
    d.decoded [] p = { d with
      data := d.data ++ (scan DLE ETX d.dle p).data.map bitRevTable
      dle := (scan DLE ETX d.dle p).pending
      eof := (scan DLE ETX d.dle p).stopped } := by
  have himage : ∀ r ∈ runs d.dle [] p, image d.bitRev r = r.map bitRevTable := by
    intro r hmem
    have hlen := length_of_mem_runs hmem
    have hper : Periodic r := periodic_of_short (by simpa using Nat.le_trans hlen (by simpa using hp))
    rw [hr]
    exact image_eq_iff.mpr fun _ => hper
  have hflat : (runs d.dle [] p).flatten = (scan DLE ETX d.dle p).data := by
    simpa using flatten_runs (p := p) (show d.dle = true → ([] : List Byte) = [] from fun _ => rfl)
  have hall : (runs d.dle [] p).flatMap (image d.bitRev) = (scan DLE ETX d.dle p).data.map bitRevTable := by
    rw [List.flatMap_congr himage, List.flatMap_def, ← List.map_flatten, hflat]
  rw [decoded, hall]

end DLEData

/-- What `SendStop` is told of a frame: its control field has no final bit. -/
def moreToCome (frame : List Byte) : Bool := decide (2 ≤ frame.length) && decide (frame.getD 1 0 &&& 0x08 = 0)

theorem moreToCome_append {sent bs : List Byte} :
    moreToCome (sent ++ bs) =
      if sent.length < 2 ∧ sent.length + bs.length ≥ 2 ∧ bs.getD (1 - sent.length) 0 &&& 0x08 = 0 then true
      else moreToCome sent := by
  unfold moreToCome
  by_cases h : sent.length < 2
  · have hget : (sent ++ bs).getD 1 0 = bs.getD (1 - sent.length) 0 := by
      rw [List.getD_eq_getElem?_getD, List.getD_eq_getElem?_getD, List.getElem?_append_right (by omega)]
    rw [hget, List.length_append]
    have hfew : ¬2 ≤ sent.length := by omega
    by_cases hn : sent.length + bs.length ≥ 2 <;> simp [h, hn, hfew]
  · have hget : (sent ++ bs).getD 1 0 = sent.getD 1 0 := by
      rw [List.getD_eq_getElem?_getD, List.getD_eq_getElem?_getD, List.getElem?_append_left (by omega)]
    rw [hget, List.length_append, if_neg fun hn => h hn.1]
    have hmany : 2 ≤ sent.length := by omega
    have hmany' : 2 ≤ sent.length + bs.length := by omega
    simp only [hmany, hmany']

namespace ModemEngineBody

/-- What of the modem has to do with sending. -/
structure SendSide where
  state : ModemState
  modemClass : ModemClass
  engine : Bool
  dataType : DataType
  dleData : DLEData
  dataCount : Nat
  moreFrames : Bool

def sendSide (b : ModemEngineBody) : SendSide :=
  { state := b.state
    modemClass := b.modemClass
    engine := b.currentClassEngine.isSome
    dataType := b.dataType
    dleData := b.dleData
    dataCount := b.dataCount
    moreFrames := b.moreFrames }

/-- The modem sends frames. -/
structure FaxSending (b : ModemEngineBody) : Prop where
  modemClass : b.modemClass = .mcFax
  engine : b.currentClassEngine.isSome = true
  dataType : b.dataType = .dtHdlc
  bitRev : b.dleData.bitRev = true

variable {a : Answers} {b b' : ModemEngineBody} {resp : Option ResultCode} {mce : ModemClassEngine}

theorem FaxSending.congr (h : FaxSending b) (he : b'.sendSide = b.sendSide) : FaxSending b' :=
  ⟨(congrArg SendSide.modemClass he).trans h.modemClass, (congrArg SendSide.engine he).trans h.engine,
    (congrArg SendSide.dataType he).trans h.dataType, (congrArg (·.dleData.bitRev) he).trans h.bitRev⟩

theorem attachEngine_sendSide (h : FaxSending b) (hs : b.state.untimed = true) :
    (b.attachEngine a mce).sendSide = b.sendSide := by
  have hsome := h.engine
  have hreq : b.state ≠ .stReqModeAckWait := by
    intro he
    rw [he] at hs
    cases hs
  have hcon : b.state ≠ .stConnectHandle := by
    intro he
    rw [he] at hs
    cases hs
  unfold attachEngine
  split
  next => rfl
  next =>
    cases mce with
    | mceT38 =>
      by_cases hm : b.modemClass = classOf .mceT38 <;>
        simp [setActiveEngine, hm, hreq, sendSide, hsome]
    | mceAudio =>
      by_cases hm : b.modemClass = classOf .mceAudio <;>
        simp [setActiveEngine, hm, hcon, sendSide, hsome]

theorem needAudio_sendSide (h : FaxSending b) (hs : b.state.untimed = true) :
    (b.needAudio a).sendSide = b.sendSide := by
  unfold needAudio
  split
  next => rfl
  next => exact attachEngine_sendSide h hs

theorem beginClear_sendSide (h : FaxSending b) (hs : b.state.untimed = true) :
    (b.beginClear a).sendSide = b.sendSide := by
  unfold beginClear
  dsimp only
  split
  next =>
    split
    next =>
      refine Eq.trans (needAudio_sendSide ?_ ?_) ?_
      · exact ⟨h.modemClass, h.engine, h.dataType, h.bitRev⟩
      · exact hs
      · rfl
    next => rfl
  next => rfl

theorem endClear_sendSide : b.endClear.sendSide = b.sendSide := by
  unfold endClear
  dsimp only
  split <;> rfl

theorem request_sendSide (r : Request) (h : FaxSending b) (hs : b.state.untimed = true) :
    (b.request a r).1.sendSide = b.sendSide := by
  have hwait : b.state ≠ .stConnectWait := by
    intro he
    rw [he] at hs
    cases hs
  cases r with
  | call token =>
    unfold request
    dsimp only
    split <;> rfl
  | alerting token =>
    unfold request
    dsimp only
    split
    next => rfl
    next =>
      split
      next =>
        rw [if_neg fun hn => hwait hn.1]
        rfl
      next => rfl
  | established token =>
    unfold request
    dsimp only
    split
    next => rfl
    next =>
      split
      next =>
        split
        next hn => exact absurd hn hwait
        next => rfl
      next => rfl
  | clearcall token next =>
    unfold request
    dsimp only
    split
    next => rfl
    next =>
      split
      next =>
        rw [if_neg fun hn => hwait hn.2.1, endClear_sendSide]
        exact beginClear_sendSide (b := { b with callToken := "" }) ⟨h.modemClass, h.engine, h.dataType, h.bitRev⟩ hs
      next => rfl

/-- While a fax is sent `CheckState` comes to its last `switch` with nothing done but a ring told of. -/
theorem checkState_sending (h : FaxSending b) (hs : b.state.untimed = true)
    (hq : ¬(a.autoAnswer = true ∧ b.off_hook = false ∧ b.callState = .cstCalled)) :
    ∃ b' : ModemEngineBody, ∃ resp, b'.sendSide = b.sendSide ∧ b.checkState a = b'.switchState a resp ∧
      (resp = none ∨ resp = some .ring) := by
  obtain ⟨t, t', t'', n, resp, he, hr⟩ := checkState_quiet a h.modemClass hs hq
  exact ⟨b.retimed t t' t'' n, resp, rfl, he, hr.imp id fun hr => hr.1⟩

/-- The modem takes a frame, of which `r` is read and `sent` is sent. -/
structure Feeding (r : Reading Byte) (sent : List Byte) (b : ModemEngineBody) : Prop extends FaxSending b where
  state : b.state = .stSend
  dle : b.dleData.dle = r.pending
  eof : b.dleData.eof = r.stopped
  data : sent ++ b.dleData.data = r.data.map bitRevTable
  dataCount : b.dataCount = sent.length
  moreFrames : b.moreFrames = moreToCome sent

variable {r : Reading Byte} {sent fed more : List Byte}

theorem Feeding.congr (h : Feeding r sent b) (he : b'.sendSide = b.sendSide) : Feeding r sent b' := by
  have hd : b'.dleData = b.dleData := congrArg SendSide.dleData he
  refine ⟨h.toFaxSending.congr he, (congrArg SendSide.state he).trans h.state, ?_, ?_, ?_,
    (congrArg SendSide.dataCount he).trans h.dataCount, (congrArg SendSide.moreFrames he).trans h.moreFrames⟩
  · rw [hd, h.dle]
  · rw [hd, h.eof]
  · rw [hd, h.data]

/-- The modem that has just said CONNECT. -/
def Unfed (b : ModemEngineBody) : Prop := Feeding ⟨[], false, false, []⟩ [] b

/-- The turn of `HandleData` that gives octets to the decoder. -/
theorem handleData_feeding {c : Byte} {cs : List Byte} (h : Feeding (scan DLE ETX false fed) sent b)
    (ho : (scan DLE ETX false fed).stopped = false) (hl : (c :: cs).length ≤ 1024) :
    ∃ b', b.handleData a (c :: cs) = (b', .sending (scan DLE ETX false (fed ++ c :: cs)).rest, []) ∧
      Feeding (scan DLE ETX false (fed ++ c :: cs)) sent b' := by
  have hopen : b.dleData.eof = false := h.eof.trans ho
  have hscan := @scan_append _ _ DLE ETX fed (c :: cs) false ho
  have hrest : (c :: cs).drop (taken DLE ETX b.dleData.dle (c :: cs)) = (scan DLE ETX b.dleData.dle (c :: cs)).rest := by
    obtain ⟨pre, hpre⟩ := @scan_rest_suffix _ _ DLE ETX (c :: cs) b.dleData.dle
    have hlen := congrArg List.length hpre
    rw [List.length_append] at hlen
    rw [taken, ← hlen, Nat.add_sub_cancel]
    nth_rewrite 1 [← hpre]
    exact List.drop_left
  have hstep : b.handleData a (c :: cs) =
      ({ b with dleData := b.dleData.decoded [] (c :: cs) },
        .sending ((c :: cs).drop (taken DLE ETX b.dleData.dle (c :: cs))), []) := by
    rw [handleData, h.state]
    dsimp only
    rw [DLEData.putDleData_open hopen]
    rfl
  rw [hstep, hrest, DLEData.decoded_short h.bitRev hl, hscan, h.dle]
  refine ⟨_, rfl, ⟨h.modemClass, h.engine, h.dataType, h.bitRev⟩, h.state, rfl, rfl, ?_, h.dataCount, h.moreFrames⟩
  dsimp only [Reading.after]
  rw [← List.append_assoc, h.data, List.map_append]

/-- The modem has stopped the frame, and it waits or it is ready for another command. -/
structure Stopped (m : Modem) : Prop extends FaxSending m.body where
  state : m.body.state = .stSendAckWait ∨ m.body.state = .stSendAckHandle ∨ m.body.state = .stCommand
  pc : m.pc = .idle ∨ ∃ rest, m.pc = .handling rest

theorem Stopped.untimed {m : Modem} (h : Stopped m) : m.body.state.untimed = true := by
  rcases h.state with hs | hs | hs <;> rw [hs] <;> rfl

theorem Stopped.body {m : Modem} (h : Stopped m) (he : b'.sendSide = m.body.sendSide) : Stopped ⟨b', m.pc⟩ := by
  have hs : b'.state = m.body.state := congrArg SendSide.state he
  exact ⟨h.toFaxSending.congr he, hs ▸ h.state, h.pc⟩

/-- The round of `HandleData` that finds the end of the frame. -/
theorem sendRound_end (rest : List Byte) (h : Feeding r sent b) (hd : b.dleData.data = []) (hr : r.stopped = true) :
    ∃ b', b.sendRound a rest = (b', .handling rest, [.sendStop (moreToCome sent)]) ∧ Stopped ⟨b', .handling rest⟩ := by
  have hget : b.dleData.getData 1024 = (none, b.dleData.toDataStream) := by
    rw [DataStream.getData, if_pos hd, if_pos (h.eof.trans hr)]
  unfold sendRound stopSending
  rw [hget]
  dsimp only
  have hsome : ({ b with dleData := { b.dleData with toDataStream := b.dleData.toDataStream } }.setState
      .stSendAckWait).currentClassEngine.isSome = true := h.engine
  rw [if_pos hsome]
  refine ⟨_, Prod.ext rfl (Prod.ext rfl ?_), ?_⟩
  · dsimp only
    split <;> exact congrArg (fun m => [ModemOut.sendStop m]) h.moreFrames
  · split
    next => exact ⟨⟨h.modemClass, h.engine, h.dataType, h.bitRev⟩, .inr (.inl rfl), .inr ⟨rest, rfl⟩⟩
    next => exact ⟨⟨h.modemClass, h.engine, h.dataType, h.bitRev⟩, .inl rfl, .inr ⟨rest, rfl⟩⟩

/-- The round of `HandleData` that finds nothing more for now. -/
theorem sendRound_none (rest : List Byte) (h : Feeding r sent b) (hd : b.dleData.data = []) (hr : r.stopped = false) :
    b.sendRound a rest = (b, .handling rest, []) := by
  have hget : b.dleData.getData 1024 = (some [], b.dleData.toDataStream) := by
    rw [DataStream.getData, if_pos hd, if_neg (by rw [h.eof, hr]; simp)]
  unfold sendRound
  rw [hget]

/-- The round of `HandleData` that sends a part of the frame. -/
theorem sendRound_more (rest : List Byte) (h : Feeding r sent b) (hd : b.dleData.data ≠ []) :
    ∃ bs b', b.sendRound a rest = (b', .sending rest, [.send bs]) ∧ Feeding r (sent ++ bs) b' ∧
      b'.dleData.data.length < b.dleData.data.length := by
  obtain ⟨c, cs, hcs⟩ := List.exists_cons_of_ne_nil hd
  have hget : b.dleData.getData 1024 =
      (some (c :: cs.take 1023), { b.dleData.toDataStream with data := cs.drop 1023 }) := by
    rw [DataStream.getData, if_neg hd, hcs]
    rfl
  unfold sendRound
  rw [hget]
  dsimp only
  refine ⟨c :: cs.take 1023, _, Prod.ext rfl (Prod.ext rfl ?_),
    ⟨⟨h.modemClass, h.engine, h.dataType, h.bitRev⟩, h.state, h.dle, h.eof, ?_, ?_, ?_⟩, ?_⟩
  · dsimp only
    rw [if_pos h.engine, h.modemClass]
  · have hall := h.data
    rw [hcs] at hall
    dsimp only
    rw [List.append_assoc, List.cons_append, List.take_append_drop, hall]
  · dsimp only
    rw [h.dataCount, List.length_append]
  · dsimp only
    rw [moreToCome_append, h.moreFrames, h.dataCount]
    simp only [h.dataType, true_and]
  · dsimp only
    rw [hcs]
    simp only [List.length_drop, List.length_cons]
    omega

end ModemEngineBody

end T38Modem
