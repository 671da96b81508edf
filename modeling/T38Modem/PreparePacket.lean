import T38Modem.Engine

namespace T38Modem

/-- Why `PreparePacket` returned 0. -/
inductive Exit where
  | owner | badDataTypeT38 | badDataType | hdlcLikeRaw | hdlcFcsStateModem | dataNoSigStateModem
  deriving DecidableEq, Repr

/-- Which callback of the modem it is that `ModemCallbackWithUnlock` makes. -/
inductive Callback where
  | updateState | outBufNoFull | outBufEmpty | paramOut | paramIn | userInput
  deriving DecidableEq, Repr

/-- The local variables of `PreparePacket`. The packet is `none` as constructed. -/
structure Locals where
  preparePacketTimeoutEnd : Int := 0
  doDalay : Bool := true
  redo : Bool := false
  ifp : Option Ifp := none
  deriving DecidableEq, Repr

/-- Where `PreparePacket` goes on after a callback. -/
inductive AfterOut where
  | begin | redo | redoNoDelay | data (count : Option (List Byte)) | wait | leave
  deriving DecidableEq, Repr

/-- How a part of the body of `PreparePacket` ends: with a return of 0, at the end of the inner loop
or in a callback. -/
inductive Outcome where
  | exit (why : Exit) (e : T38Engine)
  | done (e : T38Engine) (l : Locals) (waitData : Bool)
  | call (e : T38Engine) (l : Locals) (kind : Callback) (extra : Int) (after : AfterOut)

namespace T38Engine

/-- How long a signal waits for the carrier of the other side to drop. -/
def waitms (m : ModPars) : Int :=
  match m.dataType with
  | .dtHdlc => 500
  | .dtRaw => 2000
  | _ => 0

/-- The carrier of the other side puts off the signal. -/
def waitCarrier (e : T38Engine) (now : Int) : Bool × T38Engine :=
  let waitms := waitms e.modParsOut
  if e.isCarrierIn = 0 ∨ waitms = 0 then (false, e)
  else if e.isCarrierIn = 1 then (true, { e with isCarrierIn := 2, timeBeginOut := now + waitms })
  else if e.timeBeginOut > now then (true, e)
  else (false, { e with isCarrierIn := 0 })

def outIdle (e : T38Engine) (now : Int) (l : Locals) : Outcome :=
  if e.delaySignalOut ∧ e.modParsOut.dataType ≠ .dtSilence ∧ e.timeBeginOut > now then
    .done e { l with redo := true } false
  else
    match { e with delaySignalOut := false }.waitCarrier now with
    | (true, e) => .done e { l with redo := true } false
    | (false, e) =>
      match e.modParsOut.dataTypeT38 with
      | .dtHdlc | .dtRaw =>
        .done { e with stateOut := .stOutIndWait } { l with ifp := some (t38indicator e.modParsOut.ind) } false
      | .dtCed =>
        .done { e with stateOut := .stOutCedWait } { l with ifp := some (t38indicator e.modParsOut.ind) } false
      | .dtSilence => .done { e with stateOut := .stOutSilenceWait } { l with redo := true } false
      | _ => .exit .badDataTypeT38 e

def outCedWait (e : T38Engine) (l : Locals) : Outcome :=
  .call { e with stateOut := .stOutNoSig, stateModem := .stmIdle } l .paramOut e.callbackParamOut .redo

def outSilenceWait (e : T38Engine) (l : Locals) : Outcome :=
  .call { e with stateOut := .stOutIdle, stateModem := .stmIdle } l .paramOut e.callbackParamOut .redoNoDelay

def outIndWait (e : T38Engine) (now : Int) (l : Locals) : Outcome :=
  let e := { e with
    stateOut := .stOutData, countOut := 0, startedTimeOutBufEmpty := false, timeBeginOut := now,
    hdlcOut := Hdlc.new e.junk,
    t30 := if e.modParsOut.msgType = .v21 then e.t30.v21Begin else e.t30 }
  let put : Option Hdlc :=
    match e.modParsOut.dataType with
    | .dtHdlc => some (e.hdlcOut.putHdlcData bufOutId)
    | .dtRaw => some (e.hdlcOut.putRawData bufOutId)
    | _ => none
  match put with
  | none => .exit .badDataType e
  | some hdlcOut =>
    match e.modParsOut.dataTypeT38 with
    | .dtHdlc => .done { e with hdlcOut := hdlcOut.getHdlcStart true } { l with redo := true } false
    | .dtRaw =>
      if e.modParsOut.dataType = .dtHdlc then .exit .hdlcLikeRaw { e with hdlcOut }
      else .done { e with hdlcOut := hdlcOut.getRawStart 0 } { l with redo := true } false
    | _ => .exit .badDataTypeT38 { e with hdlcOut }

/-- The `switch` on what `GetData` returned. -/
def dataSwitch (e : T38Engine) (now : Int) (l : Locals) : Option (List Byte) → Outcome
  | none =>
    let e := { e with startedTimeOutBufEmpty := false }
    match e.modParsOut.dataTypeT38 with
    | .dtHdlc => .done { e with stateOut := .stOutHdlcFcs } { l with redo := true } false
    | .dtRaw => .done { e with stateOut := .stOutDataNoSig } { l with redo := true } false
    | _ => .exit .badDataTypeT38 e
  | some [] =>
    if e.hdlcOut.lastChar ≠ none ∧ (e.modParsOut.dataType = .dtHdlc ∨ e.hdlcOut.lastChar ≠ some 0) then
      .call e l .outBufEmpty cbpOutBufEmpty .wait
    else if e.startedTimeOutBufEmpty = false then
      .done { e with timeOutBufEmpty := now + 5000, startedTimeOutBufEmpty := true } l true
    else if e.timeOutBufEmpty ≤ now then .call e l .outBufEmpty cbpOutBufEmpty .wait
    else .done e l true
  | some bs =>
    let e := { e with startedTimeOutBufEmpty := false }
    match e.modParsOut.dataTypeT38 with
    | .dtHdlc =>
      .done
        { e with
          t30 := if e.modParsOut.msgType = .v21 then e.t30.v21Data bs else e.t30
          countOut := e.countOut + bs.length }
        { l with ifp := some (t38data e.modParsOut.msgType .hdlcData bs) } false
    | .dtRaw =>
      .done { e with countOut := e.countOut + bs.length }
        { l with ifp := some (t38data e.modParsOut.msgType .t4NonEcmData bs) } false
    | _ => .exit .badDataTypeT38 e

/-- The octets sent in a packet of `msPerOut` milliseconds. -/
def dataLen (br : Int) : Nat := min ((msPerOut * br).tdiv (8 * 1000)).toNat 54

def outData (e : T38Engine) (now : Int) (l : Locals) : Outcome :=
  let wasFull := e.bufOut.isFull
  let (count, hdlcOut, bufOut) := e.hdlcOut.getData e.bufOut (dataLen e.modParsOut.br)
  let e := { e with hdlcOut, bufOut }
  if wasFull && !e.bufOut.isFull then .call e l .outBufNoFull cbpOutBufNoFull (.data count)
  else e.dataSwitch now l count

/-- The packet that closes a frame, if the frame had octets. -/
def closeFrame (e : T38Engine) (l : Locals) (fieldType : FieldType) : Locals :=
  if e.countOut ≠ 0 then { l with ifp := some (t38data e.modParsOut.msgType fieldType []) }
  else { l with redo := true }

def outHdlcFcs (e : T38Engine) (l : Locals) : Outcome :=
  let e := { e with t30 := if e.modParsOut.msgType = .v21 then e.t30.v21End.v21Begin else e.t30 }
  if e.modParsOut.dataType = .dtRaw then
    let wasFull := e.bufOut.isFull
    let l := e.closeFrame l (if e.hdlcOut.isFcsOK then .hdlcFcsOK else .hdlcFcsBAD)
    let (count, hdlcOut, bufOut) := (e.hdlcOut.getHdlcStart false).getData e.bufOut 0
    let e := { e with
      hdlcOut, bufOut, countOut := 0, stateOut := if count ≠ none then .stOutData else .stOutDataNoSig }
    if wasFull && !e.bufOut.isFull then .call e l .outBufNoFull cbpOutBufNoFull .leave
    else .done e l false
  else if e.stateModem ≠ .stmOutNoMoreData then .exit .hdlcFcsStateModem e
  else
    let l := e.closeFrame l .hdlcFcsOK
    let e := { e with
      countOut := 0, bufOut := e.bufOut.clean, hdlcOut := (e.hdlcOut.putHdlcData bufOutId).getHdlcStart false }
    if e.moreFramesOut then
      .call { e with stateOut := .stOutData, stateModem := .stmOutMoreData } l .paramOut e.callbackParamOut .leave
    else .done { e with stateOut := .stOutDataNoSig } l false

def outDataNoSig (e : T38Engine) (l : Locals) : Outcome :=
  if e.stateModem ≠ .stmOutNoMoreData then .exit .dataNoSigStateModem e
  else
    let stop (fieldType : FieldType) : Outcome :=
      .call { e with stateOut := .stOutNoSig, stateModem := .stmIdle }
        { l with ifp := some (t38data e.modParsOut.msgType fieldType []) } .paramOut e.callbackParamOut .leave
    match e.modParsOut.dataTypeT38 with
    | .dtHdlc => stop .hdlcSigEnd
    | .dtRaw => stop .t4NonEcmSigEnd
    | _ => .exit .badDataTypeT38 e

def outNoSig (e : T38Engine) (now : Int) (l : Locals) : Outcome :=
  .done { e with stateOut := .stOutIdle, delaySignalOut := true, timeBeginOut := now + 75 }
    { l with ifp := some (t38indicator .noSignal) } false

/-- What is sent while no signal is. -/
def onIdle (e : T38Engine) (l : Locals) : Outcome :=
  match e.onIdleOut with
  | .dtCng => .done { e with onIdleOut := .dtNone } { l with ifp := some (t38indicator .cng) } false
  | _ => .done { e with onIdleOut := .dtNone } l true

/-- The part of the inner loop of `PreparePacket` that is run under `Mutex`. -/
def prepare (e : T38Engine) (now : Int) (l : Locals) : Outcome :=
  if e.stateModem.isOut ∨ e.stateOut ≠ .stOutIdle then
    match e.stateOut with
    | .stOutIdle => e.outIdle now l
    | .stOutCedWait => e.outCedWait l
    | .stOutSilenceWait => e.outSilenceWait l
    | .stOutIndWait => e.outIndWait now l
    | .stOutData => e.outData now l
    | .stOutHdlcFcs => e.outHdlcFcs l
    | .stOutDataNoSig => e.outDataNoSig l
    | .stOutNoSig => e.outNoSig now l
  else e.onIdle l

/-- The time that the packet just made takes on the line. -/
def delayEnd (e : T38Engine) (now : Int) : Int :=
  match e.stateOut with
  | .stOutIdle | .stOutDataNoSig | .stOutNoSig => now + msPerOut
  | .stOutCedWait | .stOutSilenceWait | .stOutIndWait => now + e.modParsOut.lenInd
  | .stOutData | .stOutHdlcFcs =>
    e.timeBeginOut + ((e.hdlcOut.rawCount : Int) * 8 * 1000).tdiv e.modParsOut.br + msPerOut

/-- What is done after a wait for data. -/
def dataDelay (e : T38Engine) (now : Int) (l : Locals) : T38Engine × Locals :=
  if e.stateOut = .stOutData then
    ({ e with hdlcOut := e.hdlcOut.resetRawCount, timeBeginOut := now - msPerOut }, { l with doDalay := false })
  else (e, l)

end T38Engine

end T38Modem
