import T38Modem.ModStream
import T38Modem.T30

namespace T38Modem

inductive StateOut where
  | stOutIdle | stOutCedWait | stOutSilenceWait | stOutIndWait
  | stOutData | stOutHdlcFcs | stOutDataNoSig | stOutNoSig
  deriving DecidableEq, Repr

inductive StateModem where
  | stmIdle | stmOutMoreData | stmOutNoMoreData
  | stmInWaitSilence | stmInWaitData | stmInReadyData | stmInRecvData
  deriving DecidableEq, Repr

def StateModem.isOut (s : StateModem) : Bool := s = .stmOutMoreData ∨ s = .stmOutNoMoreData

def StateModem.isIn (s : StateModem) : Bool :=
  s = .stmInWaitData ∨ s = .stmInReadyData ∨ s = .stmInRecvData

/-- The reserved parameters of the modem's callback. -/
def cbpOutBufNoFull : Int := 256
def cbpUpdateState : Int := 257
def cbpReset : Int := -1
def cbpOutBufEmpty : Int := -2
def cbpUserInput : Int := -3

/-- The packet threads that may own a direction of the engine. -/
abbrev Owner := Nat

/-- What `T38Engine` uses of `EngineBase`. -/
structure EngineBase where
  modemOpen : Bool
  hOwnerIn : Option Owner
  hOwnerOut : Option Owner
  firstIn : Bool
  firstOut : Bool
  recvUserInput : Option DataStream

/-- The members of `T38Engine` that serve sending. Times are in milliseconds. -/
structure OutSide where
  bufOut : DataStream
  preparePacketTimeout : Int
  preparePacketPeriod : Int
  stateOut : StateOut
  onIdleOut : DataType
  callbackParamOut : Int
  modParsOut : ModPars
  delaySignalOut : Bool
  startedTimeOutBufEmpty : Bool
  timeOutBufEmpty : Int
  timeDelayEndOut : Int
  timeBeginOut : Int
  countOut : Nat
  moreFramesOut : Bool
  hdlcOut : Hdlc
  outDataReady : Bool

/-- The members that serve receiving, and the next free place on the heap. -/
structure InSide where
  callbackParamIn : Int
  countIn : Nat
  modStreamIn : Option ModStream
  modStreamInSaved : Option ModStream
  nextBuf : BufId

structure T38Engine extends EngineBase, OutSide, InSide where
  isCarrierIn : Nat
  t30 : T30
  stateModem : StateModem
  /-- What memory holds that no constructor has written. -/
  junk : Hdlc

namespace T38Engine

def msPerOut : Int := 30

/-- The address of `bufOut`. The buffers of received signals get the places from 1 on. -/
def bufOutId : BufId := 0

/-- The constructor, at the time `now`. -/
def new (junk : Hdlc) (now : Int) : T38Engine where
  modemOpen := false
  hOwnerIn := none
  hOwnerOut := none
  firstIn := true
  firstOut := true
  recvUserInput := none
  bufOut := { threshold := 2048 }
  preparePacketTimeout := -1
  preparePacketPeriod := -1
  stateOut := .stOutNoSig
  onIdleOut := .dtNone
  callbackParamOut := cbpReset
  modParsOut := invalidMods
  delaySignalOut := false
  startedTimeOutBufEmpty := false
  timeOutBufEmpty := now
  timeDelayEndOut := now
  timeBeginOut := now
  countOut := 0
  moreFramesOut := false
  hdlcOut := Hdlc.new junk
  outDataReady := false
  callbackParamIn := cbpReset
  countIn := 0
  modStreamIn := none
  modStreamInSaved := none
  nextBuf := 1
  isCarrierIn := 0
  t30 := {}
  stateModem := .stmIdle
  junk := junk

def isModemOpen (e : T38Engine) : Bool := e.modemOpen

/-- `hOwnerOut != hOwner || !IsModemOpen()` -/
def lostOut (e : T38Engine) (hOwner : Owner) : Bool := e.hOwnerOut ≠ some hOwner ∨ e.isModemOpen = false

/-- `hOwnerIn != hOwner || !IsModemOpen()` -/
def lostIn (e : T38Engine) (hOwner : Owner) : Bool := e.hOwnerIn ≠ some hOwner ∨ e.isModemOpen = false

def signalOutDataReady (e : T38Engine) : T38Engine := { e with outDataReady := true }

/-- `new ModStream(ModPars)` -/
def newStream (e : T38Engine) (modPars : ModPars) : ModStream := ModStream.new e.junk modPars

def onResetModemState (e : T38Engine) : T38Engine :=
  { e with
    modStreamIn := e.modStreamIn.map ModStream.deleteFirstBuf
    bufOut := e.bufOut.putEof
    stateModem := if e.stateModem.isOut then e.stateModem else .stmIdle
    onIdleOut := .dtNone
    callbackParamIn := cbpReset
    callbackParamOut := cbpReset }

def sendOnIdle (e : T38Engine) (dataType : DataType) : T38Engine :=
  { e with onIdleOut := dataType }.signalOutDataReady

/-- The `switch` of `SendStart`: the parameters of the signal, and whether it can be sent. -/
def outPars (e : T38Engine) (dataType : DataType) (param : Int) : ModPars × Bool :=
  match dataType with
  | .dtCed => ({ invalidMods with dataType, dataTypeT38 := dataType, ind := .ced, lenInd := param }, true)
  | .dtSilence => ({ invalidMods with dataType, dataTypeT38 := dataType, ind := .noSignal, lenInd := param }, true)
  | .dtHdlc | .dtRaw =>
    let m := getModPars param
    let m := { m with dataType, dataTypeT38 := hdlcT38 m e.t30.hdlcOnly }
    (m, m.isModValid)
  | _ => (invalidMods, false)

def sendStart (e : T38Engine) (dataType : DataType) (param : Int) : Bool × T38Engine :=
  if e.isModemOpen = false then (false, e)
  else if e.stateModem ≠ .stmIdle then (false, e)
  else
    let e := { e with modStreamIn := none }
    let e := if dataType = .dtSilence then e else { e with modStreamInSaved := none }
    let (m, ok) := e.outPars dataType param
    let e := { e with modParsOut := m }
    if ok then (true, { e with bufOut := e.bufOut.clean, stateModem := .stmOutMoreData }.signalOutDataReady)
    else (false, e)

/-- The checks of `Send` and `SendStop`, made before `Mutex` is taken. -/
def canSend (e : T38Engine) : Bool := e.isModemOpen ∧ e.stateModem = .stmOutMoreData

/-- The rest of `Send`, under `Mutex`. -/
def send (e : T38Engine) (bs : List Byte) : Option Nat × T38Engine :=
  let (res, bufOut) := e.bufOut.putData bs
  (res, { e with bufOut }.signalOutDataReady)

/-- The rest of `SendStop`, under `Mutex`. -/
def sendStop (e : T38Engine) (moreFrames : Bool) (callbackParam : Int) : T38Engine :=
  { e with
    bufOut := e.bufOut.putEof
    stateModem := .stmOutNoMoreData
    moreFramesOut := moreFrames
    callbackParamOut := callbackParam }.signalOutDataReady

/-- A new `modStreamIn` for the DTE, which takes over a saved stream of the same modulation. -/
def openStream (e : T38Engine) (modPars : ModPars) (dataType : DataType) : T38Engine × Bool :=
  let m := { modPars with dataType, dataTypeT38 := hdlcT38 modPars e.t30.hdlcOnly }
  let s := e.newStream m
  match e.modStreamInSaved with
  | none => ({ e with modStreamIn := some s, stateModem := .stmInWaitData }, false)
  | some saved =>
    if s.modPars.isEqual saved.modPars then
      ({ e with modStreamIn := some (s.move saved), modStreamInSaved := none, stateModem := .stmInReadyData }, true)
    else
      ({ e with
          modStreamIn := some ((s.pushBuf e.nextBuf).putEof diagDiffSig)
          nextBuf := e.nextBuf + 1
          stateModem := .stmInReadyData }, true)

/-- The results are those of the call and the parameter `done`. -/
def recvWait (e : T38Engine) (dataType : DataType) (param : Int) (callbackParam : Int) :
    Bool × Bool × T38Engine :=
  if e.isModemOpen = false then (false, false, e)
  else if e.stateModem ≠ .stmIdle then (false, false, e)
  else
    match dataType with
    | .dtSilence =>
      match e.modStreamIn with
      | none => (true, true, e)
      | some _ =>
        let e := { e with modStreamIn := none }
        if e.isCarrierIn ≠ 0 ∧ e.modStreamInSaved = none then
          (true, false, { e with callbackParamIn := callbackParam, stateModem := .stmInWaitSilence })
        else (true, true, e)
    | .dtHdlc | .dtRaw =>
      let modParsIn := getModPars param
      if modParsIn.isModValid = false then (false, false, e)
      else
        let e := { e with callbackParamIn := callbackParam }
        match e.modStreamIn.map ModStream.deleteFirstBuf with
        | none =>
          let (e, done) := e.openStream modParsIn dataType
          (true, done, e)
        | some s =>
          if s.bufQ ≠ [] ∧ modParsIn.isEqual s.modPars then
            let m := { s.modPars with dataType, dataTypeT38 := hdlcT38 s.modPars e.t30.hdlcOnly }
            (true, true, { e with modStreamIn := some { s with modPars := m }, stateModem := .stmInReadyData })
          else
            let (e, done) := e.openStream modParsIn dataType
            (true, done, e)
    | _ => (false, false, e)

def recvStart (e : T38Engine) (callbackParam : Int) : Bool × T38Engine :=
  if e.isModemOpen = false then (false, e)
  else if e.stateModem ≠ .stmInReadyData then (false, e)
  else
    let e := { e with callbackParamIn := callbackParam }
    match e.modStreamIn with
    | none => (false, { e with stateModem := .stmIdle })
    | some s =>
      match s.popBuf e.junk with
      | (true, s) =>
        let t30 := if s.modPars.msgType = .v21 then e.t30.v21Begin else e.t30
        (true, { e with modStreamIn := some s, t30, stateModem := .stmInRecvData })
      | (false, _) => (false, { e with modStreamIn := none, stateModem := .stmIdle })

def recv (e : T38Engine) (count : Nat) : Option (List Byte) × T38Engine :=
  if e.isModemOpen = false then (none, e)
  else if e.stateModem ≠ .stmInRecvData then (none, e)
  else
    match e.modStreamIn with
    | none => (none, e)
    | some s =>
      let (res, s) := s.getData count
      let t30 :=
        if s.modPars.msgType = .v21 then
          match res with
          | none => e.t30.v21End
          | some [] => e.t30
          | some bs => e.t30.v21Data bs
        else e.t30
      (res, { e with modStreamIn := some s, t30 })

def recvDiag (e : T38Engine) : Diag :=
  match e.modStreamIn with
  | none => diagError
  | some s =>
    match s.firstBuf with
    | none => diagError
    | some b => b.stream.diag

def recvStop (e : T38Engine) : T38Engine :=
  if e.isModemOpen = false then e
  else if e.stateModem.isIn = false then e
  else { e with modStreamIn := e.modStreamIn.map ModStream.deleteFirstBuf, stateModem := .stmIdle }

def setPreparePacketTimeout (e : T38Engine) (hOwner : Owner) (timeout period : Int) : T38Engine :=
  if e.hOwnerOut ≠ some hOwner then e
  else { e with preparePacketTimeout := timeout, preparePacketPeriod := period }

end T38Engine

end T38Modem
