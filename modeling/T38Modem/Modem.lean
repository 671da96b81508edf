import T38Modem.Dle
import T38Modem.Fcs

namespace T38Modem

inductive CallState where
  | cstCleared | cstDialing | cstAlerted | cstCalled | cstAnswering | cstEstablished | cstReleasing
  deriving DecidableEq, Repr

/-- `State` of the modem. -/
inductive ModemState where
  | stCommand | stDial | stConnectWait | stConnectHandle | stReqModeAckWait | stReqModeAckHandle
  | stSend | stSendBufEmptyHandle | stSendAckWait | stSendAckHandle
  | stRecvBegWait | stRecvBegHandle | stRecv
  deriving DecidableEq, Repr

inductive SubStateConnectHandle where
  | chConnected | chWaitAudioEngine | chAudioEngineAttached | chWaitPlayTone | chTonePlayed
  | chConnectionEstablishDelay | chConnectionEstablished
  deriving DecidableEq, Repr

inductive ModemClassEngine where
  | mceAudio | mceT38
  deriving DecidableEq, Repr

inductive ModemClass where
  | mcUndefined | mcAudio | mcFax
  deriving DecidableEq, Repr

inductive CallDirection where
  | cdUndefined | cdOutgoing | cdIncoming
  deriving DecidableEq, Repr

/-- The `state` 0, 1, 2 of a `Timeout`. -/
inductive Timeout where
  | stopped | running | fired
  deriving DecidableEq, Repr

namespace Timeout

/-- `Start`. A continuous timer fires at once. -/
def start (continuous : Bool) : Timeout := if continuous then .fired else .running

def get (continuous : Bool) : Timeout → Bool × Timeout
  | .fired => (true, if continuous then .running else .stopped)
  | t => (false, t)

def onTimeout : Timeout → Timeout
  | .running => .fired
  | t => t

end Timeout

/-- `ModemEngineBody`. Of the pointers `pPlayTone` and `activeEngines` it is kept whether they are
there, and `moves` are the changes of `callState` with the hook state at each of them. -/
structure ModemEngineBody where
  state : ModemState := .stCommand
  subState : SubStateConnectHandle := .chConnected
  off_hook : Bool := false
  callState : CallState := .cstCleared
  callSubState : Nat := 0
  callDirection : CallDirection := .cdUndefined
  lockReleasingState : Int := 0
  connectionEstablished : Bool := false
  forceFaxMode : Bool := false
  callToken : String := ""
  modemClass : ModemClass := .mcFax
  pPlayTone : Bool := false
  audioEngine : Bool := false
  t38Engine : Bool := false
  currentClassEngine : Option ModemClassEngine := none
  timeout : Timeout := .stopped
  timerRing : Timeout := .stopped
  timerBusy : Timeout := .stopped
  dataType : DataType := .dtNone
  dleData : DLEData := {}
  dataCount : Nat := 0
  moreFrames : Bool := false
  fcs : Fcs := {}
  moves : List (Bool × CallState × CallState) := []
  deriving DecidableEq, Repr

/-- What the engines, the registers and the command line answer when they are asked in a step. -/
structure Answers where
  cmdIsEmpty : Bool := true
  autoAnswer : Bool := false
  clearMode : Bool := false
  attach : Bool := true
  sendingNotCompleted : Bool := false
  tryLock : Bool := true
  sendStart : Bool := true
  sendStop : Bool := true
  recvWait : Bool := true
  recvWaitDone : Bool := false
  recvStart : Bool := true
  recvDiag : Diag := 0
  isOpenOut : Bool := true
  delayFrmConnect : Bool := false
  userInput : List Byte := []
  /-- The results of `Recv`, and 0 behind them. -/
  recv : List (Option (List Byte)) := []
  /-- The conversions that `P.Vcml()` chooses, of samples to octets and back. -/
  vcml : List Byte → List Byte := id
  samples : List Byte → List Byte := id

inductive ResultCode where
  | ok | connect | ring | noCarrier | error | busy | fcError
  deriving DecidableEq, Repr

/-- A request to the endpoint, with the call token in it. -/
inductive EndPointCommand where
  | clearcall (token : String)
  | answer (token : String)
  | dial
  | requestmode (token : String)
  deriving DecidableEq, Repr

/-- What goes to the DTE, to the endpoint and, of the data the DTE sends, to the engine. -/
inductive ModemOut where
  | data (bs : List Byte)
  | result (code : ResultCode)
  | callback (command : EndPointCommand)
  | send (bs : List Byte)
  | sendStop (moreFrames : Bool)
  deriving DecidableEq, Repr

namespace ModemEngineBody

def setState (b : ModemEngineBody) (state : ModemState) (subState : SubStateConnectHandle := .chConnected) :
    ModemEngineBody :=
  { b with state, subState }

def setSubState (b : ModemEngineBody) (subState : SubStateConnectHandle) : ModemEngineBody := { b with subState }

def setCallState (b : ModemEngineBody) (new : CallState) : ModemEngineBody :=
  { b with
    callState := new
    callSubState := 0
    moves := if b.callState = new then b.moves else b.moves ++ [(b.off_hook, b.callState, new)] }

def offHook (b : ModemEngineBody) : ModemEngineBody := { b with off_hook := true }

def activeEngine (b : ModemEngineBody) : ModemClassEngine → Bool
  | .mceAudio => b.audioEngine
  | .mceT38 => b.t38Engine

/-- The class of modem that an engine serves. -/
def classOf : ModemClassEngine → ModemClass
  | .mceAudio => .mcAudio
  | .mceT38 => .mcFax

def onChangeModemClass (b : ModemEngineBody) : ModemEngineBody :=
  { b with currentClassEngine := match b.modemClass with
    | .mcAudio => if b.audioEngine then some .mceAudio else none
    | .mcFax => if b.t38Engine then some .mceT38 else none
    | .mcUndefined => none }

/-- `activeEngines[mce] = engine` -/
def setActiveEngine (b : ModemEngineBody) (mce : ModemClassEngine) (engine : Bool) : ModemEngineBody :=
  match mce with
  | .mceAudio => { b with audioEngine := engine }
  | .mceT38 => { b with t38Engine := engine }

/-- `_AttachEngine` -/
def attachEngine (a : Answers) (b : ModemEngineBody) (mce : ModemClassEngine) : ModemEngineBody :=
  if b.activeEngine mce = false ∧ a.attach = false then b
  else
    let b := b.setActiveEngine mce true
    let b := if b.modemClass = classOf mce then { b with currentClassEngine := some mce } else b
    match mce with
    | .mceT38 =>
      if b.state = .stReqModeAckWait then { b.setState .stReqModeAckHandle with timeout := .stopped } else b
    | .mceAudio =>
      if b.state = .stConnectHandle ∧ b.subState = .chWaitAudioEngine then
        { b.setSubState .chAudioEngineAttached with timeout := .stopped }
      else b

/-- The end of `_DetachEngine`. -/
def detached (b : ModemEngineBody) (mce : ModemClassEngine) : ModemEngineBody :=
  let b := b.setActiveEngine mce false
  if b.modemClass = classOf mce then { b with currentClassEngine := none } else b

/-- `if (!activeEngines[mceAudio]) _AttachEngine(mceAudio)` -/
def needAudio (a : Answers) (b : ModemEngineBody) : ModemEngineBody :=
  if b.audioEngine then b else b.attachEngine a .mceAudio

/-- `_ClearCall` up to the endpoint callback. -/
def beginClear (a : Answers) (b : ModemEngineBody) : ModemEngineBody :=
  let b := { b with lockReleasingState := b.lockReleasingState + 1 }
  if b.callState ≠ .cstReleasing then
    let b := { b.setCallState .cstReleasing with
      timerRing := .stopped, connectionEstablished := false, pPlayTone := false }
    if b.off_hook then { b with timerBusy := .start true }.needAudio a else b
  else b

/-- `_ClearCall` behind the endpoint callback. -/
def endClear (b : ModemEngineBody) : ModemEngineBody :=
  let b := { b with lockReleasingState := b.lockReleasingState - 1 }
  if b.lockReleasingState = 0 ∧ b.off_hook = false then b.setCallState .cstCleared else b

/-- The part of `OnHook` that hangs up. -/
def hangUp (b : ModemEngineBody) : ModemEngineBody :=
  { b with timerBusy := .stopped, timeout := .stopped, off_hook := false, callDirection := .cdUndefined,
           forceFaxMode := false, state := .stCommand, subState := .chConnected }

def resetDleData (b : ModemEngineBody) : ModemEngineBody :=
  { b with dleData := b.dleData.clean, dataCount := 0, moreFrames := false }

/-- `SetBitRevDleData`, without `ALAW_132_BIT_REVERSE`. -/
def setBitRevDleData (b : ModemEngineBody) : ModemEngineBody :=
  match b.modemClass with
  | .mcAudio => { b with dleData := { b.dleData with bitRev := false } }
  | .mcFax => { b with dleData := { b.dleData with bitRev := true } }
  | .mcUndefined => b

def sendSilence (a : Answers) (b : ModemEngineBody) : Bool × ModemEngineBody :=
  if b.modemClass = .mcFax ∧ b.currentClassEngine.isSome then
    let b := { b with dataType := .dtSilence }.setState .stSend
    if a.sendStart then
      let b := b.setState .stSendAckWait
      if a.sendStop then (true, b) else (false, b.setState .stCommand)
    else (false, b.setState .stCommand)
  else (false, b.setState .stCommand)

/-- `_SendStart`, where TRUE stands for the response CONNECT. -/
def sendStart (a : Answers) (b : ModemEngineBody) (dt : DataType) : Bool × ModemEngineBody :=
  let b := ({ b with dataType := dt }.resetDleData.setBitRevDleData).setState .stSend
  if b.currentClassEngine.isNone ∨ a.sendStart = false then (false, b.setState .stCommand) else (true, b)

def recvStart (a : Answers) (b : ModemEngineBody) (dt : DataType) : Bool × ModemEngineBody :=
  let b := ({ b with dataType := dt }.setBitRevDleData).setState .stRecvBegWait
  let b := { b with timeout := .start false }
  if b.currentClassEngine.isNone ∨ a.recvWait = false then
    (false, { b.setState .stCommand with timeout := .stopped })
  else if a.recvWaitDone then (true, { b.setState .stRecvBegHandle with timeout := .stopped })
  else (true, b)

/-- `AT+FRS` -/
def recvSilence (a : Answers) (b : ModemEngineBody) : Bool × ModemEngineBody :=
  let b := ({ b with timeout := .start false, dataType := .dtSilence }).setState .stRecvBegWait
  if b.currentClassEngine.isSome ∧ a.recvWait then
    if a.recvWaitDone then { b with timeout := .stopped }.sendSilence a else (true, b)
  else (false, { b with timeout := .stopped }.setState .stCommand)

/-- `AT+VTS` -/
def sendTones (a : Answers) (b : ModemEngineBody) : Bool × ModemEngineBody :=
  let b := ({ b with dataType := .dtRaw, moreFrames := false }).setState .stSend
  if b.currentClassEngine.isSome ∧ a.sendStart then
    let b := b.setState .stSendAckWait
    if a.sendStop then (true, b) else (false, b.setState .stCommand)
  else (false, b.setState .stCommand)

/-- `SendStop` behind the last data of the DTE. -/
def stopSending (a : Answers) (b : ModemEngineBody) : ModemEngineBody × List ModemOut :=
  let b := b.setState .stSendAckWait
  let out := if b.currentClassEngine.isSome then [.sendStop b.moreFrames] else []
  if b.currentClassEngine.isNone ∨ a.sendStop = false then
    ({ b.setState .stSendAckHandle with timeout := .stopped }, out)
  else (b, out)

end ModemEngineBody

end T38Modem
