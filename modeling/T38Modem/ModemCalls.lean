import T38Modem.Modem

namespace T38Modem

/-- Where the modem's thread goes on behind `OnHook` or `Answer`. `resp` is the local of
`CheckState`. -/
inductive AfterHook where
  | done (resp : Option ResultCode)
  /-- In `HandleData`, with what is left of its buffer. -/
  | aborted (rest : List Byte)
  /-- The rest of the branch of `CheckState` that failed to play its tone. -/
  | dropTone
  | switchState (resp : Option ResultCode)
  | releasing (resp : Option ResultCode)
  | timeouts (resp : Option ResultCode)
  deriving DecidableEq, Repr

/-- Where the modem's thread is when it does not hold the mutex. -/
inductive BodyPc where
  | idle
  /-- In `HandleData` with what is left of its buffer, before the `switch` on `state`. -/
  | handling (rest : List Byte)
  /-- In `HandleData` between two rounds of `GetData`. -/
  | sending (rest : List Byte)
  /-- In `_DetachEngine`, called by `OnHook`. -/
  | detaching (mce : ModemClassEngine) (after : AfterHook)
  /-- In the callbacks of `_ClearCall`, `Answer` and `CheckState`. -/
  | clearing (after : AfterHook)
  | answering (after : AfterHook)
  | dialing (resp : Option ResultCode)
  | requestingMode (resp : Option ResultCode)
  /-- In the delay of `CheckState` before CONNECT, with `count` octets just received. -/
  | delaying (count : Nat) (resp : Option ResultCode)
  deriving DecidableEq, Repr

abbrev ModemNext := ModemEngineBody × BodyPc × List ModemOut

/-- Put `out` in front of what comes out. -/
def ModemNext.after (out : List ModemOut) (n : ModemNext) : ModemNext := (n.1, n.2.1, out ++ n.2.2)

namespace ModemEngineBody

/-- `_ClearCall`, and `k` behind it. -/
def clearCall (a : Answers) (b : ModemEngineBody) (after : AfterHook) (k : ModemEngineBody → ModemNext) : ModemNext :=
  if b.callState = .cstCleared then k b
  else
    let b := b.beginClear a
    if b.callToken ≠ "" then
      ({ b with callToken := "" }, .clearing after, [.callback (.clearcall b.callToken)])
    else k b.endClear

/-- `_DetachEngine`, and `k` behind it. It has `waited` when it has released the mutex before. -/
def detachEngine (a : Answers) (b : ModemEngineBody) (mce : ModemClassEngine) (waited : Bool) (after : AfterHook)
    (k : ModemEngineBody → ModemNext) : ModemNext :=
  if b.activeEngine mce = false then k b
  else if waited = false ∧ b.callToken ≠ "" ∧ a.sendingNotCompleted then (b, .detaching mce after, [])
  else if a.tryLock then k (b.detached mce)
  else (b, .detaching mce after, [])

/-- `OnHook` from the second `_DetachEngine` on. -/
def onHookAudio (a : Answers) (b : ModemEngineBody) (waited : Bool) (after : AfterHook)
    (k : ModemEngineBody → ModemNext) : ModemNext :=
  b.detachEngine a .mceAudio waited after fun b => b.clearCall a after k

/-- `OnHook` from the first `_DetachEngine` on. -/
def onHookT38 (a : Answers) (b : ModemEngineBody) (waited : Bool) (after : AfterHook)
    (k : ModemEngineBody → ModemNext) : ModemNext :=
  b.detachEngine a .mceT38 waited after fun b => b.onHookAudio a false after k

def onHook (a : Answers) (b : ModemEngineBody) (after : AfterHook) (k : ModemEngineBody → ModemNext) : ModemNext :=
  if b.off_hook then b.hangUp.onHookT38 a false after k else b.clearCall a after k

/-- `Answer` up to the endpoint callback, and `k` behind it. -/
def answer (a : Answers) (b : ModemEngineBody) (after : AfterHook) (k : ModemEngineBody → ModemNext) : ModemNext :=
  let b := { b.offHook with timerRing := .stopped, forceFaxMode := true }
  if b.connectionEstablished = false then
    if b.callState = .cstCalled then
      let b := { (b.setCallState .cstAnswering).setState .stConnectWait with timeout := .start false }
      (b, .answering after, [.callback (.answer b.callToken)])
    else b.onHook a after k
  else k ({ b with timeout := .stopped }.setState .stConnectHandle .chConnectionEstablished)

/-- `Answer` behind the endpoint callback. -/
def answered (a : Answers) (b : ModemEngineBody) (confirm : Bool) (after : AfterHook)
    (k : ModemEngineBody → ModemNext) : ModemNext :=
  if confirm then k b else b.onHook a after k

/-- The end of an operation. -/
def done (resp : Option ResultCode) (b : ModemEngineBody) : ModemNext :=
  (b, .idle, (resp.map ModemOut.result).toList)

/-- What `ATD` has made of its dial string. -/
structure DialString where
  err : Bool
  semicolon : Bool
  forceFax : Bool
  tone : Bool
  deriving DecidableEq, Repr

/-- `ATD` -/
def dial (a : Answers) (b : ModemEngineBody) (d : DialString) : ModemNext :=
  let wasOnHook := !b.off_hook
  let b := b.offHook
  let b := if b.callToken ≠ "" then b else { b with pPlayTone := false }
  let direction : CallDirection := if d.semicolon then .cdUndefined else .cdOutgoing
  if d.err then
    if wasOnHook then b.onHook a (.done none) (done none) else done none b
  else if b.callToken ≠ "" then
    if b.connectionEstablished then
      let b := { b with callDirection := direction, forceFaxMode := b.forceFaxMode || d.forceFax }
      done none { b.setState .stConnectHandle .chConnected with pPlayTone := b.pPlayTone || d.tone }
    else b.onHook a (.done none) (done none)
  else
    let b := { b with callDirection := direction, forceFaxMode := d.forceFax, timerRing := .stopped }.setState .stDial
    done none { b with pPlayTone := b.pPlayTone || d.tone, timeout := .start false }

/-- The commands that have to do with calls, engines or states. -/
inductive Command where
  /-- `ATA`, `AT+VLS=1`, `5` and `7` -/
  | answer (direction : CallDirection)
  | dial (d : DialString)
  /-- `ATH`, `AT+VLS=0`; `ATH` changes to class 1 before. -/
  | hook (class1 : Bool)
  /-- `ATZ`, `AT&F` with the class of the profile -/
  | reset (cl : ModemClass)
  /-- `AT+FCLASS` -/
  | fclass (cl : ModemClass)
  | sendSilence
  | recvSilence
  | sendStart (dt : DataType)
  | recvStart (dt : DataType)
  | sendTones
  deriving DecidableEq, Repr

def command (a : Answers) (b : ModemEngineBody) : Command → ModemNext
  | .answer direction => { b with callDirection := direction }.answer a (.done none) (done none)
  | .dial d => b.dial a d
  | .hook class1 =>
    let b := if class1 then { b with modemClass := .mcFax }.onChangeModemClass else b
    if b.off_hook ∨ a.clearMode then b.onHook a (.done none) (done none) else done none b
  | .reset cl =>
    let b := { b with modemClass := cl }.onChangeModemClass
    if b.off_hook then b.onHook a (.done none) (done none) else done none b
  | .fclass cl => done none { b with modemClass := cl }.onChangeModemClass
  | .sendSilence => done none (b.sendSilence a).2
  | .recvSilence => done none (b.recvSilence a).2
  | .sendStart dt => done none (b.sendStart a dt).2
  | .recvStart dt => done none (b.recvStart a dt).2
  | .sendTones => done none (b.sendTones a).2

/-- The requests of the endpoint, with their call token. -/
inductive Request where
  | call (token : String)
  | alerting (token : String)
  | established (token : String)
  | clearcall (token : String) (trynextcommand : Bool)
  deriving DecidableEq, Repr

def Request.token : Request → String
  | .call token | .alerting token | .established token | .clearcall token _ => token

/-- `CallToken().IsEmpty() || CallToken() == request("calltoken")` -/
def inUseBy (b : ModemEngineBody) (token : String) : Bool := b.callToken = "" || b.callToken = token

/-- `Request`, and whether the response is `confirm`. -/
def request (a : Answers) (b : ModemEngineBody) : Request → ModemEngineBody × Bool
  | .call token =>
    if b.callState ≠ .cstCleared ∨ b.off_hook then (b, false)
    else ({ b.setCallState .cstCalled with callToken := token, timerRing := .start true }, true)
  | .alerting token =>
    if b.callState ≠ .cstDialing ∨ b.off_hook = false then (b, false)
    else if b.inUseBy token then
      let b := b.setCallState .cstAlerted
      if b.state = .stConnectWait ∧ b.pPlayTone = false ∧ b.modemClass = .mcAudio then
        ({ b.setState .stConnectHandle .chConnected with timerRing := .start true }.needAudio a, true)
      else (b, false)
    else (b, false)
  | .established token =>
    if (b.callState ≠ .cstDialing ∧ b.callState ≠ .cstAlerted ∧ b.callState ≠ .cstAnswering) ∨ b.off_hook = false then
      (b, false)
    else if b.inUseBy token then
      let b := { b with timerRing := .stopped }.setCallState .cstEstablished
      if b.state = .stConnectWait then (b.setState .stConnectHandle .chConnected, true) else (b, false)
    else (b, false)
  | .clearcall token trynextcommand =>
    if b.callState = .cstCleared ∨ b.callState = .cstReleasing then (b, false)
    else if b.inUseBy token then
      let b := { b with callToken := "" }
      if b.callState = .cstDialing ∧ b.state = .stConnectWait ∧ trynextcommand then
        ((b.setCallState .cstCleared).setState .stDial, true)
      -- `_ClearCall` does not call the endpoint: there is no token left
      else ((b.beginClear a).endClear, true)
    else (b, false)

/-- `OnEngineCallback` with `cbpOutBufEmpty`. -/
def onOutBufEmpty (b : ModemEngineBody) : ModemEngineBody :=
  if b.state = .stSend then b.setState .stSendBufEmptyHandle else b

/-- `OnEngineCallback` with `extra == seq`. -/
def onSeq (b : ModemEngineBody) : ModemEngineBody :=
  match b.state with
  | .stSendAckWait => { b.setState .stSendAckHandle with timeout := .stopped }
  | .stRecvBegWait => { b.setState .stRecvBegHandle with timeout := .stopped }
  | .stConnectHandle =>
    if b.subState = .chWaitPlayTone then { b.setSubState .chTonePlayed with timeout := .stopped } else b
  | _ => b

end ModemEngineBody

end T38Modem
