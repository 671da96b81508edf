import T38Modem.ModemCalls

namespace T38Modem

/-- The states that `CheckState` leaves when the call is cleared. -/
def ModemState.inSetUp : ModemState → Bool
  | .stDial | .stConnectWait | .stConnectHandle | .stReqModeAckWait | .stReqModeAckHandle => true
  | _ => false

namespace ModemEngineBody

/-- The loop of `GetDleData` with `n` rounds left. -/
def drainLoop : Nat → ModemEngineBody → Option ResultCode → ModemNext
  | 0, b, resp => done resp b
  | n + 1, b, resp =>
    match b.dleData.getDleData 1024 with
    | (none, d) =>
      let b := { b with dleData := d }.setState .stCommand
      let code : ResultCode :=
        if b.modemClass = .mcAudio then .ok
        else if b.dataType = .dtHdlc then
          if d.diag = 0 then .ok
          else if b.dataCount = 0 ∧ d.diag &&& diagErrorMask = 0 then .noCarrier
          else .error
        else .noCarrier
      done (some code) b
    | (some [], d) => done resp { b with dleData := d }
    | (some bs, d) => (drainLoop n { b with dleData := d } resp).after [.data bs]

/-- The branch `stRecv` behind the loop of `Recv`, which has come to the end or not. -/
def drain (b : ModemEngineBody) (ended : Bool) (resp : Option ResultCode) : ModemNext :=
  (b.drainLoop (b.dleData.data.length + 2) resp).after
    (if b.modemClass = .mcAudio ∧ ended then [.data [DLE, 0x62]] else [])

/-- The frame check sequence behind a frame, which is spoilt when there were errors. -/
def checkOctets (diag : Diag) (fcs : Fcs) : List Byte :=
  let hi : Byte := (fcs.toWord >>> 8).setWidth 8
  [if diag &&& diagErrorMask ≠ 0 then hi + 1 else hi, fcs.toWord.setWidth 8]

/-- What is done when `Recv` gives -1. -/
def recvEnd (a : Answers) (b : ModemEngineBody) : ModemEngineBody :=
  let d :=
    if b.modemClass = .mcAudio then b.dleData.putEnd
    else
      let d :=
        if b.dataType = .dtHdlc then b.dleData.put (checkOctets a.recvDiag b.fcs) else b.dleData
      { d with toDataStream := (d.setDiag a.recvDiag).putEof }
  -- the discarded octets are the frame check sequence of an empty frame and the end
  let d := if b.dataCount = 0 ∧ b.modemClass = .mcFax then (d.getDleData 1024).2 else d
  { b with dleData := d }

/-- The loop of `Recv` with the results that are still to come. -/
def recvLoop (a : Answers) (resp : Option ResultCode) : List (Option (List Byte)) → ModemEngineBody → ModemNext
  | rs, b =>
    if b.currentClassEngine.isNone then
      let d := if b.modemClass ≠ .mcAudio then { b.dleData with toDataStream := b.dleData.setDiag diagError } else b.dleData
      { b with dleData := d.putEnd }.drain true resp
    else
      match rs with
      | [] => b.drain false resp
      | none :: _ => (b.recvEnd a).drain true resp
      | some [] :: _ => b.drain false resp
      | some bs :: rs =>
        if b.modemClass = .mcFax then
          let b := { b with dleData := b.dleData.put bs }
          match b.dataType with
          | .dtHdlc => recvLoop a resp rs { b with fcs := b.fcs.build bs, dataCount := b.dataCount + bs.length }
          | .dtRaw =>
            if b.dataCount = 0 then
              if a.delayFrmConnect then (b, .delaying bs.length resp, [])
              else (recvLoop a resp rs { b with dataCount := b.dataCount + bs.length }).after [.result .connect]
            else recvLoop a resp rs { b with dataCount := b.dataCount + bs.length }
          | _ => recvLoop a resp rs { b with dataCount := b.dataCount + bs.length }
        else
          let bs := a.vcml bs
          recvLoop a resp rs { b with dleData := b.dleData.put bs, dataCount := b.dataCount + bs.length }

/-- The loop of `Recv` behind the delay. -/
def delayed (a : Answers) (b : ModemEngineBody) (count : Nat) (resp : Option ResultCode) : ModemNext :=
  (recvLoop a resp a.recv { b with dataCount := b.dataCount + count }).after [.result .connect]

/-- The branch `stRecvBegHandle`. -/
def recvBegin (a : Answers) (b : ModemEngineBody) (resp : Option ResultCode) : ModemNext :=
  if b.dataType = .dtSilence then
    let (ok, b) := b.sendSilence a
    done (if ok then resp else some .error) b.resetDleData
  else if b.currentClassEngine.isNone ∨ a.recvStart = false then
    done (some .error) (b.setState .stCommand).resetDleData
  else
    match b.modemClass with
    | .mcAudio => done (some .connect) (b.setState .stRecv).resetDleData
    | .mcFax =>
      if a.recvDiag &&& diagDiffSig = 0 then
        let b := if b.dataType = .dtHdlc then { b with fcs := {} } else b
        done (if b.dataType ≠ .dtRaw then some .connect else resp) (b.setState .stRecv).resetDleData
      else done (some .fcError) (b.setState .stCommand).resetDleData
    | .mcUndefined => done (some .error) (b.setState .stCommand).resetDleData

/-- The branch `stConnectHandle` from `chConnectionEstablished` on. -/
def establish (b : ModemEngineBody) (resp : Option ResultCode) : ModemNext :=
  let b := { b with connectionEstablished := true }
  if b.modemClass = .mcAudio ∨ b.callDirection = .cdUndefined then
    -- the rest of the command line follows
    done resp { b.setState .stCommand with timeout := .stopped }
  else if b.t38Engine then done resp { b.setState .stReqModeAckHandle with timeout := .stopped }
  else
    ({ b.setState .stReqModeAckWait with timeout := .start false }, .requestingMode resp,
      [.callback (.requestmode b.callToken)])

/-- The branch `stConnectHandle` from `chTonePlayed` on. -/
def tonePlayed (b : ModemEngineBody) (resp : Option ResultCode) : ModemNext :=
  if b.connectionEstablished = false ∧ b.modemClass = .mcFax then
    done resp { b.setSubState .chConnectionEstablishDelay with timeout := .start false }
  else (b.setSubState .chConnectionEstablished).establish resp

/-- The branch `stConnectHandle` from `chAudioEngineAttached` on. -/
def playTone (a : Answers) (b : ModemEngineBody) (resp : Option ResultCode) : ModemNext :=
  if b.pPlayTone then
    if b.audioEngine = false then done resp (b.setSubState .chWaitAudioEngine)
    else if a.isOpenOut = false then done resp b
    else if a.sendStart ∧ a.sendStop then
      done resp { b.setSubState .chWaitPlayTone with timeout := .start false, pPlayTone := false }
    else
      (b.setState .stCommand).onHook a .dropTone fun b => done (some .error) { b with pPlayTone := false }
  else (b.setSubState .chTonePlayed).tonePlayed resp

def connectHandle (a : Answers) (b : ModemEngineBody) (resp : Option ResultCode) : ModemNext :=
  match b.subState with
  | .chConnected =>
    if b.audioEngine = false then done resp { b.setSubState .chWaitAudioEngine with timeout := .start false }
    else (b.setSubState .chAudioEngineAttached).playTone a resp
  | .chAudioEngineAttached => b.playTone a resp
  | .chTonePlayed => b.tonePlayed resp
  | .chConnectionEstablished => b.establish resp
  | _ => done resp b

/-- The branch `stReqModeAckHandle`. -/
def reqModeAck (a : Answers) (b : ModemEngineBody) (resp : Option ResultCode) : ModemNext :=
  match b.callDirection with
  | .cdIncoming =>
    let b := { b with dataType := .dtCed }.setState .stSend
    if b.t38Engine ∧ a.sendStart then
      let b := b.setState .stSendAckWait
      if a.sendStop then done resp b else done (some .error) (b.setState .stCommand)
    else done (some .noCarrier) (b.setState .stCommand)
  | .cdOutgoing =>
    let (ok, b) := b.recvStart a .dtHdlc
    done (if ok then resp else some .error) b
  | .cdUndefined => done (some .noCarrier) (b.setState .stCommand)

/-- The branch `stSendAckHandle`. -/
def sendAck (a : Answers) (b : ModemEngineBody) (resp : Option ResultCode) : ModemNext :=
  match b.dataType with
  | .dtCed =>
    let (ok, b) := b.sendStart a .dtHdlc
    done (some (if ok then .connect else .error)) b
  | .dtSilence => done (some .ok) (b.setState .stCommand)
  | .dtHdlc | .dtRaw =>
    if b.moreFrames then done (some .connect) (b.setState .stSend).resetDleData
    else done (some .ok) (b.setState .stCommand).resetDleData
  | _ => done resp b

/-- `CheckState` from the last `switch (state)` on. -/
def switchState (a : Answers) (b : ModemEngineBody) (resp : Option ResultCode) : ModemNext :=
  match b.state with
  | .stDial =>
    if b.callState = .cstCleared then
      ({ (b.setCallState .cstDialing).setState .stConnectWait with timeout := .start false }, .dialing resp,
        [.callback .dial])
    else b.onHook a (.done (some .busy)) (done (some .busy))
  | .stSendBufEmptyHandle => (done resp (b.stopSending a).1).after (b.stopSending a).2
  | .stConnectHandle => b.connectHandle a resp
  | .stReqModeAckHandle => b.reqModeAck a resp
  | .stSendAckHandle => b.sendAck a resp
  | .stRecvBegHandle => b.recvBegin a resp
  | .stRecv => recvLoop a resp a.recv b
  | _ => done resp b

/-- `stDial` behind the endpoint callback, which gives a call token with `confirm`. -/
def dialled (a : Answers) (b : ModemEngineBody) (reply : Option String) (resp : Option ResultCode) : ModemNext :=
  match reply with
  | some token => done resp { b with callToken := token }
  | none => { b with timeout := .stopped }.onHook a (.done (some .busy)) (done (some .busy))

/-- `chConnectionEstablished` behind the endpoint callback. -/
def modeRequested (b : ModemEngineBody) (confirm : Bool) (resp : Option ResultCode) : ModemNext :=
  if b.forceFaxMode ∧ confirm = false then
    done (some .noCarrier) { b.setState .stCommand with timeout := .stopped }
  else done resp b

/-- The user input that is pending. Engines keep it in class 8 alone. -/
def userInput (a : Answers) (b : ModemEngineBody) : List ModemOut :=
  if b.modemClass = .mcAudio ∧ (b.audioEngine ∨ b.t38Engine) then
    a.userInput.map fun c =>
      if (0x30 ≤ c ∧ c ≤ 0x39) ∨ (0x41 ≤ c ∧ c ≤ 0x44) ∨ c = 0x2A ∨ c = 0x23 then .data [DLE, 0x2F, DLE, c, DLE, 0x7E]
      else .data [DLE, c]
  else []

/-- `CheckState` from the user input on. -/
def checkReleasing (a : Answers) (b : ModemEngineBody) (resp : Option ResultCode) : ModemNext :=
  ModemNext.after (b.userInput a) <|
    if b.off_hook ∧ b.callState = .cstReleasing ∧ b.callSubState = 0 then
      let b := { b with callSubState := 1 }
      if b.state.inSetUp then
        let resp : Option ResultCode := if b.callDirection = .cdOutgoing then some .busy else some .error
        { b with timeout := .stopped }.onHook a (.switchState resp) fun b => b.switchState a resp
      else b.switchState a resp
    else b.switchState a resp

/-- `CheckState` from `timeout.Get()` on. -/
def checkTimeout (a : Answers) (b : ModemEngineBody) (resp : Option ResultCode) : ModemNext :=
  let (timedOut, t) := b.timeout.get false
  let b := { b with timeout := t }
  let hangUp := fun b : ModemEngineBody =>
    b.onHook a (.releasing (some .noCarrier)) fun b => b.checkReleasing a (some .noCarrier)
  if timedOut then
    match b.state with
    | .stReqModeAckWait | .stRecvBegWait =>
      let b := b.setState .stCommand
      if b.currentClassEngine.isSome then b.checkReleasing a (some .noCarrier) else hangUp b
    | .stConnectHandle =>
      if b.subState = .chConnectionEstablishDelay then (b.setSubState .chConnectionEstablished).checkReleasing a resp
      else hangUp b
    | .stConnectWait => hangUp b
    | _ => b.checkReleasing a resp
  else b.checkReleasing a resp

/-- `CheckState` from `timerRing.Get()` on. -/
def checkRing (a : Answers) (b : ModemEngineBody) : ModemNext :=
  let (rings, t) := b.timerRing.get true
  let b := { b with timerRing := t }
  if rings then
    if b.off_hook ∧ b.pPlayTone = false ∧ b.modemClass = .mcAudio then
      (b.checkTimeout a none).after [.data [DLE, 0x72]]
    else if b.off_hook = false ∧ b.callState = .cstCalled then
      if a.autoAnswer then
        { b with callDirection := .cdIncoming }.answer a (.timeouts (some .ring)) fun b => b.checkTimeout a (some .ring)
      else b.checkTimeout a (some .ring)
    else b.checkTimeout a none
  else b.checkTimeout a none

def checkState (a : Answers) (b : ModemEngineBody) : ModemNext :=
  if a.cmdIsEmpty then
    let (busy, t) := b.timerBusy.get true
    let out := if busy ∧ b.modemClass = ModemClass.mcAudio then [ModemOut.data [DLE, 0x62]] else []
    ({ b with timerBusy := t }.checkRing a).after out
  else b.checkTimeout a none

/-- Where the modem's thread goes on behind `OnHook`. -/
def goOn (a : Answers) (b : ModemEngineBody) : AfterHook → ModemNext
  | .done resp => done resp b
  | .aborted rest => (b, .handling rest, [.result .noCarrier])
  | .dropTone => done (some .error) { b with pPlayTone := false }
  | .switchState resp => b.switchState a resp
  | .releasing resp => b.checkReleasing a resp
  | .timeouts resp => b.checkTimeout a resp

end ModemEngineBody

end T38Modem
