import T38Modem.PreparePacket

namespace T38Modem

/-- Which stream of the engine a local pointer of `HandlePacket` points to. -/
inductive Place where
  | modStreamIn | modStreamInSaved
  deriving DecidableEq, Repr

/-- Where `HandlePacket` goes on after a callback. -/
inductive AfterIn where
  | indicator (type : Indicator)
  | dropCarrier
  /-- The fields not yet handled. No stream is pointed to any more. -/
  | fields (rest : List DataField)
  | finish
  | ret
  deriving DecidableEq, Repr

inductive InOutcome where
  | ret (e : T38Engine)
  | call (e : T38Engine) (kind : Callback) (extra : Int) (after : AfterIn)

namespace T38Engine

def streamAt (e : T38Engine) : Place → Option ModStream
  | .modStreamIn => e.modStreamIn
  | .modStreamInSaved => e.modStreamInSaved

/-- Write to the stream pointed to, if it is there. -/
def updateStream (e : T38Engine) (f : ModStream → ModStream) : Option Place → T38Engine
  | none => e
  | some .modStreamIn => { e with modStreamIn := e.modStreamIn.map f }
  | some .modStreamInSaved => { e with modStreamInSaved := e.modStreamInSaved.map f }

/-- `PushBuf` on the stream pointed to. -/
def pushBufAt (e : T38Engine) (p : Option Place) : T38Engine :=
  { e.updateStream (·.pushBuf e.nextBuf) p with nextBuf := e.nextBuf + 1 }

/-- `s != NULL && s->lastBuf != NULL` -/
def isOpen (s : Option ModStream) : Bool := s.any ModStream.isOpen

/-- The stream being filled. -/
def openPlace (e : T38Engine) : Option Place :=
  if isOpen e.modStreamIn then some .modStreamIn
  else if isOpen e.modStreamInSaved then some .modStreamInSaved
  else none

/-- The end of `HandlePacket`. -/
def finishIn (e : T38Engine) : InOutcome :=
  if e.firstIn = false then .call { e with firstIn := false } .updateState cbpUpdateState .ret else .ret e

/-- `if (stateModem == stmInWaitSilence)` and its body. -/
def endSilence (e : T38Engine) (after : AfterIn) (otherwise : T38Engine → InOutcome) : InOutcome :=
  if e.stateModem = .stmInWaitSilence then
    .call { e with stateModem := .stmIdle } .paramIn e.callbackParamIn after
  else otherwise e

def dropCarrier (e : T38Engine) : InOutcome := { e with isCarrierIn := 0 }.endSilence .finish finishIn

/-- `OnUserInput` of a tone, behind which the carrier is dropped. -/
def userInput (e : T38Engine) (tone : Byte) : InOutcome :=
  match e.recvUserInput with
  | none => e.dropCarrier
  | some d =>
    if d.isFull then e.dropCarrier
    else .call { e with recvUserInput := some (d.putData [tone]).2 } .userInput cbpUserInput .dropCarrier

/-- The DTE's wait for data ends with the signal that begins. -/
def endWaitData (e : T38Engine) : InOutcome :=
  if e.stateModem = .stmInWaitData then
    let e :=
      match e.modStreamIn, e.modStreamInSaved with
      | some s, some saved =>
        if s.modPars.isEqual saved.modPars then
          { e with modStreamIn := some (s.move saved), modStreamInSaved := none }
        else
          { e with modStreamIn := some ((s.pushBuf e.nextBuf).putEof diagDiffSig), nextBuf := e.nextBuf + 1 }
      | _, _ => e
    .call { e with stateModem := .stmInReadyData } .paramIn e.callbackParamIn .finish
  else e.finishIn

/-- The indicator of a signal: a stream is opened for it. -/
def training (e : T38Engine) (type : Indicator) : InOutcome :=
  let s := (e.newStream (getModParsByInd type)).pushBuf e.nextBuf
  { e with isCarrierIn := 1, modStreamInSaved := some s, nextBuf := e.nextBuf + 1, countIn := 0 }.endSilence
    .finish endWaitData

/-- The rest of the handling of an indicator once the signal before it has been closed. -/
def indicatorSwitch (e : T38Engine) (type : Indicator) : InOutcome :=
  let e := { e with modStreamInSaved := none }
  match type with
  | .noSignal => e.dropCarrier
  | .ced => e.userInput 0x61
  | .cng => e.userInput 0x63
  | .other _ => e.finishIn
  | _ => e.training type

def repeated (s : Option ModStream) (type : Indicator) : Bool :=
  s.any fun s => s.isOpen && s.modPars.ind == type

def handleIndicator (e : T38Engine) (type : Indicator) : InOutcome :=
  if repeated e.modStreamIn type || repeated e.modStreamInSaved type then e.finishIn
  else if isOpen e.modStreamIn then
    if e.firstIn ∧ e.countIn = 0 ∧ type = .noSignal then e.finishIn
    else
      let e := e.updateStream (·.putEof (diagOutOfOrder ||| diagNoCarrier)) (some .modStreamIn)
      if e.stateModem = .stmInRecvData then .call e .paramIn e.callbackParamIn (.indicator type)
      else e.indicatorSwitch type
  else e.indicatorSwitch type

/-- Handle data. -/
def fieldData (e : T38Engine) (p : Option Place) (f : DataField) : T38Engine :=
  match f.fieldType, f.fieldData with
  | .other _, _ => e
  | _, none => e
  | _, some bs => { e.updateStream (·.putData bs) p with countIn := e.countIn + bs.length }

/-- The frame ends, and a buffer for the next one is put behind it. -/
def closeBuf (e : T38Engine) (p : Option Place) : T38Engine :=
  if p = none then e else (e.updateStream (·.putEof 0) p).pushBufAt p

/-- Handle fcs. -/
def fieldFcs (e : T38Engine) (p : Option Place) (f : DataField) : T38Engine :=
  match f.fieldType with
  | .hdlcFcsBAD | .hdlcFcsBADSigEnd => (e.updateStream (·.setDiag diagBadFcs) p).closeBuf p
  | .hdlcFcsOK | .hdlcFcsOKSigEnd => e.closeBuf p
  | _ => e

def FieldType.isSigEnd : FieldType → Bool
  | .t4NonEcmSigEnd | .hdlcFcsOKSigEnd | .hdlcFcsBADSigEnd | .hdlcSigEnd => true
  | _ => false

/-- What is done when all the fields are handled. -/
def afterFields (e : T38Engine) : InOutcome :=
  if e.stateModem = .stmInRecvData then .call e .paramIn e.callbackParamIn .finish else e.finishIn

/-- The loop over the data fields, with the stream they go to. -/
def handleFields (e : T38Engine) (p : Option Place) : List DataField → InOutcome
  | [] => e.afterFields
  | f :: rest =>
    let e := (e.fieldData p f).fieldFcs p f
    if FieldType.isSigEnd f.fieldType then
      let e : T38Engine := { e.updateStream (·.putEof diagNoCarrier) p with isCarrierIn := 0 }
      if e.stateModem = .stmInWaitSilence then
        .call { e with stateModem := .stmIdle } .paramIn e.callbackParamIn (.fields rest)
      else handleFields e none rest
    else handleFields e p rest

def handleData (e : T38Engine) (type : MsgType) (fields : Option (List DataField)) : InOutcome :=
  let p := e.openPlace
  let bad := p.any fun p => (e.streamAt p).any fun s => s.modPars.msgType != type
  let e := if bad then e.updateStream (·.putEof (diagOutOfOrder ||| diagNoCarrier)) p else e
  e.handleFields (if bad then none else p) (fields.getD [])

/-- `HandlePacket` up to its first callback or its return. -/
def handlePacket (e : T38Engine) : Ifp → InOutcome
  | .t30Indicator type => e.handleIndicator type
  | .data type fields => e.handleData type fields
  | .badTag => e.finishIn

/-- `HandlePacket` from a callback to the next one or to its return. -/
def resumePacket (e : T38Engine) : AfterIn → InOutcome
  | .indicator type => e.indicatorSwitch type
  | .dropCarrier => e.dropCarrier
  | .fields rest => e.handleFields none rest
  | .finish => e.finishIn
  | .ret => .ret e

/-- `HandlePacketLost`, under `Mutex`. The number of packets is for its trace only. -/
def handlePacketLost (e : T38Engine) : T38Engine :=
  let mark (s : ModStream) : ModStream := if s.modPars.msgType = .v21 then s.setDiag diagBadFcs else s
  e.updateStream mark e.openPlace

end T38Engine

/-- Where the thread that calls `HandlePacket` is. -/
inductive InPc where
  | out
  | calling (ifp : Ifp) (kind : Callback) (extra : Int) (after : AfterIn)
  | called (ifp : Ifp) (after : AfterIn)
  deriving DecidableEq, Repr

end T38Modem
