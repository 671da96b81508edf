import T38Modem.FieldStores

namespace T38Modem

namespace T38Engine

/-- `Attach`, but for the callback it is given. -/
def attach (e : T38Engine) : T38Engine :=
  if e.isModemOpen then e else { e with modemOpen := true }.onResetModemState

def detach (e : T38Engine) : T38Engine :=
  if e.isModemOpen then { e with modemOpen := false }.onResetModemState.signalOutDataReady else e

/-- `CloseIn` of the owner. `T38Engine` has no fake owner of the in side. -/
def closeIn (e : T38Engine) : T38Engine := { e with hOwnerIn := none }.signalOutDataReady

/-- A round of the loop of `OpenIn` by another than the owner: the owner is displaced, or the loop ends. -/
def openIn (e : T38Engine) (hOwner : Owner) : T38Engine :=
  if e.hOwnerIn = none then { e with hOwnerIn := some hOwner, firstIn := true } else e.closeIn

/-- The end of `OnChangeEnableFakeIn`. -/
def fakeInSilence (e : T38Engine) : T38Engine × List Event :=
  if e.stateModem = .stmInWaitSilence then
    ({ e with stateModem := .stmIdle }, [.callbackIn .paramIn e.callbackParamIn])
  else (e, [])

/-- `OnChangeEnableFakeIn` behind the callback that ends a receive. -/
def resumeEnableFakeIn (e : T38Engine) (isEnableFakeIn : Bool) : T38Engine × List Event :=
  if e.hOwnerIn.isSome ∨ isEnableFakeIn = false then (e, []) else e.fakeInSilence

/-- `OnChangeEnableFakeIn`, and whether it is left in the callback that ends a receive. -/
def onChangeEnableFakeIn (e : T38Engine) (isEnableFakeIn : Bool) : Bool × T38Engine × List Event :=
  if e.hOwnerIn.isSome ∨ isEnableFakeIn = false then (false, e, [])
  else
    let e := { e with isCarrierIn := 0, modStreamInSaved := none }
    if isOpen e.modStreamIn then
      let diag := (if e.countIn = 0 then 0 else diagOutOfOrder) ||| diagNoCarrier
      let e := e.updateStream (·.putEof diag) (some .modStreamIn)
      if e.stateModem = .stmInRecvData then (true, e, [.callbackIn .paramIn e.callbackParamIn])
      else (false, e.fakeInSilence)
    else (false, e.fakeInSilence)

end T38Engine

/-- An engine with the threads that receive for it, each under the handle it opens the in side with, and
the calls of `EnableFakeIn` that are in a callback. -/
structure StreamSys where
  e : T38Engine
  isEnableFakeIn : Bool
  inn : Owner → InPc
  changing : Nat

inductive StreamAct where
  | attach | detach
  | openIn (hOwner : Owner)
  | closeIn (hOwner : Owner)
  | handlePacket (hOwner : Owner) (ifp : Ifp)
  /-- A step of the thread in `HandlePacket`. -/
  | inn (hOwner : Owner)
  | handlePacketLost (hOwner : Owner)
  | enableFakeIn (enable : Bool)
  /-- The rest of `EnableFakeIn` behind its callback. -/
  | changed
  | sendStart (dataType : DataType) (param : Int)
  | resetModemState
  | recvWait (dataType : DataType) (param : Int) (callbackParam : Int)
  | recvStart (callbackParam : Int)
  | recv (count : Nat)
  | recvStop
  /-- What sending and its thread may write, which is nothing of the streams. -/
  | others (out : OutSide) (hOwnerOut : Option Owner) (isCarrierIn : Nat) (t30 : T30) (stateModem : StateModem)

namespace StreamSys

def start (junk : Hdlc) (now : Int) : StreamSys where
  e := T38Engine.new junk now
  isEnableFakeIn := false
  inn _ := .out
  changing := 0

/-- The thread `hOwner` has come to its next stop. -/
def ofInOutcome (s : StreamSys) (hOwner : Owner) (ifp : Ifp) : InOutcome → StreamSys × List Event
  | .ret e => ({ s with e, inn := Function.update s.inn hOwner .out }, [.handled ifp true])
  | .call e kind extra after => ({ s with e, inn := Function.update s.inn hOwner (.calling ifp kind extra after) }, [])

def innStep (s : StreamSys) (hOwner : Owner) : Option (StreamSys × List Event) :=
  match s.inn hOwner with
  | .out => none
  | .calling ifp kind extra after =>
    some ({ s with inn := Function.update s.inn hOwner (.called ifp after) }, [.callbackIn kind extra])
  | .called ifp after =>
    -- behind the callback of a tone the owner is not checked
    if after ≠ .dropCarrier ∧ s.e.lostIn hOwner then
      some ({ s with inn := Function.update s.inn hOwner .out }, [.handled ifp false])
    else some (s.ofInOutcome hOwner ifp (s.e.resumePacket after))

/-- A handle is opened by the thread that calls `HandlePacket` with it, one call after the other. -/
def step (s : StreamSys) : StreamAct → Option (StreamSys × List Event)
  | .attach => some ({ s with e := s.e.attach }, [])
  | .detach => some ({ s with e := s.e.detach }, [])
  | .openIn h =>
    if s.inn h ≠ .out then none
    else if s.e.hOwnerIn = some h then some (s, [])
    else some ({ s with e := s.e.openIn h }, [.callbackIn .updateState cbpUpdateState])
  | .closeIn h =>
    if s.e.hOwnerIn = some h then
      some ({ s with e := s.e.closeIn, isEnableFakeIn := false }, [.callbackIn .updateState cbpUpdateState])
    else some (s, [])
  | .handlePacket h ifp =>
    if s.inn h ≠ .out then none
    else if s.e.lostIn h then some (s, [.handled ifp false])
    else some (s.ofInOutcome h ifp (s.e.handlePacket ifp))
  | .inn h => s.innStep h
  | .handlePacketLost h =>
    if s.inn h ≠ .out then none
    else if s.e.lostIn h then some (s, [])
    else some ({ s with e := s.e.handlePacketLost }, [])
  | .enableFakeIn enable =>
    if s.isEnableFakeIn = enable then some (s, [])
    else
      let (waits, e, es) := s.e.onChangeEnableFakeIn enable
      some ({ s with e, isEnableFakeIn := enable, changing := if waits then s.changing + 1 else s.changing }, es)
  | .changed =>
    if s.changing = 0 then none
    else
      let (e, es) := s.e.resumeEnableFakeIn s.isEnableFakeIn
      some ({ s with e, changing := s.changing - 1 }, es)
  | .sendStart dataType param =>
    let (ok, e) := s.e.sendStart dataType param
    some ({ s with e }, [.sendStart dataType ok])
  | .resetModemState => some ({ s with e := s.e.onResetModemState }, [])
  | .recvWait dataType param callbackParam =>
    let (ok, done, e) := s.e.recvWait dataType param callbackParam
    some ({ s with e }, [.recvWait ok done])
  | .recvStart callbackParam =>
    let (ok, e) := s.e.recvStart callbackParam
    some ({ s with e }, [.recvStart ok])
  | .recv count =>
    let (res, e) := s.e.recv count
    some ({ s with e }, [.recv res])
  | .recvStop => some ({ s with e := s.e.recvStop }, [])
  | .others out hOwnerOut isCarrierIn t30 stateModem =>
    some ({ s with e := { s.e with toOutSide := out, hOwnerOut, isCarrierIn, t30, stateModem } }, [])

def machine : Machine StreamSys StreamAct Event := ⟨step⟩

end StreamSys

end T38Modem
