import T38Modem.Sender
import T38Modem.HandlePacket
import T38Modem.Machine

namespace T38Modem

/-- Where the modem's thread is: `Send` and `SendStop` check the state of the engine before they
take `Mutex`. -/
inductive ModemPc where
  | out
  | send (bs : List Byte)
  | sendStop (moreFrames : Bool) (callbackParam : Int)
  deriving DecidableEq, Repr

/-- An attached engine with the two packet threads that own it, the thread of the modem and the
clock. -/
structure Sys where
  e : T38Engine
  now : Int
  out : OutPc
  inn : InPc
  modem : ModemPc

inductive Act where
  | tick (ms : Nat)
  /-- A step of the thread in `PreparePacket`. -/
  | out
  | setPreparePacketTimeout (timeout period : Int)
  | openIn
  | handlePacket (ifp : Ifp)
  /-- A step of the thread in `HandlePacket`. -/
  | inn
  | handlePacketLost
  | sendOnIdle (dataType : DataType)
  | sendStart (dataType : DataType) (param : Int)
  | send (bs : List Byte)
  | sendStop (moreFrames : Bool) (callbackParam : Int)
  /-- The rest of `Send` or `SendStop`. -/
  | modem
  | resetModemState
  | recvWait (dataType : DataType) (param : Int) (callbackParam : Int)
  | recvStart (callbackParam : Int)
  | recv (count : Nat)
  | recvDiag
  | recvStop
  deriving DecidableEq, Repr

/-- The actions of the receiving half. -/
def Act.receiving : Act → Bool
  | .openIn | .handlePacket _ | .inn | .handlePacketLost => true
  | .recvWait .. | .recvStart _ | .recv _ | .recvDiag | .recvStop => true
  | _ => false

/-- The actions that begin or drop an operation of sending. -/
def Act.command : Act → Bool
  | .sendStart .. | .resetModemState => true
  | _ => false

namespace Sys

def hOwnerIn : Owner := 1
def hOwnerOut : Owner := 2

/-- The owner of the in side changes: `CloseIn` and `OpenIn`. -/
def reopenIn (e : T38Engine) : T38Engine := { e with firstIn := true }.signalOutDataReady

/-- A new engine after `Attach`, `OpenIn` and `OpenOut`. -/
def start (junk : Hdlc) (now : Int) : Sys where
  e := { { T38Engine.new junk now with modemOpen := true }.onResetModemState with
    hOwnerIn := some hOwnerIn, hOwnerOut := some hOwnerOut }
  now := now
  out := .out
  inn := .out
  modem := .out

def ofInOutcome (s : Sys) (ifp : Ifp) : InOutcome → Sys × List Event
  | .ret e => ({ s with e, inn := .out }, [.handled ifp true])
  | .call e kind extra after => ({ s with e, inn := .calling ifp kind extra after }, [])

/-- The thread `hOwnerIn` in `HandlePacket`. Behind the callback of a tone the owner is not checked. -/
def innStep (s : Sys) : Option (Sys × List Event) :=
  match s.inn with
  | .out => none
  | .calling ifp kind extra after => some ({ s with inn := .called ifp after }, [.callbackIn kind extra])
  | .called ifp after =>
    if after ≠ .dropCarrier ∧ s.e.lostIn hOwnerIn then some ({ s with inn := .out }, [.handled ifp false])
    else some (s.ofInOutcome ifp (s.e.resumePacket after))

/-- The thread of the modem under `Mutex`. -/
def modemStep (s : Sys) : Option (Sys × List Event) :=
  match s.modem with
  | .out => none
  | .send bs =>
    let (res, e) := s.e.send bs
    some ({ s with e, modem := .out }, [.send bs res])
  | .sendStop moreFrames callbackParam =>
    some ({ s with e := s.e.sendStop moreFrames callbackParam, modem := .out },
      [.sendStop moreFrames callbackParam true])

/-- A call of the modem that is one step, because nobody else changes what it checks. `MutexModem`
keeps it out of `Send` and `SendStop`. -/
def modemCall (s : Sys) (res : T38Engine × List Event) : Option (Sys × List Event) :=
  if s.modem = .out then some ({ s with e := res.1 }, res.2) else none

def step (s : Sys) : Act → Option (Sys × List Event)
  | .tick ms => some ({ s with now := s.now + ms }, [])
  | .out =>
    let (e, pc, es) := s.out.step hOwnerOut s.e s.now
    some ({ s with e, out := pc }, es)
  | .setPreparePacketTimeout timeout period =>
    if s.out = .out then some ({ s with e := s.e.setPreparePacketTimeout hOwnerOut timeout period }, [])
    else none
  | .openIn => if s.inn = .out then some ({ s with e := reopenIn s.e }, [.openIn]) else none
  | .handlePacket ifp =>
    if s.inn ≠ .out then none
    else if s.e.lostIn hOwnerIn then some (s, [.handled ifp false])
    else some (s.ofInOutcome ifp (s.e.handlePacket ifp))
  | .inn => s.innStep
  | .handlePacketLost =>
    if s.inn ≠ .out then none
    else if s.e.lostIn hOwnerIn then some (s, [])
    else some ({ s with e := s.e.handlePacketLost }, [])
  | .sendOnIdle dataType => s.modemCall (s.e.sendOnIdle dataType, [])
  | .sendStart dataType param =>
    let (ok, e) := s.e.sendStart dataType param
    s.modemCall (e, [.sendStart dataType ok])
  | .send bs =>
    if s.modem ≠ .out then none
    else if s.e.canSend then some ({ s with modem := .send bs }, [])
    else some (s, [.send bs none])
  | .sendStop moreFrames callbackParam =>
    if s.modem ≠ .out then none
    else if s.e.canSend then some ({ s with modem := .sendStop moreFrames callbackParam }, [])
    else some (s, [.sendStop moreFrames callbackParam false])
  | .modem => s.modemStep
  | .resetModemState => s.modemCall (s.e.onResetModemState, [])
  | .recvWait dataType param callbackParam =>
    let (ok, done, e) := s.e.recvWait dataType param callbackParam
    s.modemCall (e, [.recvWait ok done])
  | .recvStart callbackParam =>
    let (ok, e) := s.e.recvStart callbackParam
    s.modemCall (e, [.recvStart ok])
  | .recv count =>
    let (res, e) := s.e.recv count
    s.modemCall (e, [.recv res])
  | .recvDiag => s.modemCall (s.e, [.recvDiag s.e.recvDiag])
  | .recvStop => s.modemCall (s.e.recvStop, [])

def machine : Machine Sys Act Event := ⟨step⟩

end Sys

end T38Modem
