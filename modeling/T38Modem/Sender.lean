import T38Modem.PreparePacket

namespace T38Modem

/-- What is seen of the engine from outside. -/
inductive Event where
  /-- `PreparePacket` returned 1 with this packet. -/
  | packet (ifp : Option Ifp)
  /-- `PreparePacket` returned -1. -/
  | timeout
  /-- `PreparePacket` returned 0. -/
  | exit (why : Exit)
  /-- The thread in `PreparePacket` calls the modem. -/
  | callbackOut (kind : Callback) (extra : Int)
  /-- The thread in `HandlePacket` calls the modem. -/
  | callbackIn (kind : Callback) (extra : Int)
  | sendStart (dataType : DataType) (ok : Bool)
  | send (bs : List Byte) (res : Option Nat)
  | sendStop (moreFrames : Bool) (callbackParam : Int) (ok : Bool)
  | recvWait (ok done : Bool)
  | recvStart (ok : Bool)
  | recv (res : Option (List Byte))
  | recvDiag (diag : Diag)
  | openIn
  /-- `HandlePacket` returned, with its result. -/
  | handled (ifp : Ifp) (ok : Bool)
  deriving DecidableEq, Repr

/-- Where the thread that calls `PreparePacket` is. -/
inductive OutPc where
  | out
  | begin
  | period (l : Locals)
  | delay (l : Locals)
  | body (l : Locals)
  | calling (kind : Callback) (extra : Int) (l : Locals) (after : AfterOut)
  | called (l : Locals) (after : AfterOut)
  | wait (l : Locals)
  | waiting (l : Locals) (timeout : Option Int) (fails : Bool)
  | woken (l : Locals)
  | leave (l : Locals)
  deriving DecidableEq, Repr

/-- Events of the sending half: what the thread in `PreparePacket` does and what the modem sends. -/
def Event.sending : Event → Bool
  | .packet _ | .timeout | .exit _ | .callbackOut .. | .sendStart .. | .send .. | .sendStop .. => true
  | _ => false

namespace OutPc

def ofOutcome : Outcome → T38Engine × OutPc × List Event
  | .exit why e => (e, .out, [.exit why])
  | .done e l waitData => (e, if waitData then .wait l else .leave l, [])
  | .call e l kind extra after => (e, .calling kind extra l after, [])

/-- Go on behind a callback. -/
def resume (e : T38Engine) (now : Int) (l : Locals) : AfterOut → T38Engine × OutPc × List Event
  | .begin => (e, .begin, [])
  | .redo => (e, .leave { l with redo := true }, [])
  | .redoNoDelay => (e, .leave { l with redo := true, doDalay := false }, [])
  | .data count => ofOutcome (e.dataSwitch now l count)
  | .wait => (e, .wait l, [])
  | .leave => (e, .leave l, [])

/-- One step of the thread `hOwner` in `PreparePacket`: up to the next place where it gives up
`Mutex` or time may pass. -/
def step (hOwner : Owner) (e : T38Engine) (now : Int) : OutPc → T38Engine × OutPc × List Event
  | .out =>
    if e.lostOut hOwner then (e, .out, [.exit .owner])
    else if e.firstOut then
      ({ e with firstOut := false }, .calling .updateState cbpUpdateState {} .begin, [])
    else (e, .begin, [])
  | .begin =>
    let l : Locals :=
      { preparePacketTimeoutEnd := if e.preparePacketTimeout > 0 then now + e.preparePacketTimeout else 0 }
    (e, if e.preparePacketPeriod > 0 then .period l else .delay l, [])
  | .period l => if e.lostOut hOwner then (e, .out, [.exit .owner]) else (e, .delay l, [])
  | .delay l =>
    if l.doDalay then
      if e.timeDelayEndOut - now ≤ 0 then (e, .body l, [])
      else if e.preparePacketTimeout = 0 ∨
          (e.preparePacketTimeout > 0 ∧ l.preparePacketTimeoutEnd - now ≤ 0) then (e, .out, [.timeout])
      -- a part of the delay is slept here
      else if e.lostOut hOwner then (e, .out, [.exit .owner])
      else (e, .delay l, [])
    else (e, .body { l with doDalay := true }, [])
  | .body l => if e.lostOut hOwner then (e, .out, [.exit .owner]) else ofOutcome (e.prepare now l)
  | .calling kind extra l after => (e, .called l after, [.callbackOut kind extra])
  | .called l after =>
    if e.lostOut hOwner then (e, .out, [.exit .owner]) else resume e now l after
  | .wait l =>
    if e.preparePacketTimeout ≥ 0 then
      if e.preparePacketTimeout = 0 ∨ l.preparePacketTimeoutEnd - now ≤ 0 then (e, .out, [.timeout])
      else (e, .waiting l (some l.preparePacketTimeoutEnd) true, [])
    else if e.startedTimeOutBufEmpty then
      let timeout := e.timeOutBufEmpty - now + 1
      if timeout > 0 then (e, .waiting l (some (now + timeout)) false, []) else (e, .woken l, [])
    else (e, .waiting l none false, [])
  | .waiting l timeout fails =>
    if e.outDataReady then ({ e with outDataReady := false }, .woken l, [])
    else
      match timeout with
      | none => (e, .waiting l timeout fails, [])
      | some t =>
        if now < t then (e, .waiting l timeout fails, [])
        else if fails then (e, .out, [.timeout])
        else (e, .woken l, [])
  | .woken l =>
    if e.lostOut hOwner then (e, .out, [.exit .owner])
    else
      let (e, l) := e.dataDelay now l
      (e, .body l, [])
  | .leave l =>
    let e := { e with timeDelayEndOut := e.delayEnd now }
    if l.redo then (e, .delay { l with redo := false }, []) else (e, .out, [.packet l.ifp])

end OutPc

end T38Modem
