import T38Modem.Machine
import T38Modem.ToneGenerator

namespace T38Modem

/-- The argument of a callback: a value of the engine's own or the one of the modem's call. -/
inductive CallbackParam where
  | cbpOutBufNoFull | cbpUpdateState
  | user (extra : Int)
  deriving DecidableEq, Repr

/-- Where the owner's thread is in `Read`. It does not hold the mutex there. -/
inductive ReadPc where
  | idle
  /-- Before the callback `cbpUpdateState`, and in it. -/
  | updating (hOwner amount : Nat)
  | updated (hOwner amount : Nat)
  /-- In `readDelay.Delay`. -/
  | delaying (hOwner amount : Nat)
  /-- Before the callback with `extra`, and in it. -/
  | calling (hOwner : Nat) (extra : CallbackParam)
  | called (hOwner : Nat)
  deriving DecidableEq, Repr

/-- The part of the audio engine that sends. -/
structure AudioEngine where
  modemOpen : Bool := false
  hOwnerOut : Option Nat := none
  firstOut : Bool := true
  callbackParam : Int := -1
  sendAudio : Option DataStream := none
  toneOut : Option ToneGenerator := none
  pc : ReadPc := .idle

inductive AudioAct where
  /-- The modem. -/
  | sendOnIdle (dataType : DataType)
  | sendStart
  | send (bs : List Byte)
  | sendStop (callbackParam : Int)
  /-- The thread of an owner begins `Read`, or goes on in it. -/
  | read (hOwner amount : Nat)
  | goOn
  deriving DecidableEq

inductive AudioSeen where
  /-- What `Read` puts into its buffer: octets of the out stream, and what fills the rest. -/
  | given (data fill : List Byte)
  | callback (extra : CallbackParam)
  | returned (result : Bool)
  | sent (result : Option Nat)
  deriving DecidableEq

def dt2tt : DataType → ToneType
  | .dtCng => .ttCng
  | .dtCed => .ttCed
  | .dtRing => .ttRing
  | .dtBusy => .ttBusy
  | _ => .ttSilence

namespace AudioEngine

/-- `hOwnerOut != hOwner || !IsModemOpen()` -/
def isLost (e : AudioEngine) (hOwner : Nat) : Bool := e.hOwnerOut ≠ some hOwner || !e.modemOpen

def sendOnIdle (sample : Nat → Int → Nat → Int) (e : AudioEngine) (dataType : DataType) : AudioEngine :=
  let toneType := dt2tt dataType
  let kept := e.toneOut.filter fun tone => tone.type = toneType
  { e with
    toneOut :=
      if kept.isNone ∧ toneType ≠ .ttSilence then some (ToneGenerator.make sample toneType) else kept }

def sendStart (e : AudioEngine) : AudioEngine × Bool :=
  if !e.modemOpen then (e, false) else ({ e with sendAudio := some { threshold := 1024 * 2 } }, true)

def send (e : AudioEngine) (bs : List Byte) : AudioEngine × Option Nat :=
  if !e.modemOpen then (e, none)
  else ({ e with sendAudio := e.sendAudio.map fun s => (s.putData bs).2 }, some bs.length)

def sendStop (e : AudioEngine) (callbackParam : Int) : AudioEngine × Bool :=
  if !e.modemOpen then (e, false)
  else ({ e with callbackParam := callbackParam, sendAudio := e.sendAudio.map DataStream.putEof }, true)

/-- `Read` from its begin to the delay. -/
def readBegin (e : AudioEngine) (hOwner amount : Nat) : AudioEngine × List AudioSeen :=
  if e.isLost hOwner then (e, [.returned false])
  else if e.firstOut then ({ e with firstOut := false, pc := .updating hOwner amount }, [])
  else ({ e with pc := .delaying hOwner amount }, [])

/-- `Read` behind the delay. -/
def readBody (e : AudioEngine) (hOwner amount : Nat) : AudioEngine × List AudioSeen :=
  if e.isLost hOwner then ({ e with pc := .idle }, [.returned false])
  else
    match e.sendAudio with
    | some s =>
      let wasFull := s.isFull
      match s.getData amount with
      | (none, _) =>
        ({ e with sendAudio := none, pc := .calling hOwner (.user e.callbackParam) },
          [.given [] (List.replicate amount 0)])
      | (some bs, s) =>
        let e := { e with sendAudio := some s }
        let out := AudioSeen.given bs (List.replicate (amount - bs.length) 0)
        if wasFull && !s.isFull then ({ e with pc := .calling hOwner .cbpOutBufNoFull }, [out])
        else ({ e with pc := .idle }, [out, .returned true])
    | none =>
      match e.toneOut with
      | some tone =>
        let r := tone.read amount
        ({ e with toneOut := some r.2, pc := .idle }, [.given [] r.1, .returned true])
      | none => ({ e with pc := .idle }, [.given [] (List.replicate amount 0), .returned true])

/-- The owner's thread goes on. -/
def goOn (e : AudioEngine) : ReadPc → Option (AudioEngine × List AudioSeen)
  | .idle => none
  | .updating hOwner amount =>
    if e.modemOpen then some ({ e with pc := .updated hOwner amount }, [.callback .cbpUpdateState])
    else some ({ e with pc := .updated hOwner amount }, [])
  | .updated hOwner amount =>
    if e.isLost hOwner then some ({ e with pc := .idle }, [.returned false])
    else some ({ e with pc := .delaying hOwner amount }, [])
  | .delaying hOwner amount => some (e.readBody hOwner amount)
  | .calling hOwner extra =>
    if e.modemOpen then some ({ e with pc := .called hOwner }, [.callback extra])
    else some ({ e with pc := .called hOwner }, [])
  | .called hOwner => some ({ e with pc := .idle }, [.returned (!e.isLost hOwner)])

def step (sample : Nat → Int → Nat → Int) (e : AudioEngine) : AudioAct → Option (AudioEngine × List AudioSeen)
  | .sendOnIdle dataType => some (e.sendOnIdle sample dataType, [])
  | .sendStart => some (e.sendStart.1, [.returned e.sendStart.2])
  | .send bs => some ((e.send bs).1, [.sent (e.send bs).2])
  | .sendStop callbackParam =>
    some ((e.sendStop callbackParam).1, [.returned (e.sendStop callbackParam).2])
  | .read hOwner amount => if e.pc = .idle then some (e.readBegin hOwner amount) else none
  | .goOn => e.goOn e.pc

def machine (sample : Nat → Int → Nat → Int) : Machine AudioEngine AudioAct AudioSeen := ⟨step sample⟩

end AudioEngine

end T38Modem
