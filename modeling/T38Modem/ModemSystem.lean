import T38Modem.CheckState
import T38Modem.Machine

namespace T38Modem

namespace ModemEngineBody

/-- The branch of `HandleData` that takes data of the DTE for the reason to stop what is going on. -/
def abort (a : Answers) (b : ModemEngineBody) (rest : List Byte) : ModemNext :=
  let cut := b.state = .stRecv ∧ (b.dataCount ≠ 0 ∨ b.modemClass = .mcAudio)
  let b : ModemEngineBody := { b.setState .stCommand with timeout := .stopped }
  ModemNext.after (if cut then [.data [DLE, ETX]] else []) <|
    if b.currentClassEngine.isSome ∨ b.modemClass = .mcAudio then (b, .handling rest, [.result .ok])
    else b.onHook a (.aborted rest) fun b => (b, .handling rest, [.result .noCarrier])

/-- One turn of the loop of `HandleData`. Octets that come in `stCommand` are for the command line. -/
def handleData (a : Answers) (b : ModemEngineBody) : List Byte → ModemNext
  | [] => (b, .idle, [])
  | c :: cs =>
    match b.state with
    | .stCommand => (b, .idle, [])
    | .stSend =>
      let (taken, d) := b.dleData.putDleData (c :: cs)
      ({ b with dleData := d }, .sending ((c :: cs).drop (taken.getD 0)), [])
    | .stSendAckWait => ({ b.setState .stCommand with timeout := .stopped }, .handling (c :: cs), [])
    | _ => b.abort a cs

/-- One round of `GetData` in `HandleData`. -/
def sendRound (a : Answers) (b : ModemEngineBody) (rest : List Byte) : ModemNext :=
  match b.dleData.getData 1024 with
  | (none, d) =>
    let stopped := { b with dleData := { b.dleData with toDataStream := d } }.stopSending a
    (stopped.1, .handling rest, stopped.2)
  | (some [], d) => ({ b with dleData := { b.dleData with toDataStream := d } }, .handling rest, [])
  | (some bs, d) =>
    let last := b.dataType = .dtHdlc ∧ b.dataCount < 2 ∧ b.dataCount + bs.length ≥ 2 ∧
      bs.getD (1 - b.dataCount) 0 &&& 0x08 = 0
    let b := { b with
      dleData := { b.dleData with toDataStream := d }
      moreFrames := if last then true else b.moreFrames
      dataCount := b.dataCount + bs.length }
    let out := match b.modemClass with
      | .mcAudio => [ModemOut.send (a.samples bs)]
      | .mcFax => [ModemOut.send bs]
      | .mcUndefined => []
    (b, .sending rest, if b.currentClassEngine.isSome then out else [])

/-- The thread of the modem goes on with what the engine, the endpoint or the time gave it; `reply`
is the call token of a `confirm`. -/
def resume (a : Answers) (b : ModemEngineBody) (reply : Option String) : BodyPc → Option ModemNext
  | .idle => none
  | .handling rest => some (b.handleData a rest)
  | .sending rest => some (b.sendRound a rest)
  | .detaching .mceT38 after => some (b.onHookT38 a true after fun b => b.goOn a after)
  | .detaching .mceAudio after => some (b.onHookAudio a true after fun b => b.goOn a after)
  | .clearing after => some (b.endClear.goOn a after)
  | .answering after => some (b.answered a reply.isSome after fun b => b.goOn a after)
  | .dialing resp => some (b.dialled a reply resp)
  | .requestingMode resp => some (b.modeRequested reply.isSome resp)
  | .delaying count resp => some (b.delayed a count resp)

end ModemEngineBody

inductive ModemTimer where
  | timeout | ring | busy
  deriving DecidableEq, Repr

inductive ModemAct where
  /-- The modem's thread. -/
  | command (a : Answers) (c : ModemEngineBody.Command)
  | handleData (bs : List Byte)
  | checkState (a : Answers)
  | resume (a : Answers) (reply : Option String)
  /-- The endpoint, the engines and the timers. -/
  | request (a : Answers) (r : ModemEngineBody.Request)
  | newPtrEngine (a : Answers) (mce : ModemClassEngine)
  | onOutBufEmpty
  | onSeq
  | onTimeout (timer : ModemTimer)

structure Modem where
  body : ModemEngineBody := {}
  pc : BodyPc := .idle
  deriving DecidableEq, Repr

inductive ModemSeen where
  | out (o : ModemOut)
  | response (r : ModemEngineBody.Request) (confirm : Bool)
  deriving DecidableEq, Repr

namespace Modem

def ofNext (n : ModemNext) : Modem × List ModemSeen := (⟨n.1, n.2.1⟩, n.2.2.map .out)

/-- The modem's thread begins something when it is idle; the others find it anywhere. -/
def step (m : Modem) : ModemAct → Option (Modem × List ModemSeen)
  | .command a c =>
    if m.pc = .idle ∧ m.body.state = .stCommand then some (ofNext (m.body.command a c)) else none
  | .handleData bs => if m.pc = .idle then some ({ m with pc := .handling bs }, []) else none
  | .checkState a => if m.pc = .idle then some (ofNext (m.body.checkState a)) else none
  | .resume a reply => (m.body.resume a reply m.pc).map ofNext
  | .request a r => some ({ m with body := (m.body.request a r).1 }, [.response r (m.body.request a r).2])
  | .newPtrEngine a mce => some ({ m with body := m.body.attachEngine a mce }, [])
  | .onOutBufEmpty => some ({ m with body := m.body.onOutBufEmpty }, [])
  | .onSeq => some ({ m with body := m.body.onSeq }, [])
  | .onTimeout .timeout => some ({ m with body := { m.body with timeout := m.body.timeout.onTimeout } }, [])
  | .onTimeout .ring => some ({ m with body := { m.body with timerRing := m.body.timerRing.onTimeout } }, [])
  | .onTimeout .busy => some ({ m with body := { m.body with timerBusy := m.body.timerBusy.onTimeout } }, [])

def machine : Machine Modem ModemAct ModemSeen := ⟨step⟩

end Modem

end T38Modem
