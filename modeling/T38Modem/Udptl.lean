import T38Modem.Delivery
import T38Modem.Ifp

namespace T38Modem

open Delivery

/-- The number nearest to the expected one that ends in the 16 bits received, and how far it is in
front of the expected one. -/
def sequenceNumber (expected : Int) (w : Word) : Int × Int :=
  let received := (w.toNat : Int) + (expected - expected % 0x10000)
  let lost := received - expected
  if lost < -0x8000 then (received + 0x10000, lost + 0x10000)
  else if lost > 0x8000 then (received - 0x10000, lost - 0x10000)
  else (received, lost)

theorem sequenceNumber_eq {n expected : Int} (h : -0x8000 < n - expected) (h' : n - expected < 0x8000) :
    sequenceNumber expected (BitVec.ofInt 16 n) = (n, n - expected) := by
  have hw : ((BitVec.ofInt 16 n).toNat : Int) = n % 0x10000 := by
    rw [BitVec.toNat_ofInt]
    omega
  unfold sequenceNumber
  rw [hw]
  dsimp only
  split
  next => exact Prod.ext (by simp only; omega) (by simp only; omega)
  next =>
    split
    next => exact Prod.ext (by simp only; omega) (by simp only; omega)
    next => exact Prod.ext (by simp only; omega) (by simp only; omega)

/-- The encoding of IFP packets, which is not part of the program. -/
structure IfpCodec where
  encode : Ifp → List Byte
  decode : List Byte → Option Ifp

inductive ErrorRecovery where
  | secondaryIfpPackets (secondary : List (List Byte))
  | fecInfo
  deriving DecidableEq, Repr

/-- `T38_UDPTLPacket` -/
structure UDPTLPacket where
  seqNumber : Word := 0
  primaryIfpPacket : List Byte := []
  errorRecovery : ErrorRecovery := .secondaryIfpPackets []
  deriving DecidableEq, Repr

structure T38Protocol where
  inRedundancy : Int
  lsRedundancy : Int
  hsRedundancy : Int
  /-- Whether the program is built with `REPEAT_INDICATOR_SENDING`. -/
  repeatIndicatorSending : Bool

/-- What `PreparePacket` gives. -/
inductive Prepared where
  | packet (ifp : Ifp)
  | timeOut
  | stopped

/-- The variables of `Originate`. -/
structure Originate where
  seq : Int := -1
  maxRedundancy : Int := 0
  udptl : UDPTLPacket := {}
  lastifp : Ifp := .badTag

def Ifp.isIndicator : Ifp → Bool
  | .t30Indicator _ => true
  | _ => false

/-- `SetSize` of an array of octet strings. -/
def setSize (xs : List (List Byte)) (n : Nat) : List (List Byte) := xs.take n ++ List.replicate (n - xs.length) []

/-- The loop that moves the secondary packets, from `i` down to 1. -/
def moveLoop (xs : List (List Byte)) : Nat → List (List Byte)
  | 0 => xs
  | i + 1 => moveLoop (xs.set (i + 1) (xs.getD i [])) i

namespace T38Protocol

variable (t : T38Protocol) (codec : IfpCodec)

/-- `maxRedundancy` for the packet that has just been put in. -/
def redundancy : Ifp → Int
  | .t30Indicator _ => t.inRedundancy
  | .data .v21 _ => t.lsRedundancy
  | _ => t.hsRedundancy

/-- The secondary packets of the next packet. -/
def nextSecondary (secondary : List (List Byte)) (primary : List Byte) (maxRedundancy : Int) : List (List Byte) :=
  let n : Int := secondary.length + 1
  let n := if n > maxRedundancy then maxRedundancy else n
  let n := if n < 0 then 0 else n
  let xs := setSize secondary n.toNat
  if n > 0 then (moveLoop xs (n.toNat - 1)).set 0 primary else xs

/-- What a secondary packet is left of when the packet is sent again. -/
def againSecondary (secondary : List (List Byte)) (maxRedundancy : Int) : List (List Byte) :=
  let n : Int := secondary.length
  let n := if n > maxRedundancy then maxRedundancy else n
  let n := if n < 0 then 0 else n
  setSize secondary n.toNat

def sendNext (o : Originate) (ifp : Ifp) : Originate :=
  let recovery := match o.udptl.errorRecovery with
    | .secondaryIfpPackets secondary =>
      .secondaryIfpPackets (nextSecondary secondary o.udptl.primaryIfpPacket o.maxRedundancy)
    | .fecInfo => .fecInfo
  { o with seq := o.seq + 1, maxRedundancy := t.redundancy ifp,
           udptl := ⟨BitVec.ofInt 16 (o.seq + 1), codec.encode ifp, recovery⟩ }

def sendAgain (o : Originate) : Originate :=
  let maxRedundancy := if o.maxRedundancy > 0 then o.maxRedundancy - 1 else o.maxRedundancy
  let recovery := match o.udptl.errorRecovery with
    | .secondaryIfpPackets secondary => .secondaryIfpPackets (againSecondary secondary maxRedundancy)
    | .fecInfo => .fecInfo
  { o with maxRedundancy, udptl := { o.udptl with errorRecovery := recovery } }

/-- A round of the loop of `Originate` up to `WritePDU`, which gets `udptl`, or `none` where the
loop is left. The IFP is the one that goes out with a number of its own. -/
def originate (o : Originate) : Prepared → Option (Originate × Option Ifp)
  | .packet ifp => some (t.sendNext codec { o with lastifp := ifp } ifp, some ifp)
  | .timeOut =>
    if t.repeatIndicatorSending ∧ o.lastifp.isIndicator then
      some (t.sendNext codec o o.lastifp, some o.lastifp)
    else some (sendAgain o, none)
  | .stopped => none

end T38Protocol

/-- A call of the engine: `HandlePacket` with a packet, which the receiver takes to be number `n`,
or `HandlePacketLost`. -/
abbrev EngineCall := Report Ifp

/-- The variables of `Answer`. -/
structure Answer where
  expectedSequenceNumber : Int := 0
  consecutiveBadPackets : Nat := 0
  running : Bool := true

/-- The engine is called until a call fails. -/
def perform (engine : EngineCall → Bool) : List EngineCall → List EngineCall × Bool
  | [] => ([], true)
  | c :: cs =>
    if engine c then
      let (done, res) := perform engine cs
      (c :: done, res)
    else ([c], false)

/-- `HandleRawIFP` -/
def handleRawIFP (codec : IfpCodec) (n : Int) (pdu : List Byte) : List EngineCall :=
  match codec.decode pdu with
  | some ifp => [.item n ifp]
  | none => []

/-- The loop over the secondary packets, from `i - 1` down to 0. -/
def recoverLoop (codec : IfpCodec) (secondary : List (List Byte)) : Nat → Int → List EngineCall
  | 0, _ => []
  | i + 1, n => handleRawIFP codec n (secondary.getD i []) ++ recoverLoop codec secondary i (n + 1)

/-- What is done about `lost` packets in front of the received one. -/
def recoverLost (codec : IfpCodec) (recovery : ErrorRecovery) (received lost : Int) : List EngineCall :=
  match recovery with
  | .secondaryIfpPackets secondary =>
    let nRedundancy : Int := secondary.length
    let first := if lost > nRedundancy then [.lost (lost - nRedundancy)] else []
    let (lost, nRedundancy) := if lost > nRedundancy then (nRedundancy, nRedundancy) else (lost, lost)
    let recovered := recoverLoop codec secondary nRedundancy.toNat (received - lost)
    -- every round takes one from `lost`
    let lost := lost - nRedundancy
    first ++ recovered ++ if lost ≠ 0 then [.lost lost] else []
  | .fecInfo => [.lost lost]

/-- The calls a received packet leads to when they all succeed. -/
def Answer.calls (codec : IfpCodec) (a : Answer) (p : UDPTLPacket) : List EngineCall :=
  let (received, lost) := sequenceNumber a.expectedSequenceNumber p.seqNumber
  if lost < 0 then []
  else
    (if lost > 0 then recoverLost codec p.errorRecovery received lost else []) ++
      handleRawIFP codec received p.primaryIfpPacket

/-- A round of the loop of `Answer`, for a packet or for octets that are none. -/
def Answer.receive (codec : IfpCodec) (engine : EngineCall → Bool) (a : Answer) :
    Option UDPTLPacket → List EngineCall × Answer
  | none =>
    let bad := a.consecutiveBadPackets + 1
    ([], { a with consecutiveBadPackets := bad, running := bad ≤ 3 })
  | some p =>
    let a := { a with consecutiveBadPackets := 0 }
    let (received, lost) := sequenceNumber a.expectedSequenceNumber p.seqNumber
    if lost < 0 then ([], a)
    else
      match perform engine (a.calls codec p) with
      | (done, true) => (done, { a with expectedSequenceNumber := received + 1 })
      | (done, false) => (done, { a with running := false })

end T38Modem
