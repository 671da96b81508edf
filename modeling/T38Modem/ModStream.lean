import T38Modem.Hdlc
import T38Modem.Ifp

namespace T38Modem

/-- A `DataStream` object on the heap. -/
structure Buf where
  id : BufId
  stream : DataStream := {}
  deriving DecidableEq, Repr

/-- `ModStream`. The pointer `lastBuf` names a buffer of `bufQ` or `firstBuf`. -/
structure ModStream where
  firstBuf : Option Buf
  bufQ : List Buf
  lastBuf : Option BufId
  modPars : ModPars
  hdlc : Hdlc
  deriving DecidableEq, Repr

def Buf.update (i : BufId) (f : DataStream → DataStream) (b : Buf) : Buf :=
  if b.id = i then { b with stream := f b.stream } else b

namespace ModStream

def new (junk : Hdlc) (modPars : ModPars) : ModStream :=
  { firstBuf := none, bufQ := [], lastBuf := none, modPars, hdlc := Hdlc.new junk }

/-- Write to the buffer that `i` points to. -/
def update (s : ModStream) (i : BufId) (f : DataStream → DataStream) : ModStream :=
  { s with firstBuf := s.firstBuf.map (Buf.update i f), bufQ := s.bufQ.map (Buf.update i f) }

def pushBuf (s : ModStream) (i : BufId) : ModStream :=
  { s with lastBuf := some i, bufQ := s.bufQ ++ [{ id := i }] }

def deleteFirstBuf (s : ModStream) : ModStream :=
  match s.firstBuf with
  | none => s
  | some b => { s with firstBuf := none, lastBuf := if s.lastBuf = some b.id then none else s.lastBuf }

/-- The DTE gets an image signal with error correction, which it has to decode by itself. -/
def rawOverHdlc (s : ModStream) : Bool := s.modPars.dataType = .dtRaw ∧ s.modPars.dataTypeT38 = .dtHdlc

def popBuf (s : ModStream) (junk : Hdlc) : Bool × ModStream :=
  let s := s.deleteFirstBuf
  match s.bufQ with
  | [] => (false, s)
  | b :: bufQ =>
    let s := { s with firstBuf := some b, bufQ }
    if s.rawOverHdlc then (true, { s with hdlc := ((Hdlc.new junk).putHdlcData b.id).getRawStart 10 })
    else (true, s)

/-- The `while` of `GetData`, with the first buffer `b` and the queue behind it. -/
def getRawLoop (s : ModStream) (b : Buf) (count : Nat) : List Buf → Option (List Byte) × ModStream
  | [] =>
    match s.hdlc.getData b.stream count with
    | (some bs, hdlc, stream) => (some bs, { s with hdlc, firstBuf := some { b with stream }, bufQ := [] })
    | (none, hdlc, stream) =>
      let s := { s with hdlc, firstBuf := some { b with stream }, bufQ := [] }
      if stream.diag &&& diagNoCarrier = 0 then (some [], s.deleteFirstBuf) else (none, s)
  | c :: bufQ =>
    match s.hdlc.getData b.stream count with
    | (some bs, hdlc, stream) => (some bs, { s with hdlc, firstBuf := some { b with stream }, bufQ := c :: bufQ })
    | (none, hdlc, stream) =>
      let s := { s with hdlc, firstBuf := some { b with stream }, bufQ }.deleteFirstBuf
      { s with firstBuf := some c, hdlc := (s.hdlc.putHdlcData c.id).getRawStart 0 }.getRawLoop c count bufQ

def getData (s : ModStream) (count : Nat) : Option (List Byte) × ModStream :=
  match s.firstBuf with
  | none => (none, s)
  | some b =>
    if s.rawOverHdlc then s.getRawLoop b count s.bufQ
    else if s.modPars.dataTypeT38 ≠ s.modPars.dataType then (none, s)
    else
      match b.stream.getData count with
      | (res, stream) => (res, { s with firstBuf := some { b with stream } })

/-- The result of `PutData` is not used by any caller. -/
def putData (s : ModStream) (bs : List Byte) : ModStream :=
  match s.lastBuf with
  | none => s
  | some i => s.update i fun d => (d.putData bs).2

def setDiag (s : ModStream) (diag : Diag) : ModStream :=
  match s.lastBuf with
  | none => s
  | some i => s.update i fun d => d.setDiag (d.diag ||| diag)

def putEof (s : ModStream) (diag : Diag) : ModStream :=
  match s.lastBuf with
  | none => s
  | some i => { s.update i fun d => (d.setDiag (d.diag ||| diag)).putEof with lastBuf := none }

/-- `Move(from)`. The stream `from` is deleted by the callers. -/
def move (s other : ModStream) : ModStream :=
  { s with bufQ := s.bufQ ++ other.firstBuf.toList ++ other.bufQ, lastBuf := other.lastBuf }

def isOpen (s : ModStream) : Bool := s.lastBuf.isSome

end ModStream

end T38Modem
