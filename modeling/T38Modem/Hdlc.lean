import T38Modem.Fcs

namespace T38Modem

/-- The identity of a `DataStream` object, as a pointer to it has it. -/
abbrev BufId := Nat

inductive HdlcState where
  | stEof | stSync | stSkipFlags | stData
  deriving DecidableEq, Repr, Inhabited

structure Hdlc where
  inDataType : DataType
  outDataType : DataType
  inData : Option BufId
  outData : DataStream
  fcs : Fcs
  lastChar : Option Byte
  rawCount : Nat
  rawByte : Byte
  rawByteLen : Nat
  rawOnes : Nat
  hdlcChunk : DWord
  hdlcChunkLen : Nat
  hdlcState : HdlcState
  deriving DecidableEq, Repr, Inhabited

namespace Hdlc

/-- The constructor run on the memory of `junk`: `rawByte`, `hdlcChunk` and `hdlcChunkLen` are not
initialised. -/
def new (junk : Hdlc) : Hdlc :=
  { junk with
    inDataType := .dtNone, outDataType := .dtNone, inData := none, outData := {}, fcs := {},
    lastChar := none, rawCount := 0, rawByteLen := 0, rawOnes := 0, hdlcState := .stEof }

/-- `if (++rawByteLen == 8)` and its body, the bits being in the high octet of `w`. -/
def countRawBit (h : Hdlc) (w : Word) : Hdlc :=
  if h.rawByteLen + 1 = 8 then
    let rawByte : Byte := (w >>> 8).setWidth 8
    { h with rawByte := rawByte, outData := (h.outData.putData [rawByte]).2, rawByteLen := 0 }
  else { h with rawByteLen := h.rawByteLen + 1 }

def packBit (flag : Bool) : Word × Hdlc → Word × Hdlc
  | (w, h) =>
    let w := w <<< 1
    let h := h.countRawBit w
    if flag then (w, h)
    else if w &&& 0x100 ≠ 0 then
      let h := { h with rawOnes := h.rawOnes + 1 }
      if h.rawOnes = 5 then
        let w := (w &&& 0xFF00) <<< 1 ||| (w &&& 0xFF)
        (w, { h.countRawBit w with rawOnes := 0 })
      else (w, h)
    else (w, { h with rawOnes := 0 })

def packByte (flag : Bool) (s : Word × Hdlc) (b : Byte) : Word × Hdlc :=
  (packBit flag)^[8] (s.1 ||| b.setWidth 16, s.2)

def pack (h : Hdlc) (bs : List Byte) (flag : Bool) : Hdlc :=
  let (w, h) := bs.foldl (packByte flag) (h.rawByte.setWidth 16 <<< 8, h)
  let h := { h with rawByte := (w >>> 8).setWidth 8 }
  if flag then { h with rawOnes := 0 } else h

/-- The word of the unread bits and the new octet, and the position `j` of the first of them. -/
def window (h : Hdlc) (b : Byte) : Word × Nat :=
  let j := 8 - h.rawByteLen
  ((h.rawByte.setWidth 16 <<< 8 ||| b.setWidth 16) <<< j, j)

def isFlag (w : Word) : Bool := w >>> 8 == 0x7E

def flagFound (h : Hdlc) (w : Word) (j : Nat) : Hdlc :=
  { h with rawByte := (w >>> j).setWidth 8, rawByteLen := 8 - j }

def flagNotFound (h : Hdlc) (w : Word) (j : Nat) : Hdlc :=
  { h with rawByte := (w >>> j).setWidth 8, rawByteLen := 7 }

/-- The loop of `sync` with `n` rounds left. -/
def syncLoop (h : Hdlc) : Nat → Word → Nat → Bool × Hdlc
  | 0, w, j => (false, h.flagNotFound w j)
  | n + 1, w, j => if isFlag w then (true, h.flagFound w j) else syncLoop h n (w <<< 1) (j + 1)

def sync (h : Hdlc) (b : Byte) : Bool × Hdlc :=
  let (w, j) := h.window b
  h.syncLoop (9 - j) w j

def skipFlag (h : Hdlc) (b : Byte) : Bool × Hdlc :=
  let (w, j) := h.window b
  if isFlag w then (true, { h with rawByte := (w >>> j).setWidth 8 }) else (false, h)

/-- The octet in front of the two that are held back goes out. -/
def putChunk (h : Hdlc) : Hdlc :=
  if h.hdlcChunkLen = 24 then
    { h with outData := (h.outData.putData [(h.hdlcChunk >>> 16).setWidth 8]).2, hdlcChunkLen := 16 }
  else h

/-- One bit of a frame, the highest of `w`. -/
def unpackBit (h : Hdlc) (w : Word) : Hdlc :=
  putChunk <|
    if w &&& 0x8000 ≠ 0 then
      { h with hdlcChunk := h.hdlcChunk <<< 1 ||| 1, hdlcChunkLen := h.hdlcChunkLen + 1,
               rawOnes := h.rawOnes + 1 }
    else if h.rawOnes ≠ 5 then
      { h with hdlcChunk := h.hdlcChunk <<< 1, hdlcChunkLen := h.hdlcChunkLen + 1, rawOnes := 0 }
    else { h with rawOnes := 0 }

/-- The loop of `unpack` with `n` rounds left. -/
def unpackLoop (h : Hdlc) : Nat → Word → Nat → Bool × Hdlc
  | 0, w, j => (true, h.flagNotFound w j)
  | n + 1, w, j =>
    if isFlag w then (false, h.flagFound w j) else unpackLoop (h.unpackBit w) n (w <<< 1) (j + 1)

def unpack (h : Hdlc) (b : Byte) : Bool × Hdlc :=
  let (w, j) := h.window b
  h.unpackLoop (9 - j) w j

/-- `*inData` is `inp`, which the callers own. -/
def getInData (h : Hdlc) (inp : DataStream) (count : Nat) : Option (List Byte) × Hdlc × DataStream :=
  match h.inData with
  | none => (none, h, inp)
  | some _ =>
    match inp.getData count with
    | (none, inp) => (none, { h with inData := none }, inp)
    | (some bs, inp) =>
      if bs.length > 0 then
        (some bs, { h with rawCount := h.rawCount + bs.length, lastChar := bs.getLast? }, inp)
      else (some bs, h, inp)

/-- The two octets that close a frame, the first of them spoilt when the frame is diagnosed bad. -/
def endOctets (f : Fcs) (diag : Diag) : List Byte :=
  let hi : Byte := (f.toWord >>> 8).setWidth 8
  let lo : Byte := (f.toWord &&& 0xFF).setWidth 8
  [if diag &&& diagErrorMask ≠ 0 then hi + 1 else hi, lo]

/-- What `GetRawData` does at the end of its input. -/
def packEnd (h : Hdlc) (diag : Diag) : Hdlc :=
  let h := (h.pack (endOctets h.fcs diag) false).pack [0x7e, 0x7e] true
  { h with outData := h.outData.putEof, inData := none }

/-- What `GetRawData` does with octets it has read from its input. -/
def packRead (h : Hdlc) (bs : List Byte) : Hdlc :=
  { h with lastChar := bs.getLast?, fcs := h.fcs.build bs }.pack bs false

/-- The part of a round of `GetRawData` that reads the input, or `none` where it leaves the loop
because there is nothing to read yet. -/
def fillRaw (h : Hdlc) (inp : DataStream) : Option (Hdlc × DataStream) :=
  match h.inData with
  | none => some (h, inp)
  | some _ =>
    match inp.getData 256 with
    | (none, inp) => some (h.packEnd inp.diag, inp)
    | (some [], _) => none
    | (some bs, inp) => some (h.packRead bs, inp)

/-- The part of a round of `GetRawData` that hands out octets, and whether the loop goes on. -/
def drainRaw (h : Hdlc) (count : Nat) (acc : List Byte) : Option (List Byte) × Hdlc × Bool :=
  match h.outData.getData count with
  | (none, out) => (if acc = [] then none else some acc, { h with outData := out }, false)
  | (some bs, out) => (some (acc ++ bs), { h with outData := out }, count - bs.length != 0)

/-- The `do { .. } while (count)` of `GetRawData` with `n` rounds left: `acc` is what is in the
caller's buffer already and `count` the room left in it. -/
def getRawLoop (h : Hdlc) (inp : DataStream) (count : Nat) (acc : List Byte) :
    Nat → Option (List Byte) × Hdlc × DataStream
  | 0 => (some acc, h, inp)
  | n + 1 =>
    match h.fillRaw inp with
    | none => (some acc, h, inp)
    | some (h, inp) =>
      match h.drainRaw count acc with
      | (some acc', h, true) => getRawLoop h inp (count + acc.length - acc'.length) acc' n
      | (res, h, _) => (res, h, inp)

def getRawData (h : Hdlc) (inp : DataStream) (count : Nat) : Option (List Byte) × Hdlc × DataStream :=
  match h.inDataType with
  | .dtHdlc =>
    match h.outData.getData count with
    | (none, out) => (none, { h with outData := out }, inp)
    | (some bs, out) =>
      -- every round takes from the input, ends it, or fills the caller's buffer
      let rounds := inp.data.length + 2 + count
      match getRawLoop { h with outData := out } inp (count - bs.length) bs rounds with
      | (some bs, h, inp) => (some bs, { h with rawCount := h.rawCount + bs.length }, inp)
      | (none, h, inp) => (none, h, inp)
  | .dtRaw => h.getInData inp count
  | _ => (some [], h, inp)

/-- What `GetHdlcData` does with an octet of a frame. -/
def takeData (h : Hdlc) (b : Byte) : Hdlc :=
  match h.unpack b with
  | (true, h) => h
  | (false, h) => { h with outData := h.outData.putEof, hdlcState := .stEof }

/-- What `GetHdlcData` does with one input octet. -/
def takeByte (h : Hdlc) (b : Byte) : Hdlc :=
  let h := { h with lastChar := some b, rawCount := h.rawCount + 1 }
  match h.hdlcState with
  | .stSync =>
    match h.sync b with
    | (true, h) => { h with hdlcState := .stSkipFlags }
    | (false, h) => h
  | .stSkipFlags =>
    match h.skipFlag b with
    | (true, h) => h
    | (false, h) => takeData { h with hdlcState := .stData } b
  | .stData => h.takeData b
  | .stEof => h

/-- What a round of the loop of `GetHdlcData` does after its octet or the end of the input: hand
out what is decoded and tell whether the loop goes on. -/
def drainHdlc (h : Hdlc) (count : Nat) (acc : List Byte) : Option (List Byte) × Hdlc × Bool :=
  if h.hdlcState = .stEof ∨ h.hdlcState = .stData then
    match h.outData.getData count with
    | (none, out) => (if acc = [] then none else some acc, { h with outData := out }, false)
    | (some bs, out) =>
      let h := { h with outData := out, fcs := h.fcs.build bs }
      (some (acc ++ bs), h, !(count - bs.length = 0 || h.hdlcState = .stEof))
  else (some acc, h, true)

/-- The loop of `GetHdlcData` over the pending octets of the input, which ends in `eof`. -/
def getHdlcLoop (eof : Bool) (h : Hdlc) (count : Nat) (acc : List Byte) :
    List Byte → Option (List Byte) × Hdlc × List Byte
  | [] =>
    if eof then
      let h := { h with outData := h.outData.putEof, inData := none, hdlcState := .stEof }
      let (res, h, _) := h.drainHdlc count acc
      (res, h, [])
    else (some acc, h, [])
  | b :: rest =>
    match (h.takeByte b).drainHdlc count acc with
    | (some acc', h, true) => getHdlcLoop eof h (count + acc.length - acc'.length) acc' rest
    | (res, h, _) => (res, h, rest)

def getHdlcData (h : Hdlc) (inp : DataStream) (count : Nat) :
    Option (List Byte) × Hdlc × DataStream :=
  match h.inDataType with
  | .dtHdlc =>
    match h.getInData inp count with
    | (some bs, h, inp) => (some bs, { h with fcs := h.fcs.build bs }, inp)
    | (none, h, inp) => (none, h, inp)
  | .dtRaw =>
    if h.inData = none ∨ h.hdlcState = .stEof then
      match h.outData.getData count with
      | (some bs, out) => (some bs, { h with outData := out, fcs := h.fcs.build bs }, inp)
      | (none, out) => (none, { h with outData := out }, inp)
    else if count = 0 ∧ h.hdlcState = .stData then
      if (h.outData.getData 0).1 = none ∨ (inp.getData 0).1 = none then (none, h, inp)
      else (some [], h, inp)
    else
      let (res, h, rest) := getHdlcLoop inp.eof h count [] inp.data
      (res, h, { inp with data := rest })
  | _ => (some [], h, inp)

def isFcsOK (h : Hdlc) : Bool := h.hdlcChunkLen = 16 && h.hdlcChunk.setWidth 16 == h.fcs.toWord

def putRawData (h : Hdlc) (inData : BufId) : Hdlc :=
  { h with inDataType := .dtRaw, inData := some inData, lastChar := none }

def putHdlcData (h : Hdlc) (inData : BufId) : Hdlc :=
  { h with inDataType := .dtHdlc, inData := some inData, lastChar := none }

def getRawStart (h : Hdlc) (flags : Nat) : Hdlc :=
  let h := { h with outDataType := .dtRaw, outData := h.outData.clean, fcs := {} }
  if h.inDataType = .dtHdlc then (fun h => h.pack [0x7e] true)^[flags] h else h

def getHdlcStart (h : Hdlc) (sync : Bool) : Hdlc :=
  let h := { h with outDataType := .dtHdlc, outData := h.outData.clean, fcs := {} }
  if h.inDataType = .dtRaw then
    { h with hdlcChunkLen := 0, rawOnes := 0, hdlcState := if sync then .stSync else .stSkipFlags }
  else if sync then h else { h with rawCount := h.rawCount + 4 }

def getData (h : Hdlc) (inp : DataStream) (count : Nat) : Option (List Byte) × Hdlc × DataStream :=
  match h.outDataType with
  | .dtHdlc => h.getHdlcData inp count
  | .dtRaw => h.getRawData inp count
  | _ => (none, h, inp)

def resetRawCount (h : Hdlc) : Hdlc := { h with rawCount := 0 }

end Hdlc

end T38Modem
