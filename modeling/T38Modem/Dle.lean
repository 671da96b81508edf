import T38Modem.DataStream
import T38Modem.Escape

namespace T38Modem

/-- The inner loop of `initBitRevTable` with `n` rounds left. -/
def bitRevLoop : Nat → DWord → DWord → DWord
  | 0, _, out => out
  | n + 1, inp, out => bitRevLoop n (inp >>> 1) ((out <<< 1) + (inp &&& 1))

/-- The entries of `BitRevTable`. -/
def bitRevTable (b : Byte) : Byte := (bitRevLoop 8 (b.setWidth 32) 0).setWidth 8

def ETX : Byte := 0x03
def DLE : Byte := 0x10

structure DLEData extends DataStream where
  dle : Bool := false
  recvEtx : Bool := false
  bitRev : Bool := false
  deriving DecidableEq, Repr, Inhabited

namespace DLEData

/-- `PutData` of a part of what `PutDleData` was given. -/
def put (d : DLEData) (bs : List Byte) : DLEData := { d with toDataStream := (d.putData bs).2 }

def putEnd (d : DLEData) : DLEData := { d with toDataStream := d.putEof }

/-- The loop that copies `cPut` octets at `p` through `tmp`, with `n` rounds left. -/
def copyLoop (p : List Byte) : Nat → DLEData → Nat → DLEData
  | 0, d, _ => d
  | n + 1, d, cPut =>
    if cPut = 0 then d
    else
      let cTmp := if cPut > 1024 then 1024 else cPut
      copyLoop p n (d.put ((p.take cTmp).map bitRevTable)) (cPut - cTmp)

def copyRun (d : DLEData) (p : List Byte) (cPut : Nat) : DLEData :=
  if cPut = 0 then d
  else if d.bitRev then copyLoop p cPut d cPut
  else d.put (p.take cPut)

/-- The part of a round of `PutDleData` that starts with `memchr` at `k` octets behind `p`. -/
def putRun (d : DLEData) (p : List Byte) (k : Nat) : DLEData × List Byte :=
  match (p.drop k).idxOf? DLE with
  | some i => ({ d with dle := true }.copyRun p (k + i), p.drop (k + i + 1))
  | none => (d.copyRun p p.length, [])

/-- The loop of `PutDleData` with `n` rounds left, and the octets it leaves. -/
def putLoop : Nat → DLEData → List Byte → DLEData × List Byte
  | 0, d, p => (d, p)
  | _ + 1, d, [] => (d, [])
  | n + 1, d, b :: p =>
    if d.dle then
      let d := { d with dle := false }
      if b ≠ DLE then
        if b = ETX then (d.putEnd, p)
        else
          let (d, p) := d.putRun p 0
          putLoop n d p
      else
        let (d, p) := d.putRun (b :: p) 1
        putLoop n d p
    else
      let (d, p) := d.putRun (b :: p) 0
      putLoop n d p

/-- The number of octets taken, or `none` for the result -1. -/
def putDleData (d : DLEData) (bs : List Byte) : Option Nat × DLEData :=
  match (d.putData []).1 with
  | none => (none, d)
  | some _ =>
    let (d, rest) := putLoop bs.length d bs
    (some (bs.length - rest.length), d)

/-- What `GetDleData` writes for an octet it has read. -/
def encode (d : DLEData) (b : Byte) : List Byte :=
  let b := if d.bitRev then bitRevTable b else b
  if b = DLE then [DLE, b] else [b]

/-- The loop of `GetDleData` with `n` rounds left: `out` is what is in the caller's buffer. -/
def getLoop (count : Nat) : Nat → DLEData → List Byte → List Byte × DLEData
  | 0, d, out => (out, d)
  | n + 1, d, out =>
    if count - out.length ≥ 4 then
      let cGet := (count - out.length - 2) / 2
      match d.getData (if cGet > 1024 then 1024 else cGet) with
      | (none, s) => (out ++ [DLE, ETX], { d with toDataStream := s, recvEtx := true })
      | (some [], s) => (out, { d with toDataStream := s })
      | (some bs, s) => getLoop count n { d with toDataStream := s } (out ++ bs.flatMap d.encode)
    else (out, d)

/-- The octets put into the caller's buffer, or `none` for the result -1. -/
def getDleData (d : DLEData) (count : Nat) : Option (List Byte) × DLEData :=
  if d.recvEtx then (none, d)
  else
    -- every round but the last one writes
    let (out, d) := getLoop count count d []
    (some out, d)

def clean (d : DLEData) : DLEData := { d with toDataStream := d.toDataStream.clean, dle := false, recvEtx := false }

end DLEData

theorem bitRevTable_eq : ∀ b : Byte, bitRevTable b = b.reverse := by decide +kernel

@[simp] theorem bitRevTable_bitRevTable : ∀ b : Byte, bitRevTable (bitRevTable b) = b := by decide +kernel

theorem bitRevTable_inj {a b : Byte} (h : bitRevTable a = bitRevTable b) : a = b := by
  have := congrArg bitRevTable h
  simpa using this

end T38Modem
