import T38Modem.DataStream

namespace T38Modem

def cngHz : Nat := 1100
def cngOnMsec : Nat := 500
def cngOffMsec : Nat := 3000
def simplesPerSec : Nat := 8000
def cngFilterBufLen : Nat := ((simplesPerSec + cngHz - 1) / cngHz + 1) / 2 * 2
def cngFilterChunkLen : Nat := 20
def cngOnChunksMin : Nat := cngHz * cngOnMsec * 60 / (cngFilterChunkLen * 1000 * 100)
def cngOnChunksMax : Nat := cngHz * cngOnMsec * 140 / (cngFilterChunkLen * 1000 * 100)
def cngOffChunksMin : Nat := cngHz * cngOffMsec * 30 / (cngFilterChunkLen * 1000 * 100)

inductive CngPhase where
  | offHead | on | offTail
  deriving DecidableEq, Repr

/-- `cng_on_count`, `cng_off_count` and `cng_phase`. -/
structure CngCadence where
  onCount : Nat := 0
  offCount : Nat := 0
  phase : CngPhase := .offHead
  deriving DecidableEq, Repr

namespace CngCadence

/-- The branch for a chunk with the tone. -/
def toneOn (c : CngCadence) : CngCadence where
  onCount := c.onCount + 1
  offCount := 0
  phase :=
    match c.phase with
    | .offHead => if c.offCount ≥ cngOffChunksMin then .on else .offHead
    | .on => .on
    | .offTail => .offHead

/-- The branch for a chunk without it, and whether it sets `detected`. -/
def toneOff (c : CngCadence) : Bool × CngCadence :=
  let offCount := c.offCount + 1
  match c.phase with
  | .offHead => (false, { onCount := 0, offCount := offCount, phase := .offHead })
  | .on =>
    let phase := if c.onCount ≥ cngOnChunksMin ∧ c.onCount ≤ cngOnChunksMax then .offTail else .offHead
    (false, { onCount := 0, offCount := offCount, phase := phase })
  | .offTail =>
    if offCount ≥ cngOffChunksMin then (true, { onCount := 0, offCount := offCount, phase := .offHead })
    else (false, { onCount := 0, offCount := offCount, phase := .offTail })

def chunk (c : CngCadence) (on : Bool) : Bool × CngCadence := if on then (false, c.toneOn) else c.toneOff

/-- The state after the chunks of a list. -/
def chunks (c : CngCadence) (cs : List Bool) : CngCadence := cs.foldl (fun c on => (c.chunk on).2) c

end CngCadence

/-- `cng_filter_buf`, `index` and `power`. -/
structure CngFilter where
  buf : Vector Int 8 := Vector.replicate 8 0
  index : Nat := 0
  power : Int := 0
  deriving DecidableEq

structure T30ToneDetect where
  filter : CngFilter := {}
  cadence : CngCadence := {}
  deriving DecidableEq

/-- `pBuf[i]`, if it is inside the buffer. -/
def simpleAt (buf : List Byte) (i : Nat) : Option Word := do
  let lo ← buf[2 * i]?
  let hi ← buf[2 * i + 1]?
  some (hi ++ lo)

namespace CngFilter

/-- The part of the loop that takes a sample. -/
def add (f : CngFilter) (pw : Int) : CngFilter where
  buf := f.buf.setIfInBounds (f.index % cngFilterBufLen) (f.buf.getD (f.index % cngFilterBufLen) 0 + pw)
  index := f.index + 1
  power := if pw < 0 then f.power - pw else f.power + pw

/-- The loop that fills the filter with `n` rounds left. It gives whether the chunk is complete, and
`iBuf`. -/
def fill (buf : List Byte) (p len index0 : Nat) : Nat → CngFilter → Nat → Option (Bool × CngFilter × Nat)
  | 0, f, iBuf => some (true, f, iBuf)
  | n + 1, f, _ => do
    let iBuf := (f.index - index0) * simplesPerSec / (cngFilterBufLen * cngHz)
    if iBuf ≥ len then some (false, f, iBuf)
    else
      let pw ← simpleAt buf (p + iBuf)
      fill buf p len index0 n (f.add pw.toInt) iBuf

/-- The power of the tone in a chunk. -/
def cngPower (f : CngFilter) : Int :=
  let tone (i : Nat) : Int := f.buf.getD i 0
  let half := cngFilterBufLen / 2
  let cur := (List.range half).foldl (fun cur i => cur + tone i) 0
  let cur := (List.range' half (cngFilterBufLen - half)).foldl (fun cur i => cur - tone i) cur
  let power := if cur < 0 then -cur else cur
  ((List.range' 1 (half - 1)).foldl (fun (x : Int × Int) i =>
    let cur := x.1 - tone i * 2
    let cur := cur + tone (i + half) * 2
    if cur < 0 then (cur, if x.2 < -cur then -cur else x.2) else (cur, if x.2 < cur then cur else x.2))
    (cur, power)).2

end CngFilter

namespace T30ToneDetect

/-- The chunk is on: `cng_power_norm > 500`. -/
def isOn (d : T30ToneDetect) : Bool :=
  let norm := d.filter.cngPower * 1000
  let norm := if d.filter.power > 1 then norm.tdiv d.filter.power else norm
  let norm := if d.cadence.onCount > 1 then (norm * 140).tdiv 100 else norm
  let norm := if d.cadence.offCount > 1 then (norm * 80).tdiv 100 else norm
  norm > 500

/-- The loop of `Write` with `n` rounds left, at the sample `p` with `len` of them to come. It gives the
result of `Write` and how the chunks completed in it are classified, unless a sample outside the buffer
is read or the rounds do not suffice. -/
def writeLoop (buf : List Byte) :
    Nat → T30ToneDetect → Nat → Nat → Bool → Option (Bool × List Bool × T30ToneDetect)
  | 0, d, _, len, detected => if len = 0 then some (detected, [], d) else none
  | n + 1, d, p, len, detected =>
    if len = 0 then some (detected, [], d)
    else do
      let r ← d.filter.fill buf p len d.filter.index (cngFilterBufLen * cngFilterChunkLen - d.filter.index) 0
      let d := { d with filter := r.2.1 }
      if !r.1 then some (detected, [], d)
      else
        let on := d.isOn
        let c := d.cadence.chunk on
        let d : T30ToneDetect := { filter := {}, cadence := c.2 }
        let iBuf := r.2.2 + 1
        let w ← writeLoop buf n d (p + iBuf) (len - iBuf) (detected || c.1)
        some (w.1, on :: w.2.1, w.2.2)

def write (d : T30ToneDetect) (buf : List Byte) : Option (Bool × List Bool × T30ToneDetect) :=
  writeLoop buf (buf.length / 2) d 0 (buf.length / 2) false

/-- The calls with the buffers of a list. It gives the classification of all chunks. -/
def writes : T30ToneDetect → List (List Byte) → Option (List Bool × T30ToneDetect)
  | d, [] => some ([], d)
  | d, buf :: bufs => do
    let w ← d.write buf
    let r ← writes w.2.2 bufs
    some (w.2.1 ++ r.1, r.2)

end T30ToneDetect

end T38Modem
