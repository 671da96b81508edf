import T38Modem.DataStream
import T38Modem.Signal

namespace T38Modem

inductive ToneType where
  | ttSilence | ttCng | ttCed | ttRing | ttBusy
  deriving DecidableEq, Repr

/-- The octets of the waveform lie in memory with the low octet of each sample first. -/
def simpleBytes (v : Int) : List Byte :=
  [(BitVec.ofInt 16 v).setWidth 8, (BitVec.ofInt 16 v >>> 8).setWidth 8]

/-- `InitTone`, where `sample hz ampl i` is the value `(SIMPLE_TYPE)(Sin * ampl)` for `i`. -/
def initTone (sample : Nat → Int → Nat → Int) (amount hz : Nat) (ampl : Int) : List Byte :=
  (List.range (amount / 2)).flatMap fun i => simpleBytes (sample hz ampl i)

def msec2Bytes (ms : Nat) : Nat := 8000 * ms / 1000 * 2

def maxDiv2Bytes (maxdiv : Nat) : Nat := 8000 / maxdiv * 2

def pMaxIndex : Nat := 0x7fffffff

/-- `toneOn` is the array at `pToneOn`, of `bytesToneOn` octets. The tone is followed by enough
silence for one more of its waveforms. -/
structure ToneGenerator where
  type : ToneType
  bytesOn : Nat
  bytesOff : Nat
  toneOn : List Byte
  index : Nat
  cycle_pos : 0 < bytesOn + bytesOff
  tone_pos : 0 < bytesOn → 0 < toneOn.length
  tail_room : toneOn.length ≤ bytesOff
  index_le : index ≤ bytesOn + bytesOff

theorem length_initTone (sample : Nat → Int → Nat → Int) (amount hz : Nat) (ampl : Int) :
    (initTone sample amount hz ampl).length = amount / 2 * 2 := by
  simp [initTone, simpleBytes, List.length_flatMap]

namespace ToneGenerator

/-- The constructor. -/
def make (sample : Nat → Int → Nat → Int) : ToneType → ToneGenerator
  | .ttCng =>
    { type := .ttCng, bytesOn := msec2Bytes 500, bytesOff := msec2Bytes 3000
      toneOn := initTone sample (maxDiv2Bytes 100) 1100 5000
      index := msec2Bytes 500 + msec2Bytes 3000 - msec2Bytes 1000
      cycle_pos := by decide
      tone_pos := fun _ => by rw [length_initTone]; decide
      tail_room := by rw [length_initTone]; decide
      index_le := by decide }
  | .ttCed =>
    { type := .ttCed, bytesOn := msec2Bytes 3500, bytesOff := pMaxIndex / 2 * 2 - msec2Bytes 3500
      toneOn := initTone sample (maxDiv2Bytes 100) 2100 5000
      index := msec2Bytes 3500 + (pMaxIndex / 2 * 2 - msec2Bytes 3500) - msec2Bytes 200
      cycle_pos := by decide
      tone_pos := fun _ => by rw [length_initTone]; decide
      tail_room := by rw [length_initTone]; decide
      index_le := by decide }
  | .ttRing =>
    { type := .ttRing, bytesOn := msec2Bytes 1000, bytesOff := msec2Bytes 4000
      toneOn := initTone sample (maxDiv2Bytes 25) 425 5000
      index := 0
      cycle_pos := by decide
      tone_pos := fun _ => by rw [length_initTone]; decide
      tail_room := by rw [length_initTone]; decide
      index_le := by decide }
  | .ttBusy =>
    { type := .ttBusy, bytesOn := msec2Bytes 350, bytesOff := msec2Bytes 350
      toneOn := initTone sample (maxDiv2Bytes 25) 425 5000
      index := 0
      cycle_pos := by decide
      tone_pos := fun _ => by rw [length_initTone]; decide
      tail_room := by rw [length_initTone]; decide
      index_le := by decide }
  | .ttSilence =>
    { type := .ttSilence, bytesOn := 0, bytesOff := pMaxIndex / 2 * 2 - 0
      toneOn := []
      index := 0
      cycle_pos := by decide
      tone_pos := fun h => absurd h (by decide)
      tail_room := by decide
      index_le := by decide }

def bytesOnOff (g : ToneGenerator) : Nat := g.bytesOn + g.bytesOff

def setIndex (g : ToneGenerator) (i : Nat) (h : i ≤ g.bytesOn + g.bytesOff) : ToneGenerator :=
  { g with index := i, index_le := h }

/-- What the round of `Read` starts with. -/
def rewind (g : ToneGenerator) : ToneGenerator :=
  if g.index ≥ g.bytesOnOff then g.setIndex 0 (Nat.zero_le _) else g

/-- The length a round of `Read` copies. -/
def roundLen (g : ToneGenerator) (amount : Nat) : Nat :=
  if g.bytesOn > g.index then
    let len := g.toneOn.length - g.index % g.toneOn.length
    if len > amount then amount else len
  else
    let len := g.bytesOnOff - g.index
    if len > amount then amount else len

/-- The octets a round of `Read` copies. -/
def round (g : ToneGenerator) (amount : Nat) : List Byte :=
  if g.bytesOn > g.index then (g.toneOn.drop (g.index % g.toneOn.length)).take (g.roundLen amount)
  else List.replicate (g.roundLen amount) 0

theorem index_roundLen (g : ToneGenerator) (amount : Nat) :
    g.index + g.roundLen amount ≤ g.bytesOn + g.bytesOff := by
  have htail := g.tail_room
  have hindex := g.index_le
  unfold roundLen bytesOnOff
  dsimp only
  split
  next hon => split <;> omega
  next => split <;> omega

/-- The loop of `Read` with `n` rounds left. -/
def readLoop : Nat → ToneGenerator → Nat → List Byte × ToneGenerator
  | 0, g, _ => ([], g)
  | n + 1, g, amount =>
    if amount = 0 then ([], g)
    else
      let g := g.rewind
      let len := g.roundLen amount
      let r := readLoop n (g.setIndex (g.index + len) (g.index_roundLen amount)) (amount - len)
      (g.round amount ++ r.1, r.2)

def read (g : ToneGenerator) (amount : Nat) : List Byte × ToneGenerator := readLoop amount g amount

/-- The reads of a list of amounts, one after another. -/
def reads : ToneGenerator → List Nat → List Byte × ToneGenerator
  | g, [] => ([], g)
  | g, a :: as =>
    let r := reads (g.read a).2 as
    ((g.read a).1 ++ r.1, r.2)

end ToneGenerator

end T38Modem
