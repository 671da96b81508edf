import Mathlib.Data.List.Range
import T38Modem.DataStream

namespace T38Modem

def profileSize : Nat := 60
def minRegExt : Nat := 40
def minRegVoice : Nat := 50
def maxBit : Nat := 7

inductive ModemClassId where
  | mcUndefined | mcFax | mcAudio
  deriving DecidableEq, Repr, Inhabited

structure Profile where
  S : Vector Byte 60
  modemClass : String
  modemClassId : ModemClassId
  deriving DecidableEq

namespace Profile

/-- What is at `S[r]`. There is nothing outside the array. -/
def load (p : Profile) (r : Nat) : Option Byte := p.S[r]?

def store (p : Profile) (r : Nat) (v : Byte) : Option Profile :=
  if h : r < 60 then some { p with S := p.S.set r v h } else none

def chkR (r : Nat) : Bool := r < profileSize
def chkB (b : Nat) : Bool := b ≤ maxBit
def chkRB (r b : Nat) : Bool := chkR r && chkB b
def chkRBB (r bl bh : Nat) : Bool := chkR r && chkB bl && chkB bh && bl ≤ bh

def maskB (b : Nat) : Byte := [0x01, 0x02, 0x04, 0x08, 0x10, 0x20, 0x40, 0x80].getD b 0

def maskBB (bl bh : Nat) : Byte :=
  [0x01, 0x03, 0x07, 0x0F, 0x1F, 0x3F, 0x7F, 0xFF].getD (bh - bl) 0 <<< bl

def setBit (p : Profile) (r b : Nat) (val : Bool) : Option (Bool × Profile) :=
  if !chkRB r b then some (false, p)
  else do
    let msk := maskB b
    let s ← p.load r
    let p ← p.store r (if val then s ||| msk else s &&& ~~~msk)
    some (true, p)

/-- The result, and what is left in `val`. -/
def getBit (p : Profile) (r b : Nat) : Option (Bool × Bool) :=
  if !chkRB r b then some (false, false)
  else do
    let s ← p.load r
    some (true, s &&& maskB b != 0)

def setReg (p : Profile) (r : Nat) (val : Byte) : Option (Bool × Profile) :=
  if !chkR r then some (false, p)
  else do
    let p ← p.store r val
    some (true, p)

def getReg (p : Profile) (r : Nat) : Option (Bool × Byte) :=
  if !chkR r then some (false, 0)
  else do
    let s ← p.load r
    some (true, s)

def setBits (p : Profile) (r bl bh : Nat) (val : Byte) : Option (Bool × Profile) :=
  if !chkRBB r bl bh then some (false, p)
  else do
    let msk := maskBB bl bh
    let s ← p.load r
    let p ← p.store r (s &&& ~~~msk)
    let s ← p.load r
    let p ← p.store r (s &&& ((val <<< bl) &&& msk))
    some (true, p)

def getBits (p : Profile) (r bl bh : Nat) : Option (Bool × Byte) :=
  if !chkRBB r bl bh then some (false, 0)
  else do
    let msk := maskBB bl bh
    let s ← p.load r
    some (true, (s &&& msk) >>> bl)

/-- `ModemClass(_modemClass)`. -/
def setModemClass (p : Profile) (modemClass : String) : Profile :=
  { p with
    modemClass := modemClass
    modemClassId := if modemClass = "1" then .mcFax else if modemClass = "8" then .mcAudio else .mcUndefined }

/-- The loop that copies the registers `rs` of another profile. -/
def copyRegs (p q : Profile) (rs : List Nat) : Option Profile :=
  rs.foldlM (fun p r => do p.store r (← q.load r)) p

/-- `operator=`, whose loop runs up to `r <= sizeof(S)/sizeof(S[0])`. -/
def assign (p q : Profile) : Option Profile := do
  let p ← p.copyRegs q (List.range (profileSize + 1))
  some (p.setModemClass q.modemClass)

def setVoiceProfile (p q : Profile) : Option Profile :=
  p.copyRegs q (List.range' minRegVoice (profileSize - minRegVoice))

end Profile

/-- The operations on a profile. The typed settings are `SetBit` and `SetReg` at fixed places. -/
inductive ProfileOp where
  | setBit (r b : Nat) (val : Bool)
  | setReg (r : Nat) (val : Byte)
  | setBits (r bl bh : Nat) (val : Byte)
  | getBit (r b : Nat)
  | getReg (r : Nat)
  | getBits (r bl bh : Nat)
  | setVoiceProfile (q : Profile)
  | assign (q : Profile)

namespace ProfileOp

def echo (val : Bool) : ProfileOp := .setBit 23 0 val
def asciiResultCodes (val : Bool) : ProfileOp := .setBit 23 6 val
def noResultCodes (val : Bool) : ProfileOp := .setBit 23 7 val
def autoAnswer (val : Byte) : ProfileOp := .setReg 0 val
def ringCount (val : Byte) : ProfileOp := .setReg 1 val
def s7 (val : Byte) : ProfileOp := .setReg 7 val
def dialTimeComma (val : Byte) : ProfileOp := .setReg 8 val
def dialTimeDTMF (val : Byte) : ProfileOp := .setReg 11 val
def ifcByDCE (val : Byte) : ProfileOp := .setReg (minRegExt + 0) val
def ifcByDTE (val : Byte) : ProfileOp := .setReg (minRegExt + 1) val
def clearMode (val : Byte) : ProfileOp := .setReg (minRegExt + 2) val
def delayFrmConnect (val : Byte) : ProfileOp := .setReg (minRegExt + 3) val
def didMode (val : Byte) : ProfileOp := .setReg (minRegExt + 4) val
def cidMode (val : Byte) : ProfileOp := .setReg (minRegExt + 5) val
def vtd (val : Byte) : ProfileOp := .setReg (minRegVoice + 0) val
def vcml (val : Byte) : ProfileOp := .setReg (minRegVoice + 1) val
def vsds (val : Byte) : ProfileOp := .setReg (minRegVoice + 2) val
def vsdi (val : Byte) : ProfileOp := .setReg (minRegVoice + 3) val
def vgrInterval (val : Byte) : ProfileOp := .setReg (minRegVoice + 4) val
def vgtInterval (val : Byte) : ProfileOp := .setReg (minRegVoice + 5) val
def vraInterval (val : Byte) : ProfileOp := .setReg (minRegVoice + 6) val
def vrnInterval (val : Byte) : ProfileOp := .setReg (minRegVoice + 7) val
def cidNameFmt (val : Byte) : ProfileOp := .setReg (minRegVoice + 8) val
def cidNmbrFmt (val : Byte) : ProfileOp := .setReg (minRegVoice + 9) val
def flo (val : Byte) : List ProfileOp := [ifcByDTE val, ifcByDCE val]

/-- The operation on a profile: what it returns, the value it reads, and the profile it leaves. -/
def apply (p : Profile) : ProfileOp → Option (Bool × Byte × Profile)
  | setBit r b val => (p.setBit r b val).map fun x => (x.1, 0, x.2)
  | setReg r val => (p.setReg r val).map fun x => (x.1, 0, x.2)
  | setBits r bl bh val => (p.setBits r bl bh val).map fun x => (x.1, 0, x.2)
  | getBit r b => (p.getBit r b).map fun x => (x.1, if x.2 then 1 else 0, p)
  | getReg r => (p.getReg r).map fun x => (x.1, x.2, p)
  | getBits r bl bh => (p.getBits r bl bh).map fun x => (x.1, x.2, p)
  | setVoiceProfile q => (p.setVoiceProfile q).map fun p => (true, 0, p)
  | assign q => (p.assign q).map fun p => (true, 0, p)

end ProfileOp

/-- The constructor, in the order of its body. -/
def Profile.defaults : List ProfileOp :=
  [.s7 60, .dialTimeComma 2, .dialTimeDTMF 70, .echo true, .vraInterval 50, .vrnInterval 10, .vsds 128,
    .vsdi 50, .vcml 132, .vtd 100, .asciiResultCodes true, .noResultCodes false]

/-- The profile after a list of operations. -/
def Profile.applyAll (p : Profile) (ops : List ProfileOp) : Option Profile :=
  ops.foldlM (fun p op => (ProfileOp.apply p op).map fun x => x.2.2) p

def Profile.init : Option Profile :=
  (Profile.applyAll { S := Vector.replicate 60 0, modemClass := "", modemClassId := .mcUndefined }
    defaults).map fun p => p.setModemClass "1"

end T38Modem
