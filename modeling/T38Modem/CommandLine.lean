import T38Modem.Cursor
import T38Modem.DialString
import T38Modem.ModemSystem
import T38Modem.Profile

namespace T38Modem

/-- `DeclareResultCode`: the numeric and the ASCII form. -/
def ResultCode.texts : ResultCode → String × String
  | .ok => ("0\r", "OK\r\n")
  | .connect => ("1\r", "CONNECT\r\n")
  | .ring => ("2\r", "RING\r\n")
  | .noCarrier => ("3\r", "NO CARRIER\r\n")
  | .error => ("4\r", "ERROR\r\n")
  | .busy => ("7\r", "BUSY\r\n")
  | .fcError => ("+F4\r", "+FCERROR\r\n")

namespace Profile

def byte (p : Profile) (r : Nat) : Byte := (p.load r).getD 0

def asciiResultCodes (p : Profile) : Bool := ((p.getBit 23 6).getD (false, false)).2
def s7 (p : Profile) : Byte := p.byte 7
def ifcByDCE (p : Profile) : Byte := p.byte (minRegExt + 0)
def ifcByDTE (p : Profile) : Byte := p.byte (minRegExt + 1)
def clearMode (p : Profile) : Byte := p.byte (minRegExt + 2)
def delayFrmConnect (p : Profile) : Byte := p.byte (minRegExt + 3)
def didMode (p : Profile) : Byte := p.byte (minRegExt + 4)
def cidMode (p : Profile) : Byte := p.byte (minRegExt + 5)
def vtd (p : Profile) : Byte := p.byte (minRegVoice + 0)
def vcml (p : Profile) : Byte := p.byte (minRegVoice + 1)
def vsds (p : Profile) : Byte := p.byte (minRegVoice + 2)
def vsdi (p : Profile) : Byte := p.byte (minRegVoice + 3)
def vgrInterval (p : Profile) : Byte := p.byte (minRegVoice + 4)
def vgtInterval (p : Profile) : Byte := p.byte (minRegVoice + 5)
def vraInterval (p : Profile) : Byte := p.byte (minRegVoice + 6)
def vrnInterval (p : Profile) : Byte := p.byte (minRegVoice + 7)
def cidNameFmt (p : Profile) : Byte := p.byte (minRegVoice + 8)
def cidNmbrFmt (p : Profile) : Byte := p.byte (minRegVoice + 9)
def flo (p : Profile) : Byte := if p.ifcByDTE = p.ifcByDCE then p.ifcByDTE else 255

/-- The profile behind an operation. Outside the array nothing is written. -/
def after (p : Profile) (op : ProfileOp) : Profile := ((op.apply p).map fun x => x.2.2).getD p

/-- `Profiles[0]`, the only one. -/
def factory (p : Profile) : Profile := Profile.init.getD p

end Profile

def ModemClassId.toClass : ModemClassId → ModemClass
  | .mcUndefined => .mcUndefined
  | .mcFax => .mcFax
  | .mcAudio => .mcAudio

/-- What comes from outside while a command of the line is executed: the answers of the engines, the
response of the endpoint to `answer`, the results of `PDTMFEncoder::Generate` at the places of the line,
and what the other threads do before the command takes `Mutex` and where it gives it up. -/
structure World where
  answers : Answers := {}
  confirm : Bool := true
  generate : Nat → Bool := fun _ => true
  minFrequency : Int := 30
  before : List ModemAct := []
  meanwhile : Nat → List ModemAct := fun _ => []

namespace ModemEngineBody

/-- What another thread does. -/
def other (b : ModemEngineBody) : ModemAct → ModemEngineBody
  | .request a r => (b.request a r).1
  | .newPtrEngine a mce => b.attachEngine a mce
  | .onOutBufEmpty => b.onOutBufEmpty
  | .onSeq => b.onSeq
  | .onTimeout .timeout => { b with timeout := b.timeout.onTimeout }
  | .onTimeout .ring => { b with timerRing := b.timerRing.onTimeout }
  | .onTimeout .busy => { b with timerBusy := b.timerBusy.onTimeout }
  | _ => b

def others (b : ModemEngineBody) (as : List ModemAct) : ModemEngineBody := as.foldl other b

/-- `_DetachEngine`, which waits for the engine while the others go on. -/
def takeDown (b : ModemEngineBody) (mce : ModemClassEngine) (as : List ModemAct) : ModemEngineBody :=
  if b.activeEngine mce = false then b
  else
    let b := b.others as
    if b.activeEngine mce = false then b else b.detached mce

/-- `_ClearCall` -/
def clear (w : World) (b : ModemEngineBody) : ModemEngineBody :=
  if b.callState = .cstCleared then b
  else
    let b := b.beginClear w.answers
    if b.callToken ≠ "" then ({ b with callToken := "" }.others (w.meanwhile 2)).endClear else b.endClear

/-- `OnHook` -/
def hookOn (w : World) (b : ModemEngineBody) : ModemEngineBody :=
  if b.off_hook then ((b.hangUp.takeDown .mceT38 (w.meanwhile 0)).takeDown .mceAudio (w.meanwhile 1)).clear w
  else b.clear w

/-- `Answer` -/
def pickUp (w : World) (b : ModemEngineBody) : Bool × ModemEngineBody :=
  let b := { b.offHook with timerRing := .stopped, forceFaxMode := true }
  if b.connectionEstablished = false then
    if b.callState = .cstCalled then
      let b := { (b.setCallState .cstAnswering).setState .stConnectWait with timeout := .start false }
      let b := b.others (w.meanwhile 3)
      if w.confirm then (true, b) else (false, b.hookOn w)
    else (false, b.hookOn w)
  else (true, { b with timeout := .stopped }.setState .stConnectHandle .chConnectionEstablished)

end ModemEngineBody

/-- A part of the response: a text, or a result code in the form that the registers choose. -/
inductive Piece where
  | text (s : String)
  | result (code : ResultCode) (s : String)
  deriving DecidableEq, Repr

/-- The locals of `HandleCmdRest`, with the modem and the strings it reports. -/
structure CmdLine extends Cursor where
  err : Bool := false
  ok : Bool := true
  crlf : Bool := false
  resp : List Piece := []
  cmdRest : List Char := []
  body : ModemEngineBody
  P : Profile
  SrcNum : String := ""
  DstNum : String := ""
  Manufacturer : String := ""
  Model : String := "T38FAX"
  Revision : String := ""

/-- A part of a command. There is none where it reads behind the NUL of the line. -/
abbrev Cmd := CmdLine → Option CmdLine

namespace CmdLine

def rcPref (s : CmdLine) : Piece := .text (if s.P.asciiResultCodes then "\r\n" else "")

def rc (s : CmdLine) (code : ResultCode) : Piece :=
  .result code (if s.P.asciiResultCodes then code.texts.2 else code.texts.1)

/-- `if (crlf) { resp += "\r\n"; crlf = FALSE; } else resp += RC_PREF();` -/
def beginResult (s : CmdLine) : CmdLine :=
  if s.crlf then { s with resp := s.resp ++ [.text "\r\n"], crlf := false } else { s with resp := s.resp ++ [s.rcPref] }

end CmdLine

namespace Cmd

def pass : Cmd := some

/-- `err = TRUE` -/
def fail : Cmd := fun s => some { s with err := true }

def edit (f : CmdLine → CmdLine) : Cmd := fun s => some (f s)

/-- `P.op(..)` -/
def setP (op : ProfileOp) : Cmd := edit fun s => { s with P := s.P.after op }

/-- `resp += ..; crlf = TRUE;` -/
def reply (t : CmdLine → String) : Cmd := edit fun s => { s with resp := s.resp ++ [.text (t s)], crlf := true }

/-- `switch (*pCmd++)` whose default is an error. -/
def switch (cases : List (Char × Cmd)) : Cmd := fun s =>
  match s.read with
  | none => none
  | some ch => (cases.lookup ch).getD fail { s with toCursor := s.skip 1 }

/-- `if (*pCmd == ch) { pCmd++; .. } else ..` -/
def ifNext (ch : Char) (x y : Cmd) : Cmd := fun s =>
  match s.read with
  | none => none
  | some c => if c = ch then x { s with toCursor := s.skip 1 } else y s

/-- `if (strncmp(pCmd, word, n) == 0) { pCmd += n; .. } else ..` -/
def ifWord (word : List Char) (x y : Cmd) : Cmd := fun s =>
  match s.read with
  | none => none
  | some _ => if word.isPrefixOf s.rest then x { s with toCursor := s.skip word.length } else y s

/-- An `int` of 32 bits. -/
def int32 (n : Int) : Int := n.bmod (2 ^ 32)

def digits (s : List Char) : List Char := s.takeWhile Char.isDigit

def value (ds : List Char) : Int := ds.foldl (fun num c => int32 (num * 10 + (c.toNat - '0'.toNat : Nat))) 0

/-- `ParseNum` -/
def parseNum (c : Cursor) (minDigits maxDigits : Nat) (maxNum defNum : Int) : Option (Int × Cursor) :=
  match c.read with
  | none => none
  | some _ =>
    let ds := digits c.rest
    let num := value ds
    let c := c.skip ds.length
    if ds.length < minDigits ∨ ds.length > maxDigits ∨ num > maxNum then some (-1, c)
    else if ds.length = 0 then some (defNum, c)
    else some (num, c)

/-- Go on with what `ParseNum` returns. -/
def num (minDigits maxDigits : Nat) (maxNum : Int) (defNum : CmdLine → Int) (f : Int → Cmd) : Cmd := fun s =>
  match parseNum s.toCursor minDigits maxDigits maxNum (defNum s) with
  | none => none
  | some (v, c) => f v { s with toCursor := c }

/-- `ParseNum(&pCmd)` -/
def num3 (f : Int → Cmd) : Cmd := num 1 3 255 (fun _ => 0) f

/-- `(BYTE)val` -/
def toByte (val : Int) : Byte := BitVec.ofInt 8 val

/-- `ToSBit` -/
def toSBit (funk : Bool → ProfileOp) : Cmd := num 0 1 1 (fun _ => 0) fun val =>
  if val = 0 then setP (funk false) else if val = 1 then setP (funk true) else fail

/-- A number that is read and not used. -/
def unused (minDigits maxDigits : Nat) (maxNum : Int) : Cmd :=
  num minDigits maxDigits maxNum (fun _ => 0) fun val => if val ≥ 0 then pass else fail

/-- The forms `=?`, `=` and `?` of a parameter. -/
def param (range : String) (set : Cmd) (get : CmdLine → String) : Cmd :=
  switch [('=', ifNext '?' (reply fun _ => range) set), ('?', reply get)]

/-- A parameter that takes every octet. -/
def byteParam (range : String) (op : Byte → ProfileOp) (get : Profile → Byte) : Cmd :=
  param range (num3 fun val => if val ≥ 0 then setP (op (toByte val)) else fail)
    fun s => "\r\n" ++ toString (get s.P).toNat

/-- A parameter that takes 0 and 1. -/
def bitParam (range : String) (op : Byte → ProfileOp) (get : Profile → Byte) : Cmd :=
  param range (num3 fun val => if val = 0 ∨ val = 1 then setP (op (toByte val)) else fail)
    fun s => "\r\n" ++ toString (get s.P).toNat

end Cmd

end T38Modem
