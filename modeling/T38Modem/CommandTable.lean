import T38Modem.CommandLine

namespace T38Modem

namespace Cmd

variable (w : World)

/-- `P.ModemClass(cl); OnChangeModemClass();` -/
def setClass (cl : String) : Cmd := edit fun s =>
  let P := s.P.setModemClass cl
  { s with P, body := { s.body with modemClass := P.modemClassId.toClass }.onChangeModemClass }

/-- `OnHook`, if the condition holds. -/
def hookIf (p : CmdLine → Bool) : Cmd := edit fun s => if p s then { s with body := s.body.hookOn w } else s

/-- `off_hook || P.ClearMode()` -/
def hangsUp (s : CmdLine) : Bool := s.body.off_hook || s.P.clearMode != 0

def andThen (x y : Cmd) : Cmd := fun s => (x s).bind y

/-- `P = Profiles[0]; OnChangeModemClass(); if (off_hook) OnHook();` -/
def loadProfile : Cmd :=
  andThen (edit fun s =>
    let P := s.P.factory
    { s with P, body := { s.body with modemClass := P.modemClassId.toClass }.onChangeModemClass })
    (hookIf w fun s => s.body.off_hook)

/-- `callDirection = ..; if (!Answer()) err = TRUE;` -/
def answer (direction : CallDirection) : Cmd := edit fun s =>
  let (res, body) := { s.body with callDirection := direction }.pickUp w
  { s with ok := false, body, err := s.err || !res }

/-- An operation of the engine that fails or goes on. -/
def operate (f : ModemEngineBody → Bool × ModemEngineBody) : Cmd := edit fun s =>
  { s with ok := false, body := (f s.body).2, err := s.err || !(f s.body).1 }

/-- `SendStart` and its response. -/
def sendStart (dt : DataType) : Cmd := fun s =>
  let (res, body) := s.body.sendStart w.answers dt
  let s := { s with ok := false, body }
  if res then some { s.beginResult with resp := s.beginResult.resp ++ [s.rc .connect] } else fail s

/-- `P.ModemClassId() == cl`, and the return of FALSE where it is not. -/
def inClass (cl : ModemClassId) (x : Cmd) : Cmd := fun s => if s.P.modemClassId = cl then x s else fail s

/-- The character `n` in front of the pointer. -/
def back (s : CmdLine) (n : Nat) : Option Char := if n ≤ s.pos then { s.toCursor with pos := s.pos - n }.read else none

def signalRates : List Int := [3, 24, 48, 72, 73, 74, 96, 97, 98, 121, 122, 145, 146]

/-- `HandleClass1Cmd` -/
def handleClass1Cmd : Cmd := fun s =>
  match back s 2, back s 1 with
  | some t, some d =>
    if t = 'T' ∨ t = 'R' then
      if d = 'S' then
        switch [('=', ifNext '?' (reply fun _ => "\r\n0-255") <| inClass .mcFax <| num3 fun dms =>
          if dms ≥ 0 then
            if t = 'T' then operate (ModemEngineBody.sendSilence w.answers)
            else operate (ModemEngineBody.recvSilence w.answers)
          else fail)] s
      else if d = 'M' ∨ d = 'H' then
        let dt : DataType := if d = 'M' then .dtRaw else .dtHdlc
        let range := if d = 'M' then "\r\n24,48,72,73,74,96,97,98,121,122,145,146" else "\r\n3"
        switch [('=', ifNext '?' (reply fun _ => range) <| inClass .mcFax <| num3 fun br =>
          if br = 3 ∧ dt = .dtRaw then fail
          else if br ∈ signalRates then
            if t = 'T' then sendStart w dt else operate fun b => b.recvStart w.answers dt
          else fail)] s
      else fail s
    else fail s
  | _, _ => none

def toneFrequencyMax : Int := 8000 / 4
def toneDmsMax : Int := 500

/-- `f = ParseNum(..); if (f && f < TONE_FREQUENCY_MIN) return FALSE;` -/
def frequency (x : Cmd) : Cmd := num 0 5 toneFrequencyMax (fun _ => 0) fun f =>
  if f ≠ 0 ∧ f < w.minFrequency then fail else x

/-- `dms = ParseNum(..); if (dms < 0) return FALSE;` -/
def duration (x : Int → Cmd) : Cmd := num 0 5 toneDmsMax (fun s => s.P.vtd.toNat) fun dms =>
  if dms < 0 then fail else x dms

/-- The closing bracket, with the generation of the tone in front of it. -/
def closeTone (ch : Char) (generates : Bool) (dms : Int) (x : Cmd) : Cmd := fun s =>
  match s.read with
  | none => none
  | some c =>
    if c ≠ ch then fail s
    else if dms ≠ 0 ∧ generates ∧ w.generate s.pos = false then fail s
    else x { s with toCursor := s.skip 1 }

/-- `dms = P.Vtd()` -/
def withVtd (x : Int → Cmd) : Cmd := fun s => x s.P.vtd.toNat s

def openBracket : Char := '['
def closeBracket : Char := ']'
def openBrace : Char := Char.ofNat 0x7B
def closeBrace : Char := Char.ofNat 0x7D

def isDtmf (ch : Char) : Bool := ch.isDigit || ch ∈ ['A', 'B', 'C', '*', '#']

/-- The `switch` of a round of the loop of `AT+VTS`. -/
def tone (x : Cmd) : Cmd := fun s =>
  match s.read with
  | none => none
  | some ch =>
    let next := { s with toCursor := s.skip 1 }
    if ch = openBracket then
      frequency w
        (ifNext ','
          (frequency w (ifNext ',' (duration fun dms => closeTone w closeBracket true dms x)
            (withVtd fun dms => closeTone w closeBracket true dms x)))
          (withVtd fun dms => closeTone w closeBracket true dms x)) next
    else if ch = openBrace then
      match next.read with
      | none => none
      | some dtmf =>
        let named := isDtmf dtmf
        ifNext ',' (duration fun dms => closeTone w closeBrace (!named) dms x)
          (withVtd fun dms => closeTone w closeBrace (!named) dms x)
          (if named then { next with toCursor := next.skip 1 } else next)
    else if isDtmf ch ∨ ch = 'D' then x next
    else if ch = ',' then if w.generate s.pos then x s else fail s
    else x s

/-- The loop of `AT+VTS` with `n` rounds left. -/
def tones (x : Cmd) : Nat → Cmd
  | 0 => fun _ => none
  | n + 1 => tone w (ifNext ',' (tones x n) x)

/-- `HandleClass8Cmd` -/
def handleClass8Cmd : Cmd := fun s =>
  match back s 2, back s 1 with
  | some t, some d =>
    if t = 'T' ∨ t = 'R' then
      if d = 'S' then
        switch [('=', ifNext '?'
          (reply fun _ => s!"\r\n(0,{w.minFrequency}-{toneFrequencyMax}),(0,{w.minFrequency}-{toneFrequencyMax}),(0-{toneDmsMax})")
          (inClass .mcAudio fun s =>
            tones w (operate (ModemEngineBody.sendTones w.answers)) (s.line.length + 1) { s with ok := false }))] s
      else if d = 'X' then
        inClass .mcAudio (if t = 'T' then sendStart w .dtRaw else operate fun b => b.recvStart w.answers .dtRaw) s
      else fail s
    else fail s
  | _, _ => none

/-- The loop of `ATD` with `n` rounds left. The modem is `online` when it has a call token. -/
def dialLoop (online : Bool) : Nat → Dialing → CmdLine → Option (Dialing × CmdLine)
  | 0, _, _ => none
  | n + 1, d, s =>
    match s.read with
    | none => none
    | some ch =>
      let next := { s with toCursor := s.skip 1 }
      if ch = Cursor.nul then some (d, s)
      else if ch = ';' then
        some ({ d with setCallDirection := .cdUndefined, cmdRest := next.rest }, { next with cmdRest := next.rest })
      else
        let d := d.dialChar online ch
        if d.err then some (d, next) else dialLoop online n d next

/-- `ATD` behind its loop. -/
def dialled (wasOnHook online : Bool) (d : Dialing) (s : CmdLine) : CmdLine :=
  let tone := s.body.pPlayTone || decide (d.numTone ≠ [])
  if d.err then { s with err := true, body := if wasOnHook then s.body.hookOn w else s.body }
  else if online then
    if s.body.connectionEstablished then
      let body := { s.body with
        callDirection := d.setCallDirection, forceFaxMode := s.body.forceFaxMode || d.setForceFaxMode }
      { s with body := { body.setState .stConnectHandle .chConnected with pPlayTone := tone } }
    else
      let s := { s with body := s.body.hookOn w }
      { s.beginResult with resp := s.beginResult.resp ++ [s.rc .busy] }
  else
    let body := { s.body with
      callDirection := d.setCallDirection, forceFaxMode := d.setForceFaxMode, timerRing := .stopped }
    { s with body := { body.setState .stDial with pPlayTone := tone, timeout := .start false } }

def dial : Cmd := fun s =>
  let online := decide (s.body.callToken ≠ "")
  let body := s.body.offHook
  let body := if online then body else { body with pPlayTone := false }
  (dialLoop online (s.line.length + 1) { addNumTone := online } { s with ok := false, body }).map fun r =>
    dialled w (!s.body.off_hook) online r.1 r.2

def register : Cmd := num3 fun r =>
  if r ≥ 0 then
    switch [
      ('=', num3 fun val s =>
        match if val < 0 then none else s.P.setReg r.toNat (toByte val) with
        | some (true, P) => some { s with P }
        | _ => fail s),
      ('?', fun s =>
        match s.P.getReg r.toNat with
        | some (true, val) =>
          let t := toString val.toNat
          reply (fun _ => "\r\n" ++ String.ofList (List.replicate (3 - t.length) '0') ++ t) s
        | _ => fail s),
      ('.', num 1 1 7 (fun _ => 0) fun b =>
        if b ≥ 0 then
          switch [
            ('=', num 1 1 1 (fun _ => 0) fun val s =>
              match if val < 0 then none else s.P.setBit r.toNat b.toNat (val != 0) with
              | some (true, P) => some { s with P }
              | _ => fail s),
            ('?', fun s =>
              match s.P.getBit r.toNat b.toNat with
              | some (true, val) => reply (fun _ => if val then "\r\n1" else "\r\n0") s
              | _ => fail s)]
        else fail)]
  else fail

def information : Cmd := num 0 1 255 (fun _ => 0) fun val =>
  if val = 0 then reply fun s => "\r\n" ++ s.Model
  else if val = 3 then reply fun s => "\r\n" ++ s.Manufacturer
  else if val = 8 then reply fun s => "\r\nNMBR = " ++ s.SrcNum
  else if val = 9 then reply fun s => "\r\nNDID = " ++ s.DstNum
  else if val < 0 then fail
  else pass

def fclass : Cmd :=
  param "\r\n1,8"
    (num3 fun val =>
      if val = 0 then setClass "0" else if val = 1 then setClass "1" else if val = 8 then setClass "8" else fail)
    fun s => "\r\n" ++ s.P.modemClass

def flo : Cmd :=
  param "\r\n0-2"
    (num3 fun val =>
      if val = 0 ∨ val = 1 ∨ val = 2 then edit fun s => { s with P := (ProfileOp.flo (toByte val)).foldl Profile.after s.P }
      else fail)
    fun s => "\r\n" ++ toString s.P.flo.toNat

/-- A parameter that is only read. -/
def readOnly (get : CmdLine → String) : Cmd := switch [('?', reply get)]

/-- A parameter that takes 0 alone. -/
def zeroParam (range : String) (set : Int → Bool) : Cmd :=
  param range (num3 fun val => if set val then pass else fail) fun _ => "\r\n0"

def ifc : Cmd :=
  param "\r\n+IFC:(0-2),(0-2)"
    (num 1 1 2 (fun _ => 0) fun valByDTE =>
      if valByDTE < 0 then fail
      else
        let set (valByDCE : CmdLine → Byte) : Cmd := edit fun s =>
          { s with P := (s.P.after (.ifcByDTE (toByte valByDTE))).after (.ifcByDCE (valByDCE s)) }
        ifNext ',' (num3 fun valByDCE => if valByDCE < 0 then fail else set fun _ => toByte valByDCE)
          (set fun s => s.P.ifcByDCE))
    fun s => s!"\r\n+IFC:{s.P.ifcByDTE.toNat},{s.P.ifcByDCE.toNat}"

def vip : Cmd :=
  let set : Cmd := edit fun s => { s with P := s.P.after (.setVoiceProfile s.P.factory) }
  ifNext '='
    (ifNext '?' (reply fun _ => "\r\n(0-0)") (num3 fun val => if val < 0 ∨ val > 0 then fail else set))
    set

def vls : Cmd :=
  param ("\r\n0,\"\",00000000,00000000,00000000" ++ "\r\n1,\"T\",00000000,00000000,00000000" ++
      "\r\n5,\"ST\",00000000,00000000,00000000" ++ "\r\n7,\"MST\",00000000,00000000,00000000")
    (num3 fun val =>
      if val = 0 then hookIf w hangsUp
      else if val = 1 ∨ val = 5 ∨ val = 7 then answer w .cdUndefined
      else fail)
    fun s => if s.body.off_hook then "\r\n1" else "\r\n0"

def vsd : Cmd :=
  param "\r\n(0-255),(0-255)"
    (num3 fun sds =>
      if sds < 0 then fail
      else
        ifNext ','
          (num3 fun sdi =>
            if sdi < 0 then fail
            else edit fun s => { s with P := (s.P.after (.vsds (toByte sds))).after (.vsdi (toByte sdi)) })
          fail)
    fun s => s!"\r\n{s.P.vsds.toNat},{s.P.vsdi.toNat}"

def vsm : Cmd :=
  param ("\r\n0,\"SIGNED PCM\",8,0,(8000),(0),(0)" ++ "\r\n1,\"UNSIGNED PCM\",8,0,(8000),(0),(0)" ++
      "\r\n4,\"G.711U\",8,0,(8000),(0),(0)" ++ "\r\n5,\"G.711A\",8,0,(8000),(0),(0)" ++
      "\r\n128,\"8-BIT LINEAR\",8,0,(8000),(0),(0)" ++ "\r\n129,\"ADPCM (NOT IMPLEMENTED)\",0,0,(0),(0),(0)" ++
      "\r\n130,\"UNSIGNED PCM\",8,0,(8000),(0),(0)" ++ "\r\n131,\"G.711 ULAW\",8,0,(8000),(0),(0)" ++
      "\r\n132,\"G.711 ALAW\",8,0,(8000),(0),(0)")
    (num3 fun cml =>
      if cml ∈ [0, 1, 4, 5, 128, 130, 131, 132] then
        let set : Cmd := setP (.vcml (toByte cml))
        ifNext ','
          (num 4 4 8000 (fun _ => 0) fun vsr =>
            if vsr ≠ 8000 then fail
            else
              ifNext ','
                (num3 fun scs =>
                  if scs ≠ 0 then fail
                  else ifNext ',' (num3 fun sel => if sel ≠ 0 then fail else set) set)
                set)
          set
      else fail)
    fun s => s!"\r\n{s.P.vcml.toNat},8000,0,0"

/-- `#CID`, and `#CIDFMT` behind it. -/
def cid : Cmd :=
  let set (c d : Byte) : Cmd := edit fun s => { s with P := (s.P.after (.cidMode c)).after (.didMode d) }
  switch [
    ('=', ifNext '?' (reply fun _ => "\r\n(0,1,10,11)") <| num3 fun val =>
      if val = 0 then set 0 0 else if val = 1 then set 1 0 else if val = 10 then set 1 1
      else if val = 11 then set 0 1 else fail),
    ('?', reply fun s =>
      if s.P.cidMode ≠ 0 then if s.P.didMode ≠ 0 then "\r\n10" else "\r\n1"
      else if s.P.didMode ≠ 0 then "\r\n11" else "\r\n0"),
    ('F', ifWord ['M', 'T']
      (switch [
        ('=', num 0 1 3 (fun s => s.P.cidNameFmt.toNat) fun name =>
          if name < 0 then fail
          else
            let set (nmbr : CmdLine → Byte) : Cmd := edit fun s =>
              { s with P := (s.P.after (.cidNameFmt (toByte name))).after (.cidNmbrFmt (nmbr s)) }
            ifNext ','
              (num 0 1 3 (fun s => s.P.cidNmbrFmt.toNat) fun nmbr => if nmbr < 0 then fail else set fun _ => toByte nmbr)
              (set fun s => s.P.cidNmbrFmt)),
        ('?', reply fun s => s!"\r\n{s.P.cidNameFmt.toNat},{s.P.cidNmbrFmt.toNat}")])
      fail)]

def fax : Cmd :=
  switch [
    ('A', ifNext 'A' (zeroParam "\r\n0" fun val => val = 0) fail),
    ('C', ifWord ['L', 'A', 'S', 'S'] fclass fail),
    ('L', switch [('O', flo)]),
    ('M', switch [
      ('D', switch [('L', readOnly fun s => "\r\n" ++ s.Model)]),
      ('F', switch [('R', readOnly fun s => "\r\n" ++ s.Manufacturer)]),
      ('I', readOnly fun s => "\r\n" ++ s.Manufacturer),
      ('M', readOnly fun s => "\r\n" ++ s.Model),
      ('R', readOnly fun s => "\r\n" ++ s.Revision)]),
    ('R', ifNext 'M' (handleClass1Cmd w) <| ifNext 'H' (handleClass1Cmd w) <| ifNext 'S' (handleClass1Cmd w) <|
      ifWord ['E', 'V'] (readOnly fun s => "\r\n" ++ s.Revision) fail),
    ('T', ifNext 'M' (handleClass1Cmd w) <| ifNext 'H' (handleClass1Cmd w) <| ifNext 'S' (handleClass1Cmd w) fail)]

def voice : Cmd :=
  switch [
    ('C', ifWord ['I', 'D'] (bitParam "\r\n(0,1)" .cidMode (·.cidMode)) fail),
    ('E', switch [('M', zeroParam "\r\n(0)" fun val => val = 0)]),
    ('G', switch [
      ('R', byteParam "\r\n(0-255)" .vgrInterval (·.vgrInterval)),
      ('T', byteParam "\r\n(0-255)" .vgtInterval (·.vgtInterval))]),
    ('I', switch [('P', vip), ('T', zeroParam "\r\n(0)" fun val => val ≥ 0)]),
    ('L', switch [('S', vls w)]),
    ('R', switch [
      ('A', byteParam "\r\n(0-255)" .vraInterval (·.vraInterval)),
      ('N', byteParam "\r\n(0-255)" .vrnInterval (·.vrnInterval)),
      ('X', handleClass8Cmd w)]),
    ('S', switch [('D', vsd), ('M', vsm)]),
    ('T', switch [
      ('D', byteParam "\r\n(0-255)" .vtd (·.vtd)),
      ('X', handleClass8Cmd w),
      ('S', handleClass8Cmd w)])]

def ampersand : Cmd :=
  switch [
    ('C', unused 0 1 1),
    ('D', unused 0 1 3),
    ('F', loadProfile w),
    ('H', num 0 1 7 (fun _ => 0) fun val => if val ≥ 0 then setP (.setBits 27 3 5 (toByte val)) else fail)]

def sharp : Cmd :=
  ifWord ['C', 'I', 'D'] cid <|
    ifWord ['D', 'F', 'R', 'M', 'C'] (byteParam "\r\n(0-255)" .delayFrmConnect (·.delayFrmConnect)) <|
      ifWord ['H', 'C', 'L', 'R'] (bitParam "\r\n(0,1)" .clearMode (·.clearMode)) fail

/-- The `switch` of `HandleCmdRest`. -/
def command : Cmd :=
  switch [
    (' ', pass),
    (';', pass),
    ('A', answer w .cdIncoming),
    ('B', unused 0 1 255),
    ('D', dial w),
    ('E', toSBit .echo),
    ('H', num 0 1 0 (fun _ => 0) fun val =>
      if val ≥ 0 then andThen (setClass "1") (hookIf w hangsUp) else fail),
    ('I', information),
    ('L', unused 0 1 255),
    ('M', unused 0 1 255),
    ('N', unused 0 1 255),
    ('O', fail),
    ('Q', toSBit .noResultCodes),
    ('S', register),
    ('V', toSBit .asciiResultCodes),
    ('X', num 0 1 255 (fun _ => 0) fun val => if val ≥ 3 then pass else fail),
    ('Z', num 0 1 0 (fun _ => 0) fun val => if val ≥ 0 then loadProfile w else fail),
    ('+', switch [('F', fax w), ('I', switch [('F', switch [('C', ifc)])]), ('V', voice w)]),
    ('&', ampersand w),
    ('#', sharp)]

end Cmd

namespace CmdLine

/-- A round of the loop, before which the other threads may go on. -/
def round (w : Nat → World) : Cmd := fun s =>
  Cmd.command (w s.pos) { s with body := s.body.others (w s.pos).before }

/-- The loop of `HandleCmdRest` with `n` rounds left. -/
def loop (w : Nat → World) : Nat → Cmd
  | 0 => fun _ => none
  | n + 1 => fun s =>
    if s.body.state = .stCommand ∧ s.err = false then
      match s.read with
      | none => none
      | some ch => if ch = Cursor.nul then some s else (s.round w).bind (loop w n)
    else some s

/-- What `HandleCmdRest` does behind its loop. -/
def finish (s : CmdLine) : CmdLine :=
  let resp := if s.crlf then s.resp ++ [.text "\r\n"] else s.resp
  let pref := if s.crlf then [] else [s.rcPref]
  if s.err then { s with resp := resp ++ pref ++ [s.rc .error] }
  else if s.ok then { s with resp := resp ++ pref ++ [s.rc .ok] }
  else { s with resp }

/-- The locals in front of the loop. -/
def start (s : CmdLine) : CmdLine :=
  { s with pos := 0, err := false, ok := true, crlf := false, resp := [], cmdRest := [] }

def handleCmdRest (w : Nat → World) : Cmd := fun s => (loop w (s.line.length + 1) s.start).map finish

end CmdLine

end T38Modem
