import T38Modem.ModemCalls

namespace T38Modem

/-- The locals of the branch `ATD` of `HandleCmdRest`. -/
structure Dialing where
  err : Bool := false
  num : List Char := []
  numTone : List Char := []
  addNumTone : Bool := false
  LocalPartyName : List Char := []
  isLocal : Bool := false
  setForceFaxMode : Bool := false
  setCallDirection : CallDirection := .cdOutgoing
  cmdRest : List Char := []
  deriving DecidableEq, Repr

namespace Dialing

def dialDigits : List Char := ['0', '1', '2', '3', '4', '5', '6', '7', '8', '9', '*', '#']

/-- The end of a round of the loop. -/
def add (d : Dialing) (ch : Char) : Dialing :=
  if d.addNumTone then { d with numTone := d.numTone ++ [ch] } else { d with num := d.num ++ [ch] }

/-- The `switch` on the character, and the end of the round. The modem is `online` when it has a call
token. -/
def dialChar (online : Bool) (d : Dialing) (ch : Char) : Dialing :=
  if ch ∈ dialDigits then
    if d.isLocal then
      -- dialing of calling number is not allowed in online command state
      if online then { d with err := true } else { d with LocalPartyName := d.LocalPartyName ++ [ch] }
    else d.add ch
  else
    match ch with
    | '+' => if d.isLocal ∨ d.addNumTone ∨ d.num ≠ [] then d else d.add ch
    | 'A' | 'B' | 'C' => if d.isLocal then d else d.add ch
    | 'D' => if d.isLocal then { d with isLocal := false } else d.add ch
    | ',' => if d.addNumTone then d.add ch else d
    | 'F' => { d with setForceFaxMode := true }
    | 'V' => { d with setForceFaxMode := false }
    | 'L' => { d with LocalPartyName := [], isLocal := true }
    | 'T' | 'P' => { d with isLocal := false }
    | '@' => { d with isLocal := false, addNumTone := true, numTone := [] }
    | _ => d

/-- The loop over the dial string. -/
def dialLoop (online : Bool) : Dialing → List Char → Dialing
  | d, [] => d
  | d, ch :: s =>
    if ch = ';' then { d with setCallDirection := .cdUndefined, cmdRest := s }
    else
      let d := dialChar online d ch
      if d.err then d else dialLoop online d s

/-- What `ATD` makes of its dial string while the line is free. -/
def dialled (s : List Char) : Dialing := dialLoop false {} s

/-- What the rest of `ATD` asks. -/
def toDialString (d : Dialing) : ModemEngineBody.DialString :=
  { err := d.err
    semicolon := d.setCallDirection = .cdUndefined
    forceFax := d.setForceFaxMode
    tone := d.numTone ≠ [] }

variable {d : Dialing} {s p : List Char} {ch : Char}

@[simp] theorem add_err : (d.add ch).err = d.err := by
  unfold add
  split <;> rfl

@[simp] theorem add_isLocal : (d.add ch).isLocal = d.isLocal := by
  unfold add
  split <;> rfl

@[simp] theorem add_addNumTone : (d.add ch).addNumTone = d.addNumTone := by
  unfold add
  split <;> rfl

@[simp] theorem add_LocalPartyName : (d.add ch).LocalPartyName = d.LocalPartyName := by
  unfold add
  split <;> rfl

@[simp] theorem add_setForceFaxMode : (d.add ch).setForceFaxMode = d.setForceFaxMode := by
  unfold add
  split <;> rfl

/-- On a free line no character is an error. -/
theorem dialChar_err (ch : Char) (h : d.err = false) : (dialChar false d ch).err = false := by
  unfold dialChar
  split
  next => split <;> simp [h]
  next => split <;> (try split) <;> simp [h]

theorem dialLoop_eq (h : d.err = false) (hs : ';' ∉ s) : dialLoop false d s = s.foldl (dialChar false) d := by
  induction s generalizing d with
  | nil => rfl
  | cons c s ih =>
    have hc : c ≠ ';' := fun hc => hs (hc ▸ List.mem_cons_self)
    have he := dialChar_err c h
    rw [dialLoop, if_neg hc]
    dsimp only
    rw [if_neg (by simp [he]), ih he fun hm => hs (List.mem_cons_of_mem c hm), List.foldl_cons]

/-- A dial string is read from one end to the other. -/
theorem dialled_snoc (hp : ';' ∉ p ++ [ch]) : dialled (p ++ [ch]) = dialChar false (dialled p) ch := by
  have hp' : ';' ∉ p := fun hm => hp (List.mem_append_left _ hm)
  rw [dialled, dialled, dialLoop_eq rfl hp, dialLoop_eq rfl hp', List.foldl_append]
  rfl

end Dialing

end T38Modem
