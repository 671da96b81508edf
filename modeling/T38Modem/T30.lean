import T38Modem.DataStream

namespace T38Modem

/-- What the engine learns of the session from the V.21 frames of both directions. -/
structure T30 where
  v21frame : List Byte := []
  cfr : Bool := false
  ecm : Bool := false
  deriving DecidableEq, Repr

namespace T30

def v21Begin (t : T30) : T30 := { t with v21frame := [] }

def v21Data (t : T30) (bs : List Byte) : T30 := { t with v21frame := t.v21frame ++ bs }

/-- The DCS asks for error correction. -/
def dcsEcm : List Byte → Bool
  | _ :: _ :: b2 :: b3 :: _ => b2 &&& 1 != 0 && b3 &&& 0x20 != 0
  | _ => false

/-- The end of a frame. The parameter `sent` of the source is for its trace only. -/
def v21End (t : T30) : T30 :=
  match t.v21frame with
  | address :: control :: fcf :: fif =>
    if address ≠ 0xFF then t
    else if control &&& 0xF7 ≠ 0xC0 then t
    else if fcf = 0x41 ∨ fcf = 0x41 ||| 0x80 then
      { t with ecm := dcsEcm fif, cfr := false }
    else if fcf = 0x21 ∨ fcf = 0x21 ||| 0x80 then { t with cfr := true }
    else t
  | _ => t

def hdlcOnly (t : T30) : Bool := t.cfr && t.ecm

end T30

end T38Modem
