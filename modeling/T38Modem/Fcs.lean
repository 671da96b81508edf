import Mathlib.Logic.Function.Iterate
import T38Modem.DataStream

namespace T38Modem

/-- The register of the frame check sequence. -/
structure Fcs where
  fcs : DWord := 0xFFFF
  deriving DecidableEq, Repr, Inhabited

namespace Fcs

def masks : List Byte := [0x80, 0x40, 0x20, 0x10, 0x08, 0x04, 0x02, 0x01]

def buildBit (c : Byte) (fcs : DWord) (m : Byte) : DWord :=
  let fcs := fcs <<< 1
  let fcs := if c &&& m ≠ 0 then fcs ^^^ 0x10000 else fcs
  if fcs &&& 0x10000 ≠ 0 then fcs ^^^ 0x11021 else fcs

def buildByte (f : Fcs) (c : Byte) : Fcs := ⟨masks.foldl (buildBit c) f.fcs⟩

def build (f : Fcs) (bs : List Byte) : Fcs := bs.foldl buildByte f

/-- `operator WORD`, the complement of the register. -/
def toWord (f : Fcs) : Word := ~~~(f.fcs.setWidth 16)

/-- The two octets of the frame check sequence in the order they are sent. -/
def octets (f : Fcs) : List Byte := [(f.toWord >>> 8).setWidth 8, f.toWord.setWidth 8]

@[simp] theorem build_nil (f : Fcs) : f.build [] = f := rfl

@[simp] theorem build_append (f : Fcs) (bs cs : List Byte) :
    f.build (bs ++ cs) = (f.build bs).build cs := by
  simp [build]

end Fcs

end T38Modem
