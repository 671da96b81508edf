import T38Modem.Hdlc
import T38Modem.BitList
import T38Modem.BitStuffing
import Mathlib.Tactic.IntervalCases

namespace T38Modem

open BitList BitStuffing

/-- The bits put on the line so far while the high octet of `w` collects the next one. -/
def lineBits (s : Word × Hdlc) : List Bool :=
  octetBits s.2.outData.data ++ lowBits (s.1 >>> 8) s.2.rawByteLen

/-- The bits put on the line so far, those of the unfinished octet included. -/
def Hdlc.sentBits (h : Hdlc) : List Bool :=
  octetBits h.outData.data ++ lowBits h.rawByte h.rawByteLen

/-- The encoder may go on: its output is open and an octet is unfinished. -/
structure Hdlc.Packing (h : Hdlc) : Prop where
  eof : h.outData.eof = false
  len : h.rawByteLen < 8
  ones : h.rawOnes < 5

/-- What packing does not write: all but the output octets, the unfinished octet and the run of
ones. -/
def Hdlc.packFrame (h : Hdlc) : Hdlc :=
  { h with outData := { h.outData with data := [] }, rawByte := 0, rawByteLen := 0, rawOnes := 0 }

theorem countRawBit_packFrame (h : Hdlc) (w : Word) : (h.countRawBit w).packFrame = h.packFrame := by
  unfold Hdlc.countRawBit Hdlc.packFrame DataStream.putData
  split
  next => dsimp only; split <;> rfl
  next => rfl

theorem packFrame_eof {h h' : Hdlc} (e : h'.packFrame = h.packFrame) :
    h'.outData.eof = h.outData.eof :=
  congrArg (fun x => x.outData.eof) e

theorem countRawBit_rawOnes (h : Hdlc) (w : Word) : (h.countRawBit w).rawOnes = h.rawOnes := by
  unfold Hdlc.countRawBit
  split <;> rfl

theorem countRawBit_len {h : Hdlc} (hl : h.rawByteLen < 8) (w : Word) :
    (h.countRawBit w).rawByteLen < 8 := by
  unfold Hdlc.countRawBit
  split
  next => simp
  next => dsimp only; omega

/-- The octet is put out when its eighth bit is there, so counting a bit loses none. -/
theorem countRawBit_lineBits {h : Hdlc} (he : h.outData.eof = false) (w : Word) :
    lineBits (w, h.countRawBit w) =
      octetBits h.outData.data ++ lowBits (w >>> 8) (h.rawByteLen + 1) := by
  unfold Hdlc.countRawBit lineBits
  split
  next h8 =>
    have hb : lowBits ((w >>> 8).setWidth 8 : Byte) 8 = lowBits (w >>> 8) 8 :=
      lowBits_congr fun i hi => by simp [hi]
    dsimp only
    rw [DataStream.putData_open he, h8]
    dsimp only
    rw [octetBits_append, octetBits_cons, octetBits_nil, hb]
    simp [lowBits]
  next => rfl

theorem shifted_high (w : Word) {n : Nat} (hn : n < 8) :
    lowBits ((w <<< 1) >>> 8) (n + 1) = lowBits (w >>> 8) n ++ [w.getLsbD 7] := by
  apply lowBits_snoc
  · simp
  · intro i hi
    simp only [BitVec.getLsbD_ushiftRight, BitVec.getLsbD_shiftLeft]
    simp [show 8 + (i + 1) < 16 by omega, show 8 + (i + 1) - 1 = 8 + i by omega]

theorem shifted_low (w : Word) {i : Nat} (hi : i < 7) :
    (w <<< 1).getLsbD (i + 1) = w.getLsbD i := by
  rw [BitVec.getLsbD_shiftLeft]
  simp [show i + 1 < 16 by omega]

/-- The word with a zero bit put in above its low octet. -/
def insertZero (w : Word) : Word := (w &&& 0xFF00) <<< 1 ||| (w &&& 0xFF)

theorem high_mask_bit {i : Nat} (hi : i < 16) : (0xFF00 : Word).getLsbD i = decide (8 ≤ i) := by
  interval_cases i <;> rfl

theorem low_mask_bit {i : Nat} (hi : i < 16) : (0xFF : Word).getLsbD i = decide (i < 8) := by
  interval_cases i <;> rfl

theorem insertZero_low (w : Word) {i : Nat} (hi : i < 8) : (insertZero w).getLsbD i = w.getLsbD i := by
  unfold insertZero
  rw [BitVec.getLsbD_or, BitVec.getLsbD_shiftLeft, BitVec.getLsbD_and, BitVec.getLsbD_and,
    high_mask_bit (by omega), low_mask_bit (by omega)]
  simp [hi, show ¬8 ≤ i - 1 by omega]

theorem insertZero_high (w : Word) {n : Nat} (hn : n < 8) :
    lowBits (insertZero w >>> 8) (n + 1) = lowBits (w >>> 8) n ++ [false] := by
  unfold insertZero
  apply lowBits_snoc
  · simp
  · intro i hi
    rw [BitVec.getLsbD_ushiftRight, BitVec.getLsbD_ushiftRight, BitVec.getLsbD_or,
      BitVec.getLsbD_shiftLeft, BitVec.getLsbD_and, BitVec.getLsbD_and,
      show 8 + (i + 1) - 1 = 8 + i by omega, high_mask_bit (by omega), low_mask_bit (by omega)]
    simp [show 8 + (i + 1) < 16 by omega]

/-- From `s` to `s'` the bits are packed, stuffed or as a flag. -/
structure Packed (flag : Bool) (s s' : Word × Hdlc) (bits : List Bool) : Prop where
  line : lineBits s' = lineBits s ++ if flag then bits else stuff s.2.rawOnes bits
  ones : flag = false → s'.2.rawOnes = onesAfter s.2.rawOnes bits
  packing : s'.2.Packing
  frame : s'.2.packFrame = s.2.packFrame

theorem Packed.refl {flag : Bool} {s : Word × Hdlc} (hp : s.2.Packing) : Packed flag s s [] :=
  ⟨by cases flag <;> simp [stuff], fun _ => rfl, hp, rfl⟩

theorem Packed.trans {flag : Bool} {s s' s'' : Word × Hdlc} {xs ys : List Bool}
    (a : Packed flag s s' xs) (b : Packed flag s' s'' ys) : Packed flag s s'' (xs ++ ys) := by
  refine ⟨?_, fun hf => ?_, b.packing, b.frame.trans a.frame⟩
  · rw [b.line, a.line]
    cases flag with
    | true => simp
    | false => simp [a.ones rfl, stuff_append]
  · rw [b.ones hf, a.ones hf, onesAfter_append]

theorem one_bit_set (w : Word) : (w <<< 1) &&& 0x100 ≠ 0 ↔ w.getLsbD 7 = true := by
  rw [show (0x100 : Word) = BitVec.twoPow 16 8 by rfl, and_ne_zero_iff, BitVec.getLsbD_shiftLeft]
  simp

theorem packBit_eq (flag : Bool) (w : Word) (h : Hdlc) :
    Hdlc.packBit flag (w, h) =
      let g := h.countRawBit (w <<< 1)
      if flag then (w <<< 1, g)
      else if (w <<< 1) &&& 0x100 ≠ 0 then
        if g.rawOnes + 1 = 5 then
          (insertZero (w <<< 1),
            { Hdlc.countRawBit { g with rawOnes := g.rawOnes + 1 } (insertZero (w <<< 1)) with rawOnes := 0 })
        else (w <<< 1, { g with rawOnes := g.rawOnes + 1 })
      else (w <<< 1, { g with rawOnes := 0 }) := rfl

theorem packBit_packed (flag : Bool) {s : Word × Hdlc} (hp : s.2.Packing) :
    Packed flag s (Hdlc.packBit flag s) [s.1.getLsbD 7] := by
  obtain ⟨w, h⟩ := s
  obtain ⟨he, hl, ho⟩ : h.outData.eof = false ∧ h.rawByteLen < 8 ∧ h.rawOnes < 5 :=
    ⟨hp.eof, hp.len, hp.ones⟩
  have hone : lineBits (w <<< 1, h.countRawBit (w <<< 1)) = lineBits (w, h) ++ [w.getLsbD 7] := by
    rw [countRawBit_lineBits he, shifted_high w hl]
    simp [lineBits]
  have hframe := countRawBit_packFrame h (w <<< 1)
  have hones := countRawBit_rawOnes h (w <<< 1)
  have hlen := countRawBit_len hl (w <<< 1)
  have heof : (h.countRawBit (w <<< 1)).outData.eof = false := (packFrame_eof hframe).trans he
  have hset := one_bit_set w
  rw [packBit_eq]
  dsimp only
  generalize h.countRawBit (w <<< 1) = g at hone hframe hones hlen heof
  cases flag with
  | true =>
    rw [if_pos rfl]
    exact ⟨by simpa using hone, fun hf => (by cases hf), ⟨heof, hlen, by rw [hones]; exact ho⟩, hframe⟩
  | false =>
    simp only [Bool.false_eq_true, if_false]
    cases hb : w.getLsbD 7 with
    | false =>
      rw [if_neg (by rw [hset, hb]; simp)]
      rw [hb] at hone
      exact ⟨by simpa [lineBits, stuff] using hone, fun _ => rfl, ⟨heof, hlen, by simp⟩, hframe⟩
    | true =>
      rw [if_pos (hset.mpr hb)]
      rw [hb] at hone
      by_cases h5 : h.rawOnes + 1 = 5
      · -- the stuffed zero goes out after the fifth one
        rw [if_pos (by omega)]
        have hline := countRawBit_lineBits (h := { g with rawOnes := g.rawOnes + 1 })
          heof (insertZero (w <<< 1))
        rw [insertZero_high _ hlen] at hline
        have hf := countRawBit_packFrame { g with rawOnes := g.rawOnes + 1 } (insertZero (w <<< 1))
        have hl' := countRawBit_len (h := { g with rawOnes := g.rawOnes + 1 }) hlen (insertZero (w <<< 1))
        refine ⟨?_, fun _ => by simp [onesAfter, h5], ⟨?_, hl', by simp⟩, ?_⟩
        · simp only [lineBits] at hone hline ⊢
          rw [hline, ← List.append_assoc, hone]
          simp [stuff, h5]
        · exact (packFrame_eof hf).trans heof
        · exact hf.trans hframe
      · rw [if_neg (by omega)]
        refine ⟨by simpa [lineBits, stuff, h5] using hone, fun _ => by simp [onesAfter, h5, hones],
          ⟨heof, hlen, ?_⟩, hframe⟩
        dsimp only
        omega

theorem packBit_low {flag : Bool} (s : Word × Hdlc) {i : Nat} (hi : i < 7) :
    (Hdlc.packBit flag s).1.getLsbD (i + 1) = s.1.getLsbD i := by
  obtain ⟨w, h⟩ := s
  rw [packBit_eq]
  dsimp only
  split
  next => exact shifted_low w hi
  next =>
    split
    next =>
      split
      next =>
        dsimp only
        rw [insertZero_low _ (by omega)]
        exact shifted_low w hi
      next => exact shifted_low w hi
    next => exact shifted_low w hi

theorem packBit_low_zero {flag : Bool} (s : Word × Hdlc) :
    (Hdlc.packBit flag s).1.getLsbD 0 = false := by
  obtain ⟨w, h⟩ := s
  rw [packBit_eq]
  dsimp only
  split
  next => simp
  next =>
    split
    next =>
      split
      next =>
        dsimp only
        rw [insertZero_low _ (by omega)]
        simp
      next => simp
    next => simp

/-- With `n` bits of the octet `b` still in the low octet of the word, they are packed in order. -/
theorem packBits_packed (flag : Bool) {b : Byte} {n : Nat} (hn : n ≤ 8) {s : Word × Hdlc}
    (hp : s.2.Packing)
    (high : ∀ i < n, s.1.getLsbD (8 - n + i) = b.getLsbD i)
    (low : ∀ i < 8 - n, s.1.getLsbD i = false) :
    Packed flag s ((Hdlc.packBit flag)^[n] s) (lowBits b n) ∧
      ∀ i < 8, ((Hdlc.packBit flag)^[n] s).1.getLsbD i = false := by
  induction n generalizing s with
  | zero => exact ⟨Packed.refl hp, fun i hi => low i (by omega)⟩
  | succ n ih =>
    have hfirst := packBit_packed flag hp
    have hb := high n (by omega)
    rw [show 8 - (n + 1) + n = 7 by omega] at hb
    rw [hb] at hfirst
    have hrest := ih (by omega) hfirst.packing
      (fun i hi => by
        rw [show 8 - n + i = (8 - (n + 1) + i) + 1 by omega, packBit_low _ (by omega)]
        exact high i (by omega))
      (fun i hi => by
        cases i with
        | zero => exact packBit_low_zero s
        | succ i => rw [packBit_low _ (by omega)]; exact low i (by omega))
    rw [Function.iterate_succ_apply]
    exact ⟨hfirst.trans hrest.1, hrest.2⟩

theorem packByte_packed (flag : Bool) (b : Byte) {s : Word × Hdlc} (hp : s.2.Packing)
    (low : ∀ i < 8, s.1.getLsbD i = false) :
    Packed flag s (Hdlc.packByte flag s b) (lowBits b 8) ∧
      ∀ i < 8, (Hdlc.packByte flag s b).1.getLsbD i = false := by
  have hs := packBits_packed flag (b := b) (n := 8) le_rfl
    (s := (s.1 ||| b.setWidth 16, s.2)) hp
    (fun i hi => by
      rw [show 8 - 8 + i = i by omega, BitVec.getLsbD_or, low i hi, BitVec.getLsbD_setWidth]
      simp [show i < 16 by omega])
    (fun i hi => by omega)
  have hline : lineBits (s.1 ||| b.setWidth 16, s.2) = lineBits s := by
    unfold lineBits
    congr 1
    apply lowBits_congr
    intro i hi
    rw [BitVec.getLsbD_ushiftRight, BitVec.getLsbD_ushiftRight, BitVec.getLsbD_or,
      BitVec.getLsbD_setWidth, BitVec.getLsbD_of_ge b (8 + i) (by omega)]
    simp
  refine ⟨⟨?_, hs.1.ones, hs.1.packing, hs.1.frame⟩, hs.2⟩
  have := hs.1.line
  rwa [hline] at this

theorem packBytes_packed (flag : Bool) (bs : List Byte) {s : Word × Hdlc} (hp : s.2.Packing)
    (low : ∀ i < 8, s.1.getLsbD i = false) :
    Packed flag s (bs.foldl (Hdlc.packByte flag) s) (octetBits bs) := by
  induction bs generalizing s with
  | nil => exact Packed.refl hp
  | cons b bs ih =>
    have hb := packByte_packed flag b hp low
    exact hb.1.trans (ih hb.1.packing hb.2)

theorem start_line (h : Hdlc) (hl : h.rawByteLen < 8) :
    lineBits (h.rawByte.setWidth 16 <<< 8, h) = h.sentBits := by
  unfold lineBits Hdlc.sentBits
  congr 1
  apply lowBits_congr
  intro i hi
  have : i < 8 := Nat.lt_trans hi hl
  simp [show 8 + i < 16 by omega, show i < 16 by omega]

theorem finish_line (w : Word) (h : Hdlc) (hl : h.rawByteLen < 8) :
    Hdlc.sentBits { h with rawByte := (w >>> 8).setWidth 8 } = lineBits (w, h) := by
  unfold lineBits Hdlc.sentBits
  congr 1
  apply lowBits_congr
  intro i hi
  have : i < 8 := Nat.lt_trans hi hl
  simp [this]

/-- Packing octets of a frame is zero-bit insertion on the line. -/
theorem pack_data {h : Hdlc} (hp : h.Packing) (bs : List Byte) :
    (h.pack bs false).sentBits = h.sentBits ++ stuff h.rawOnes (octetBits bs) ∧
      (h.pack bs false).rawOnes = onesAfter h.rawOnes (octetBits bs) ∧
      (h.pack bs false).Packing ∧ (h.pack bs false).packFrame = h.packFrame := by
  have hs := packBytes_packed false bs (s := (h.rawByte.setWidth 16 <<< 8, h)) hp
    (fun i hi => by simp [hi])
  unfold Hdlc.pack
  generalize bs.foldl (Hdlc.packByte false) (h.rawByte.setWidth 16 <<< 8, h) = s at hs
  obtain ⟨w, g⟩ := s
  simp only [Bool.false_eq_true, if_false]
  refine ⟨?_, hs.ones rfl, ⟨hs.packing.eof, hs.packing.len, hs.packing.ones⟩, hs.frame⟩
  rw [finish_line w g hs.packing.len, hs.line, start_line h hp.len]
  simp

/-- Octets packed as flags go out as they are and end the run of ones. -/
theorem pack_flags {h : Hdlc} (hp : h.Packing) (bs : List Byte) :
    (h.pack bs true).sentBits = h.sentBits ++ octetBits bs ∧
      (h.pack bs true).rawOnes = 0 ∧
      (h.pack bs true).Packing ∧ (h.pack bs true).packFrame = h.packFrame := by
  have hs := packBytes_packed true bs (s := (h.rawByte.setWidth 16 <<< 8, h)) hp
    (fun i hi => by simp [hi])
  unfold Hdlc.pack
  generalize bs.foldl (Hdlc.packByte true) (h.rawByte.setWidth 16 <<< 8, h) = s at hs
  obtain ⟨w, g⟩ := s
  simp only [if_true]
  refine ⟨?_, trivial, ⟨hs.packing.eof, hs.packing.len, by simp⟩, hs.frame⟩
  have hf := finish_line w g hs.packing.len
  have hl := hs.line
  rw [start_line h hp.len] at hl
  simp only [Hdlc.sentBits] at hf ⊢
  rw [hf, hl]
  simp [Hdlc.sentBits]

end T38Modem
