import Mathlib.Tactic.IntervalCases
import T38Modem.Crc
import T38Modem.FrameDelivery
import T38Modem.HdlcFrames

namespace T38Modem

namespace Fcs

open BitList

/-- The polynomial of the code without its highest power. -/
def poly : BitVec 16 := 0x1021

/-- A register that holds the remainder `r`. -/
def ofRemainder (r : BitVec 16) : DWord := r.setWidth 32

variable {f : Fcs} {r : BitVec 16} {c : Byte} {bs cs : List Byte}

theorem masks_eq : masks = [7, 6, 5, 4, 3, 2, 1, 0].map (BitVec.twoPow 8) := by decide

theorem shiftLeft_ofRemainder : ofRemainder r <<< 1 = ofRemainder (r <<< 1) ^^^ if r.msb then 0x10000 else 0 := by
  refine BitVec.eq_of_getLsbD_eq fun i hi => ?_
  rw [BitVec.msb_eq_getLsbD_last]
  unfold ofRemainder
  cases h : r.getLsbD (16 - 1)
  all_goals
    simp only [Bool.false_eq_true, ↓reduceIte, BitVec.getLsbD_xor, BitVec.getLsbD_setWidth, BitVec.getLsbD_shiftLeft]
    by_cases hlt : i < 17
    · interval_cases i <;> simp_all
    · interval_cases i <;> simp

theorem and_carry (x : DWord) : x &&& 0x10000 ≠ 0 ↔ x.getLsbD 16 = true := and_ne_zero_iff x 16

theorem ofRemainder_carry : (ofRemainder r).getLsbD 16 = false := by simp [ofRemainder]

theorem ofRemainder_xor (u v : BitVec 16) : ofRemainder (u ^^^ v) = ofRemainder u ^^^ ofRemainder v :=
  BitVec.setWidth_xor

/-- The carry, with the bit of the message in it. -/
theorem carry_xor (x : DWord) (a b : Bool) :
    (if b = true then x ^^^ (if a = true then 0x10000 else 0) ^^^ 0x10000 else x ^^^ if a = true then 0x10000 else 0) =
      x ^^^ if (a ^^ b) = true then 0x10000 else 0 := by
  cases a <;> cases b
  · rfl
  · exact congrArg (· ^^^ 0x10000) BitVec.xor_zero
  · rfl
  · exact (BitVec.xor_assoc _ _ _).trans (congrArg (x ^^^ ·) BitVec.xor_self)

/-- A carry is taken off with the polynomial. -/
theorem reduce_carry (k : Bool) (x : DWord) (hx : x = ofRemainder r ^^^ if k = true then 0x10000 else 0) :
    (if x &&& 0x10000 ≠ 0 then x ^^^ 0x11021 else x) = ofRemainder (if k = true then r ^^^ poly else r) := by
  have hpoly : (0x11021 : DWord) = 0x10000 ^^^ ofRemainder poly := by decide
  have hcarry : x.getLsbD 16 = k := by
    rw [hx, BitVec.getLsbD_xor, ofRemainder_carry]
    cases k <;> rfl
  simp only [and_carry, hcarry]
  cases k with
  | false =>
    rw [if_neg Bool.false_ne_true, hx]
    exact BitVec.xor_zero
  | true =>
    rw [if_pos rfl, if_pos rfl, hx, if_pos rfl, hpoly, ofRemainder_xor]
    calc ofRemainder r ^^^ 0x10000 ^^^ (0x10000 ^^^ ofRemainder poly)
        = ofRemainder r ^^^ (0x10000 ^^^ 0x10000) ^^^ ofRemainder poly := by ac_rfl
      _ = ofRemainder r ^^^ ofRemainder poly := by rw [BitVec.xor_self, BitVec.xor_zero]

/-- A bit of the message moves the register as it moves the remainder. -/
theorem buildBit_eq (i : Nat) :
    buildBit c (ofRemainder r) (BitVec.twoPow 8 i) = ofRemainder (Crc.step poly r (c.getLsbD i)) := by
  unfold buildBit Crc.step
  dsimp only
  rw [shiftLeft_ofRemainder]
  simp only [and_ne_zero_iff, carry_xor]
  exact reduce_carry _ _ rfl

theorem buildByte_eq : (buildByte ⟨ofRemainder r⟩ c).fcs = ofRemainder (Crc.feed poly r (lowBits c 8)) := by
  unfold buildByte
  dsimp only
  rw [masks_eq]
  simp only [List.map_cons, List.map_nil, List.foldl_cons, List.foldl_nil, buildBit_eq]
  rfl

/-- The register holds the remainder of the bits, the high bit of each octet first. -/
theorem build_eq : (build ⟨ofRemainder r⟩ bs).fcs = ofRemainder (Crc.feed poly r (octetBits bs)) := by
  induction bs generalizing r with
  | nil => rfl
  | cons c bs ih =>
    have hbyte : buildByte ⟨ofRemainder r⟩ c = ⟨ofRemainder (Crc.feed poly r (lowBits c 8))⟩ :=
      congrArg Fcs.mk buildByte_eq
    rw [octetBits_cons, Crc.feed_append, ← ih, ← hbyte]
    rfl

/-- The register of a new object, which holds 16 bits from there on. -/
theorem build_new (bs : List Byte) : (build {} bs).fcs = ofRemainder (Crc.feed poly 0xFFFF (octetBits bs)) :=
  build_eq (r := 0xFFFF)

theorem toWord_new (bs : List Byte) : (build {} bs).toWord = ~~~Crc.feed poly 0xFFFF (octetBits bs) := by
  rw [toWord, build_new, ofRemainder, BitVec.setWidth_setWidth_of_le _ (by decide), BitVec.setWidth_eq]

theorem build_lt (bs : List Byte) : (build {} bs).fcs.toNat < 2 ^ 16 := by
  rw [build_new, ofRemainder, BitVec.toNat_setWidth_of_le (by decide)]
  exact BitVec.isLt _

/-- The octets are the word, the high one first. -/
theorem octetBits_octets (f : Fcs) : octetBits f.octets = lowBits f.toWord 16 := by
  have hi : lowBits ((f.toWord >>> 8).setWidth 8 : Byte) 8 = lowBits (f.toWord >>> 8) 8 :=
    lowBits_congr fun i hi => by simp [hi]
  have lo : lowBits (f.toWord.setWidth 8 : Byte) 8 = lowBits f.toWord 8 :=
    lowBits_congr fun i hi => by simp [hi]
  rw [octets, octetBits_cons, octetBits_cons, octetBits_nil, List.append_nil, hi, lo]
  exact (lowBits_add f.toWord 8 8).symm

/-- What is left when the two octets of the frame check sequence are built over. -/
def residue : DWord := ofRemainder (Crc.feed poly 0 (lowBits (BitVec.allOnes 16) 16))

example : residue = 0x1D0F := by decide +kernel

theorem ofRemainder_inj {u v : BitVec 16} (h : ofRemainder u = ofRemainder v) : u = v := by
  have := congrArg (BitVec.setWidth 16) h
  simpa [ofRemainder, BitVec.setWidth_setWidth_of_le] using this

theorem residue_iff (bs : List Byte) (a b : Byte) :
    ((build {} bs).build [a, b]).fcs = residue ↔ [a, b] = (build {} bs).octets := by
  have hcode : octetBits [a, b] = lowBits (a ++ b) 16 := by
    have ha : lowBits a 8 = lowBits ((a ++ b) >>> 8) 8 := lowBits_congr fun i hi => by
      rw [BitVec.getLsbD_ushiftRight, BitVec.getLsbD_append]
      simp
    have hb : lowBits b 8 = lowBits (a ++ b) 8 := lowBits_congr fun i hi => by
      rw [BitVec.getLsbD_append]
      simp [hi]
    rw [octetBits_cons, octetBits_cons, octetBits_nil, List.append_nil, ha, hb]
    exact (lowBits_add (a ++ b) 8 8).symm
  have hfeed : ((build {} bs).build [a, b]).fcs =
      ofRemainder (Crc.feed poly (Crc.feed poly 0xFFFF (octetBits bs)) (lowBits (a ++ b) 16)) := by
    rw [← build_append, build_new, octetBits_append, Crc.feed_append, hcode]
  have hg : poly.getLsbD 0 = true := by decide
  rw [hfeed]
  constructor
  · intro h
    have hword := (Crc.feed_complement hg).mp (ofRemainder_inj h)
    refine octetBits_inj ?_
    rw [hcode, hword, octetBits_octets, toWord_new]
  · intro h
    have hbits := congrArg octetBits h
    rw [hcode, octetBits_octets, toWord_new] at hbits
    rw [hbits]
    exact congrArg ofRemainder ((Crc.feed_complement hg).mpr rfl)

theorem burst_toWord {n : Nat} (h : Crc.Burst 16 n (octetBits bs) (octetBits cs)) :
    (build {} bs).toWord ≠ (build {} cs).toWord := by
  rw [toWord_new, toWord_new]
  intro he
  exact Crc.feed_burst (by decide) h (BitVec.not_inj.mp he)

end Fcs

/-- The laws of the frame check sequence: it is built in pieces as in one go, and its register keeps 16 bits;
its two octets, which a closing frame has behind it, leave one residue, and no others leave it; and a burst
that 16 bits hold does not escape it. -/
theorem fcs_laws :
    (∀ pieces : List (List Byte), pieces.foldl Fcs.build {} = Fcs.build {} pieces.flatten) ∧
    (∀ bs, (Fcs.build {} bs).fcs.toNat < 2 ^ 16) ∧
    (∃ residue, ∀ bs a b,
      ((Fcs.build {} bs).build [a, b]).fcs = residue ↔ [a, b] = (Fcs.build {} bs).octets) ∧
    (∀ f diag, diag &&& diagErrorMask = 0 → Hdlc.endOctets f diag = f.octets ∧ ModemEngineBody.checkOctets diag f = f.octets) ∧
    ∀ bs cs n, Crc.Burst 16 n (BitList.octetBits bs) (BitList.octetBits cs) →
      (Fcs.build {} bs).toWord ≠ (Fcs.build {} cs).toWord := by
  refine ⟨?_, Fcs.build_lt, ⟨Fcs.residue, Fcs.residue_iff⟩, ?_, ?_⟩
  · intro pieces
    exact List.foldl_flatten.symm
  · intro f diag hd
    refine ⟨BitList.octetBits_inj ?_, (ModemEngineBody.checkOctets_iff diag f).mpr hd⟩
    rw [(Hdlc.endOctets_fcs f diag).mpr hd, Fcs.octetBits_octets]
  · exact fun bs cs n h => Fcs.burst_toWord h

end T38Modem
