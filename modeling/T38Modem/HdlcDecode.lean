import T38Modem.Hdlc
import T38Modem.BitList
import T38Modem.BitStuffing
import Mathlib.Tactic.IntervalCases

namespace T38Modem

open BitList BitStuffing

/-- The bits of `w` that are not yet read when `j` is the position of the first of them. -/
def topBits (w : Word) (j : Nat) : List Bool := lowBits (w >>> j) (16 - j)

theorem topBits_succ (w : Word) {j : Nat} (hj : j < 16) :
    topBits w j = w.getLsbD 15 :: topBits (w <<< 1) (j + 1) := by
  unfold topBits
  rw [show 16 - j = (16 - (j + 1)) + 1 by omega, lowBits]
  congr 1
  · rw [BitVec.getLsbD_ushiftRight, show j + (16 - (j + 1)) = 15 by omega]
  · apply lowBits_congr
    intro i hi
    rw [BitVec.getLsbD_ushiftRight, BitVec.getLsbD_ushiftRight, BitVec.getLsbD_shiftLeft]
    simp [show j + 1 + i < 16 by omega, show j + 1 + i - 1 = j + i by omega]

theorem topBits_eight (w : Word) {j : Nat} (hj : j ≤ 8) :
    topBits w j = lowBits (w >>> 8) 8 ++ lowBits (w >>> j) (8 - j) := by
  unfold topBits
  rw [show 16 - j = 8 + (8 - j) by omega, lowBits_add]
  congr 2
  rw [← BitVec.shiftRight_add, show j + (8 - j) = 8 by omega]

theorem isFlag_iff (w : Word) {j : Nat} (hj : j ≤ 8) :
    Hdlc.isFlag w = true ↔ (topBits w j).take 8 = flag := by
  have hflag : flag = lowBits (0x7E : Word) 8 := by decide
  rw [topBits_eight w hj, List.take_append_of_le_length (by simp), List.take_of_length_le (by simp),
    hflag, Hdlc.isFlag, beq_iff_eq]
  constructor
  · intro h
    rw [h]
  · intro h
    have hlow := lowBits_inj h
    apply BitVec.eq_of_getLsbD_eq
    intro i hi
    by_cases h8 : i < 8
    · exact hlow i h8
    · rw [BitVec.getLsbD_ushiftRight, BitVec.getLsbD_of_ge _ _ (by omega)]
      interval_cases i <;> first | omega | rfl

theorem drop_topBits (w : Word) {j : Nat} (hj : j ≤ 8) :
    (topBits w j).drop 8 = lowBits ((w >>> j).setWidth 8 : Byte) (8 - j) := by
  rw [topBits_eight w hj, List.drop_append_of_le_length (by simp), List.drop_of_length_le (by simp),
    List.nil_append]
  apply lowBits_congr
  intro i hi
  rw [BitVec.getLsbD_setWidth]
  simp [show i < 8 by omega]

theorem topBits_nine (w : Word) : topBits w 9 = lowBits ((w >>> 9).setWidth 8 : Byte) 7 := by
  apply lowBits_congr
  intro i hi
  rw [BitVec.getLsbD_setWidth]
  simp [show i < 8 by omega]

namespace Hdlc

/-- The bits received of which the decoder has not made anything yet. -/
def pendingBits (h : Hdlc) : List Bool := lowBits h.rawByte h.rawByteLen

theorem window_bits {h : Hdlc} (hl : h.rawByteLen < 8) (b : Byte) :
    topBits (h.window b).1 (h.window b).2 = h.pendingBits ++ lowBits b 8 := by
  unfold window topBits pendingBits
  dsimp only
  have shifted : ∀ x : Word, ∀ i < h.rawByteLen + 8,
      ((x <<< (8 - h.rawByteLen)) >>> (8 - h.rawByteLen)).getLsbD i = x.getLsbD i := by
    intro x i hi
    rw [BitVec.getLsbD_ushiftRight, BitVec.getLsbD_shiftLeft]
    simp [show 8 - h.rawByteLen + i < 16 by omega]
  rw [show 16 - (8 - h.rawByteLen) = h.rawByteLen + 8 by omega, lowBits_congr (shifted _), lowBits_add]
  congr 1
  · apply lowBits_congr
    intro i hi
    rw [BitVec.getLsbD_ushiftRight, BitVec.getLsbD_or, BitVec.getLsbD_shiftLeft,
      BitVec.getLsbD_setWidth, BitVec.getLsbD_setWidth, BitVec.getLsbD_of_ge b _ (by omega)]
    simp [show 8 + i < 16 by omega, show i < 16 by omega]
  · apply lowBits_congr
    intro i hi
    rw [BitVec.getLsbD_or, BitVec.getLsbD_shiftLeft, BitVec.getLsbD_setWidth]
    simp [hi, show i < 16 by omega]

/-- What looking for a flag does not write. -/
def syncFrame (h : Hdlc) : Hdlc := { h with rawByte := 0, rawByteLen := 0 }

theorem flagFound_bits (h : Hdlc) (w : Word) {j : Nat} (hj : j ≤ 8) :
    (h.flagFound w j).pendingBits = (topBits w j).drop 8 :=
  (drop_topBits w hj).symm

theorem flagNotFound_bits (h : Hdlc) (w : Word) : (h.flagNotFound w 9).pendingBits = topBits w 9 :=
  (topBits_nine w).symm

theorem scan_topBits {w : Word} {j : Nat} (hj : j ≤ 8) (hf : isFlag w = false) (ones : Nat) (acc : List Bool) :
    scan ones acc (topBits w j) =
      scan (nextOnes ones (w.getLsbD 15)) (destuffBit ones acc (w.getLsbD 15)) (topBits (w <<< 1) (j + 1)) := by
  have hnot : (topBits w j).take 8 ≠ flag := fun h => by
    simp [(isFlag_iff w hj).mpr h] at hf
  have hlen : ¬(topBits (w <<< 1) (j + 1)).length < 7 := by
    simp [topBits]
    omega
  rw [topBits_succ w (by omega)] at hnot ⊢
  rw [scan, if_neg hlen, if_neg hnot]

theorem scan_topBits_flag {w : Word} {j : Nat} (hj : j ≤ 8) (hf : isFlag w = true) (ones : Nat)
    (acc : List Bool) : scan ones acc (topBits w j) = .found acc ((topBits w j).drop 8) := by
  have hfl := (isFlag_iff w hj).mp hf
  conv_lhs => rw [← List.take_append_drop 8 (topBits w j), hfl]
  exact scan_flag _ _ _

theorem scan_topBits_nine (w : Word) (ones : Nat) (acc : List Bool) :
    scan ones acc (topBits w 9) = .more ones acc (topBits w 9) :=
  scan_short (by simp [topBits])

/-- Looking for a flag is a scan whose bits nobody keeps. -/
theorem syncLoop_scan (h : Hdlc) {n j : Nat} (hn : n + j = 9) (hj : 0 < j) (w : Word) :
    ∃ g, g.syncFrame = h.syncFrame ∧ g.rawByteLen < 8 ∧
      ((h.syncLoop n w j = (false, g) ∧
          ∀ ones acc, ∃ o a, scan ones acc (topBits w j) = .more o a g.pendingBits) ∨
        (h.syncLoop n w j = (true, g) ∧
          ∀ ones acc, ∃ a, scan ones acc (topBits w j) = .found a g.pendingBits)) := by
  induction n generalizing w j with
  | zero =>
    obtain rfl : j = 9 := by omega
    refine ⟨h.flagNotFound w 9, rfl, by simp [flagNotFound], .inl ⟨rfl, fun ones acc => ⟨ones, acc, ?_⟩⟩⟩
    rw [flagNotFound_bits]
    exact scan_topBits_nine w ones acc
  | succ n ih =>
    rw [syncLoop]
    split
    next hf =>
      refine ⟨h.flagFound w j, rfl, ?_, .inr ⟨rfl, fun ones acc => ⟨acc, ?_⟩⟩⟩
      · simp only [flagFound]
        omega
      · rw [flagFound_bits h w (by omega)]
        exact scan_topBits_flag (by omega) hf ones acc
    next hf =>
      obtain ⟨g, hfr, hl, hg⟩ := ih (j := j + 1) (by omega) (by omega) (w <<< 1)
      have hstep := fun ones acc => scan_topBits (w := w) (j := j) (by omega) (by simpa using hf) ones acc
      refine ⟨g, hfr, hl, ?_⟩
      rcases hg with ⟨hg, hs⟩ | ⟨hg, hs⟩
      · exact .inl ⟨hg, fun ones acc => by rw [hstep]; exact hs _ _⟩
      · exact .inr ⟨hg, fun ones acc => by rw [hstep]; exact hs _ _⟩

/-- The bits of the frame that are not handed out, the held octets included. -/
def decodedBits (h : Hdlc) : List Bool :=
  octetBits h.outData.data ++ lowBits h.hdlcChunk h.hdlcChunkLen

/-- What unpacking does not write. -/
def unpackFrame (h : Hdlc) : Hdlc :=
  { h with outData := { h.outData with data := [] }, rawByte := 0, rawByteLen := 0, rawOnes := 0,
           hdlcChunk := 0, hdlcChunkLen := 0 }

/-- Octets come out of the decoder only over two octets held back, and these stay. -/
structure Unpacked (h g : Hdlc) : Prop where
  eof : g.outData.eof = false
  chunk : g.hdlcChunkLen < 24
  held : (g.outData.data = h.outData.data ∧ h.hdlcChunkLen ≤ g.hdlcChunkLen) ∨ 16 ≤ g.hdlcChunkLen
  frame : g.unpackFrame = h.unpackFrame

theorem Unpacked.trans {h g k : Hdlc} (a : Unpacked h g) (b : Unpacked g k) : Unpacked h k := by
  refine ⟨b.eof, b.chunk, ?_, b.frame.trans a.frame⟩
  have ha := a.held
  have hb := b.held
  rcases hb with ⟨hd, hl⟩ | hb
  · rcases ha with ⟨hd', hl'⟩ | ha
    · exact .inl ⟨hd.trans hd', hl'.trans hl⟩
    · exact .inr (ha.trans hl)
  · exact .inr hb

theorem putChunk_bits {h : Hdlc} (ho : h.outData.eof = false) : h.putChunk.decodedBits = h.decodedBits := by
  unfold putChunk
  split
  next hc =>
    have hb : lowBits ((h.hdlcChunk >>> 16).setWidth 8 : Byte) 8 = lowBits (h.hdlcChunk >>> 16) 8 :=
      lowBits_congr fun i hi => by
        rw [BitVec.getLsbD_setWidth]
        simp [hi]
    simp only [decodedBits, DataStream.putData_open ho, octetBits_append, octetBits_cons, octetBits_nil,
      hc, hb]
    rw [show 24 = 8 + 16 by rfl, lowBits_add]
    simp
  next => rfl

theorem putChunk_unpacked {h g : Hdlc} (ho : g.outData.eof = false) (hc : g.hdlcChunkLen ≤ 24)
    (hd : g.outData.data = h.outData.data) (hl : h.hdlcChunkLen ≤ g.hdlcChunkLen)
    (hf : g.unpackFrame = h.unpackFrame) : Unpacked h g.putChunk := by
  unfold putChunk
  split
  next h24 =>
    refine ⟨?_, by simp, .inr (by simp), ?_⟩
    · rw [DataStream.putData_open ho]
      exact ho
    · rw [DataStream.putData_open ho]
      exact hf
  next h24 => exact ⟨ho, by omega, .inl ⟨hd, hl⟩, hf⟩

theorem top_bit_set (w : Word) : w &&& 0x8000 ≠ 0 ↔ w.getLsbD 15 = true := by
  rw [show (0x8000 : Word) = BitVec.twoPow 16 15 by rfl, and_ne_zero_iff]

theorem chunk_snoc {c d : DWord} {n : Nat} {b : Bool} (hn : n < 24) (hb : d.getLsbD 0 = b)
    (hd : ∀ i < 24, d.getLsbD (i + 1) = c.getLsbD i) : lowBits d (n + 1) = lowBits c n ++ [b] :=
  lowBits_snoc hb fun i hi => hd i (by omega)

theorem chunk_zero (c : DWord) {n : Nat} (hn : n < 24) : lowBits (c <<< 1) (n + 1) = lowBits c n ++ [false] := by
  refine chunk_snoc hn (by simp) fun i hi => ?_
  rw [BitVec.getLsbD_shiftLeft]
  simp [show i + 1 < 32 by omega]

theorem chunk_one (c : DWord) {n : Nat} (hn : n < 24) :
    lowBits (c <<< 1 ||| 1) (n + 1) = lowBits c n ++ [true] := by
  refine chunk_snoc hn (by simp) fun i hi => ?_
  rw [BitVec.getLsbD_or, BitVec.getLsbD_shiftLeft, show (1 : DWord) = 1#32 by rfl, BitVec.getLsbD_one]
  simp [show i + 1 < 32 by omega]

theorem putChunk_rawOnes (h : Hdlc) : h.putChunk.rawOnes = h.rawOnes := by
  unfold putChunk
  split <;> rfl

theorem unpackBit_spec {h : Hdlc} (ho : h.outData.eof = false) (hc : h.hdlcChunkLen < 24) (w : Word) :
    (h.unpackBit w).decodedBits = destuffBit h.rawOnes h.decodedBits (w.getLsbD 15) ∧
      (h.unpackBit w).rawOnes = nextOnes h.rawOnes (w.getLsbD 15) ∧ Unpacked h (h.unpackBit w) := by
  have htop := top_bit_set w
  unfold unpackBit
  cases hb : w.getLsbD 15 with
  | true =>
    rw [if_pos (htop.mpr hb)]
    refine ⟨?_, putChunk_rawOnes _, putChunk_unpacked ho hc rfl (by simp) rfl⟩
    refine (putChunk_bits (by exact ho)).trans ?_
    simp only [decodedBits, chunk_one h.hdlcChunk hc, destuffBit]
    simp
  | false =>
    rw [if_neg (by rw [htop, hb]; simp)]
    split
    next h5 =>
      refine ⟨?_, putChunk_rawOnes _, putChunk_unpacked ho hc rfl (by simp) rfl⟩
      refine (putChunk_bits (by exact ho)).trans ?_
      simp only [decodedBits, chunk_zero h.hdlcChunk hc, destuffBit, if_neg h5]
      simp
    next h5 =>
      refine ⟨?_, putChunk_rawOnes _, putChunk_unpacked ho hc.le rfl le_rfl rfl⟩
      refine (putChunk_bits (by exact ho)).trans ?_
      simp only [destuffBit, not_not.mp h5, if_true]
      rfl

/-- Unpacking an octet is a scan for the next flag over the bits that are known. -/
theorem unpackLoop_scan {h : Hdlc} (ho : h.outData.eof = false) (hc : h.hdlcChunkLen < 24) {n j : Nat}
    (hn : n + j = 9) (hj : 0 < j) (w : Word) :
    ∃ g, Unpacked h g ∧ g.rawByteLen < 8 ∧
      ((h.unpackLoop n w j = (true, g) ∧
          scan h.rawOnes h.decodedBits (topBits w j) = .more g.rawOnes g.decodedBits g.pendingBits) ∨
        (h.unpackLoop n w j = (false, g) ∧
          scan h.rawOnes h.decodedBits (topBits w j) = .found g.decodedBits g.pendingBits)) := by
  induction n generalizing h w j with
  | zero =>
    obtain rfl : j = 9 := by omega
    refine ⟨h.flagNotFound w 9, ⟨ho, hc, .inl ⟨rfl, le_rfl⟩, rfl⟩, by simp [flagNotFound], .inl ⟨rfl, ?_⟩⟩
    rw [flagNotFound_bits]
    exact scan_topBits_nine w _ _
  | succ n ih =>
    rw [unpackLoop]
    split
    next hf =>
      refine ⟨h.flagFound w j, ⟨ho, hc, .inl ⟨rfl, le_rfl⟩, rfl⟩, ?_, .inr ⟨rfl, ?_⟩⟩
      · simp only [flagFound]
        omega
      · rw [flagFound_bits h w (by omega)]
        exact scan_topBits_flag (by omega) hf _ _
    next hf =>
      obtain ⟨hbits, hones, hu⟩ := unpackBit_spec ho hc w
      obtain ⟨g, hug, hl, hg⟩ := ih hu.eof hu.chunk (j := j + 1) (by omega) (by omega) (w <<< 1)
      have hstep := scan_topBits (w := w) (j := j) (by omega) (by simpa using hf) h.rawOnes h.decodedBits
      rw [← hbits, ← hones] at hstep
      refine ⟨g, hu.trans hug, hl, ?_⟩
      rw [hstep]
      exact hg

/-- The bits the decoder knows when it gets the octet `b`. -/
def knownBits (h : Hdlc) (b : Byte) : List Bool := h.pendingBits ++ lowBits b 8

theorem sync_scan {h : Hdlc} (hl : h.rawByteLen < 8) (b : Byte) :
    ∃ g, g.syncFrame = h.syncFrame ∧ g.rawByteLen < 8 ∧
      ((h.sync b = (false, g) ∧ ∀ ones acc, ∃ o a, scan ones acc (h.knownBits b) = .more o a g.pendingBits) ∨
        (h.sync b = (true, g) ∧ ∀ ones acc, ∃ a, scan ones acc (h.knownBits b) = .found a g.pendingBits)) := by
  unfold knownBits
  rw [← window_bits hl b]
  have hj : (h.window b).2 = 8 - h.rawByteLen := rfl
  exact syncLoop_scan h (n := 9 - (h.window b).2) (by omega) (by omega) (h.window b).1

theorem skipFlag_bits {h : Hdlc} (hl : h.rawByteLen < 8) (b : Byte) :
    ∃ g, g.syncFrame = h.syncFrame ∧ g.rawByteLen < 8 ∧
      ((h.skipFlag b = (false, h) ∧ (h.knownBits b).take 8 ≠ flag) ∨
        (h.skipFlag b = (true, g) ∧ (h.knownBits b).take 8 = flag ∧ g.pendingBits = (h.knownBits b).drop 8)) := by
  unfold knownBits skipFlag
  rw [← window_bits hl b]
  have hj : (h.window b).2 = 8 - h.rawByteLen := rfl
  generalize h.window b = x at hj
  obtain ⟨w, j⟩ := x
  dsimp only at hj ⊢
  have hflag := isFlag_iff w (j := j) (by omega)
  refine ⟨{ h with rawByte := (w >>> j).setWidth 8 }, rfl, hl, ?_⟩
  split
  next hf =>
    refine .inr ⟨rfl, hflag.mp hf, ?_⟩
    rw [drop_topBits w (by omega), hj]
    simp only [pendingBits]
    rw [show 8 - (8 - h.rawByteLen) = h.rawByteLen by omega]
  next hf => exact .inl ⟨rfl, fun h8 => hf (hflag.mpr h8)⟩

theorem unpack_scan {h : Hdlc} (hl : h.rawByteLen < 8) (ho : h.outData.eof = false)
    (hc : h.hdlcChunkLen < 24) (b : Byte) :
    ∃ g, Unpacked h g ∧ g.rawByteLen < 8 ∧
      ((h.unpack b = (true, g) ∧
          scan h.rawOnes h.decodedBits (h.knownBits b) = .more g.rawOnes g.decodedBits g.pendingBits) ∨
        (h.unpack b = (false, g) ∧
          scan h.rawOnes h.decodedBits (h.knownBits b) = .found g.decodedBits g.pendingBits)) := by
  unfold knownBits
  rw [← window_bits hl b]
  have hj : (h.window b).2 = 8 - h.rawByteLen := rfl
  exact unpackLoop_scan ho hc (n := 9 - (h.window b).2) (by omega) (by omega) (h.window b).1

end Hdlc

end T38Modem
