import T38Modem.HdlcDecode

namespace T38Modem

open BitList BitStuffing

namespace Hdlc

/-- Reading leaves alone what kind of data the object takes and gives. -/
structure SameKind (h g : Hdlc) : Prop where
  inDataType : g.inDataType = h.inDataType
  outDataType : g.outDataType = h.outDataType
  len : h.rawByteLen < 8 → g.rawByteLen < 8

namespace SameKind

variable {h g k : Hdlc}

theorem refl (h : Hdlc) : SameKind h h := ⟨rfl, rfl, id⟩

theorem trans (a : SameKind h g) (b : SameKind g k) : SameKind h k :=
  ⟨b.inDataType.trans a.inDataType, b.outDataType.trans a.outDataType, fun hl => b.len (a.len hl)⟩

end SameKind

theorem putChunk_same (h : Hdlc) : SameKind h h.putChunk := by
  unfold putChunk
  split <;> exact ⟨rfl, rfl, id⟩

theorem unpackBit_same (h : Hdlc) (w : Word) : SameKind h (h.unpackBit w) := by
  unfold unpackBit
  refine SameKind.trans ?_ (putChunk_same _)
  split
  · exact ⟨rfl, rfl, id⟩
  · split <;> exact ⟨rfl, rfl, id⟩

theorem syncLoop_same (h : Hdlc) {n j : Nat} (hj : 0 < j) (w : Word) : SameKind h (h.syncLoop n w j).2 := by
  induction n generalizing w j with
  | zero => exact ⟨rfl, rfl, fun _ => by simp [syncLoop, flagNotFound]⟩
  | succ n ih =>
    rw [syncLoop]
    split
    · exact ⟨rfl, rfl, fun _ => by simp only [flagFound]; omega⟩
    · exact ih (by omega) _

theorem unpackLoop_same (h : Hdlc) {n j : Nat} (hj : 0 < j) (w : Word) : SameKind h (h.unpackLoop n w j).2 := by
  induction n generalizing h w j with
  | zero => exact ⟨rfl, rfl, fun _ => by simp [unpackLoop, flagNotFound]⟩
  | succ n ih =>
    rw [unpackLoop]
    split
    · exact ⟨rfl, rfl, fun _ => by simp only [flagFound]; omega⟩
    · exact (h.unpackBit_same w).trans (ih _ (by omega) _)

theorem window_pos {h : Hdlc} (hl : h.rawByteLen < 8) (b : Byte) : 0 < (h.window b).2 := by
  simp only [window]
  omega

theorem takeData_same {h : Hdlc} (hl : h.rawByteLen < 8) (b : Byte) : SameKind h (h.takeData b) := by
  have hu : SameKind h (h.unpack b).2 := h.unpackLoop_same (window_pos hl b) _
  unfold takeData
  split
  next g hg =>
    rw [hg] at hu
    exact hu
  next g hg =>
    rw [hg] at hu
    exact ⟨hu.inDataType, hu.outDataType, hu.len⟩

theorem takeByte_same {h : Hdlc} (hl : h.rawByteLen < 8) (b : Byte) : SameKind h (h.takeByte b) := by
  unfold takeByte
  generalize hg : ({ h with lastChar := some b, rawCount := h.rawCount + 1 } : Hdlc) = g
  have hk : SameKind h g := by rw [← hg]; exact ⟨rfl, rfl, id⟩
  have hgl := hk.len hl
  refine hk.trans ?_
  dsimp only
  split
  · have hs : SameKind g (g.sync b).2 := g.syncLoop_same (window_pos hgl b) _
    split
    next k hk =>
      rw [hk] at hs
      exact ⟨hs.inDataType, hs.outDataType, hs.len⟩
    next k hk =>
      rw [hk] at hs
      exact hs
  · have hs : SameKind g (g.skipFlag b).2 := by
      unfold skipFlag
      split
      next w j _ => split <;> exact ⟨rfl, rfl, id⟩
    split
    next k hk =>
      rw [hk] at hs
      exact hs
    next k hk =>
      rw [hk] at hs
      have hd : SameKind g { k with hdlcState := .stData } := ⟨hs.inDataType, hs.outDataType, hs.len⟩
      exact hd.trans (takeData_same (hd.len hgl) b)
  · exact takeData_same hgl b
  · exact .refl _

theorem drainHdlc_same (h : Hdlc) (count : Nat) (acc : List Byte) : SameKind h (h.drainHdlc count acc).2.1 := by
  unfold drainHdlc
  split
  · split <;> exact ⟨rfl, rfl, id⟩
  · exact .refl h

theorem getHdlcLoop_same {eof : Bool} {h : Hdlc} (hl : h.rawByteLen < 8) (count : Nat) (acc bs : List Byte) :
    SameKind h (getHdlcLoop eof h count acc bs).2.1 := by
  induction bs generalizing h count acc with
  | nil =>
    unfold getHdlcLoop
    split
    · have hk : SameKind h { h with outData := h.outData.putEof, inData := none, hdlcState := .stEof } :=
        ⟨rfl, rfl, id⟩
      exact hk.trans (drainHdlc_same _ count acc)
    · exact .refl h
  | cons b rest ih =>
    have hk := (takeByte_same hl b).trans (drainHdlc_same (h.takeByte b) count acc)
    unfold getHdlcLoop
    split
    next acc' g hg =>
      rw [hg] at hk
      exact hk.trans (ih (hk.len hl) _ _)
    next res g _ _ hg =>
      rw [hg] at hk
      exact hk

/-- A decoder keeps to its kind, and its input stays open or closed. -/
theorem getHdlcData_same {h : Hdlc} (hi : h.inDataType = .dtRaw) (hl : h.rawByteLen < 8) (inp : DataStream)
    (count : Nat) : SameKind h (h.getHdlcData inp count).2.1 ∧ (h.getHdlcData inp count).2.2.eof = inp.eof := by
  unfold getHdlcData
  split
  next ht => cases hi.symm.trans ht
  · split
    · split <;> exact ⟨⟨rfl, rfl, id⟩, rfl⟩
    · split
      · split <;> exact ⟨.refl h, rfl⟩
      · exact ⟨getHdlcLoop_same hl count [] inp.data, rfl⟩
  · exact ⟨.refl h, rfl⟩

/-- The object hands its input through. -/
structure Direct (h : Hdlc) : Prop where
  types : (h.inDataType = .dtHdlc ∧ h.outDataType = .dtHdlc) ∨ (h.inDataType = .dtRaw ∧ h.outDataType = .dtRaw)
  attached : h.inData ≠ none

/-- What is read through the object is what its input gives, and it lets go of the input at its end. -/
theorem Direct.getData {h : Hdlc} (hd : h.Direct) (inp : DataStream) (count : Nat) :
    ∃ g, h.getData inp count = ((inp.getData count).1, g, (inp.getData count).2) ∧ SameKind h g ∧
      ((inp.getData count).1 ≠ none → g.inData = h.inData) := by
  obtain ⟨i, hi⟩ := Option.ne_none_iff_exists'.mp hd.attached
  have hin : ∃ g, h.getInData inp count = ((inp.getData count).1, g, (inp.getData count).2) ∧ SameKind h g ∧
      ((inp.getData count).1 ≠ none → g.inData = h.inData) := by
    unfold getInData
    simp only [hi]
    generalize inp.getData count = r
    obtain ⟨res, s⟩ := r
    cases res with
    | none => exact ⟨_, rfl, ⟨rfl, rfl, id⟩, fun hne => absurd rfl hne⟩
    | some bs =>
      dsimp only
      split
      · exact ⟨_, rfl, ⟨rfl, rfl, id⟩, fun _ => rfl⟩
      · exact ⟨h, rfl, .refl h, fun _ => hi⟩
  obtain ⟨g, hg, hk, ha⟩ := hin
  rcases hd.types with ⟨ht, ho⟩ | ⟨ht, ho⟩
  · simp only [Hdlc.getData, getHdlcData, ho, ht, hg]
    cases hr : (inp.getData count).1 with
    | none => exact ⟨g, rfl, hk, fun hne => absurd rfl hne⟩
    | some bs => exact ⟨{ g with fcs := g.fcs.build bs }, rfl, ⟨hk.inDataType, hk.outDataType, hk.len⟩, fun _ => ha (by simp [hr])⟩
  · simp only [Hdlc.getData, getRawData, ho, ht, hg]
    exact ⟨g, rfl, hk, ha⟩

/-- A flag ends inside the first octet behind the flags that is none, so that the frame in front of it
is found before there is anything of it. The bits `ahead` are those known of the octet before. -/
def shortGap (ahead : List Bool) : List Byte → Bool
  | [] => false
  | b :: rest =>
    let known := ahead ++ lowBits b 8
    if known.take 8 = flag then shortGap (known.drop 8) rest
    else
      match scan 0 [] known with
      | .found _ _ => true
      | .more _ _ _ => false

/-- The octets known are too few for an octet of a frame. -/
theorem unpacked_empty {h g : Hdlc} (hl : h.rawByteLen < 8) (hh : h.decodedBits = []) {b : Byte} {rest : List Bool}
    (hs : scan h.rawOnes h.decodedBits (h.knownBits b) = .found g.decodedBits rest) : g.outData.data = [] := by
  have hk := scan_found_kept hs
  rw [hh] at hk
  simp only [knownBits, pendingBits, decodedBits, List.length_append, length_lowBits, length_octetBits,
    List.length_nil] at hk
  exact List.eq_nil_of_length_eq_zero (by omega)

theorem unpackFrame_state {h g : Hdlc} (e : g.unpackFrame = h.unpackFrame) : g.hdlcState = h.hdlcState :=
  show g.unpackFrame.hdlcState = h.unpackFrame.hdlcState by rw [e]

theorem syncFrame_state {h g : Hdlc} (e : g.syncFrame = h.syncFrame) :
    g.hdlcState = h.hdlcState ∧ g.outData = h.outData ∧ g.hdlcChunkLen = h.hdlcChunkLen ∧ g.rawOnes = h.rawOnes :=
  ⟨show g.syncFrame.hdlcState = h.syncFrame.hdlcState by rw [e],
    show g.syncFrame.outData = h.syncFrame.outData by rw [e],
    show g.syncFrame.hdlcChunkLen = h.syncFrame.hdlcChunkLen by rw [e],
    show g.syncFrame.rawOnes = h.syncFrame.rawOnes by rw [e]⟩

theorem takeByte_skip {h : Hdlc} (hs : h.hdlcState = .stSkipFlags) (b : Byte) :
    h.takeByte b =
      match ({ h with lastChar := some b, rawCount := h.rawCount + 1 } : Hdlc).skipFlag b with
      | (true, g) => g
      | (false, g) => takeData { g with hdlcState := .stData } b := by
  unfold takeByte
  dsimp only
  split
  case h_1 he => cases hs.symm.trans he
  case h_2 =>
    generalize Hdlc.skipFlag _ b = r
    obtain ⟨ok, g⟩ := r
    cases ok <;> rfl
  case h_3 he => cases hs.symm.trans he
  case h_4 he => cases hs.symm.trans he

/-- When no octets are asked for, the loop ends as soon as a frame has begun. -/
theorem drainHdlc_zero {h : Hdlc} (hs : h.hdlcState = .stEof ∨ h.hdlcState = .stData) :
    ∃ res g, h.drainHdlc 0 [] = (res, g, false) ∧
      (res = none ↔ h.outData.data = [] ∧ h.outData.eof = true) := by
  unfold drainHdlc
  rw [if_pos hs]
  have hn := h.outData.getData_none (n := 0)
  generalize h.outData.getData 0 = r at hn
  obtain ⟨res, out⟩ := r
  cases res with
  | none => exact ⟨_, _, rfl, by simpa using hn⟩
  | some bs => exact ⟨some bs, { h with outData := out, fcs := h.fcs.build bs }, by simp, by simpa using hn⟩

/-- Between two frames no octets are asked for, and the answer is -1 only behind a short gap. -/
theorem getHdlcLoop_shortGap {h : Hdlc} (hs : h.hdlcState = .stSkipFlags) (hl : h.rawByteLen < 8)
    (ho : h.outData.data = [] ∧ h.outData.eof = false) (hc : h.hdlcChunkLen = 0) (h1 : h.rawOnes = 0) (bs : List Byte) :
    (getHdlcLoop false h 0 [] bs).1 = none ↔ shortGap h.pendingBits bs = true := by
  induction bs generalizing h with
  | nil => simp [getHdlcLoop, shortGap]
  | cons b rest ih =>
    have hkn : h.pendingBits ++ lowBits b 8 = h.knownBits b := rfl
    rw [shortGap, getHdlcLoop, takeByte_skip hs b, hkn]
    generalize hg : ({ h with lastChar := some b, rawCount := h.rawCount + 1 } : Hdlc) = g
    have hgl : g.rawByteLen < 8 := by rw [← hg]; exact hl
    have hgo : g.outData.data = [] ∧ g.outData.eof = false := by rw [← hg]; exact ho
    have hgc : g.hdlcChunkLen = 0 := by rw [← hg]; exact hc
    have hg1 : g.rawOnes = 0 := by rw [← hg]; exact h1
    have hgs : g.hdlcState = .stSkipFlags := by rw [← hg]; exact hs
    rw [show h.knownBits b = g.knownBits b by rw [← hg]; rfl]
    obtain ⟨k, hk, hkl, hskip⟩ := skipFlag_bits hgl b
    rcases hskip with ⟨hskip, hno⟩ | ⟨hskip, htake, hdrop⟩
    · -- the frame begins here, and it may be over in this octet
      have hdec : ({ g with hdlcState := .stData } : Hdlc).decodedBits = [] := by
        simp [decodedBits, hgo.1, hgc, lowBits]
      obtain ⟨u, hu, hul, hun⟩ := unpack_scan (h := { g with hdlcState := .stData }) hgl hgo.2
        (by rw [hgc]; omega) b
      rw [hskip, if_neg hno]
      simp only [takeData]
      rcases hun with ⟨hun, hscan⟩ | ⟨hun, hscan⟩
      · obtain ⟨res, v, hv, hnone⟩ := drainHdlc_zero (h := u) (.inr ((unpackFrame_state hu.frame).trans rfl))
        have hmore : scan 0 [] (g.knownBits b) = .more u.rawOnes u.decodedBits u.pendingBits := by
          rw [← hg1, ← hdec]
          exact hscan
        rw [hun, hmore]
        dsimp only
        rw [hv]
        simp [hnone, hu.eof]
      · obtain ⟨res, v, hv, hnone⟩ := drainHdlc_zero (h := { u with outData := u.outData.putEof, hdlcState := .stEof })
          (.inl rfl)
        have hfound : scan 0 [] (g.knownBits b) = .found u.decodedBits u.pendingBits := by
          rw [← hg1, ← hdec]
          exact hscan
        have hempty : u.outData.data = [] := unpacked_empty hgl hdec hscan
        rw [hun, hfound]
        dsimp only
        rw [hv]
        simp [hnone, hempty, DataStream.putEof]
    · obtain ⟨hks, hko, hkc, hk1⟩ := syncFrame_state hk
      rw [hskip, if_pos htake, drainHdlc, if_neg (by simp [hks, hgs])]
      exact hdrop ▸ ih (hks.trans hgs) hkl (by rw [hko]; exact hgo) (hkc.trans hgc) (hk1.trans hg1)

/-- The decoder `g` that goes on behind a frame which `h` has come to the end of. -/
structure Between (h g : Hdlc) : Prop where
  inDataType : g.inDataType = .dtRaw
  outDataType : g.outDataType = .dtHdlc
  inData : g.inData = h.inData
  state : g.hdlcState = .stSkipFlags
  len : g.rawByteLen = h.rawByteLen
  pending : g.pendingBits = h.pendingBits
  out : g.outData.data = [] ∧ g.outData.eof = false
  chunk : g.hdlcChunkLen = 0
  ones : g.rawOnes = 0

theorem getHdlcStart_between {h : Hdlc} (hi : h.inDataType = .dtRaw) : Between h (h.getHdlcStart false) := by
  unfold getHdlcStart
  dsimp only
  rw [if_pos hi]
  exact ⟨hi, rfl, rfl, rfl, rfl, rfl, ⟨rfl, rfl⟩, rfl, rfl⟩

/-- The end of the input is found between two frames, though it is not there, only behind a short gap. -/
theorem Between.shortGap {h g : Hdlc} (hg : Between h g) (hl : h.rawByteLen < 8) {inp : DataStream}
    (he : inp.eof = false) (hn : (g.getHdlcData inp 0).1 = none) : shortGap h.pendingBits inp.data = true := by
  unfold getHdlcData at hn
  simp only [hg.inDataType, hg.state] at hn
  split at hn
  · have hne : (g.outData.getData 0).1 ≠ none := fun hn => by
      simpa [hg.out.2] using (DataStream.getData_none.mp hn).2
    split at hn
    · cases hn
    next hget => exact absurd (congrArg Prod.fst hget) hne
  · rw [if_neg (by simp), he] at hn
    rw [← hg.pending]
    exact (getHdlcLoop_shortGap hg.state (hg.len ▸ hl) hg.out hg.chunk hg.ones inp.data).mp hn

end Hdlc

end T38Modem
