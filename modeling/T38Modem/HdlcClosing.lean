import T38Modem.HdlcInput
import T38Modem.HdlcSending

namespace T38Modem

namespace Hdlc

/-- Behind a closing flag there are but flags, or a frame that is over in its first octet. -/
def gapEnds (h : Hdlc) : List Byte → Bool
  | [] => true
  | b :: rest =>
    match h.skipFlag b with
    | (true, h) => gapEnds h rest
    | (false, h) => !(h.unpack b).1

/-- The octets to come close a frame behind which the end is found. -/
def closes (h : Hdlc) : List Byte → Bool
  | [] => h.hdlcState == .stEof
  | b :: rest =>
    if h.hdlcState = .stEof then
      (h.getHdlcStart false).gapEnds (b :: rest) || closes ((h.getHdlcStart false).takeByte b) rest
    else closes (h.takeByte b) rest

/-- The octets to come end the signal. -/
def Ends (h : Hdlc) (rest : List Byte) : Prop := h.inData ≠ none ∧ h.closes rest = true

/-- The decoders are at the same place. -/
structure Alike (h g : Hdlc) : Prop where
  inDataType : g.inDataType = h.inDataType
  hdlcState : g.hdlcState = h.hdlcState
  rawByte : g.rawByte = h.rawByte
  rawByteLen : g.rawByteLen = h.rawByteLen

variable {h g k : Hdlc} {b : Byte} {bs acc : List Byte} {count n j : Nat} {w : Word}

theorem Alike.refl (h : Hdlc) : Alike h h := ⟨rfl, rfl, rfl, rfl⟩

theorem Alike.symm (a : Alike h g) : Alike g h :=
  ⟨a.inDataType.symm, a.hdlcState.symm, a.rawByte.symm, a.rawByteLen.symm⟩

theorem Alike.trans (a : Alike h g) (c : Alike g k) : Alike h k :=
  ⟨c.inDataType.trans a.inDataType, c.hdlcState.trans a.hdlcState, c.rawByte.trans a.rawByte,
    c.rawByteLen.trans a.rawByteLen⟩

theorem Alike.window (a : Alike h g) (b : Byte) : g.window b = h.window b := by
  rw [Hdlc.window, Hdlc.window, a.rawByte, a.rawByteLen]

theorem unpackBit_alike (h : Hdlc) (w : Word) : Alike h (h.unpackBit w) := by
  have put (k : Hdlc) : Alike k k.putChunk := by
    unfold putChunk
    split <;> exact ⟨rfl, rfl, rfl, rfl⟩
  unfold unpackBit
  refine .trans ?_ (put _)
  split
  · exact ⟨rfl, rfl, rfl, rfl⟩
  · split <;> exact ⟨rfl, rfl, rfl, rfl⟩

theorem Alike.syncLoop (a : Alike h g) (n : Nat) (w : Word) (j : Nat) :
    (g.syncLoop n w j).1 = (h.syncLoop n w j).1 ∧ Alike (h.syncLoop n w j).2 (g.syncLoop n w j).2 := by
  induction n generalizing w j with
  | zero => exact ⟨rfl, a.inDataType, a.hdlcState, rfl, rfl⟩
  | succ n ih =>
    rw [Hdlc.syncLoop, Hdlc.syncLoop]
    split
    · exact ⟨rfl, a.inDataType, a.hdlcState, rfl, rfl⟩
    · exact ih _ _

theorem Alike.unpackLoop (a : Alike h g) (n : Nat) (w : Word) (j : Nat) :
    (g.unpackLoop n w j).1 = (h.unpackLoop n w j).1 ∧ Alike (h.unpackLoop n w j).2 (g.unpackLoop n w j).2 := by
  induction n generalizing h g w j with
  | zero => exact ⟨rfl, a.inDataType, a.hdlcState, rfl, rfl⟩
  | succ n ih =>
    rw [Hdlc.unpackLoop, Hdlc.unpackLoop]
    split
    · exact ⟨rfl, a.inDataType, a.hdlcState, rfl, rfl⟩
    · exact ih (((unpackBit_alike h w).symm.trans a).trans (unpackBit_alike g w)) _ _

theorem Alike.sync (a : Alike h g) (b : Byte) :
    (g.sync b).1 = (h.sync b).1 ∧ Alike (h.sync b).2 (g.sync b).2 := by
  unfold Hdlc.sync
  rw [a.window]
  exact a.syncLoop _ _ _

theorem Alike.unpack (a : Alike h g) (b : Byte) :
    (g.unpack b).1 = (h.unpack b).1 ∧ Alike (h.unpack b).2 (g.unpack b).2 := by
  unfold Hdlc.unpack
  rw [a.window]
  exact a.unpackLoop _ _ _

theorem Alike.skipFlag (a : Alike h g) (b : Byte) :
    (g.skipFlag b).1 = (h.skipFlag b).1 ∧ Alike (h.skipFlag b).2 (g.skipFlag b).2 := by
  unfold Hdlc.skipFlag
  rw [a.window]
  dsimp only
  split
  · exact ⟨rfl, a.inDataType, a.hdlcState, rfl, a.rawByteLen⟩
  · exact ⟨rfl, a⟩

theorem Alike.takeData (a : Alike h g) (b : Byte) : Alike (h.takeData b) (g.takeData b) := by
  obtain ⟨hr, hk⟩ := a.unpack b
  unfold Hdlc.takeData
  generalize h.unpack b = r at hr hk
  generalize g.unpack b = r' at hr hk
  obtain ⟨ok, h'⟩ := r
  obtain ⟨ok', g'⟩ := r'
  obtain rfl : ok' = ok := hr
  cases ok' with
  | true => exact hk
  | false => exact ⟨hk.inDataType, rfl, hk.rawByte, hk.rawByteLen⟩

theorem Alike.takeByte (a : Alike h g) (b : Byte) : Alike (h.takeByte b) (g.takeByte b) := by
  have a' : Alike { h with lastChar := some b, rawCount := h.rawCount + 1 }
      { g with lastChar := some b, rawCount := g.rawCount + 1 } := ⟨a.inDataType, a.hdlcState, a.rawByte, a.rawByteLen⟩
  unfold Hdlc.takeByte
  generalize ({ h with lastChar := some b, rawCount := h.rawCount + 1 } : Hdlc) = u at a'
  generalize ({ g with lastChar := some b, rawCount := g.rawCount + 1 } : Hdlc) = v at a'
  have hstate := a'.hdlcState
  cases hu : u.hdlcState with
  | stEof =>
    simp only [hstate, hu]
    exact a'
  | stSync =>
    obtain ⟨hr, hk⟩ := a'.sync b
    simp only [hstate, hu]
    generalize u.sync b = r at hr hk
    generalize v.sync b = r' at hr hk
    obtain ⟨ok, u'⟩ := r
    obtain ⟨ok', v'⟩ := r'
    obtain rfl : ok' = ok := hr
    cases ok' with
    | true => exact ⟨hk.inDataType, rfl, hk.rawByte, hk.rawByteLen⟩
    | false => exact hk
  | stSkipFlags =>
    obtain ⟨hr, hk⟩ := a'.skipFlag b
    simp only [hstate, hu]
    generalize u.skipFlag b = r at hr hk
    generalize v.skipFlag b = r' at hr hk
    obtain ⟨ok, u'⟩ := r
    obtain ⟨ok', v'⟩ := r'
    obtain rfl : ok' = ok := hr
    cases ok' with
    | true => exact hk
    | false =>
      have hd : Alike { u' with hdlcState := .stData } { v' with hdlcState := .stData } :=
        ⟨hk.inDataType, rfl, hk.rawByte, hk.rawByteLen⟩
      exact hd.takeData b
  | stData =>
    simp only [hstate, hu]
    exact a'.takeData b

theorem Alike.getHdlcStart (a : Alike h g) (sync : Bool) : Alike (h.getHdlcStart sync) (g.getHdlcStart sync) := by
  obtain ⟨hi, hs, hb, hl⟩ := a
  unfold Hdlc.getHdlcStart
  dsimp only
  rw [hi]
  split
  · exact ⟨rfl, rfl, hb, hl⟩
  · split <;> exact ⟨rfl, hs, hb, hl⟩

theorem Alike.gapEnds (a : Alike h g) (bs : List Byte) : g.gapEnds bs = h.gapEnds bs := by
  induction bs generalizing h g with
  | nil => rfl
  | cons b rest ih =>
    obtain ⟨hr, hk⟩ := a.skipFlag b
    rw [Hdlc.gapEnds, Hdlc.gapEnds]
    generalize h.skipFlag b = r at hr hk
    generalize g.skipFlag b = r' at hr hk
    obtain ⟨ok, h'⟩ := r
    obtain ⟨ok', g'⟩ := r'
    obtain rfl : ok' = ok := hr
    cases ok' with
    | true => exact ih hk
    | false => exact congrArg (! ·) (hk.unpack b).1

theorem Alike.closes (a : Alike h g) (bs : List Byte) : g.closes bs = h.closes bs := by
  induction bs generalizing h g with
  | nil => simp only [Hdlc.closes, a.hdlcState]
  | cons b rest ih =>
    simp only [Hdlc.closes, a.hdlcState, (a.getHdlcStart false).gapEnds, ih ((a.getHdlcStart false).takeByte b),
      ih (a.takeByte b)]

theorem Ends.congr (a : Alike h g) (hi : g.inData = h.inData) : g.Ends bs ↔ h.Ends bs := by
  rw [Ends, Ends, hi, a.closes]

/-- The search for the end goes on behind a frame that is closed. -/
theorem closes_eof (hs : h.hdlcState = .stEof) (hi : h.inDataType = .dtRaw) (bs : List Byte) :
    h.closes bs = ((h.getHdlcStart false).gapEnds bs || (h.getHdlcStart false).closes bs) := by
  have hskip : (h.getHdlcStart false).hdlcState = .stSkipFlags := (getHdlcStart_between hi).state
  cases bs with
  | nil => simp [closes, gapEnds, hs]
  | cons b rest => simp [closes, hs, hskip]

theorem closes_cons (hs : h.hdlcState ≠ .stEof) : h.closes (b :: bs) = (h.takeByte b).closes bs := by
  rw [closes, if_neg hs]

theorem drainHdlc_alike : Alike h (h.drainHdlc count acc).2.1 := by
  unfold drainHdlc
  split
  · split <;> exact ⟨rfl, rfl, rfl, rfl⟩
  · exact .refl h

/-- What is read says nothing of the end. -/
theorem getHdlcLoop_ends (hs : h.hdlcState ≠ .stEof) (count : Nat) (acc bs : List Byte) :
    (getHdlcLoop true h count acc bs).2.1.Ends (getHdlcLoop true h count acc bs).2.2 ↔ h.Ends bs := by
  induction bs generalizing h count acc with
  | nil =>
    have hend : h.closes [] = false := by simpa [closes] using hs
    have hnone : (getHdlcLoop true h count acc []).2.1.inData = none := by
      rw [getHdlcLoop, if_pos rfl]
      exact drainHdlc_inData
    simp [Ends, hnone, hend]
  | cons b rest ih =>
    have ha : Alike (h.takeByte b) ((h.takeByte b).drainHdlc count acc).2.1 := drainHdlc_alike
    have hi : ((h.takeByte b).drainHdlc count acc).2.1.inData = h.inData :=
      drainHdlc_inData.trans (takeByte_inData b)
    have hends : ((h.takeByte b).drainHdlc count acc).2.1.Ends rest ↔ h.Ends (b :: rest) := by
      rw [Ends, Ends, hi, ha.closes, closes_cons hs]
    rw [getHdlcLoop]
    split
    next acc' k hk =>
      rw [hk] at hends ha
      have hgo : k.hdlcState ≠ .stEof := by
        have hd : ((h.takeByte b).drainHdlc count acc).2.2 = true := by rw [hk]
        rw [show k.hdlcState = _ from ha.hdlcState]
        intro he
        unfold drainHdlc at hd
        rw [if_pos (.inl he)] at hd
        split at hd <;> simp_all
      exact (ih hgo _ _).trans hends
    next res k _ _ hk =>
      rw [hk] at hends
      exact hends

/-- The output of a decoder is at its end where the decoder is. -/
structure Decodes (h : Hdlc) : Prop where
  inDataType : h.inDataType = .dtRaw
  outDataType : h.outDataType = .dtHdlc
  eof : h.outData.eof = true ↔ h.hdlcState = .stEof

/-- What an octet or a bit does to the output. -/
structure Grows (n : Nat) (h g : Hdlc) : Prop where
  eof : g.outData.eof = h.outData.eof
  length : g.outData.data.length ≤ h.outData.data.length + n
  chunk : g.hdlcChunkLen ≤ h.hdlcChunkLen + n
  short : h.hdlcChunkLen + n < 24 → g.outData.data = h.outData.data

theorem Grows.of_same (ho : g.outData = h.outData) (hc : g.hdlcChunkLen ≤ h.hdlcChunkLen + n) : Grows n h g := by
  refine ⟨congrArg DataStream.eof ho, ?_, hc, fun _ => congrArg DataStream.data ho⟩
  rw [ho]
  exact Nat.le_add_right _ _

theorem Grows.trans {m : Nat} (a : Grows n h g) (c : Grows m g k) : Grows (n + m) h k := by
  obtain ⟨he, hl, hc, hs⟩ := a
  obtain ⟨he', hl', hc', hs'⟩ := c
  refine ⟨he'.trans he, by omega, by omega, fun hlt => ?_⟩
  rw [hs' (by omega), hs (by omega)]

theorem Grows.mono {m : Nat} (a : Grows n h g) (hm : n ≤ m) : Grows m h g := by
  obtain ⟨he, hl, hc, hs⟩ := a
  exact ⟨he, by omega, by omega, fun hlt => hs (by omega)⟩

theorem unpackBit_grows (h : Hdlc) (w : Word) : Grows 1 h (h.unpackBit w) := by
  have put {k : Hdlc} (hc : k.hdlcChunkLen ≤ h.hdlcChunkLen + 1) (ho : k.outData = h.outData) :
      Grows 1 h k.putChunk := by
    unfold putChunk
    split
    next h24 =>
      refine ⟨?_, ?_, by dsimp only; omega, fun hlt => by omega⟩
      · rw [← ho]
        exact DataStream.putData_eof
      · dsimp only
        rw [ho]
        unfold DataStream.putData
        split <;> simp
    next => exact .of_same ho hc
  unfold unpackBit
  split
  · exact put (Nat.le_refl _) rfl
  · split
    · exact put (Nat.le_refl _) rfl
    · exact put (Nat.le_add_right _ _) rfl

theorem unpackLoop_grows (h : Hdlc) (n : Nat) (w : Word) (j : Nat) : Grows n h (h.unpackLoop n w j).2 := by
  induction n generalizing h w j with
  | zero => exact .of_same rfl (Nat.le_refl _)
  | succ n ih =>
    rw [unpackLoop]
    split
    · exact .of_same rfl (Nat.le_add_right _ _)
    · exact ((unpackBit_grows h w).trans (ih _ _ _)).mono (by omega)

theorem unpack_grows (h : Hdlc) (b : Byte) : Grows 9 h (h.unpack b).2 :=
  (unpackLoop_grows h _ _ _).mono (Nat.sub_le _ _)

/-- What is done with the bits of an octet leaves the decoder in its state. -/
structure Stays (h g : Hdlc) : Prop where
  inDataType : g.inDataType = h.inDataType
  outDataType : g.outDataType = h.outDataType
  hdlcState : g.hdlcState = h.hdlcState

theorem Stays.trans (a : Stays h g) (c : Stays g k) : Stays h k :=
  ⟨c.inDataType.trans a.inDataType, c.outDataType.trans a.outDataType, c.hdlcState.trans a.hdlcState⟩

theorem unpackLoop_stays (h : Hdlc) (n : Nat) (w : Word) (j : Nat) : Stays h (h.unpackLoop n w j).2 := by
  induction n generalizing h w j with
  | zero => exact ⟨rfl, rfl, rfl⟩
  | succ n ih =>
    have hbit : Stays h (h.unpackBit w) :=
      ⟨(unpackBit_alike h w).inDataType, (unpackBit_same h w).outDataType, (unpackBit_alike h w).hdlcState⟩
    rw [unpackLoop]
    split
    · exact ⟨rfl, rfl, rfl⟩
    · exact hbit.trans (ih _ _ _)

theorem unpackLoop_found (h g : Hdlc) (n : Nat) (w : Word) (j : Nat) :
    (g.unpackLoop n w j).1 = (h.unpackLoop n w j).1 := by
  induction n generalizing h g w j with
  | zero => rfl
  | succ n ih =>
    rw [unpackLoop, unpackLoop]
    split
    · rfl
    · exact ih _ _ _ _

theorem syncLoop_stays (h : Hdlc) (n : Nat) (w : Word) (j : Nat) :
    Stays h (h.syncLoop n w j).2 ∧ (h.syncLoop n w j).2.outData = h.outData := by
  induction n generalizing w j with
  | zero => exact ⟨⟨rfl, rfl, rfl⟩, rfl⟩
  | succ n ih =>
    rw [syncLoop]
    split
    · exact ⟨⟨rfl, rfl, rfl⟩, rfl⟩
    · exact ih _ _

theorem skipFlag_stays (h : Hdlc) (b : Byte) :
    Stays h (h.skipFlag b).2 ∧ (h.skipFlag b).2.outData = h.outData ∧ (h.skipFlag b).2.hdlcChunkLen = h.hdlcChunkLen ∧
      ((h.skipFlag b).1 = false → (h.skipFlag b).2 = h) := by
  unfold skipFlag
  dsimp only
  split
  · exact ⟨⟨rfl, rfl, rfl⟩, rfl, rfl, fun h => by cases h⟩
  · exact ⟨⟨rfl, rfl, rfl⟩, rfl, rfl, fun _ => rfl⟩

theorem Decodes.open (hd : Decodes h) (hs : h.hdlcState ≠ .stEof) : h.outData.eof = false := by
  by_contra he
  exact hs (hd.eof.mp (by simpa using he))

theorem Decodes.of_open (hi : h.inDataType = .dtRaw) (ho : h.outDataType = .dtHdlc) (he : h.outData.eof = false)
    (hs : h.hdlcState ≠ .stEof) : Decodes h := ⟨hi, ho, by simp [he, hs]⟩

theorem takeData_decodes (hd : Decodes h) (hs : h.hdlcState = .stData) (b : Byte) :
    Decodes (h.takeData b) ∧ (h.takeData b).outData.data.length ≤ h.outData.data.length + 9 := by
  have hg : Grows 9 h (h.unpack b).2 := unpack_grows h b
  have hk : Stays h (h.unpack b).2 := unpackLoop_stays h _ _ _
  have hopen : h.outData.eof = false := hd.open (by simp [hs])
  unfold takeData
  generalize h.unpack b = r at hg hk
  obtain ⟨ok, g⟩ := r
  have hi : g.inDataType = .dtRaw := hk.inDataType.trans hd.inDataType
  have ho : g.outDataType = .dtHdlc := hk.outDataType.trans hd.outDataType
  have hstate : g.hdlcState = .stData := hk.hdlcState.trans hs
  have heof : g.outData.eof = false := hg.eof.trans hopen
  cases ok with
  | true => exact ⟨.of_open hi ho heof (by simp [hstate]), hg.length⟩
  | false => exact ⟨⟨hi, ho, by simp [DataStream.putEof]⟩, hg.length⟩

/-- An octet keeps the decoder in step with its output, to which it adds a few octets at most. -/
theorem takeByte_decodes (hd : Decodes h) (b : Byte) :
    Decodes (h.takeByte b) ∧ (h.takeByte b).outData.data.length ≤ h.outData.data.length + 9 := by
  unfold takeByte
  generalize hk : ({ h with lastChar := some b, rawCount := h.rawCount + 1 } : Hdlc) = k
  have hd : Decodes k := by rw [← hk]; exact ⟨hd.inDataType, hd.outDataType, hd.eof⟩
  rw [show h.outData = k.outData by rw [← hk]]
  dsimp only
  split
  next hs =>
    obtain ⟨hst, hout⟩ := syncLoop_stays k (9 - (k.window b).2) (k.window b).1 (k.window b).2
    have hopen : k.outData.eof = false := hd.open (by simp [hs])
    split
    next g hg =>
      obtain rfl : (k.syncLoop (9 - (k.window b).2) (k.window b).1 (k.window b).2).2 = g := congrArg Prod.snd hg
      refine ⟨.of_open (hst.inDataType.trans hd.inDataType) (hst.outDataType.trans hd.outDataType)
        ((congrArg DataStream.eof hout).trans hopen) fun h => (by cases h), ?_⟩
      dsimp only
      rw [hout]
      exact Nat.le_add_right _ _
    next g hg =>
      obtain rfl : (k.syncLoop (9 - (k.window b).2) (k.window b).1 (k.window b).2).2 = g := congrArg Prod.snd hg
      refine ⟨.of_open (hst.inDataType.trans hd.inDataType) (hst.outDataType.trans hd.outDataType)
        ((congrArg DataStream.eof hout).trans hopen) ?_, ?_⟩
      · rw [hst.hdlcState, hs]
        exact fun h => by cases h
      · rw [hout]
        exact Nat.le_add_right _ _
  next hs =>
    have hopen : k.outData.eof = false := hd.open (by simp [hs])
    unfold skipFlag
    dsimp only
    split
    next g hg =>
      split at hg
      · cases hg
        exact ⟨⟨hd.inDataType, hd.outDataType, hd.eof⟩, Nat.le_add_right _ _⟩
      · cases hg
    next g hg =>
      split at hg
      · cases hg
      · cases hg
        exact takeData_decodes (h := { k with hdlcState := .stData })
          (.of_open hd.inDataType hd.outDataType hopen fun h => by cases h) rfl b
  next hs => exact takeData_decodes hd hs b
  next => exact ⟨hd, Nat.le_add_right _ _⟩

/-- What is read of the output says where the decoder is. -/
theorem Decodes.read (hd : Decodes h) {res : Option (List Byte)} {out : DataStream}
    (hg : h.outData.getData n = (res, out)) :
    (∀ f, Decodes { h with outData := out, fcs := f }) ∧
      out.data.length + (res.getD []).length = h.outData.data.length ∧ (res = none → h.hdlcState = .stEof) ∧
      (res = some [] → 0 < n → h.hdlcState ≠ .stEof) := by
  have heof : out.eof = h.outData.eof := by
    have := DataStream.getData_eof (s := h.outData) (n := n)
    rwa [hg] at this
  refine ⟨fun f => ⟨hd.inDataType, hd.outDataType, by rw [← hd.eof, ← heof]⟩, ?_, fun hr => ?_, fun hr hn hs => ?_⟩
  · cases res with
    | none =>
      have hsame := DataStream.getData_none_state (s := h.outData) (n := n) (by rw [hg])
      rw [hg] at hsame
      simp [show out = h.outData from hsame]
    | some bs =>
      have hread : bs ++ (h.outData.getData n).2.data = h.outData.data := (DataStream.getData_some (by rw [hg])).1
      rw [hg] at hread
      have hlen := congrArg List.length (show bs ++ out.data = h.outData.data from hread)
      rw [List.length_append] at hlen
      simp only [Option.getD_some]
      omega
  · exact hd.eof.mp (DataStream.getData_none.mp (by rw [hg]; exact hr)).2
  · have hopen := (DataStream.getData_some_nil (s := h.outData) hn (by rw [hg]; exact hr)).2
    exact Bool.false_ne_true (hopen.symm.trans (hd.eof.mpr hs))

/-- What a round hands out has been in the output, and it hands out nothing only where nothing is left or wanted. -/
structure Hands (h : Hdlc) (count : Nat) (acc : List Byte) (r : Option (List Byte) × Hdlc × Bool) : Prop where
  decodes : Decodes r.2.1
  length : r.2.1.outData.data.length + (r.1.getD []).length ≤ h.outData.data.length + acc.length
  none : r.1 = none → r.2.1.hdlcState = .stEof
  nil : r.1 = some [] → r.2.2 = false → count = 0
  more : ∀ bs, r.1 = some bs → r.2.2 = true → count + acc.length - bs.length = 0 → count = 0

theorem drainHdlc_hands (hd : Decodes h) (count : Nat) (acc : List Byte) :
    Hands h count acc (h.drainHdlc count acc) := by
  unfold drainHdlc
  split
  next hs =>
    cases hg : h.outData.getData count with
    | mk res out =>
      obtain ⟨hdec, hlen, hnone, hnil⟩ := hd.read hg
      cases res with
      | none =>
        have hlen : out.data.length = h.outData.data.length := hlen
        refine ⟨hdec h.fcs, ?_, fun _ => hnone rfl, fun hr _ => ?_, fun _ _ hgo => (by cases hgo)⟩
        · dsimp only
          split <;> simp_all
        · dsimp only at hr
          split at hr
          · cases hr
          next hne => exact absurd (Option.some.inj hr) hne
      | some bs =>
        have hlen : out.data.length + bs.length = h.outData.data.length := hlen
        refine ⟨hdec _, ?_, fun h => (by cases h), fun hr hgo => ?_, fun bs' hr hgo h0 => ?_⟩
        · simp only [Option.getD_some, List.length_append]
          omega
        · obtain ⟨rfl, rfl⟩ := List.append_eq_nil_iff.mp (Option.some.inj hr)
          by_contra hc
          exact hnil rfl (Nat.pos_of_ne_zero hc) (by simpa [hc] using hgo)
        · cases Option.some.inj hr
          have hgo : ¬count - bs.length = 0 := fun hx => by simp [hx] at hgo
          rw [List.length_append] at h0
          omega
  next hs =>
    exact ⟨hd, Nat.le_refl _, fun h => (by cases h), fun _ h => (by cases h), fun bs hr _ h0 => by cases hr; omega⟩

/-- What has been read of the input. It is all there still, has gone into the output or has been handed out. -/
structure Takes (eof : Bool) (h : Hdlc) (count : Nat) (acc bs : List Byte) (r : Option (List Byte) × Hdlc × List Byte) :
    Prop where
  decodes : Decodes r.2.1
  work : 9 * r.2.2.length + r.2.1.outData.data.length + (r.1.getD []).length ≤
    9 * bs.length + h.outData.data.length + acc.length
  length : r.2.2.length ≤ bs.length
  shorter : bs ≠ [] → r.2.2.length < bs.length
  none : r.1 = none → r.2.1.hdlcState = .stEof
  nil : r.1 = some [] → eof = true → count = 0

theorem getHdlcLoop_takes (eof : Bool) (hd : Decodes h) (count : Nat) (acc bs : List Byte) :
    Takes eof h count acc bs (getHdlcLoop eof h count acc bs) := by
  induction bs generalizing h count acc with
  | nil =>
    have hend : Decodes { h with outData := h.outData.putEof, inData := none, hdlcState := .stEof } :=
      ⟨hd.inDataType, hd.outDataType, by simp [DataStream.putEof]⟩
    have hh := drainHdlc_hands hend count acc
    have hgo : (drainHdlc { h with outData := h.outData.putEof, inData := none, hdlcState := .stEof } count acc).2.2 =
        false := by
      unfold drainHdlc
      rw [if_pos (.inl rfl)]
      split <;> simp
    cases eof with
    | true =>
      rw [getHdlcLoop, if_pos rfl]
      exact ⟨hh.decodes, by simpa [DataStream.putEof] using hh.length, Nat.le_refl _, fun h => absurd rfl h, hh.none,
        fun hr _ => hh.nil hr hgo⟩
    | false =>
      rw [getHdlcLoop, if_neg Bool.false_ne_true]
      exact ⟨hd, by simp, Nat.le_refl _, fun h => absurd rfl h, fun h => (by cases h), fun _ h => by cases h⟩
  | cons b rest ih =>
    obtain ⟨htake, hgrow⟩ := takeByte_decodes hd b
    have hh := drainHdlc_hands htake count acc
    rw [getHdlcLoop]
    split
    next acc' g hg =>
      rw [hg] at hh
      have ht : Takes eof g (count + acc.length - acc'.length) acc' rest
          (getHdlcLoop eof g (count + acc.length - acc'.length) acc' rest) := ih hh.decodes _ _
      have hl : g.outData.data.length + acc'.length ≤ (h.takeByte b).outData.data.length + acc.length := hh.length
      have hw := ht.work
      have hlen := ht.length
      refine ⟨ht.decodes, ?_, by simp only [List.length_cons]; omega, fun _ => by simp only [List.length_cons]; omega,
        ht.none, fun hr he => hh.more acc' rfl rfl (ht.nil hr he)⟩
      simp only [List.length_cons]
      omega
    next res g go hne hg =>
      rw [hg] at hh
      have hl : g.outData.data.length + (res.getD []).length ≤
          (h.takeByte b).outData.data.length + acc.length := hh.length
      have hstop : res = some [] → go = false := by
        rintro rfl
        cases go with
        | false => rfl
        | true => exact (hne [] rfl rfl).elim
      refine ⟨hh.decodes, ?_, by simp only [List.length_cons]; omega, fun _ => by simp only [List.length_cons]; omega,
        hh.none, fun hr _ => hh.nil hr (hstop hr)⟩
      simp only [List.length_cons]
      omega

variable {inp : DataStream}

/-- A read keeps the decoder in step with its output, be the input closed or not. -/
theorem getHdlcData_decodes (hd : Decodes h) (inp : DataStream) (n : Nat) :
    Decodes (h.getHdlcData inp n).2.1 ∧
      ((h.getHdlcData inp n).1 = none → 0 < n → (h.getHdlcData inp n).2.1.hdlcState = .stEof) := by
  unfold getHdlcData
  split
  next ht => cases hd.inDataType.symm.trans ht
  next =>
    split
    next hs =>
      cases hg : h.outData.getData n with
      | mk res out =>
        obtain ⟨hdec, -, hnone, -⟩ := hd.read hg
        cases res with
        | none => exact ⟨hdec h.fcs, fun _ _ => hnone rfl⟩
        | some bs => exact ⟨hdec _, fun h => by cases h⟩
    next hs =>
      split
      next h0 => split <;> exact ⟨hd, fun _ hn => absurd h0.1 (by omega)⟩
      next =>
        have ht := getHdlcLoop_takes inp.eof hd n [] inp.data
        exact ⟨ht.decodes, fun hr _ => ht.none hr⟩
  next _ hn => exact absurd hd.inDataType hn

/-- A read of a decoder that wants octets of closed input. -/
structure Reads (h : Hdlc) (inp : DataStream) (r : Option (List Byte) × Hdlc × DataStream) : Prop where
  decodes : Decodes r.2.1
  eof : r.2.2.eof = true
  ends : r.2.1.Ends r.2.2.data ↔ h.Ends inp.data
  work : 9 * r.2.2.data.length + r.2.1.outData.data.length + (r.1.getD []).length ≤
    9 * inp.data.length + h.outData.data.length
  length : r.2.2.data.length ≤ inp.data.length
  same : r.2.2.data.length = inp.data.length → r.2.2 = inp
  none : r.1 = none → r.2.1.hdlcState = .stEof
  nil : r.1 = some [] → ¬h.Ends inp.data

theorem getHdlcData_reads (hd : Decodes h) (he : inp.eof = true) (hn : 0 < n) : Reads h inp (h.getHdlcData inp n) := by
  unfold getHdlcData
  split
  next ht => cases hd.inDataType.symm.trans ht
  next =>
    split
    next hs =>
      cases hg : h.outData.getData n with
      | mk res out =>
        obtain ⟨hdec, hlen, hnone, hnil⟩ := hd.read hg
        have ends (f : Fcs) : ({ h with outData := out, fcs := f } : Hdlc).Ends inp.data ↔ h.Ends inp.data :=
          Ends.congr ⟨rfl, rfl, rfl, rfl⟩ rfl
        cases res with
        | none =>
          have hlen : out.data.length = h.outData.data.length := hlen
          exact ⟨hdec h.fcs, he, ends h.fcs, by simp [hlen], Nat.le_refl _, fun _ => rfl, fun _ => hnone rfl,
            fun h => (by cases h)⟩
        | some bs =>
          have hlen : out.data.length + bs.length = h.outData.data.length := hlen
          refine ⟨hdec _, he, ends _, by simp only [Option.getD_some]; omega, Nat.le_refl _, fun _ => rfl,
            fun h => (by cases h), fun hr hends => ?_⟩
          exact hs.elim hends.1 (hnil hr hn)
    next hs =>
      obtain ⟨hi, hstate⟩ := not_or.mp hs
      rw [if_neg (by omega)]
      dsimp only
      rw [he]
      have ht : Takes true h n [] inp.data (getHdlcLoop true h n [] inp.data) := getHdlcLoop_takes true hd n [] inp.data
      have hends := getHdlcLoop_ends hstate n [] inp.data
      refine ⟨ht.decodes, rfl, hends, ht.work, ht.length, fun hl => ?_, ht.none,
        fun hr => absurd (ht.nil hr rfl) (by omega)⟩
      have hnil : inp.data = [] := by
        by_contra hne
        exact absurd hl (Nat.ne_of_lt (ht.shorter hne))
      have hlen : inp.data.length = 0 := by rw [hnil]; rfl
      have hrest : (getHdlcLoop true h n [] inp.data).2.2 = inp.data :=
        (List.eq_nil_of_length_eq_zero (Nat.le_zero.mp (hlen ▸ ht.length))).trans hnil.symm
      dsimp only
      rw [hrest, ← he]
  next _ hn => exact absurd hd.inDataType hn

/-- Between two frames nothing is wanted, and the end is found where the gap ends. -/
theorem getHdlcLoop_gap (hd : Decodes h) (hs : h.hdlcState = .stSkipFlags) (ho : h.outData.data = [])
    (hc : h.hdlcChunkLen = 0) (bs : List Byte) : (getHdlcLoop true h 0 [] bs).1 = none ↔ h.gapEnds bs = true := by
  induction bs generalizing h with
  | nil =>
    obtain ⟨res, g, hg, hnone⟩ :=
      drainHdlc_zero (h := { h with outData := h.outData.putEof, inData := none, hdlcState := .stEof }) (.inl rfl)
    rw [getHdlcLoop, if_pos rfl]
    dsimp only
    rw [hg]
    simp [gapEnds, hnone, DataStream.putEof, ho]
  | cons b rest ih =>
    obtain ⟨g, hg⟩ : ∃ g, g = ({ h with lastChar := some b, rawCount := h.rawCount + 1 } : Hdlc) := ⟨_, rfl⟩
    have ha : Alike h g := by rw [hg]; exact ⟨rfl, rfl, rfl, rfl⟩
    rw [← ha.gapEnds, gapEnds, getHdlcLoop, takeByte_skip hs b, ← hg]
    have hd : Decodes g := by rw [hg]; exact ⟨hd.inDataType, hd.outDataType, hd.eof⟩
    have hs : g.hdlcState = .stSkipFlags := by rw [hg]; exact hs
    have ho : g.outData.data = [] := by rw [hg]; exact ho
    have hc : g.hdlcChunkLen = 0 := by rw [hg]; exact hc
    have hskip := skipFlag_stays g b
    generalize g.skipFlag b = r at hskip
    obtain ⟨ok, u⟩ := r
    obtain ⟨hst, hout, hchunk, hsame⟩ := hskip
    cases ok with
    | true =>
      have hu : u.hdlcState = .stSkipFlags := hst.hdlcState.trans hs
      dsimp only
      rw [drainHdlc, if_neg (by simp [hu])]
      refine ih ⟨hst.inDataType.trans hd.inDataType, hst.outDataType.trans hd.outDataType, ?_⟩ hu (hout ▸ ho)
        (hchunk.trans hc)
      rw [hout, hst.hdlcState]
      exact hd.eof
    | false =>
      obtain rfl : u = g := hsame rfl
      -- the frame begins here, and it may be over in this octet
      obtain ⟨v, hv⟩ : ∃ v, v = ({ u with hdlcState := .stData } : Hdlc) := ⟨_, rfl⟩
      have hgrow := unpack_grows v b
      have hstays : Stays v (v.unpack b).2 := unpackLoop_stays _ _ _ _
      have hfound : (u.unpack b).1 = (v.unpack b).1 := by rw [hv]; exact unpackLoop_found _ _ _ _ _
      dsimp only
      rw [hfound, ← hv, takeData]
      generalize v.unpack b = r at hgrow hstays
      obtain ⟨ok, w⟩ := r
      have hempty : w.outData.data = [] := (hgrow.short (by rw [hv]; dsimp only; omega)).trans (by rw [hv]; exact ho)
      have hopen : w.outData.eof = false := hgrow.eof.trans (by rw [hv]; exact hd.open (by simp [hs]))
      cases ok with
      | true =>
        obtain ⟨res, k, hk, hnone⟩ := drainHdlc_zero (h := w) (.inr (hstays.hdlcState.trans (by rw [hv])))
        dsimp only
        rw [hk]
        simp [hnone, hopen]
      | false =>
        obtain ⟨res, k, hk, hnone⟩ :=
          drainHdlc_zero (h := { w with outData := w.outData.putEof, hdlcState := .stEof }) (.inl rfl)
        dsimp only
        rw [hk]
        simp [hnone, hempty, DataStream.putEof]

/-- What is found between two frames, where nothing is wanted. -/
structure Gap (h : Hdlc) (inp : DataStream) (r : Option (List Byte) × Hdlc × DataStream) : Prop where
  decodes : Decodes r.2.1
  eof : r.2.2.eof = true
  ended : r.1 = none → h.Ends inp.data
  ends : r.1 ≠ none → (r.2.1.Ends r.2.2.data ↔ h.Ends inp.data)
  work : r.1 ≠ none → h.Ends inp.data →
    9 * r.2.2.data.length + r.2.1.outData.data.length ≤ 9 * inp.data.length ∧ r.2.2.data.length < inp.data.length

theorem getHdlcStart_gap (hd : Decodes h) (hs : h.hdlcState = .stEof) (he : inp.eof = true) :
    Gap h inp ((h.getHdlcStart false).getHdlcData inp 0) := by
  have hb := getHdlcStart_between hd.inDataType
  have hcloses := closes_eof hs hd.inDataType inp.data
  generalize h.getHdlcStart false = g at hb hcloses
  have hg : Decodes g := .of_open hb.inDataType hb.outDataType hb.out.2 (by simp [hb.state])
  unfold getHdlcData
  split
  next ht => cases hg.inDataType.symm.trans ht
  next =>
    split
    next hi =>
      have hnone : h.inData = none := by
        rcases hi with hi | hi
        · exact hb.inData.symm.trans hi
        · exact absurd (hb.state.symm.trans hi) fun h => by cases h
      have hnot : ¬h.Ends inp.data := fun hends => hends.1 hnone
      cases hget : g.outData.getData 0 with
      | mk res out =>
        obtain ⟨hdec, -, hend, -⟩ := hg.read hget
        cases res with
        | none => exact absurd (hb.state.symm.trans (hend rfl)) fun h => by cases h
        | some bs =>
          refine ⟨hdec _, he, fun h => (by cases h), fun _ => ?_, fun _ hends => absurd hends hnot⟩
          exact ⟨fun hends => absurd (hb.inData.trans hnone) hends.1, fun hends => absurd hends hnot⟩
    next hi =>
      rw [if_neg (by simp [hb.state])]
      dsimp only
      rw [he]
      have hi : g.inData ≠ none := (not_or.mp hi).1
      have ht : Takes true g 0 [] inp.data (getHdlcLoop true g 0 [] inp.data) := getHdlcLoop_takes true hg 0 [] inp.data
      have hends := getHdlcLoop_ends (h := g) (by simp [hb.state]) 0 [] inp.data
      have hgap := getHdlcLoop_gap hg hb.state hb.out.1 hb.chunk inp.data
      have hlen := ht.work
      rw [hb.out.1] at hlen
      generalize getHdlcLoop true g 0 [] inp.data = r at ht hends hgap hlen
      refine ⟨ht.decodes, rfl, fun hr => ?_, fun hr => hends.trans ?_, fun hr _ => ⟨?_, ht.shorter fun hnil => ?_⟩⟩
      · exact ⟨hb.inData ▸ hi, by rw [hcloses, hgap.mp hr, Bool.true_or]⟩
      · have hno : g.gapEnds inp.data = false := by simpa using fun hx => hr (hgap.mpr hx)
        rw [Ends, Ends, hb.inData, hcloses, hno, Bool.false_or]
      · simp only [List.length_nil, Nat.add_zero] at hlen
        exact Nat.le_trans (Nat.le_add_right _ _) hlen
      · exact hr (hgap.mpr (by rw [hnil]; rfl))
  next _ hn => exact absurd hg.inDataType hn

end Hdlc

end T38Modem
