import T38Modem.HdlcDecode

namespace T38Modem

open BitList BitStuffing

namespace Hdlc

/-- A decoder that has made nothing of the frame yet. -/
structure Fresh (h : Hdlc) : Prop where
  out : h.outData.data = []
  chunk : h.hdlcChunkLen = 0
  ones : h.rawOnes = 0

/-- Where a decoder is in reading the frame of the bits `x`, when `ahead` are the bits it has not
made anything of and `next` those of them behind the flag that closes the frame. -/
inductive Phase (x next ahead : List Bool) (h : Hdlc) (handed : List Byte) : Prop
  | hunting (state : h.hdlcState = .stSync) (fresh : h.Fresh) (none : handed = [])
      (bits : ∃ n, ahead = flags (n + 1) ++ (stuff 0 x ++ flag ++ next))
  | skipping (state : h.hdlcState = .stSkipFlags) (fresh : h.Fresh) (none : handed = [])
      (bits : ∃ n, ahead = flags n ++ (stuff 0 x ++ flag ++ next))
  | inside (state : h.hdlcState = .stData)
      (bits : scan h.rawOnes (octetBits handed ++ h.decodedBits) ahead = .found x next)
  | closed (state : h.hdlcState = .stEof) (frame : octetBits handed ++ h.decodedBits = x)
      (bits : ahead = next)

/-- A decoder on its way through the frame of the bits `x`, of which the octets `handed` have been
handed out. The bits `later` are still to come. -/
structure Reading (x next : List Bool) (h : Hdlc) (handed : List Byte) (later : List Bool) : Prop where
  inType : h.inDataType = .dtRaw
  outType : h.outDataType = .dtHdlc
  attached : h.inData ≠ none
  len : h.rawByteLen < 8
  chunk : h.hdlcChunkLen < 24
  held : handed ++ h.outData.data ≠ [] → 16 ≤ h.hdlcChunkLen
  eof : h.outData.eof = true ↔ h.hdlcState = .stEof
  fcs : h.fcs = Fcs.build {} handed
  phase : Phase x next (h.pendingBits ++ later) h handed

variable {x next later : List Bool} {h : Hdlc} {handed : List Byte}

/-- What the decoder reads does not depend on the last octet and on the count of octets. -/
theorem Reading.count (hr : Reading x next h handed later) (c : Option Byte) (n : Nat) :
    Reading x next { h with lastChar := c, rawCount := n } handed later := by
  refine ⟨hr.inType, hr.outType, hr.attached, hr.len, hr.chunk, hr.held, hr.eof, hr.fcs, ?_⟩
  rcases hr.phase with ⟨hs, hf, hn, hb⟩ | ⟨hs, hf, hn, hb⟩ | ⟨hs, hb⟩ | ⟨hs, hx, hb⟩
  · exact .hunting hs ⟨hf.out, hf.chunk, hf.ones⟩ hn hb
  · exact .skipping hs ⟨hf.out, hf.chunk, hf.ones⟩ hn hb
  · exact .inside hs hb
  · exact .closed hs hx hb

theorem unpackFrame_same {g : Hdlc} (e : g.unpackFrame = h.unpackFrame) :
    g.inDataType = h.inDataType ∧ g.outDataType = h.outDataType ∧ g.inData = h.inData ∧
      g.hdlcState = h.hdlcState ∧ g.fcs = h.fcs :=
  ⟨show g.unpackFrame.inDataType = h.unpackFrame.inDataType by rw [e],
    show g.unpackFrame.outDataType = h.unpackFrame.outDataType by rw [e],
    show g.unpackFrame.inData = h.unpackFrame.inData by rw [e],
    show g.unpackFrame.hdlcState = h.unpackFrame.hdlcState by rw [e],
    show g.unpackFrame.fcs = h.unpackFrame.fcs by rw [e]⟩

theorem takeData_reading (hi : h.inDataType = .dtRaw) (ho : h.outDataType = .dtHdlc)
    (ha : h.inData ≠ none) (hl : h.rawByteLen < 8) (hc : h.hdlcChunkLen < 24)
    (hh : handed ++ h.outData.data ≠ [] → 16 ≤ h.hdlcChunkLen) (he : h.outData.eof = false)
    (hf : h.fcs = Fcs.build {} handed) (hs : h.hdlcState = .stData) {b : Byte}
    (hb : scan h.rawOnes (octetBits handed ++ h.decodedBits) (h.knownBits b ++ later) = .found x next) :
    Reading x next (h.takeData b) handed later := by
  rw [scan_append, scan_prepend] at hb
  obtain ⟨g, hu, hgl, hg⟩ := unpack_scan hl he hc b
  obtain ⟨hi', ho', ha', hs', hf'⟩ := unpackFrame_same hu.frame
  have held : handed ++ g.outData.data ≠ [] → 16 ≤ g.hdlcChunkLen := fun hne => by
    rcases hu.held with ⟨hd, hle⟩ | hle
    · rw [hd] at hne
      exact (hh hne).trans hle
    · exact hle
  unfold takeData
  rcases hg with ⟨hg, hscan⟩ | ⟨hg, hscan⟩
  · rw [hscan] at hb
    rw [hg]
    exact ⟨hi'.trans hi, ho'.trans ho, ha' ▸ ha, hgl, hu.chunk, held, by simp [hu.eof, hs', hs], hf'.trans hf,
      .inside (hs'.trans hs) hb⟩
  · rw [hscan] at hb
    rw [hg]
    simp only [Scan.prepend, Scan.resume, Scan.found.injEq] at hb
    exact ⟨hi'.trans hi, ho'.trans ho, ha' ▸ ha, hgl, hu.chunk, held, by simp [DataStream.putEof],
      hf'.trans hf, .closed rfl hb.1 hb.2⟩

theorem knownBits_length (h : Hdlc) (b : Byte) : 8 ≤ (h.knownBits b).length := by
  simp [knownBits]

theorem split_flag {known ys : List Bool} (hk : 8 ≤ known.length) (h : known ++ later = flag ++ ys) :
    known.take 8 = flag ∧ known.drop 8 ++ later = ys := by
  have ht := congrArg (List.take 8) h
  have hd := congrArg (List.drop 8) h
  rw [List.take_append_of_le_length hk] at ht
  rw [List.drop_append_of_le_length hk] at hd
  exact ⟨by simpa [flag] using ht, by simpa [flag] using hd⟩

theorem syncFrame_same {g : Hdlc} (e : g.syncFrame = h.syncFrame) :
    g.inDataType = h.inDataType ∧ g.outDataType = h.outDataType ∧ g.inData = h.inData ∧
      g.hdlcState = h.hdlcState ∧ g.fcs = h.fcs ∧ g.outData = h.outData ∧
      g.hdlcChunkLen = h.hdlcChunkLen ∧ g.rawOnes = h.rawOnes :=
  ⟨show g.syncFrame.inDataType = h.syncFrame.inDataType by rw [e],
    show g.syncFrame.outDataType = h.syncFrame.outDataType by rw [e],
    show g.syncFrame.inData = h.syncFrame.inData by rw [e],
    show g.syncFrame.hdlcState = h.syncFrame.hdlcState by rw [e],
    show g.syncFrame.fcs = h.syncFrame.fcs by rw [e],
    show g.syncFrame.outData = h.syncFrame.outData by rw [e],
    show g.syncFrame.hdlcChunkLen = h.syncFrame.hdlcChunkLen by rw [e],
    show g.syncFrame.rawOnes = h.syncFrame.rawOnes by rw [e]⟩

theorem Fresh.frame {g : Hdlc} (hf : h.Fresh) (e : g.syncFrame = h.syncFrame) : g.Fresh := by
  obtain ⟨-, -, -, -, -, ho, hc, h1⟩ := syncFrame_same e
  exact ⟨ho ▸ hf.out, hc.trans hf.chunk, h1.trans hf.ones⟩

theorem Fresh.decoded (hf : h.Fresh) : h.decodedBits = [] := by
  simp [decodedBits, hf.out, hf.chunk, lowBits]

/-- An octet more brings the decoder on its way, wherever in the frame it is. -/
theorem Reading.takeByte {b : Byte} (hr : Reading x next h handed (lowBits b 8 ++ later)) (hx : x ≠ [])
    (hs : h.hdlcState ≠ .stEof) : Reading x next (h.takeByte b) handed later := by
  replace hr := hr.count (some b) (h.rawCount + 1)
  unfold Hdlc.takeByte
  generalize hg : ({ h with lastChar := some b, rawCount := h.rawCount + 1 } : Hdlc) = g at hr
  have hgs : g.hdlcState ≠ .stEof := by rw [← hg]; exact hs
  obtain ⟨hi, ho, ha, hl, hc, hh, he, hf, hp⟩ := hr
  have open' : g.outData.eof = false := by simpa [hgs] using he
  rw [show g.pendingBits ++ (lowBits b 8 ++ later) = g.knownBits b ++ later from
    (List.append_assoc _ _ _).symm] at hp
  rcases hp with ⟨hst, fresh, hnone, n, hb⟩ | ⟨hst, fresh, hnone, n, hb⟩ | ⟨hst, hb⟩ | ⟨hst, -, -⟩
  · obtain ⟨k, hk, hkl, hsync⟩ := sync_scan hl b
    obtain ⟨hi', ho', ha', hst', hf', hout, hcl, -⟩ := syncFrame_same hk
    rw [flags_succ_append] at hb
    obtain ⟨htake, hdrop⟩ := split_flag (g.knownBits_length b) hb
    have hfound : scan 0 [] (g.knownBits b) = .found [] ((g.knownBits b).drop 8) := by
      conv_lhs => rw [← List.take_append_drop 8 (g.knownBits b), htake]
      exact scan_flag 0 [] _
    simp only [hst]
    rcases hsync with ⟨-, hscan⟩ | ⟨hsync, hscan⟩
    · obtain ⟨o, acc, hm⟩ := hscan 0 []
      rw [hm] at hfound
      cases hfound
    · obtain ⟨acc, hm⟩ := hscan 0 []
      rw [hm] at hfound
      simp only [Scan.found.injEq] at hfound
      have fk := fresh.frame hk
      rw [hsync]
      refine ⟨hi'.trans hi, ho'.trans ho, ha' ▸ ha, hkl, hcl ▸ hc, by simpa [hout, hcl] using hh, ?_, hf'.trans hf,
        .skipping rfl ⟨fk.out, fk.chunk, fk.ones⟩ hnone ⟨n, ?_⟩⟩
      · simp [hout, open']
      · rw [← hdrop, ← hfound.2]
        rfl
  · obtain ⟨k, hk, hkl, hskip⟩ := skipFlag_bits hl b
    obtain ⟨hi', ho', ha', hst', hf', hout, hcl, -⟩ := syncFrame_same hk
    simp only [hst]
    rcases hskip with ⟨hskip, hno⟩ | ⟨hskip, htake, hdrop⟩
    · -- no flag begins here, so the frame does
      obtain rfl : n = 0 := by
        by_contra hn
        obtain ⟨m, rfl⟩ := Nat.exists_eq_succ_of_ne_zero hn
        rw [Nat.succ_eq_add_one, flags_succ_append] at hb
        exact hno (split_flag (g.knownBits_length b) hb).1
      rw [hskip]
      refine takeData_reading (h := { g with hdlcState := .stData }) hi ho ha hl hc hh open' hf rfl ?_
      have hread : scan 0 [] (g.knownBits b ++ later) = .found x next := by
        rw [hb, flags_zero, List.nil_append, scan_stuff (by omega)]
        rfl
      have hdec : octetBits handed ++ decodedBits { g with hdlcState := .stData } = [] := by
        rw [hnone]
        exact fresh.decoded
      rw [hdec]
      dsimp only
      rw [fresh.ones]
      exact hread
    · obtain ⟨m, rfl⟩ : ∃ m, n = m + 1 := by
        refine Nat.exists_eq_succ_of_ne_zero fun hn => ?_
        subst hn
        have hne := stuff_take_ne_flag 0 hx next
        rw [flags_zero, List.nil_append] at hb
        rw [← hb, List.take_append_of_le_length (g.knownBits_length b)] at hne
        exact hne htake
      rw [flags_succ_append] at hb
      rw [hskip]
      refine ⟨hi'.trans hi, ho'.trans ho, ha' ▸ ha, hkl, hcl ▸ hc, by simpa [hout, hcl] using hh, ?_, hf'.trans hf,
        .skipping (hst'.trans hst) (fresh.frame hk) hnone ⟨m, ?_⟩⟩
      · simp [hout, open', hst', hst]
      · rw [hdrop]
        exact (split_flag (g.knownBits_length b) hb).2
  · simp only [hst]
    exact takeData_reading hi ho ha hl hc hh open' hf hst hb
  · exact absurd hst hgs

end Hdlc

end T38Modem
