import T38Modem.HdlcReading

namespace T38Modem

open BitList BitStuffing

namespace Hdlc

variable {x next later : List Bool} {h : Hdlc} {handed : List Byte}

theorem Reading.drain (hr : Reading x next h handed later)
    (hs : h.hdlcState = .stEof ∨ h.hdlcState = .stData) (count : Nat) :
    let r := h.outData.getData count
    Reading x next { h with outData := r.2, fcs := h.fcs.build (r.1.getD []) } (handed ++ r.1.getD []) later := by
  intro r
  have hsame := h.outData.getData_same count
  have hsplit : r.1.getD [] ++ r.2.data = h.outData.data := by
    cases hd : r.1 with
    | none =>
      rw [show r.2 = h.outData from DataStream.getData_none_state hd]
      rfl
    | some bs => exact (DataStream.getData_some hd).1
  refine ⟨hr.inType, hr.outType, hr.attached, hr.len, hr.chunk, fun hne => hr.held ?_, ?_, ?_, ?_⟩
  · rw [← hsplit]
    simpa using hne
  · rw [show r.2.eof = h.outData.eof from hsame.1]
    exact hr.eof
  · rw [Fcs.build_append, hr.fcs]
  · have hbits : octetBits (handed ++ r.1.getD []) ++
        decodedBits { h with outData := r.2, fcs := h.fcs.build (r.1.getD []) } =
          octetBits handed ++ h.decodedBits := by
      simp only [decodedBits, ← hsplit, octetBits_append, List.append_assoc]
    rcases hr.phase with ⟨hst, -, -, -⟩ | ⟨hst, -, -, -⟩ | ⟨hst, hb⟩ | ⟨hst, hf, hb⟩
    · rcases hs with hs | hs <;> cases hst.symm.trans hs
    · rcases hs with hs | hs <;> cases hst.symm.trans hs
    · exact .inside hst (by rw [hbits]; exact hb)
    · exact .closed hst (by rw [hbits]; exact hf) hb

/-- The result of a read that put `acc` in the caller's buffer: -1 at the end of the frame. -/
def hdlcResult (acc : List Byte) (h : Hdlc) : Option (List Byte) :=
  if acc = [] ∧ h.hdlcState = .stEof ∧ h.outData.data = [] then none else some acc

theorem Reading.out_open (hr : Reading x next h handed later) (hs : h.hdlcState ≠ .stEof) :
    h.outData.eof = false := by
  simpa [hs] using hr.eof

/-- What a read that hands octets out of the decoder answers. -/
theorem Reading.handOut (hr : Reading x next h handed later) (count : Nat) (acc : List Byte) :
    let r := h.outData.getData count
    (if acc = [] then r.1 else some (acc ++ r.1.getD [])) =
      hdlcResult (acc ++ r.1.getD []) { h with outData := r.2, fcs := h.fcs.build (r.1.getD []) } := by
  intro r
  cases hd : r.1 with
  | none =>
    have hst : r.2 = h.outData := DataStream.getData_none_state hd
    obtain ⟨hde, hf⟩ := DataStream.getData_none.mp hd
    have hs' := hr.eof.mp hf
    simp only [hdlcResult, Option.getD_none, List.append_nil, hs', hst, hde, and_self, and_true]
  | some bs =>
    have hnot : ¬(acc ++ bs = [] ∧ h.hdlcState = .stEof ∧ r.2.data = []) := by
      rintro ⟨hnil, hs', hout⟩
      have hsplit := (DataStream.getData_some hd).1
      rw [(List.append_eq_nil_iff.mp hnil).2, show (h.outData.getData count).2.data = [] from hout] at hsplit
      have hnone : r.1 = none := DataStream.getData_none.mpr ⟨hsplit.symm, hr.eof.mpr hs'⟩
      rw [hd] at hnone
      cases hnone
    simp only [hdlcResult, Option.getD_some, if_neg hnot]
    split
    next ha => rw [ha, List.nil_append]
    next => rfl

/-- A round of the loop hands out octets, and it goes on only inside a frame. -/
theorem Reading.drainHdlc (hr : Reading x next h handed later) (count : Nat) (acc : List Byte) :
    ∃ new g go, h.drainHdlc count acc = (hdlcResult (acc ++ new) g, g, go) ∧
      Reading x next g (handed ++ new) later ∧ new.length ≤ count ∧
      (go = true → g.hdlcState ≠ .stEof ∧ (0 < count → 0 < count - new.length)) ∧
      (go = false → 0 < count → acc ++ new = [] → g.hdlcState = .stEof ∧ g.outData.data = []) := by
  unfold Hdlc.drainHdlc
  by_cases hs : h.hdlcState = .stEof ∨ h.hdlcState = .stData
  · rw [if_pos hs]
    have hdrain := hr.drain hs count
    have hout := hr.handOut count acc
    cases hd : h.outData.getData count with
    | mk r out =>
      rw [hd] at hdrain hout
      cases r with
      | none =>
        obtain ⟨hde, hf⟩ := DataStream.getData_none.mp (congrArg Prod.fst hd)
        have hst : out = h.outData := by
          simpa [hd] using DataStream.getData_none_state (congrArg Prod.fst hd)
        refine ⟨[], _, false, ?_, hdrain, by simp, by simp, fun _ _ _ => ⟨hr.eof.mp hf, by rw [hst]; exact hde⟩⟩
        simp only [Option.getD_none, List.append_nil] at hout ⊢
        rw [← hout]
        rfl
      | some bs =>
        have hbs := (DataStream.getData_some (congrArg Prod.fst hd)).2
        refine ⟨bs, _, !(count - bs.length = 0 || h.hdlcState = .stEof), ?_, hdrain, hbs, fun hgo => ?_,
          fun hgo hc hnil => ?_⟩
        · simp only [Option.getD_some] at hout ⊢
          rw [← hout]
          split
          next ha => simp [ha]
          next => rfl
        · simp only [Bool.not_eq_true', Bool.or_eq_false_iff, decide_eq_false_iff_not] at hgo
          exact ⟨hgo.2, fun _ => by omega⟩
        · have hb0 : bs = [] := (List.append_eq_nil_iff.mp hnil).2
          simp only [hb0, List.length_nil, Nat.sub_zero, Bool.not_eq_false', Bool.or_eq_true,
            decide_eq_true_eq] at hgo
          have hst : h.hdlcState = .stEof := by
            rcases hgo with h0 | hst
            · omega
            · exact hst
          have hshort := DataStream.getData_short (congrArg Prod.fst hd) (by rw [hb0]; exact hc)
          rw [hd] at hshort
          exact ⟨hst, hshort⟩
  · rw [if_neg hs]
    refine ⟨[], h, true, ?_, by simpa using hr, by simp, fun _ => ⟨fun he => hs (.inl he), id⟩,
      fun hf => by cases hf⟩
    have hne : ¬(acc = [] ∧ h.hdlcState = .stEof ∧ h.outData.data = []) := fun hh => hs (.inl hh.2.1)
    simp [hdlcResult, hne]

/-- The flag behind the frame keeps the decoder from running out of octets inside the frame. -/
theorem Reading.needs_more (hr : Reading x next h handed later) (hs : h.hdlcState ≠ .stEof)
    (hn : flag <+: next) : 8 ≤ later.length := by
  have hlen := hr.len
  have hp : (h.pendingBits ++ later).length = h.rawByteLen + later.length := by simp [pendingBits]
  have hnext : 8 ≤ next.length := hn.length_le
  have hflag : flag.length = 8 := rfl
  rcases hr.phase with ⟨-, -, -, n, hb⟩ | ⟨-, -, -, n, hb⟩ | ⟨-, hb⟩ | ⟨hst, -, -⟩
  · rw [hb] at hp
    simp only [List.length_append, hflag] at hp
    omega
  · rw [hb] at hp
    simp only [List.length_append, hflag] at hp
    omega
  · have := scan_found_length hb
    omega
  · exact absurd hst hs

/-- The bits that are still to come: the octets in the input, and those that are put there later. -/
theorem getHdlcLoop_reading {bs : List Byte} {eof : Bool} (count : Nat) (acc : List Byte)
    (hr : Reading x next h handed (octetBits bs ++ later)) (hx : x ≠ []) (hs : h.hdlcState ≠ .stEof)
    (hn : flag <+: next) (hl : eof = true → later.length < 8) :
    ∃ new g rest, h.getHdlcLoop eof count acc bs = (hdlcResult (acc ++ new) g, g, rest) ∧
      Reading x next g (handed ++ new) (octetBits rest ++ later) ∧ (∃ used, bs = used ++ rest) ∧
      (0 < count → acc ++ new = [] →
        (g.hdlcState = .stEof ∧ g.outData.data = []) ∨ (eof = false ∧ rest = [])) := by
  induction bs generalizing h handed count acc with
  | nil =>
    have hf : eof = false := by
      by_contra hf
      have := hr.needs_more hs hn
      have := hl (by simpa using hf)
      simp at *
      omega
    refine ⟨[], h, [], ?_, by simpa using hr, ⟨[], rfl⟩, fun _ _ => .inr ⟨hf, rfl⟩⟩
    simp [getHdlcLoop, hf, hdlcResult, hs]
  | cons b rest ih =>
    rw [octetBits_cons, List.append_assoc] at hr
    obtain ⟨new, g, go, hd, hg, hle, hgo, hend⟩ := (hr.takeByte hx hs).drainHdlc count acc
    rw [getHdlcLoop, hd]
    cases go with
    | false =>
      refine ⟨new, g, rest, ?_, hg, ⟨[b], rfl⟩, fun hc hnil => .inl (hend rfl hc hnil)⟩
      cases hdlcResult (acc ++ new) g <;> rfl
    | true =>
      obtain ⟨hgs, hc⟩ := hgo rfl
      have hres : hdlcResult (acc ++ new) g = some (acc ++ new) := by simp [hdlcResult, hgs]
      obtain ⟨ys, k, rest', hk, hkr, ⟨used, hu⟩, hke⟩ := ih _ _ hg hgs
      refine ⟨new ++ ys, k, rest', ?_, ?_, ⟨b :: used, by simp [hu]⟩, fun h0 hnil => ?_⟩
      · rw [hres]
        dsimp only
        rw [List.length_append, show count + acc.length - (acc.length + new.length) = count - new.length by omega,
          hk, List.append_assoc]
      · rw [← List.append_assoc]
        exact hkr
      · exact hke (hc h0) (by rw [List.append_assoc]; exact hnil)

/-- A read from the decoder takes octets of the frame and answers -1 at its end. -/
theorem getHdlcData_reading {inp : DataStream} (count : Nat)
    (hr : Reading x next h handed (octetBits inp.data ++ later)) (hx : x ≠ []) (hn : flag <+: next)
    (hl : inp.eof = true → later.length < 8) :
    ∃ new g rest, h.getHdlcData inp count = (hdlcResult new g, g, { inp with data := rest }) ∧
      Reading x next g (handed ++ new) (octetBits rest ++ later) ∧ (∃ used, inp.data = used ++ rest) ∧
      (0 < count → new = [] →
        (g.hdlcState = .stEof ∧ g.outData.data = []) ∨ (inp.eof = false ∧ rest = [])) := by
  have ht := hr.inType
  unfold getHdlcData
  split
  case h_1 hi => cases hi.symm.trans ht
  case h_3 hi => exact absurd ht hi
  split
  next hh =>
    have hs : h.hdlcState = .stEof := hh.resolve_left hr.attached
    have hdrain := hr.drain (.inl hs) count
    have hout := hr.handOut count []
    cases hd : h.outData.getData count with
    | mk r out =>
      rw [hd] at hdrain hout
      cases r with
      | none =>
        obtain ⟨hde, -⟩ := DataStream.getData_none.mp (congrArg Prod.fst hd)
        have hst : out = h.outData := by
          simpa [hd] using DataStream.getData_none_state (congrArg Prod.fst hd)
        refine ⟨[], _, inp.data, ?_, hdrain, ⟨[], rfl⟩, fun _ _ => .inl ⟨hs, by rw [hst]; exact hde⟩⟩
        exact congrArg (·, _, inp) hout
      | some bs =>
        have hshort := DataStream.getData_short (congrArg Prod.fst hd)
        rw [hd] at hshort
        refine ⟨bs, _, inp.data, ?_, hdrain, ⟨[], rfl⟩, fun hc hb => .inl ⟨hs, hshort (by simpa [hb] using hc)⟩⟩
        exact congrArg (·, _, inp) hout
  next hh =>
    have hs : h.hdlcState ≠ .stEof := fun hs => hh (.inr hs)
    split
    next h0 =>
      have hopen := hr.out_open hs
      have hout : (h.outData.getData 0).1 ≠ none := fun hnone => by
        simp [(DataStream.getData_none.mp hnone).2] at hopen
      have hinp : (inp.getData 0).1 ≠ none := fun hnone => by
        obtain ⟨hd, he⟩ := DataStream.getData_none.mp hnone
        have := hr.needs_more hs hn
        have := hl he
        simp [hd] at *
        omega
      rw [if_neg (by simp [hout, hinp])]
      refine ⟨[], h, inp.data, ?_, by simpa using hr, ⟨[], rfl⟩, fun hc => by omega⟩
      simp [hdlcResult, hs]
    next =>
      obtain ⟨new, g, rest, hg, hgr, hu, he⟩ := getHdlcLoop_reading count [] hr hx hs hn hl
      refine ⟨new, g, rest, ?_, hgr, hu, he⟩
      rw [hg]
      rfl

/-- At the end of a frame all octets but the last two have been handed out, and these are held. -/
theorem Reading.complete {f tail : List Byte} (hr : Reading (octetBits (f ++ tail)) next h handed later)
    (hf : f ≠ []) (ht : tail.length = 2) (hs : h.hdlcState = .stEof) (hd : h.outData.data = []) :
    handed = f ∧ h.hdlcChunkLen = 16 ∧ lowBits h.hdlcChunk 16 = octetBits tail ∧
      h.pendingBits ++ later = next := by
  have hc := hr.chunk
  have hh := hr.held
  rcases hr.phase with ⟨hst, -, -, -⟩ | ⟨hst, -, -, -⟩ | ⟨hst, -⟩ | ⟨-, hx, hb⟩
  · cases hs.symm.trans hst
  · cases hs.symm.trans hst
  · cases hs.symm.trans hst
  · simp only [decodedBits, hd, octetBits_nil, List.nil_append] at hx
    have hlen := congrArg List.length hx
    have hpos := List.length_pos_iff.mpr hf
    simp only [List.length_append, length_octetBits, length_lowBits, ht] at hlen
    have h16 : 16 ≤ h.hdlcChunkLen := by
      refine hh fun hnil => ?_
      rw [hd, List.append_nil] at hnil
      rw [hnil, List.length_nil] at hlen
      omega
    have hclen : h.hdlcChunkLen = 16 := by omega
    rw [octetBits_append, hclen] at hx
    obtain ⟨hf', ht'⟩ := List.append_inj hx (by simp; omega)
    exact ⟨octetBits_inj hf', hclen, ht', hb⟩

theorem isFcsOK_iff (hl : h.hdlcChunkLen = 16) :
    h.isFcsOK = true ↔ lowBits h.hdlcChunk 16 = lowBits h.fcs.toWord 16 := by
  have hlow : lowBits (h.hdlcChunk.setWidth 16) 16 = lowBits h.hdlcChunk 16 :=
    lowBits_congr fun i hi => by
      rw [BitVec.getLsbD_setWidth]
      simp [hi]
  simp only [isFcsOK, hl, decide_true, Bool.true_and, beq_iff_eq]
  constructor
  · intro he
    rw [← hlow, he]
  · intro he
    rw [← hlow] at he
    exact eq_of_lowBits he

/-- The closing octets are those of the frame check sequence unless the frame is marked bad. -/
theorem endOctets_fcs (f : Fcs) (diag : Diag) :
    octetBits (endOctets f diag) = lowBits f.toWord 16 ↔ diag &&& diagErrorMask = 0 := by
  have hi : lowBits ((f.toWord >>> 8).setWidth 8 : Byte) 8 = lowBits (f.toWord >>> 8) 8 :=
    lowBits_congr fun i hi => by
      rw [BitVec.getLsbD_setWidth]
      simp [hi]
  have lo : lowBits ((f.toWord &&& 0xFF).setWidth 8 : Byte) 8 = lowBits f.toWord 8 :=
    lowBits_congr fun i hi => by
      rw [BitVec.getLsbD_setWidth, BitVec.getLsbD_and]
      interval_cases i <;> simp
  have hsplit : lowBits f.toWord 16 = lowBits (f.toWord >>> 8) 8 ++ lowBits f.toWord 8 :=
    lowBits_add f.toWord 8 8
  unfold endOctets
  rw [hsplit, ← hi]
  split
  next hd =>
    refine iff_of_false (fun he => ?_) hd
    simp only [octetBits_cons, octetBits_nil, List.append_nil, lo] at he
    have hb := eq_of_lowBits (List.append_inj_left he (by simp))
    exact absurd (BitVec.add_right_eq_self.mp hb) (by decide)
  next hd =>
    refine iff_of_true ?_ (by simpa using hd)
    simp only [octetBits_cons, octetBits_nil, List.append_nil, lo]

/-- A new decoder looks for the first flag. -/
theorem getHdlcStart_sync (junk : Hdlc) (p : BufId) :
    ((Hdlc.new junk).putRawData p).getHdlcStart true =
      { Hdlc.new junk with
        inDataType := .dtRaw, outDataType := .dtHdlc, inData := some p, hdlcChunkLen := 0, hdlcState := .stSync } :=
  rfl

theorem Reading.first_frame (junk : Hdlc) (p : BufId) {n : Nat}
    (hb : later = flags (n + 1) ++ (stuff 0 x ++ flag ++ next)) :
    Reading x next (((Hdlc.new junk).putRawData p).getHdlcStart true) [] later := by
  rw [getHdlcStart_sync]
  exact ⟨rfl, rfl, by simp, by simp [new], by simp, by simp [new], by simp [new], rfl,
    .hunting rfl ⟨rfl, rfl, rfl⟩ rfl ⟨n, by simpa [pendingBits, new, lowBits] using hb⟩⟩

/-- The next frame is looked for behind the flag that closed the last one. -/
theorem Reading.next_frame {x' next' : List Bool} (hr : Reading x next h handed later)
    (hb : ∃ n, h.pendingBits ++ later = flags n ++ (stuff 0 x' ++ flag ++ next')) :
    Reading x' next' (h.getHdlcStart false) [] later := by
  unfold getHdlcStart
  rw [if_pos (by exact hr.inType)]
  exact ⟨hr.inType, rfl, hr.attached, hr.len, by simp, by simp [DataStream.clean],
    by simp [DataStream.clean], rfl, .skipping rfl ⟨rfl, rfl, rfl⟩ rfl hb⟩

/-- What has been handed out is a beginning of the frame. -/
theorem Reading.handed_prefix (hr : Reading x next h handed later) : octetBits handed <+: x := by
  rcases hr.phase with ⟨-, -, hn, -⟩ | ⟨-, -, hn, -⟩ | ⟨-, hb⟩ | ⟨-, hx, -⟩
  · simp [hn]
  · simp [hn]
  · rw [scan_prepend] at hb
    generalize scan h.rawOnes h.decodedBits (h.pendingBits ++ later) = r at hb
    cases r with
    | more => cases hb
    | found acc rest =>
      simp only [Scan.prepend, Scan.found.injEq] at hb
      exact ⟨acc, hb.1⟩
  · exact ⟨_, hx⟩

/-- A decoder behind the last frame: of the flag after it nothing makes a frame. -/
structure Trailing (h : Hdlc) (later : List Bool) : Prop where
  inType : h.inDataType = .dtRaw
  outType : h.outDataType = .dtHdlc
  attached : h.inData ≠ none
  len : h.rawByteLen < 8
  fresh : h.Fresh
  eof : h.outData.eof = false
  bits : (h.hdlcState = .stSkipFlags ∧ h.pendingBits ++ later <+: flag) ∨
    (h.hdlcState = .stSync ∧ h.pendingBits ++ later = [])

theorem Trailing.no_frame (junk : Hdlc) (p : BufId) :
    Trailing (((Hdlc.new junk).putRawData p).getHdlcStart true) [] := by
  rw [getHdlcStart_sync]
  exact ⟨rfl, rfl, by simp, by simp [new], ⟨rfl, rfl, rfl⟩, rfl, .inr ⟨rfl, by simp [pendingBits, new, lowBits]⟩⟩

/-- Behind the last frame there is only the flag that follows it, or a part of it. -/
theorem Reading.last_frame (hr : Reading x next h handed later) (hb : h.pendingBits ++ later <+: flag) :
    Trailing (h.getHdlcStart false) later := by
  unfold getHdlcStart
  rw [if_pos (by exact hr.inType)]
  exact ⟨hr.inType, rfl, hr.attached, hr.len, ⟨rfl, rfl, rfl⟩, rfl, .inl ⟨rfl, hb⟩⟩

theorem Trailing.count (ht : Trailing h later) (c : Option Byte) (n : Nat) :
    Trailing { h with lastChar := c, rawCount := n } later :=
  ⟨ht.inType, ht.outType, ht.attached, ht.len, ⟨ht.fresh.out, ht.fresh.chunk, ht.fresh.ones⟩, ht.eof, ht.bits⟩

theorem Trailing.takeByte {b : Byte} (ht : Trailing h (lowBits b 8 ++ later)) :
    Trailing (h.takeByte b) later := by
  replace ht := ht.count (some b) (h.rawCount + 1)
  unfold Hdlc.takeByte
  generalize ({ h with lastChar := some b, rawCount := h.rawCount + 1 } : Hdlc) = k at ht
  obtain ⟨hi, ho, ha, hl, hf, he, ⟨hs, hb⟩ | ⟨-, hb⟩⟩ := ht
  · rw [show k.pendingBits ++ (lowBits b 8 ++ later) = k.knownBits b ++ later from
      (List.append_assoc _ _ _).symm] at hb
    have hlen := k.knownBits_length b
    have heq : k.knownBits b ++ later = flag ++ [] := by
      rw [List.append_nil]
      exact hb.eq_of_length_le (by simp [flag]; omega)
    obtain ⟨htake, hdrop⟩ := split_flag hlen heq
    obtain ⟨g, hg, hgl, hskip⟩ := skipFlag_bits hl b
    obtain ⟨hi', ho', ha', hs', -, hout, hc, h1⟩ := syncFrame_same hg
    simp only [hs]
    rcases hskip with ⟨-, hno⟩ | ⟨hskip, -, hbits⟩
    · exact absurd htake hno
    · rw [hskip]
      refine ⟨hi'.trans hi, ho'.trans ho, ha' ▸ ha, hgl, hf.frame hg, by rw [hout]; exact he,
        .inl ⟨hs'.trans hs, ?_⟩⟩
      rw [hbits, hdrop]
      exact List.nil_prefix
  · simp [lowBits] at hb

theorem getHdlcLoop_trailing {bs : List Byte} (eof : Bool) (count : Nat)
    (ht : Trailing h (octetBits bs ++ later)) :
    (∃ g, h.getHdlcLoop eof count [] bs = (some [], g, []) ∧ Trailing g later ∧ eof = false) ∨
      (∃ g, h.getHdlcLoop eof count [] bs = (none, g, []) ∧ eof = true ∧ g.inDataType = .dtRaw ∧
        g.outDataType = .dtHdlc ∧ g.inData = none ∧ g.isFcsOK = false) := by
  induction bs generalizing h count with
  | nil =>
    cases eof with
    | false => exact .inl ⟨h, rfl, by simpa using ht, rfl⟩
    | true =>
      refine .inr ⟨{ h with outData := h.outData.putEof, inData := none, hdlcState := .stEof },
        ?_, rfl, ht.inType, ht.outType, rfl, by simp [isFcsOK, ht.fresh.chunk]⟩
      simp [getHdlcLoop, Hdlc.drainHdlc, DataStream.getData, DataStream.putEof, ht.fresh.out]
  | cons b rest ih =>
    rw [octetBits_cons, List.append_assoc] at ht
    have hb := ht.takeByte
    have hd : (h.takeByte b).drainHdlc count [] = (some [], h.takeByte b, true) := by
      unfold Hdlc.drainHdlc
      rw [if_neg]
      rcases hb.bits with ⟨hs, -⟩ | ⟨hs, -⟩ <;> simp [hs]
    rw [getHdlcLoop, hd]
    exact ih _ hb

theorem getHdlcData_trailing {inp : DataStream} (count : Nat)
    (ht : Trailing h (octetBits inp.data ++ later)) :
    (∃ g, h.getHdlcData inp count = (some [], g, { inp with data := [] }) ∧ Trailing g later ∧ inp.eof = false) ∨
      (∃ g, h.getHdlcData inp count = (none, g, { inp with data := [] }) ∧ inp.eof = true ∧
        g.inDataType = .dtRaw ∧ g.outDataType = .dtHdlc ∧ g.inData = none ∧ g.isFcsOK = false) := by
  have hti := ht.inType
  have hs : h.hdlcState ≠ .stEof ∧ h.hdlcState ≠ .stData := by
    rcases ht.bits with ⟨hs, -⟩ | ⟨hs, -⟩ <;> simp [hs]
  have hloop := getHdlcLoop_trailing inp.eof count ht
  unfold getHdlcData
  split
  case h_1 hi => cases hi.symm.trans hti
  case h_3 hi => exact absurd hti hi
  rw [if_neg (by simp [ht.attached, hs.1]), if_neg (by simp [hs.2])]
  rcases hloop with ⟨g, hg, hgt, he⟩ | ⟨g, hg, he⟩
  · exact .inl ⟨g, by rw [hg], hgt, he⟩
  · exact .inr ⟨g, by rw [hg], he⟩

end Hdlc

end T38Modem
