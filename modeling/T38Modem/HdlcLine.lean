import T38Modem.HdlcPack

namespace T38Modem

open BitList BitStuffing

/-- A whole frame on the line, from its first bit to its two closing flags. -/
def frameBits (octets : List Byte) (diag : Diag) : List Bool :=
  stuff 0 (octetBits (octets ++ Hdlc.endOctets (Fcs.build {} octets) diag)) ++ flag ++ flag

theorem octetBits_flag : octetBits [0x7e] = flag := by
  decide

namespace Hdlc

/-- The bits that are still to come from the encoder when the frame is `rest` from here on: those
it has packed, and the rest of the frame with its end. -/
def line (h : Hdlc) (rest : List Byte) (diag : Diag) : List Bool :=
  h.sentBits ++
    if h.inData = none then []
    else stuff h.rawOnes (octetBits (rest ++ endOctets (h.fcs.build rest) diag)) ++ flag ++ flag

/-- The encoder between two calls: a frame is read and packed, or it is complete and only waits to
be handed out. -/
structure Encoding (h : Hdlc) : Prop where
  inType : h.inDataType = .dtHdlc
  outType : h.outDataType = .dtRaw
  len : h.rawByteLen < 8
  ones : h.rawOnes < 5
  attached : h.inData ≠ none → h.outData.eof = false
  detached : h.inData = none → h.outData.eof = true ∧ h.rawOnes = 0

variable {h h' : Hdlc} {inp inp' : DataStream}

theorem Encoding.packing (he : h.Encoding) (hi : h.inData ≠ none) : h.Packing :=
  ⟨he.attached hi, he.len, he.ones⟩

theorem packFrame_inData (e : h'.packFrame = h.packFrame) : h'.inData = h.inData :=
  show h'.packFrame.inData = h.packFrame.inData by rw [e]

theorem packFrame_inDataType (e : h'.packFrame = h.packFrame) : h'.inDataType = h.inDataType :=
  show h'.packFrame.inDataType = h.packFrame.inDataType by rw [e]

theorem packFrame_outDataType (e : h'.packFrame = h.packFrame) : h'.outDataType = h.outDataType :=
  show h'.packFrame.outDataType = h.packFrame.outDataType by rw [e]

theorem packFrame_fcs (e : h'.packFrame = h.packFrame) : h'.fcs = h.fcs :=
  show h'.packFrame.fcs = h.packFrame.fcs by rw [e]

theorem packRead_line (he : h.Encoding) (hi : h.inData ≠ none) (bs rest : List Byte) (diag : Diag) :
    (h.packRead bs).line rest diag = h.line (bs ++ rest) diag ∧ (h.packRead bs).Encoding ∧
      (h.packRead bs).inData = h.inData := by
  unfold packRead
  set g : Hdlc := { h with lastChar := bs.getLast?, fcs := h.fcs.build bs } with hg
  have hp : g.Packing := ⟨he.attached hi, he.len, he.ones⟩
  obtain ⟨hbits, hones, hpk, hframe⟩ := pack_data hp bs
  have hin : (g.pack bs false).inData = h.inData := (packFrame_inData hframe).trans rfl
  refine ⟨?_, ⟨?_, ?_, hpk.len, hpk.ones, fun _ => hpk.eof, fun hn => ?_⟩, hin⟩
  · unfold line
    rw [hin, if_neg hi, if_neg hi, hbits, hones, packFrame_fcs hframe]
    simp only [hg, List.append_assoc, octetBits_append, stuff_append, Fcs.build_append]
    simp [sentBits]
  · exact (packFrame_inDataType hframe).trans he.inType
  · exact (packFrame_outDataType hframe).trans he.outType
  · exact absurd (hin.symm.trans hn) hi

theorem packEnd_line (he : h.Encoding) (hi : h.inData ≠ none) (diag : Diag) :
    (h.packEnd diag).line [] diag = h.line [] diag ∧ (h.packEnd diag).Encoding ∧
      (h.packEnd diag).inData = none := by
  obtain ⟨hbits, hones, hpk, hframe⟩ := pack_data (he.packing hi) (endOctets h.fcs diag)
  obtain ⟨hbits', hones', hpk', hframe'⟩ := pack_flags hpk [0x7e, 0x7e]
  have hframe'' := hframe'.trans hframe
  unfold packEnd
  generalize (h.pack (endOctets h.fcs diag) false).pack [0x7e, 0x7e] true = g at *
  refine ⟨?_, ⟨?_, ?_, hpk'.len, hpk'.ones, fun hn => absurd rfl hn, fun _ => ⟨rfl, hones'⟩⟩, rfl⟩
  · have hflags : octetBits [0x7e, 0x7e] = flag ++ flag := by decide
    simp only [sentBits] at hbits hbits'
    simp only [line, sentBits, DataStream.putEof, if_neg hi, if_true]
    rw [hbits', hbits, hflags]
    simp
  · exact (packFrame_inDataType hframe'').trans he.inType
  · exact (packFrame_outDataType hframe'').trans he.outType

/-- Handing out octets only takes them off the front of the line. -/
theorem drain_line (he : h.Encoding) (count : Nat) (rest : List Byte) (diag : Diag) :
    let r := h.outData.getData count
    let g : Hdlc := { h with outData := r.2 }
    octetBits (r.1.getD []) ++ g.line rest diag = h.line rest diag ∧ g.Encoding := by
  intro r g
  have heof : r.2.eof = h.outData.eof := DataStream.getData_eof
  refine ⟨?_, ⟨he.inType, he.outType, he.len, he.ones, fun hi => heof.trans (he.attached hi),
    fun hn => ⟨heof.trans (he.detached hn).1, (he.detached hn).2⟩⟩⟩
  cases hr : r.1 with
  | none =>
    have hs : r.2 = h.outData := DataStream.getData_none_state hr
    simp [g, line, sentBits, hs]
  | some bs =>
    have hd : bs ++ r.2.data = h.outData.data := (DataStream.getData_some hr).1
    simp [g, line, sentBits, ← hd]

/-- The outcome of a read from the encoder: the octets `new` it took off the line, and what it is
waiting for when they are fewer than asked for. -/
structure RawRead (h : Hdlc) (inp : DataStream) (count : Nat) (new : List Byte)
    (h' : Hdlc) (inp' : DataStream) : Prop where
  encoding : h'.Encoding
  same : inp'.eof = inp.eof ∧ inp'.diag = inp.diag ∧ inp'.threshold = inp.threshold
  pointer : h'.inData = none ∨ h'.inData = h.inData
  untouched : h.inData = none → inp' = inp
  ended : h.inData ≠ none → h'.inData = none → inp.eof = true ∧ inp'.data = []
  line : ∀ more diag, (h.inData ≠ none → h'.inData = none → more = [] ∧ diag = inp.diag) →
    octetBits new ++ h'.line (inp'.data ++ more) diag = h.line (inp.data ++ more) diag
  passed : ∃ used, inp.data = used ++ inp'.data ∧
    (h'.inData ≠ none → ∀ rest diag, octetBits new ++ h'.line rest diag = h.line (used ++ rest) diag)
  length : new.length ≤ count
  short : new.length < count →
    h'.outData.data = [] ∧ (h'.inData ≠ none → inp.eof = false ∧ inp'.data = [])

theorem line_detached (hi : h.inData = none) (rest : List Byte) (diag : Diag) :
    h.line rest diag = h.sentBits := by
  simp [line, hi]

theorem RawRead.wait (he : h.Encoding) (inp : DataStream) {n : Nat}
    (hs : 0 < n → h.outData.data = [] ∧ (h.inData ≠ none → inp.eof = false ∧ inp.data = [])) :
    RawRead h inp n [] h inp where
  encoding := he
  same := ⟨rfl, rfl, rfl⟩
  pointer := .inr rfl
  untouched _ := rfl
  ended hi hi' := absurd hi' hi
  line _ _ _ := rfl
  passed := ⟨[], rfl, fun _ _ _ => rfl⟩
  length := n.zero_le
  short := hs

/-- A read goes on where another one stopped. -/
theorem RawRead.trans {h₁ h₂ h₃ : Hdlc} {i₁ i₂ i₃ : DataStream} {m n : Nat} {xs ys : List Byte}
    (a : RawRead h₁ i₁ m xs h₂ i₂) (b : RawRead h₂ i₂ n ys h₃ i₃) (hm : m = xs.length) :
    RawRead h₁ i₁ (m + n) (xs ++ ys) h₃ i₃ where
  encoding := b.encoding
  same := ⟨b.same.1.trans a.same.1, b.same.2.1.trans a.same.2.1, b.same.2.2.trans a.same.2.2⟩
  pointer := by
    rcases b.pointer with hb | hb
    · exact .inl hb
    · rw [hb]
      exact a.pointer
  untouched hi := by
    have h2 : h₂.inData = none := by
      rcases a.pointer with ha | ha
      · exact ha
      · exact ha.trans hi
    rw [b.untouched h2, a.untouched hi]
  ended hi hi' := by
    by_cases h2 : h₂.inData = none
    · rw [b.untouched h2]
      exact a.ended hi h2
    · have hb := b.ended h2 hi'
      exact ⟨a.same.1 ▸ hb.1, hb.2⟩
  line more diag hd := by
    have ha : h₁.inData ≠ none → h₂.inData = none → more = [] ∧ diag = i₁.diag := fun hi h2 => by
      refine hd hi ?_
      rcases b.pointer with hb | hb
      · exact hb
      · exact hb.trans h2
    have hb : h₂.inData ≠ none → h₃.inData = none → more = [] ∧ diag = i₂.diag := fun h2 h3 => by
      rw [a.same.2.1]
      refine hd (fun hi => h2 ?_) h3
      rcases a.pointer with ha | ha
      · exact ha
      · exact ha.trans hi
    rw [octetBits_append, List.append_assoc, b.line more diag hb, a.line more diag ha]
  passed := by
    obtain ⟨used, hu, ha⟩ := a.passed
    obtain ⟨used', hu', hb⟩ := b.passed
    refine ⟨used ++ used', by rw [hu, hu', List.append_assoc], fun h3 rest diag => ?_⟩
    have h2 : h₂.inData ≠ none := fun h2 => h3 (b.pointer.elim id fun hb => hb.trans h2)
    rw [octetBits_append, List.append_assoc, hb h3 rest diag, ha h2, List.append_assoc]
  length := by
    have := b.length
    simp
    omega
  short hl := by
    have hs := b.short (by simp at hl; omega)
    exact ⟨hs.1, fun hi => ⟨a.same.1 ▸ (hs.2 hi).1, (hs.2 hi).2⟩⟩

/-- Octets moved from the input into the packed bits leave the line as it is. -/
theorem RawRead.read (he : h.Encoding) (hi : h.inData ≠ none) {bs : List Byte}
    (hd : bs ++ inp'.data = inp.data)
    (hs : inp'.eof = inp.eof ∧ inp'.diag = inp.diag ∧ inp'.threshold = inp.threshold) :
    RawRead h inp 0 [] (h.packRead bs) inp' := by
  have hp := fun rest diag => packRead_line he hi bs rest diag
  have hin := (hp [] 0).2.2
  exact
    { encoding := (hp [] 0).2.1
      same := hs
      pointer := .inr hin
      untouched := fun hn => absurd hn hi
      ended := fun _ hn => absurd (hin.symm.trans hn) hi
      line := fun more diag _ => by
        rw [octetBits_nil, List.nil_append, (hp _ _).1, ← hd, List.append_assoc]
      passed := ⟨bs, hd.symm, fun _ rest diag => (hp rest diag).1⟩
      length := le_rfl
      short := fun hl => by simp at hl }

theorem RawRead.stop (he : h.Encoding) (hi : h.inData ≠ none) (hd : inp.data = [])
    (hf : inp.eof = true) : RawRead h inp 0 [] (h.packEnd inp.diag) inp := by
  have hp := packEnd_line he hi inp.diag
  exact
    { encoding := hp.2.1
      same := ⟨rfl, rfl, rfl⟩
      pointer := .inl hp.2.2
      untouched := fun _ => rfl
      ended := fun _ _ => ⟨hf, hd⟩
      line := fun more diag hm => by
        obtain ⟨rfl, rfl⟩ := hm hi hp.2.2
        simpa [hd] using hp.1
      passed := ⟨[], rfl, fun hn => absurd hp.2.2 hn⟩
      length := le_rfl
      short := fun hl => by simp at hl }

theorem RawRead.drain (he : h.Encoding) (inp : DataStream) (count : Nat) :
    let r := h.outData.getData count
    RawRead h inp (r.1.getD []).length (r.1.getD []) { h with outData := r.2 } inp := by
  intro r
  have hl := fun rest diag => drain_line he count rest diag
  exact
    { encoding := (hl [] 0).2
      same := ⟨rfl, rfl, rfl⟩
      pointer := .inr rfl
      untouched := fun _ => rfl
      ended := fun hi hn => absurd hn hi
      line := fun more diag _ => (hl _ _).1
      passed := ⟨[], rfl, fun _ rest diag => (hl rest diag).1⟩
      length := le_rfl
      short := fun hl => by simp at hl }

/-- The result of a read that put `acc` in the caller's buffer: -1 when the frame is complete and
nothing of it is left. -/
def rawResult (acc : List Byte) (h : Hdlc) : Option (List Byte) :=
  if acc = [] ∧ h.inData = none ∧ h.outData.data = [] then none else some acc

/-- What a round takes from the input, or fills of the caller's buffer, shortens the loop. -/
def rawMeasure (h : Hdlc) (inp : DataStream) (count : Nat) : Nat :=
  (if h.inData = none then 0 else inp.data.length + 1) + count

/-- What is proved of the rest of the loop: it reads on and tells the result. -/
def ReadsOn (h : Hdlc) (inp : DataStream) (count : Nat) (acc : List Byte)
    (res : Option (List Byte) × Hdlc × DataStream) : Prop :=
  ∃ new, RawRead h inp count new res.2.1 res.2.2 ∧ res.1 = rawResult (acc ++ new) res.2.1

theorem ReadsOn.after {h₁ h₂ : Hdlc} {i₁ i₂ : DataStream} {count : Nat} {acc : List Byte}
    {res : Option (List Byte) × Hdlc × DataStream} (a : RawRead h₁ i₁ 0 [] h₂ i₂)
    (b : ReadsOn h₂ i₂ count acc res) : ReadsOn h₁ i₁ count acc res := by
  obtain ⟨new, hr, hres⟩ := b
  exact ⟨new, by simpa using a.trans hr rfl, hres⟩

/-- What a round reads of the input brings the end nearer, unless there is nothing to read yet. -/
theorem fillRaw_reads (he : h.Encoding) :
    (h.fillRaw inp = none ∧ h.inData ≠ none ∧ inp.data = [] ∧ inp.eof = false) ∨
    ∃ g i, h.fillRaw inp = some (g, i) ∧ RawRead h inp 0 [] g i ∧
      ((g.inData = none ∧ i = inp) ∨ (g.inData ≠ none ∧ i.data.length < inp.data.length)) := by
  unfold fillRaw
  cases hi : h.inData with
  | none => exact .inr ⟨h, inp, rfl, .wait he inp (by simp), .inl ⟨hi, rfl⟩⟩
  | some p =>
    have hin : h.inData ≠ none := by simp [hi]
    have hs := inp.getData_same 256
    cases hd : inp.getData 256 with
    | mk r i =>
      rw [hd] at hs
      cases r with
      | none =>
        obtain ⟨hde, hf⟩ := DataStream.getData_none.mp (congrArg Prod.fst hd)
        have hst : i = inp := by
          simpa [hd] using DataStream.getData_none_state (congrArg Prod.fst hd)
        subst hst
        have hstop := RawRead.stop he hin hde hf
        exact .inr ⟨_, _, rfl, hstop, .inl ⟨(packEnd_line he hin i.diag).2.2, rfl⟩⟩
      | some bs =>
        have hda : bs ++ i.data = inp.data := by
          simpa [hd] using (DataStream.getData_some (congrArg Prod.fst hd)).1
        cases bs with
        | nil => exact .inl ⟨rfl, by simp, DataStream.getData_some_nil (by simp) (congrArg Prod.fst hd)⟩
        | cons b bs =>
          refine .inr ⟨_, _, rfl, .read he hin hda hs, .inr ⟨?_, ?_⟩⟩
          · rw [(packRead_line he hin (b :: bs) [] 0).2.2]
            exact hin
          · rw [← hda]
            simp only [List.length_append, List.length_cons]
            omega

/-- A round that goes on has emptied the encoder, and one that ends the loop has filled the
caller's buffer or found the end. -/
theorem drainRaw_reads (he : h.Encoding) (inp : DataStream) (count : Nat) (acc : List Byte) :
    ∃ new g go, h.drainRaw count acc = (if go then some (acc ++ new) else rawResult (acc ++ new) g, g, go) ∧
      RawRead h inp new.length new g inp ∧ g.inData = h.inData ∧ new.length ≤ count ∧
      (new.length < count → g.outData.data = []) ∧
      (go = true → new.length < count ∧ (g.inData = none → new ≠ [])) ∧
      (go = false → new.length < count → g.inData = none) := by
  have hr := RawRead.drain he inp count
  unfold drainRaw
  cases hd : h.outData.getData count with
  | mk r out =>
    rw [hd] at hr
    cases r with
    | none =>
      obtain ⟨hde, hf⟩ := DataStream.getData_none.mp (congrArg Prod.fst hd)
      have hst : out = h.outData := by
        simpa [hd] using DataStream.getData_none_state (congrArg Prod.fst hd)
      have hin : h.inData = none := by
        by_contra hin
        simp [he.attached hin] at hf
      refine ⟨[], { h with outData := out }, false, ?_, hr, rfl, by simp, fun _ => by rw [hst]; exact hde,
        by simp, fun _ _ => hin⟩
      simp [rawResult, hin, hst, hde]
    | some bs =>
      have hbs := DataStream.getData_some (congrArg Prod.fst hd)
      have hfull := DataStream.getData_short (congrArg Prod.fst hd)
      simp only [hd] at hbs hfull
      have hempty : h.inData = none → h.outData.data ≠ [] := fun hin hde => by
        have := (DataStream.getData_none (s := h.outData) (n := count)).mpr ⟨hde, (he.detached hin).1⟩
        rw [hd] at this
        cases this
      refine ⟨bs, { h with outData := out }, count - bs.length != 0, ?_, hr, rfl, hbs.2, hfull, ?_, ?_⟩
      · cases hgo : count - bs.length != 0 with
        | true => simp only [hgo, if_true]
        | false =>
          have hnot : ¬(acc ++ bs = [] ∧ h.inData = none ∧ out.data = []) := by
            rintro ⟨hnil, hin, hout⟩
            have hbs' : bs = [] := (List.append_eq_nil_iff.mp hnil).2
            apply hempty hin
            rw [← hbs.1, hbs', hout]
            rfl
          simp only [hgo, rawResult, if_neg hnot, Bool.false_eq_true, if_false]
      · intro hgo
        refine ⟨by simp at hgo; omega, fun hin hbs' => hempty hin ?_⟩
        have hout := hfull (by simp at hgo; omega)
        rw [← hbs.1, hbs', hout]
        rfl
      · intro hgo hlt
        simp at hgo
        omega

theorem getRawLoop_reads (he : h.Encoding) {count n : Nat} {acc : List Byte}
    (hd : 0 < count → h.outData.data = []) (hn : rawMeasure h inp count < n) :
    ReadsOn h inp count acc (h.getRawLoop inp count acc n) := by
  induction n generalizing h inp count acc with
  | zero => omega
  | succ n ih =>
    rw [getRawLoop]
    rcases fillRaw_reads he with ⟨hf, hin, hi, ho⟩ | ⟨g, i, hf, hfill, hless⟩
    · rw [hf]
      exact ⟨[], .wait he inp fun hc => ⟨hd hc, fun _ => ⟨ho, hi⟩⟩, by simp [rawResult, hin]⟩
    · rw [hf]
      obtain ⟨new, k, go, hdr, hread, hki, hle, hk, hgo, hend⟩ := drainRaw_reads hfill.encoding i count acc
      refine .after hfill ?_
      simp only [hdr]
      cases go with
      | false =>
        simp only [Bool.false_eq_true, if_false]
        have hw : RawRead k i (count - new.length) [] k i :=
          .wait hread.encoding i fun hc => ⟨hk (by omega), fun hi => absurd (hend rfl (by omega)) hi⟩
        have hall := hread.trans hw rfl
        rw [List.append_nil, Nat.add_sub_cancel' hle] at hall
        cases hres : rawResult (acc ++ new) k with
        | none => exact ⟨new, hall, hres.symm⟩
        | some bs => exact ⟨new, hall, hres.symm⟩
      | true =>
        simp only [if_true, List.length_append]
        obtain ⟨hlt, hnew⟩ := hgo rfl
        have hcount : count + acc.length - (acc.length + new.length) = count - new.length := by omega
        have hm : rawMeasure k i (count - new.length) < n := by
          unfold rawMeasure at hn ⊢
          rcases hless with ⟨hg, rfl⟩ | ⟨hg, hlen⟩
          · have hpos := List.length_pos_iff.mpr (hnew (hki.trans hg))
            rw [if_pos (hki.trans hg)]
            split at hn <;> omega
          · rw [hki, if_neg hg]
            have hin : h.inData ≠ none := by
              rcases hfill.pointer with hp | hp
              · exact absurd hp hg
              · rw [← hp]; exact hg
            rw [if_neg hin] at hn
            omega
        obtain ⟨ys, hys, hres⟩ := ih hread.encoding (fun _ => hk hlt) hm
        rw [hcount]
        refine ⟨new ++ ys, ?_, by rw [hres, List.append_assoc]⟩
        simpa [Nat.add_sub_cancel' hle] using hread.trans hys rfl

theorem RawRead.rawCount {count n : Nat} {new : List Byte} (a : RawRead h inp count new h' inp') :
    RawRead h inp count new { h' with rawCount := n } inp' :=
  { a with encoding := { a.encoding with } }

/-- A call of `GetRawData` takes octets off the front of the line, and it answers -1 when the whole
line has been taken. -/
theorem getRawData_reads (he : h.Encoding) (inp : DataStream) (count : Nat) :
    ReadsOn h inp count [] (h.getRawData inp count) := by
  have hr := RawRead.drain he inp count
  have ht := he.inType
  unfold getRawData
  split
  case h_2 hraw => cases hraw.symm.trans ht
  case h_3 hne _ => exact absurd ht hne
  cases hd : h.outData.getData count with
  | mk r out =>
    rw [hd] at hr
    cases r with
    | none =>
      obtain ⟨hde, hf⟩ := DataStream.getData_none.mp (congrArg Prod.fst hd)
      have hst : out = h.outData := by
        simpa [hd] using DataStream.getData_none_state (congrArg Prod.fst hd)
      have hin : h.inData = none := by
        by_contra hin
        simp [he.attached hin] at hf
      subst hst
      exact ⟨[], .wait he inp fun _ => ⟨hde, fun hi => absurd hin hi⟩, by simp [rawResult, hin, hde]⟩
    | some bs =>
      have hbs := (DataStream.getData_some (congrArg Prod.fst hd)).2
      have hfull := DataStream.getData_short (congrArg Prod.fst hd)
      rw [hd] at hfull
      dsimp only
      have hm : rawMeasure { h with outData := out } inp (count - bs.length) < inp.data.length + 2 + count := by
        unfold rawMeasure
        split <;> omega
      obtain ⟨ys, hys, hres⟩ := getRawLoop_reads hr.encoding (fun hc => hfull (by omega)) hm
      have hall := hr.trans hys rfl
      dsimp only [Option.getD] at hall
      rw [Nat.add_sub_cancel' hbs] at hall
      generalize getRawLoop _ inp (count - bs.length) bs _ = res at hall hres
      obtain ⟨r, g, i⟩ := res
      dsimp only at hall hres
      cases r with
      | none => exact ⟨bs ++ ys, hall, hres⟩
      | some cs => exact ⟨bs ++ ys, hall.rawCount, hres⟩

theorem flags_packed (hp : h.Packing) (ho : h.rawOnes = 0) (n : Nat) :
    let g := (fun h : Hdlc => h.pack [0x7e] true)^[n] h
    g.sentBits = h.sentBits ++ flags n ∧ g.rawOnes = 0 ∧ g.Packing ∧
      g.packFrame = h.packFrame := by
  induction n generalizing h with
  | zero => simp [ho, hp]
  | succ n ih =>
    obtain ⟨hs, hz, hpk, hf⟩ := pack_flags hp [0x7e]
    obtain ⟨hs', hz', hpk', hf'⟩ := ih hpk hz
    refine ⟨?_, hz', hpk', hf'.trans hf⟩
    rw [Function.iterate_succ_apply, hs', hs, octetBits_flag, flags_succ, List.append_assoc]

/-- The bits of the octet left unfinished go out in front of the flags and the frame. -/
theorem getRawStart_line (hl : h.rawByteLen < 8) (ho : h.rawOnes = 0) (p : BufId) (n : Nat) :
    let g := (h.putHdlcData p).getRawStart n
    g.Encoding ∧ g.inData = some p ∧ g.rawOnes = 0 ∧
      ∀ rest diag, g.line rest diag =
        lowBits h.rawByte h.rawByteLen ++ flags n ++ frameBits rest diag := by
  set s : Hdlc := { h.putHdlcData p with
    outDataType := .dtRaw, outData := h.outData.clean, fcs := {} } with hs
  have hp : s.Packing := ⟨rfl, hl, by rw [hs]; simp [putHdlcData, ho]⟩
  obtain ⟨hbits, hz, hpk, hf⟩ := flags_packed hp ho n
  have hg : (h.putHdlcData p).getRawStart n = (fun h : Hdlc => h.pack [0x7e] true)^[n] s := by
    simp [getRawStart, putHdlcData, hs]
  rw [hg]
  generalize (fun h : Hdlc => h.pack [0x7e] true)^[n] s = g at *
  have hin : g.inData = some p := packFrame_inData hf
  intro g'
  refine ⟨⟨packFrame_inDataType hf, packFrame_outDataType hf, hpk.len, hpk.ones, fun _ => hpk.eof,
    fun hn => by simp [g', hin] at hn⟩, hin, hz, fun rest diag => ?_⟩
  simp only [g', line, hin, hbits, hz, packFrame_fcs hf, frameBits]
  simp [sentBits, hs, putHdlcData, DataStream.clean]

end Hdlc

end T38Modem
