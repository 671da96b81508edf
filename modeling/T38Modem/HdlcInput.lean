import T38Modem.Hdlc

namespace T38Modem

namespace Hdlc

variable {h g : Hdlc} {inp inp' : DataStream} {bs acc : List Byte} {count n : Nat}

/-- Reading neither opens nor closes the input, and the object still reads it or nothing any more. -/
structure Attends (h : Hdlc) (inp : DataStream) (g : Hdlc) (inp' : DataStream) : Prop where
  eof : inp'.eof = inp.eof
  pointer : g.inData = h.inData ∨ g.inData = none

theorem Attends.of_eq (he : inp'.eof = inp.eof) (hp : g.inData = h.inData) : Attends h inp g inp' := ⟨he, .inl hp⟩

theorem Attends.trans {k : Hdlc} {out : DataStream} (a : Attends h inp g inp') (b : Attends g inp' k out) :
    Attends h inp k out := by
  refine ⟨b.eof.trans a.eof, ?_⟩
  rcases b.pointer with hb | hb
  · rw [hb]
    exact a.pointer
  · exact .inr hb

theorem countRawBit_inData (w : Word) : (h.countRawBit w).inData = h.inData := by
  unfold countRawBit
  split <;> rfl

theorem packBit_inData (flag : Bool) (s : Word × Hdlc) : (packBit flag s).2.inData = s.2.inData := by
  obtain ⟨w, h⟩ := s
  unfold packBit
  dsimp only
  split
  · exact countRawBit_inData _
  · split
    · split
      · exact (countRawBit_inData (h := { h.countRawBit (w <<< 1) with rawOnes := _ }) _).trans (countRawBit_inData _)
      · exact countRawBit_inData _
    · exact countRawBit_inData _

theorem packByte_inData (flag : Bool) (s : Word × Hdlc) (b : Byte) : (packByte flag s b).2.inData = s.2.inData := by
  have hn (n : Nat) (t : Word × Hdlc) : ((packBit flag)^[n] t).2.inData = t.2.inData := by
    induction n generalizing t with
    | zero => rfl
    | succ n ih => rw [Function.iterate_succ_apply, ih, packBit_inData]
  exact hn 8 _

theorem pack_inData (flag : Bool) : (h.pack bs flag).inData = h.inData := by
  have hf (s : Word × Hdlc) : (bs.foldl (packByte flag) s).2.inData = s.2.inData := by
    induction bs generalizing s with
    | nil => rfl
    | cons b bs ih => rw [List.foldl_cons, ih, packByte_inData]
  unfold pack
  dsimp only
  split <;> exact hf _

theorem syncLoop_inData (w : Word) (j : Nat) : (h.syncLoop n w j).2.inData = h.inData := by
  induction n generalizing w j with
  | zero => rfl
  | succ n ih =>
    rw [syncLoop]
    split
    · rfl
    · exact ih _ _

theorem unpackBit_inData (w : Word) : (h.unpackBit w).inData = h.inData := by
  have hc (k : Hdlc) : k.putChunk.inData = k.inData := by
    unfold putChunk
    split <;> rfl
  unfold unpackBit
  rw [hc]
  split
  · rfl
  · split <;> rfl

theorem unpackLoop_inData (w : Word) (j : Nat) : (h.unpackLoop n w j).2.inData = h.inData := by
  induction n generalizing h w j with
  | zero => rfl
  | succ n ih =>
    rw [unpackLoop]
    split
    · rfl
    · exact (ih _ _).trans (unpackBit_inData w)

theorem takeData_inData (b : Byte) : (h.takeData b).inData = h.inData := by
  have hu : (h.unpack b).2.inData = h.inData := unpackLoop_inData _ _
  unfold takeData
  split <;> simp_all

theorem takeByte_inData (b : Byte) : (h.takeByte b).inData = h.inData := by
  unfold takeByte
  dsimp only
  split
  · have hs : (sync { h with lastChar := some b, rawCount := h.rawCount + 1 } b).2.inData = h.inData := syncLoop_inData _ _
    split <;> simp_all
  · have hs : (skipFlag { h with lastChar := some b, rawCount := h.rawCount + 1 } b).2.inData = h.inData := by
      unfold skipFlag
      dsimp only
      split <;> rfl
    split
    · simp_all
    · rw [takeData_inData]
      simp_all
  · exact takeData_inData b
  · rfl

theorem drainHdlc_inData : (h.drainHdlc count acc).2.1.inData = h.inData := by
  unfold drainHdlc
  split
  · split <;> rfl
  · rfl

theorem drainRaw_inData : (h.drainRaw count acc).2.1.inData = h.inData := by
  unfold drainRaw
  split <;> rfl

theorem getInData_attends : Attends h inp (h.getInData inp count).2.1 (h.getInData inp count).2.2 := by
  have hg := DataStream.getData_eof (s := inp) (n := count)
  unfold getInData
  split
  next => exact .of_eq rfl rfl
  next hi =>
    generalize inp.getData count = r at hg
    obtain ⟨res, s⟩ := r
    cases res with
    | none => exact ⟨hg, .inr rfl⟩
    | some bs =>
      dsimp only
      split <;> exact .of_eq hg rfl

theorem fillRaw_attends (hf : h.fillRaw inp = some (g, inp')) : Attends h inp g inp' := by
  have hg := DataStream.getData_eof (s := inp) (n := 256)
  unfold fillRaw at hf
  split at hf
  next =>
    obtain ⟨rfl, rfl⟩ := Prod.mk.inj (Option.some.inj hf)
    exact .of_eq rfl rfl
  next =>
    generalize inp.getData 256 = r at hf hg
    obtain ⟨res, s⟩ := r
    match res with
    | none =>
      obtain ⟨rfl, rfl⟩ := Prod.mk.inj (Option.some.inj hf)
      exact ⟨hg, .inr rfl⟩
    | some [] => cases hf
    | some (b :: bs) =>
      obtain ⟨rfl, rfl⟩ := Prod.mk.inj (Option.some.inj hf)
      exact .of_eq hg (pack_inData false)

theorem getRawLoop_attends :
    Attends h inp (h.getRawLoop inp count acc n).2.1 (h.getRawLoop inp count acc n).2.2 := by
  induction n generalizing h inp count acc with
  | zero => exact .of_eq rfl rfl
  | succ n ih =>
    rw [getRawLoop]
    split
    next => exact .of_eq rfl rfl
    next g inp' hf =>
      have hd : (g.drainRaw count acc).2.1.inData = g.inData := drainRaw_inData
      have ha := fillRaw_attends hf
      split
      next k hk =>
        rw [hk] at hd
        exact (ha.trans (.of_eq rfl hd)).trans ih
      next res k _ _ hk =>
        rw [hk] at hd
        exact ha.trans (.of_eq rfl hd)

theorem getHdlcLoop_pointer (eof : Bool) :
    (getHdlcLoop eof h count acc bs).2.1.inData = h.inData ∨ (getHdlcLoop eof h count acc bs).2.1.inData = none := by
  induction bs generalizing h count acc with
  | nil =>
    unfold getHdlcLoop
    split
    · exact .inr drainHdlc_inData
    · exact .inl rfl
  | cons b rest ih =>
    have hd : ((h.takeByte b).drainHdlc count acc).2.1.inData = h.inData :=
      drainHdlc_inData.trans (takeByte_inData b)
    rw [getHdlcLoop]
    split
    next g hg =>
      rw [hg] at hd
      rw [← hd]
      exact ih
    next res g _ _ hg =>
      rw [hg] at hd
      exact .inl hd

theorem getHdlcData_attends : Attends h inp (h.getHdlcData inp count).2.1 (h.getHdlcData inp count).2.2 := by
  have hin : Attends h inp (h.getInData inp count).2.1 (h.getInData inp count).2.2 := getInData_attends
  unfold getHdlcData
  split
  · generalize h.getInData inp count = r at hin
    obtain ⟨res, g, s⟩ := r
    cases res with
    | none => exact hin
    | some bs => exact ⟨hin.eof, hin.pointer⟩
  · split
    · split <;> exact .of_eq rfl rfl
    · split
      · split <;> exact .of_eq rfl rfl
      · exact ⟨rfl, getHdlcLoop_pointer _⟩
  · exact .of_eq rfl rfl

theorem getRawData_attends : Attends h inp (h.getRawData inp count).2.1 (h.getRawData inp count).2.2 := by
  unfold getRawData
  split
  · split
    next => exact .of_eq rfl rfl
    next bs out _ =>
      dsimp only
      have hl := @getRawLoop_attends { h with outData := out } inp bs (count - bs.length) (inp.data.length + 2 + count)
      generalize getRawLoop { h with outData := out } inp (count - bs.length) bs _ = r at hl ⊢
      obtain ⟨res, g, s⟩ := r
      cases res <;> exact ⟨hl.eof, hl.pointer⟩
  · exact getInData_attends
  · exact .of_eq rfl rfl

theorem getData_attends : Attends h inp (h.getData inp count).2.1 (h.getData inp count).2.2 := by
  unfold getData
  split
  · exact getHdlcData_attends
  · exact getRawData_attends
  · exact .of_eq rfl rfl

theorem getData_eof : (h.getData inp count).2.2.eof = inp.eof := getData_attends.eof

theorem getRawStart_inData : (h.getRawStart n).inData = h.inData := by
  have hn (m : Nat) (k : Hdlc) : ((fun h : Hdlc => h.pack [0x7e] true)^[m] k).inData = k.inData := by
    induction m generalizing k with
    | zero => rfl
    | succ m ih => rw [Function.iterate_succ_apply, ih, pack_inData]
  unfold getRawStart
  dsimp only
  split
  · exact hn _ _
  · rfl

end Hdlc

end T38Modem
