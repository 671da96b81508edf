import T38Modem.ToneRounds

namespace T38Modem

namespace ToneGenerator

open Signal

variable {g : ToneGenerator} {amounts : List Nat}

/-- One of the reads has the end of a tone inside it. -/
def Splits (g : ToneGenerator) (amounts : List Nat) : Prop :=
  ∃ k p, (amounts.take k).sum < p ∧ p < (amounts.take (k + 1)).sum ∧ (g.index + p) % g.bytesOnOff = g.bytesOn

/-- The octets that are read are those of the cadence, however they are asked for. -/
def Regular (g : ToneGenerator) (amounts : List Nat) : Prop :=
  (g.reads amounts).1 = window g.cadence g.index amounts.sum ∧
    ∀ k, (g.reads (amounts.take k)).2.index ≤ g.bytesOn + g.bytesOff

theorem read_index (g : ToneGenerator) (amount : Nat) :
    ∃ i h, (g.read amount).2 = g.setIndex i h ∧ i % g.bytesOnOff = (g.index + amount) % g.bytesOnOff :=
  readLoop_index (Nat.le_refl _)

theorem length_read (g : ToneGenerator) (amount : Nat) : (g.read amount).1.length = amount :=
  length_readLoop (Nat.le_refl _)

theorem reads_cons (g : ToneGenerator) (a : Nat) (as : List Nat) :
    ∃ i h, i % g.bytesOnOff = (g.index + a) % g.bytesOnOff ∧
      g.reads (a :: as) = ((g.read a).1 ++ ((g.setIndex i h).reads as).1, ((g.setIndex i h).reads as).2) := by
  obtain ⟨i, hi, he, hmod⟩ := g.read_index a
  refine ⟨i, hi, hmod, ?_⟩
  rw [reads, he]

theorem reads_index (g : ToneGenerator) (amounts : List Nat) : ∃ i h, (g.reads amounts).2 = g.setIndex i h := by
  induction amounts generalizing g with
  | nil => exact ⟨g.index, g.index_le, rfl⟩
  | cons a as ih =>
    obtain ⟨i, hi, -, he⟩ := g.reads_cons a as
    obtain ⟨j, hj, hr⟩ := ih (g.setIndex i hi)
    exact ⟨j, hj, by rw [he]; exact hr⟩

theorem Splits.head {a : Nat} {as : List Nat} (h : g.Crosses a) : g.Splits (a :: as) := by
  obtain ⟨d, hd, hlt, hmod⟩ := h
  exact ⟨0, d, by simpa using hd, by simpa using hlt, hmod⟩

theorem Splits.tail {a i : Nat} {as : List Nat} {h : i ≤ g.bytesOn + g.bytesOff}
    (hi : i % g.bytesOnOff = (g.index + a) % g.bytesOnOff) (hs : (g.setIndex i h).Splits as) :
    g.Splits (a :: as) := by
  obtain ⟨k, p, hk, hp, hmod⟩ := hs
  refine ⟨k + 1, a + p, by simpa using hk, by simpa using hp, ?_⟩
  have hadd : (i + p) % g.bytesOnOff = (g.index + a + p) % g.bytesOnOff := Nat.ModEq.add_right p hi
  rw [← Nat.add_assoc, ← hadd]
  exact hmod

theorem reads_window (hr : g.toneOn.length ∣ g.bytesOn ∨ ¬g.Splits amounts) :
    (g.reads amounts).1 = window g.cadence g.index amounts.sum := by
  induction amounts generalizing g with
  | nil => rfl
  | cons a as ih =>
    obtain ⟨i, hi, hmod, he⟩ := g.reads_cons a as
    have hhead := readLoop_window (Nat.le_refl a) (hr.imp_right (mt Splits.head))
    have htail := ih (g := g.setIndex i hi) (hr.imp_right (mt (Splits.tail hmod)))
    rw [he, List.sum_cons, ← window_append, read, hhead, htail]
    exact congrArg _ (window_mod g.cadence_mod hmod)

/-- The first octet behind the tone is that of the waveform, where a read goes on there. -/
theorem reads_cross (hw : ¬g.toneOn.length ∣ g.bytesOn) {k p : Nat} (hk : (amounts.take k).sum < p)
    (hp : p < (amounts.take (k + 1)).sum) (hmod : (g.index + p) % g.bytesOnOff = g.bytesOn) :
    (g.reads amounts).1[p]? = some (g.toneOn.getD (g.bytesOn % g.toneOn.length) 0) := by
  induction amounts generalizing g k p with
  | nil => simp at hp
  | cons a as ih =>
    obtain ⟨i, hi, hia, he⟩ := g.reads_cons a as
    have hlen := g.length_read a
    rw [he]
    cases k with
    | zero =>
      simp only [List.take_zero, List.sum_nil, List.take_succ_cons, List.sum_cons, Nat.add_zero] at hk hp
      rw [List.getElem?_append_left (by omega)]
      exact readLoop_cross (Nat.le_refl a) hw hk hp hmod
    | succ k =>
      simp only [List.take_succ_cons, List.sum_cons] at hk hp
      rw [List.getElem?_append_right (by omega), hlen]
      apply ih (g := g.setIndex i hi) hw (k := k) (by omega) (by omega)
      have hadd : (i + (p - a)) % g.bytesOnOff = (g.index + a + (p - a)) % g.bytesOnOff :=
        Nat.ModEq.add_right _ hia
      rw [show g.index + a + (p - a) = g.index + p by omega] at hadd
      exact hadd.trans hmod

/-- Where the waveform would not sound as silence, the reads are regular if whole waveforms fit into
the tone, or if no read goes on behind the end of a tone. -/
theorem regular_iff
    (hz : g.toneOn.length ∣ g.bytesOn ∨ g.toneOn.getD (g.bytesOn % g.toneOn.length) 0 ≠ 0) :
    g.Regular amounts ↔ g.toneOn.length ∣ g.bytesOn ∨ ¬g.Splits amounts := by
  constructor
  · rintro ⟨hout, -⟩
    by_contra hn
    obtain ⟨hw, hs⟩ := not_or.mp hn
    obtain ⟨k, p, hk, hp, hmod⟩ := not_not.mp hs
    have hsum : (amounts.take (k + 1)).sum ≤ amounts.sum := by
      conv => right; rw [← List.take_append_drop (k + 1) amounts, List.sum_append]
      exact Nat.le_add_right _ _
    have hcross := reads_cross hw hk hp hmod
    rw [hout, window_get p (by omega), cadence, hmod, if_neg (Nat.lt_irrefl _)] at hcross
    exact (hz.resolve_left hw) (Option.some.inj hcross).symm
  · intro hr
    refine ⟨reads_window hr, fun k => ?_⟩
    obtain ⟨i, hi, he⟩ := g.reads_index (amounts.take k)
    rw [he]
    exact hi

/-- No read goes on behind the end of a busy tone. -/
def OnEdges (amounts : List Nat) : Prop :=
  ∀ k n, ¬((amounts.take k).sum < msec2Bytes 350 + n * (msec2Bytes 350 + msec2Bytes 350) ∧
    msec2Bytes 350 + n * (msec2Bytes 350 + msec2Bytes 350) < (amounts.take (k + 1)).sum)

variable {sample : Nat → Int → Nat → Int}

theorem busy_splits : (make sample .ttBusy).Splits amounts ↔ ¬OnEdges amounts := by
  have hon : msec2Bytes 350 = 5600 := by decide
  simp only [Splits, OnEdges, make, bytesOnOff, hon]
  push Not
  constructor
  · rintro ⟨k, p, hk, hp, hmod⟩
    have hdiv := Nat.div_add_mod p (5600 + 5600)
    exact ⟨k, p / (5600 + 5600), by omega, by omega⟩
  · rintro ⟨k, n, hk, hn⟩
    exact ⟨k, _, hk, hn, by omega⟩

theorem initTone_getD {amount hz i : Nat} {ampl : Int} (hi : i < amount / 2) :
    (initTone sample amount hz ampl).getD (2 * i) 0 = (BitVec.ofInt 16 (sample hz ampl i)).setWidth 8 := by
  have hflat : ∀ (l : List Nat) (j : Nat), (l.flatMap fun i => simpleBytes (sample hz ampl i))[2 * j]? =
      l[j]?.map fun i => (BitVec.ofInt 16 (sample hz ampl i)).setWidth 8 := by
    intro l
    induction l with
    | nil => intro j; simp
    | cons x l ih =>
      intro j
      cases j with
      | zero => simp [simpleBytes]
      | succ j =>
        have hlen : (simpleBytes (sample hz ampl x)).length = 2 := rfl
        rw [List.flatMap_cons, List.getElem?_append_right (by omega), hlen, List.getElem?_cons_succ, ← ih j]
        rfl
  simp [initTone, List.getD_eq_getElem?_getD, hflat, hi]

theorem busy_wave (hs : sample 425 5000 240 = -5000 ∨ sample 425 5000 240 = -4999) :
    (make sample .ttBusy).toneOn.getD
      ((make sample .ttBusy).bytesOn % (make sample .ttBusy).toneOn.length) 0 ≠ 0 := by
  have hpos : (make sample .ttBusy).bytesOn % (make sample .ttBusy).toneOn.length = 2 * 240 := by
    simp only [make, length_initTone]
    decide
  rw [hpos]
  simp only [make]
  rw [initTone_getD (by decide)]
  rcases hs with hs | hs <;> rw [hs] <;> decide

theorem busy_regular_iff (hs : sample 425 5000 240 = -5000 ∨ sample 425 5000 240 = -4999) :
    (make sample .ttBusy).Regular amounts ↔ OnEdges amounts := by
  have hw : ¬(make sample .ttBusy).toneOn.length ∣ (make sample .ttBusy).bytesOn := by
    simp only [make, length_initTone]
    decide
  rw [regular_iff (.inr (busy_wave hs)), busy_splits, not_not]
  exact or_iff_right hw

/-- The tones are given out in the cadence of their times, but for reads that go on behind the end
of a busy tone, whose 350 ms are no whole number of waveforms. The waveform is that of the sine,
which is -1 after three quarters of a turn. -/
theorem make_regular (hs : sample 425 5000 240 = -5000 ∨ sample 425 5000 240 = -4999) (tt : ToneType)
    (amounts : List Nat) :
    (make sample tt).Regular amounts ↔ (tt = .ttBusy → OnEdges amounts) := by
  have hfits : tt ≠ .ttBusy → (make sample tt).toneOn.length ∣ (make sample tt).bytesOn := by
    intro ht
    cases tt with
    | ttBusy => exact absurd rfl ht
    | ttSilence => simp only [make]; decide
    | ttCng | ttCed | ttRing => simp only [make, length_initTone]; decide
  by_cases ht : tt = .ttBusy
  · subst ht
    rw [busy_regular_iff hs, forall_prop_of_true rfl]
  · have hd := hfits ht
    exact iff_of_true ((regular_iff (.inl hd)).mpr (.inl hd)) fun h => absurd h ht

/-- The terms of the sine of `x`, all of them times 10 ^ 21. -/
def sineTerms (x : Int) : Nat → Int → Int → Int → Int
  | 0, _, _, sum => sum
  | n + 1, k, term, sum =>
    let term := -(term * x / 10 ^ 21 * x / 10 ^ 21) / (2 * k * (2 * k + 1))
    sineTerms x n (k + 1) term (sum + term)

/-- The samples of the sine, computed with more digits than a `double` has and rounded as one. -/
def sineSample (hz : Nat) (ampl : Int) (i : Nat) : Int :=
  let turn : Nat := hz * i % 8000
  let half := turn % 4000
  let quarter := if half > 2000 then 4000 - half else half
  let x : Int := quarter * 2 * 3141592653589793238463 / 8000
  let v := ampl * ((sineTerms x 13 1 x x + 10 ^ 5) / 10 ^ 6) / 10 ^ 15
  if turn ≥ 4000 then -v else v

theorem sineSample_busy : sineSample 425 5000 240 = -5000 := by decide +kernel

theorem make_regular_busy :
    (sineSample 425 5000 240 = -5000 ∨ sineSample 425 5000 240 = -4999) ∧
      ((make sineSample .ttBusy).Regular [5600, 1] ↔ (ToneType.ttBusy = .ttBusy → OnEdges [5600, 1])) :=
  ⟨.inl sineSample_busy, make_regular (.inl sineSample_busy) .ttBusy [5600, 1]⟩

/-- Read in frames of 20 ms the busy tone goes on for 10 ms. -/
theorem busy_frames_irregular : ¬(make sineSample .ttBusy).Regular (List.replicate 35 320) := by
  rw [busy_regular_iff (.inl sineSample_busy)]
  intro h
  exact h 17 0 (by decide)

end ToneGenerator

end T38Modem
