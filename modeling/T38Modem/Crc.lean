import T38Modem.BitList

namespace Crc

open BitList

variable {w : Nat} {g r u v : BitVec w} {a b : Bool} {xs ys : List Bool} {k : Nat}

/-- The remainder `r` of a message by the polynomial `x ^ w + g`, behind one more bit. -/
def step (g r : BitVec w) (b : Bool) : BitVec w := if (r.msb ^^ b) then (r <<< 1) ^^^ g else r <<< 1

def feed (g r : BitVec w) (bs : List Bool) : BitVec w := bs.foldl (step g) r

@[simp] theorem feed_nil : feed g r [] = r := rfl

@[simp] theorem feed_cons : feed g r (b :: xs) = feed g (step g r b) xs := rfl

theorem feed_append : feed g r (xs ++ ys) = feed g (feed g r xs) ys := List.foldl_append

theorem step_zero (hg : g.getLsbD 0 = true) : (step g r b).getLsbD 0 = (r.msb ^^ b) := by
  unfold step
  split
  next h => simp [hg, h]
  next h => simp [h]

theorem step_succ {i : Nat} (hi : i + 1 < w) :
    (step g r b).getLsbD (i + 1) = (r.getLsbD i ^^ ((r.msb ^^ b) && g.getLsbD (i + 1))) := by
  have hi' : i < w := by omega
  unfold step
  split
  next h => simp [hi, h, BitVec.getLsbD_eq_getElem hi']
  next h => simp [hi, h, BitVec.getLsbD_eq_getElem hi']

/-- The two remainders have their low `k` bits in common. -/
def Agree (k : Nat) (u v : BitVec w) : Prop := ∀ i < k, u.getLsbD i = v.getLsbD i

theorem Agree.eq (h : Agree w u v) : u = v := BitVec.eq_of_getLsbD_eq h

/-- A bit that is fed can be told from the remainder, and so can all but the high bit of the remainder in
front of it. -/
theorem step_agree (hg : g.getLsbD 0 = true) (hk : k < w) (h : Agree (k + 1) (step g u a) (step g v b)) :
    (u.msb ^^ a) = (v.msb ^^ b) ∧ Agree k u v := by
  have hbit : (u.msb ^^ a) = (v.msb ^^ b) := by
    have h0 := h 0 (Nat.succ_pos k)
    rwa [step_zero hg, step_zero hg] at h0
  refine ⟨hbit, fun i hi => ?_⟩
  have hs := h (i + 1) (Nat.succ_lt_succ hi)
  rw [step_succ (by omega), step_succ (by omega), hbit] at hs
  simpa using hs

theorem feed_agree (hg : g.getLsbD 0 = true) (hl : xs.length = ys.length) (hk : k + xs.length ≤ w)
    (h : Agree (k + xs.length) (feed g u xs) (feed g v ys)) : Agree k u v := by
  induction xs generalizing u v ys k with
  | nil =>
    cases List.length_eq_zero_iff.mp hl.symm
    exact h
  | cons a xs ih =>
    cases ys with
    | nil => cases hl
    | cons b ys =>
      rw [List.length_cons] at hk
      have hnext : Agree (k + 1) (step g u a) (step g v b) := by
        refine ih (Nat.succ.inj hl) (by omega) ?_
        rw [List.length_cons, show k + (xs.length + 1) = k + 1 + xs.length by omega] at h
        exact h
      exact (step_agree hg (by omega) hnext).2

/-- As many bits as the remainder has are told from it. -/
theorem feed_bits (hg : g.getLsbD 0 = true) (hl : xs.length = ys.length) (hw : xs.length ≤ w)
    (h : feed g r xs = feed g r ys) : xs = ys := by
  induction xs generalizing r ys with
  | nil => exact (List.length_eq_zero_iff.mp hl.symm).symm
  | cons a xs ih =>
    cases ys with
    | nil => cases hl
    | cons b ys =>
      rw [List.length_cons] at hw
      have htail : xs.length = ys.length := Nat.succ.inj hl
      have hagree : Agree 1 (step g r a) (step g r b) := by
        refine feed_agree hg htail (by omega) fun i _ => ?_
        exact congrArg (·.getLsbD i) h
      obtain ⟨hbit, -⟩ := step_agree hg (by omega) hagree
      have hab : a = b := by simpa using hbit
      subst hab
      rw [ih htail (by omega) h]

/-- The same bits keep different remainders apart. -/
theorem feed_injective (hg : g.getLsbD 0 = true) (h : feed g u xs = feed g v xs) : u = v := by
  induction xs generalizing u v with
  | nil => exact h
  | cons a xs ih =>
    have hstep := ih h
    have hw : 0 < w := BitVec.lt_of_getLsbD hg
    obtain ⟨hbit, hlow⟩ := step_agree (k := w - 1) hg (by omega) (a := a) (b := a) (u := u) (v := v)
      (fun i _ => congrArg (·.getLsbD i) hstep)
    refine Agree.eq fun i hi => ?_
    by_cases hlast : i = w - 1
    · have hmsb : u.msb = v.msb := by simpa using hbit
      rwa [BitVec.msb_eq_getLsbD_last, BitVec.msb_eq_getLsbD_last, ← hlast] at hmsb
    · exact hlow i (by omega)

/-- Two messages that differ, and nowhere but in the `n` bits from the place `i` on. -/
structure Burst (n i : Nat) (xs ys : List Bool) : Prop where
  length : xs.length = ys.length
  outside : ∀ j, j < i ∨ i + n ≤ j → xs[j]? = ys[j]?
  ne : xs ≠ ys

theorem Burst.split {n i : Nat} (h : Burst n i xs ys) :
    ∃ p x y s, xs = p ++ x ++ s ∧ ys = p ++ y ++ s ∧ x.length = y.length ∧ x.length ≤ n ∧ x ≠ y := by
  have hp : xs.take i = ys.take i := by
    refine List.ext_getElem? fun j => ?_
    rw [List.getElem?_take, List.getElem?_take]
    split
    next hj => exact h.outside j (.inl hj)
    next => rfl
  have hs : xs.drop (i + n) = ys.drop (i + n) := by
    refine List.ext_getElem? fun j => ?_
    rw [List.getElem?_drop, List.getElem?_drop]
    exact h.outside _ (.inr (Nat.le_add_right _ _))
  have hsplit (zs : List Bool) : zs = zs.take i ++ (zs.drop i).take n ++ zs.drop (i + n) := by
    rw [List.append_assoc, ← List.drop_drop, List.take_append_drop, List.take_append_drop]
  refine ⟨xs.take i, (xs.drop i).take n, (ys.drop i).take n, xs.drop (i + n), hsplit xs, ?_, ?_, ?_, ?_⟩
  · rw [hp, hs]
    exact hsplit ys
  · simp only [List.length_take, List.length_drop, h.length]
  · exact List.length_take_le _ _
  · intro he
    refine h.ne ?_
    rw [hsplit xs, hsplit ys, hp, he, hs]

/-- A burst that is not longer than the remainder changes it. -/
theorem feed_burst {i : Nat} (hg : g.getLsbD 0 = true) (h : Burst w i xs ys) : feed g r xs ≠ feed g r ys := by
  obtain ⟨p, x, y, s, rfl, rfl, hl, hw, hne⟩ := h.split
  intro he
  rw [feed_append, feed_append, feed_append, feed_append] at he
  exact hne (feed_bits hg hl hw (feed_injective hg he))

/-! Feeding is linear. -/

theorem step_xor : step g (u ^^^ v) (a ^^ b) = step g u a ^^^ step g v b := by
  have hbit : ((u ^^^ v).msb ^^ (a ^^ b)) = ((u.msb ^^ a) ^^ (v.msb ^^ b)) := by
    rw [BitVec.msb_xor]
    cases u.msb <;> cases v.msb <;> cases a <;> cases b <;> rfl
  unfold step
  rw [hbit, BitVec.shiftLeft_xor_distrib]
  cases u.msb ^^ a <;> cases v.msb ^^ b
  · rfl
  · exact BitVec.xor_assoc _ _ _
  · simp only [Bool.xor_false, ↓reduceIte, Bool.false_eq_true]
    ac_rfl
  · simp only [Bool.xor_self, Bool.false_eq_true, ↓reduceIte]
    rw [show u <<< 1 ^^^ g ^^^ (v <<< 1 ^^^ g) = u <<< 1 ^^^ v <<< 1 ^^^ (g ^^^ g) by ac_rfl, BitVec.xor_self, BitVec.xor_zero]

theorem feed_xor (hl : xs.length = ys.length) :
    feed g (u ^^^ v) (xs.zipWith Bool.xor ys) = feed g u xs ^^^ feed g v ys := by
  induction xs generalizing u v ys with
  | nil =>
    cases List.length_eq_zero_iff.mp hl.symm
    rfl
  | cons a xs ih =>
    cases ys with
    | nil => cases hl
    | cons b ys =>
      rw [List.zipWith_cons_cons, feed_cons, step_xor, ih (Nat.succ.inj hl)]
      rfl

/-- A remainder that is fed to itself is shifted out. -/
theorem feed_self {n : Nat} (hn : n ≤ w) : feed g (r <<< (w - n)) (lowBits r n) = 0#w := by
  induction n with
  | zero => simp [lowBits]
  | succ n ih =>
    have hmsb : (r <<< (w - (n + 1))).msb = r.getLsbD n := by
      rw [BitVec.msb_eq_getLsbD_last, BitVec.getLsbD_shiftLeft]
      have hlt : w - 1 < w := by omega
      have hnot : ¬w - 1 < w - (n + 1) := by omega
      simp [hlt, hnot, show w - 1 - (w - (n + 1)) = n by omega]
    have hstep : step g (r <<< (w - (n + 1))) (r.getLsbD n) = r <<< (w - n) := by
      rw [step, hmsb, Bool.xor_self, if_neg Bool.false_ne_true, ← BitVec.shiftLeft_add,
        show w - (n + 1) + 1 = w - n by omega]
    rw [lowBits, feed_cons, hstep]
    exact ih (by omega)

theorem lowBits_xor (n : Nat) : lowBits (u ^^^ v) n = (lowBits u n).zipWith Bool.xor (lowBits v n) := by
  induction n with
  | zero => rfl
  | succ n ih => rw [lowBits, lowBits, lowBits, List.zipWith_cons_cons, ih, BitVec.getLsbD_xor]

/-- Behind a word the remainder is that of the difference of the word and the remainder in front of it. -/
theorem feed_word : feed g r (lowBits v w) = feed g 0#w (lowBits (r ^^^ v) w) := by
  have hself : feed g r (lowBits r w) = 0#w := by simpa using feed_self (g := g) (r := r) (Nat.le_refl w)
  have hsum := feed_xor (g := g) (u := r) (v := r) (show (lowBits r w).length = (lowBits v w).length by simp)
  rw [← lowBits_xor, BitVec.xor_self, hself, BitVec.zero_xor] at hsum
  exact hsum.symm

/-- The complement of the remainder, fed to it, leaves a remainder that depends on nothing. No other word
leaves it. -/
theorem feed_complement (hg : g.getLsbD 0 = true) :
    feed g r (lowBits v w) = feed g 0#w (lowBits (BitVec.allOnes w) w) ↔ v = ~~~r := by
  constructor
  · intro h
    rw [feed_word] at h
    have hbits := eq_of_lowBits (feed_bits hg (by simp) (by simp) h)
    rw [← BitVec.xor_allOnes, ← hbits, ← BitVec.xor_assoc, BitVec.xor_self, BitVec.zero_xor]
  · rintro rfl
    have hones : r ^^^ ~~~r = BitVec.allOnes w := by
      rw [← BitVec.xor_allOnes, ← BitVec.xor_assoc, BitVec.xor_self, BitVec.zero_xor]
    rw [feed_word, hones]

end Crc
