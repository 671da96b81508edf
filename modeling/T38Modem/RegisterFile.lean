import T38Modem.Profile

namespace T38Modem

namespace Profile

variable {p p' q : Profile} {r r' i b bl bh : Nat} {v val : Byte}

/-- A bit of a register. -/
def bit (p : Profile) (r i : Nat) : Bool := ((p.load r).getD 0).getLsbD i

theorem bit_ge (h : 8 ≤ i) : p.bit r i = false := BitVec.getLsbD_of_ge _ _ h

theorem load_eq (h : r < 60) : p.load r = some p.S[r] := Vector.getElem?_eq_getElem h

theorem load_bit (h : p.load r = some v) : v.getLsbD i = p.bit r i := by
  rw [bit, h, Option.getD_some]

theorem store_some (h : r < 60) : ∃ p', p.store r v = some p' := ⟨_, dif_pos h⟩

theorem store_load (h : p.store r v = some p') : p'.load r' = if r' = r then some v else p.load r' := by
  unfold store at h
  split at h
  next hr =>
    cases h
    simp only [load, Vector.getElem?_set]
    simp only [eq_comm (a := r)]
  next => cases h

theorem store_bit (h : p.store r v = some p') : p'.bit r' i = if r' = r then v.getLsbD i else p.bit r' i := by
  rw [bit, store_load h]
  split <;> rfl

theorem maskB_bit (hb : b ≤ 7) (i : Nat) : (maskB b).getLsbD i = decide (i = b) := by
  have hall : ∀ b < 8, ∀ i < 8, (maskB b).getLsbD i = decide (i = b) := by decide
  by_cases hi : i < 8
  · exact hall b (by omega) i hi
  · rw [BitVec.getLsbD_of_ge _ _ (by omega)]
    exact (decide_eq_false (by omega)).symm

theorem maskBB_bit (hl : bl ≤ bh) (hh : bh ≤ 7) (i : Nat) :
    (maskBB bl bh).getLsbD i = decide (bl ≤ i ∧ i ≤ bh) := by
  have hall : ∀ bl < 8, ∀ bh < 8, bl ≤ bh → ∀ i < 8, (maskBB bl bh).getLsbD i = decide (bl ≤ i ∧ i ≤ bh) := by
    decide
  by_cases hi : i < 8
  · exact hall bl (by omega) bh (by omega) hl i hi
  · rw [BitVec.getLsbD_of_ge _ _ (by omega)]
    exact (decide_eq_false (by omega)).symm

theorem chkRB_iff : chkRB r b = true ↔ r < 60 ∧ b ≤ 7 := by
  rw [chkRB, chkR, chkB, Bool.and_eq_true, decide_eq_true_iff, decide_eq_true_iff]
  rfl

theorem chkRBB_iff : chkRBB r bl bh = true ↔ r < 60 ∧ bl ≤ 7 ∧ bh ≤ 7 ∧ bl ≤ bh := by
  rw [chkRBB, chkR, chkB, chkB]
  simp only [Bool.and_eq_true, decide_eq_true_iff, and_assoc]
  rfl

theorem setBit_bit (hr : r < 60) (hb : b ≤ 7) (x : Bool) :
    ∃ p', p.setBit r b x = some (true, p') ∧ ∀ r' i, p'.bit r' i = if r' = r ∧ i = b then x else p.bit r' i := by
  obtain ⟨p', hs⟩ := store_some (p := p) (v := if x then p.S[r] ||| maskB b else p.S[r] &&& ~~~maskB b) hr
  refine ⟨p', ?_, fun r' i => ?_⟩
  · rw [setBit, chkRB_iff.mpr ⟨hr, hb⟩, load_eq hr]
    simp only [Bool.not_true, Bool.false_eq_true, if_false, Option.bind_eq_bind, Option.bind_some, hs]
  · rw [store_bit hs]
    by_cases hr' : r' = r
    · subst hr'
      have hmask := maskB_bit hb i
      have hload := load_bit (p := p) (i := i) (load_eq hr)
      rcases Nat.lt_or_ge i 8 with hi | hi
      · by_cases hib : i = b <;> cases x <;> simp_all
      · rw [if_pos rfl, BitVec.getLsbD_of_ge _ _ hi, bit_ge hi, if_neg (by omega)]
    · rw [if_neg hr', if_neg fun h => hr' h.1]

theorem setReg_bit (hr : r < 60) :
    ∃ p', p.setReg r v = some (true, p') ∧ ∀ r' i, p'.bit r' i = if r' = r then v.getLsbD i else p.bit r' i := by
  obtain ⟨p', hs⟩ := store_some (p := p) (v := v) hr
  refine ⟨p', ?_, fun r' i => store_bit hs⟩
  rw [setReg, show chkR r = true from decide_eq_true hr]
  simp only [Bool.not_true, Bool.false_eq_true, if_false, Option.bind_eq_bind, Option.bind_some, hs]

/-- `SetBits` clears the whole register, whatever the field and its value. -/
theorem setBits_bit (hr : r < 60) (hl : bl ≤ 7) (hh : bh ≤ 7) (hlh : bl ≤ bh) :
    ∃ p', p.setBits r bl bh v = some (true, p') ∧
      ∀ r' i, p'.bit r' i = if r' = r then false else p.bit r' i := by
  obtain ⟨p₁, hs⟩ := store_some (p := p) (v := p.S[r] &&& ~~~maskBB bl bh) hr
  obtain ⟨p', hs₁⟩ := store_some (p := p₁) (v := p₁.S[r] &&& ((v <<< bl) &&& maskBB bl bh)) hr
  refine ⟨p', ?_, fun r' i => ?_⟩
  · rw [setBits, chkRBB_iff.mpr ⟨hr, hl, hh, hlh⟩, load_eq hr]
    simp only [Bool.not_true, Bool.false_eq_true, if_false, Option.bind_eq_bind, Option.bind_some, hs,
      load_eq (p := p₁) hr, hs₁]
  · rw [store_bit hs₁]
    by_cases hr' : r' = r
    · subst hr'
      have hload := load_bit (p := p₁) (i := i) (load_eq hr)
      have hfirst := @store_bit p p₁ r' r' i _ hs
      rw [if_pos rfl] at hfirst
      rw [if_pos rfl, if_pos rfl, BitVec.getLsbD_and, BitVec.getLsbD_and, hload, hfirst, BitVec.getLsbD_and,
        BitVec.getLsbD_not]
      cases (maskBB bl bh).getLsbD i <;> simp
    · rw [if_neg hr', if_neg hr', store_bit hs, if_neg hr']

theorem getBit_bit (hr : r < 60) (hb : b ≤ 7) : p.getBit r b = some (true, p.bit r b) := by
  rw [getBit, chkRB_iff.mpr ⟨hr, hb⟩, load_eq hr]
  simp only [Bool.not_true, Bool.false_eq_true, if_false, Option.bind_eq_bind, Option.bind_some]
  have hload := load_bit (p := p) (i := b) (load_eq hr)
  have hmask : ∀ b < 8, maskB b = BitVec.twoPow 8 b := by decide
  rw [hmask b (by omega), BitVec.and_twoPow, hload]
  cases p.bit r b
  · rfl
  · simp only [if_true]
    have hne : ∀ b < 8, BitVec.twoPow 8 b ≠ 0 := by decide
    simpa using hne b (by omega)

theorem getReg_bit (hr : r < 60) : ∃ v, p.getReg r = some (true, v) ∧ ∀ j, v.getLsbD j = p.bit r j := by
  refine ⟨p.S[r], ?_, fun j => load_bit (load_eq hr)⟩
  rw [getReg, show chkR r = true from decide_eq_true hr, load_eq hr]
  rfl

theorem getBits_bit (hr : r < 60) (hl : bl ≤ 7) (hh : bh ≤ 7) (hlh : bl ≤ bh) :
    ∃ v, p.getBits r bl bh = some (true, v) ∧
      ∀ j, v.getLsbD j = (decide (j < bh + 1 - bl) && p.bit r (bl + j)) := by
  refine ⟨(p.S[r] &&& maskBB bl bh) >>> bl, ?_, fun j => ?_⟩
  · rw [getBits, chkRBB_iff.mpr ⟨hr, hl, hh, hlh⟩, load_eq hr]
    rfl
  · rw [BitVec.getLsbD_ushiftRight, BitVec.getLsbD_and, maskBB_bit hlh hh, load_bit (load_eq hr), Bool.and_comm]
    congr 1
    exact decide_eq_decide.mpr (by omega)

/-- The registers that are copied come from the other profile, if all of them are in the array. -/
theorem copyRegs_bit {rs : List Nat} (h : ∀ r ∈ rs, r < 60) :
    ∃ p', p.copyRegs q rs = some p' ∧ ∀ r i, p'.bit r i = if r ∈ rs then q.bit r i else p.bit r i := by
  induction rs generalizing p with
  | nil => exact ⟨p, rfl, fun r i => by simp⟩
  | cons r rs ih =>
    have hr : r < 60 := h r (by simp)
    obtain ⟨p₁, hs⟩ := store_some (p := p) (v := q.S[r]) hr
    obtain ⟨p', hp', hbit⟩ := ih (p := p₁) fun x hx => h x (by simp [hx])
    refine ⟨p', ?_, fun x i => ?_⟩
    · simpa only [copyRegs, List.foldlM_cons, load_eq hr, hs, Option.bind_eq_bind, Option.bind_some] using hp'
    · rw [hbit, store_bit hs, load_bit (load_eq hr)]
      by_cases hx : x = r
      · subst hx
        simp
      · simp [hx]

/-- `operator=` goes on to the register behind the last. -/
theorem assign_none : p.assign q = none := by
  have hlast : (List.range (profileSize + 1)) = List.range 60 ++ [60] := List.range_succ
  have hload : q.load 60 = none := Vector.getElem?_eq_none (Nat.le_refl _)
  obtain ⟨p', hp', -⟩ := @copyRegs_bit p q (List.range 60) fun r hr => List.mem_range.mp hr
  have hcopy : p.copyRegs q (List.range (profileSize + 1)) = none := by
    rw [copyRegs] at hp' ⊢
    rw [hlast, List.foldlM_append, hp']
    simp [hload]
  rw [assign, hcopy]
  rfl

end Profile

end T38Modem
