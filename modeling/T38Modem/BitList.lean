import Mathlib.Data.List.Basic

namespace BitList

/-- The low `n` bits of a word as a list, the most significant of them first. -/
def lowBits {w : Nat} (v : BitVec w) : Nat → List Bool
  | 0 => []
  | n + 1 => v.getLsbD n :: lowBits v n

@[simp] theorem length_lowBits {w : Nat} (v : BitVec w) (n : Nat) : (lowBits v n).length = n := by
  induction n with
  | zero => rfl
  | succ n ih => simp [lowBits, ih]

theorem lowBits_congr {w u : Nat} {v : BitVec w} {x : BitVec u} {n : Nat}
    (h : ∀ i < n, v.getLsbD i = x.getLsbD i) : lowBits v n = lowBits x n := by
  induction n with
  | zero => rfl
  | succ n ih => simp only [lowBits, h n (by omega), ih fun i hi => h i (by omega)]

theorem lowBits_inj {w : Nat} {v x : BitVec w} {n : Nat} (h : lowBits v n = lowBits x n) :
    ∀ i < n, v.getLsbD i = x.getLsbD i := by
  induction n with
  | zero => intro i hi; omega
  | succ n ih =>
    obtain ⟨hn, ht⟩ := List.cons.inj h
    intro i hi
    rcases Nat.lt_or_eq_of_le (Nat.le_of_lt_succ hi) with lt | rfl
    · exact ih ht i lt
    · exact hn

theorem eq_of_lowBits {w : Nat} {v x : BitVec w} (h : lowBits v w = lowBits x w) : v = x :=
  BitVec.eq_of_getLsbD_eq (fun i hi => lowBits_inj h i hi)

theorem lowBits_add {w : Nat} (v : BitVec w) (m n : Nat) :
    lowBits v (m + n) = lowBits (v >>> n) m ++ lowBits v n := by
  induction m with
  | zero => simp [lowBits]
  | succ m ih =>
    rw [show m + 1 + n = (m + n) + 1 by omega, lowBits, ih]
    simp [lowBits, Nat.add_comm]

/-- A word whose bits are those of another moved up by one place ends in the bit let in. -/
theorem lowBits_snoc {w u : Nat} {v : BitVec w} {x : BitVec u} {n : Nat} {b : Bool}
    (hb : v.getLsbD 0 = b) (h : ∀ i < n, v.getLsbD (i + 1) = x.getLsbD i) :
    lowBits v (n + 1) = lowBits x n ++ [b] := by
  induction n with
  | zero => simp only [lowBits, hb, List.nil_append]
  | succ n ih =>
    rw [lowBits, h n (by omega), ih fun i hi => h i (by omega)]
    rfl

theorem and_ne_zero_iff {w : Nat} (v : BitVec w) (i : Nat) :
    v &&& BitVec.twoPow w i ≠ 0 ↔ v.getLsbD i = true := by
  rw [BitVec.and_twoPow]
  split
  next h =>
    refine iff_of_true ?_ h
    intro hz
    have hi : i < w := BitVec.lt_of_getLsbD h
    have := congrArg (fun x => x.getLsbD i) hz
    simp [hi] at this
  next h => simp [h]

/-- The bits of a string of octets in the order they are sent, the high bit of each octet first. -/
def octetBits (bs : List (BitVec 8)) : List Bool :=
  bs.flatMap fun b => lowBits b 8

@[simp] theorem octetBits_nil : octetBits [] = [] := rfl

@[simp] theorem octetBits_cons (b : BitVec 8) (bs : List (BitVec 8)) :
    octetBits (b :: bs) = lowBits b 8 ++ octetBits bs := rfl

@[simp] theorem octetBits_append (bs cs : List (BitVec 8)) :
    octetBits (bs ++ cs) = octetBits bs ++ octetBits cs := by
  simp [octetBits]

@[simp] theorem length_octetBits (bs : List (BitVec 8)) : (octetBits bs).length = 8 * bs.length := by
  induction bs with
  | nil => rfl
  | cons b bs ih => simp [ih]; omega

theorem octetBits_inj {bs cs : List (BitVec 8)} (h : octetBits bs = octetBits cs) : bs = cs := by
  induction bs generalizing cs with
  | nil =>
    have hl := congrArg List.length h
    cases cs with
    | nil => rfl
    | cons c cs => simp at hl; omega
  | cons b bs ih =>
    cases cs with
    | nil =>
      have hl := congrArg List.length h
      simp at hl
    | cons c cs =>
      simp only [octetBits_cons] at h
      obtain ⟨hb, ht⟩ := List.append_inj h (by simp)
      rw [eq_of_lowBits hb, ih ht]

end BitList
