import Mathlib.Data.List.Basic
import Mathlib.Tactic.Common

namespace BitStuffing

/-- The delimiter of frames on the line, six ones between two zeros. -/
def flag : List Bool := [false, true, true, true, true, true, true, false]

/-- A number of flags one after another. -/
def flags (n : Nat) : List Bool := (List.replicate n flag).flatten

@[simp] theorem flags_zero : flags 0 = [] := rfl

theorem flags_succ (n : Nat) : flags (n + 1) = flag ++ flags n := by
  simp [flags, List.replicate_succ]

theorem flags_succ_append (n : Nat) (ys : List Bool) : flags (n + 1) ++ ys = flag ++ (flags n ++ ys) := by
  rw [flags_succ, List.append_assoc]

/-- Zero-bit insertion. The number is the length of the run of ones just sent. -/
def stuff : Nat → List Bool → List Bool
  | _, [] => []
  | _, false :: xs => false :: stuff 0 xs
  | k, true :: xs => if k + 1 = 5 then true :: false :: stuff 0 xs else true :: stuff (k + 1) xs

/-- The run of ones that a stuffed string leaves behind. -/
def onesAfter : Nat → List Bool → Nat
  | k, [] => k
  | _, false :: xs => onesAfter 0 xs
  | k, true :: xs => if k + 1 = 5 then onesAfter 0 xs else onesAfter (k + 1) xs

theorem stuff_append (k : Nat) (xs ys : List Bool) :
    stuff k (xs ++ ys) = stuff k xs ++ stuff (onesAfter k xs) ys := by
  induction xs generalizing k with
  | nil => rfl
  | cons b xs ih =>
    cases b with
    | false => simp [stuff, onesAfter, ih]
    | true =>
      simp only [List.cons_append, stuff, onesAfter]
      split <;> simp [ih]

theorem onesAfter_append (k : Nat) (xs ys : List Bool) :
    onesAfter k (xs ++ ys) = onesAfter (onesAfter k xs) ys := by
  induction xs generalizing k with
  | nil => rfl
  | cons b xs ih =>
    cases b with
    | false => simp [onesAfter, ih]
    | true =>
      simp only [List.cons_append, onesAfter]
      split <;> simp [ih]

/-- Six ones in a row, the run before the string counted, never occur before the next flag. -/
theorem stuff_run_lt_six {k : Nat} (hk : k < 5) (xs rest : List Bool) :
    ¬List.replicate (6 - k) true <+: stuff k xs ++ flag ++ rest := by
  induction xs generalizing k with
  | nil =>
    rw [show 6 - k = (5 - k) + 1 by omega]
    simp [stuff, flag, List.replicate_succ]
  | cons b xs ih =>
    rw [show 6 - k = (5 - k) + 1 by omega, List.replicate_succ]
    cases b with
    | false => simp [stuff]
    | true =>
      simp only [stuff]
      split
      next h =>
        have hk4 : k = 4 := by omega
        subst k
        simp
      next h =>
        have hr := ih (k := k + 1) (by omega)
        rw [show 6 - (k + 1) = 5 - k by omega] at hr
        simpa using hr

theorem flag_prefix_of_take {xs : List Bool} (h : xs.take 8 = flag) : flag <+: xs := by
  rw [← h]
  exact List.take_prefix _ _

/-- What is still to be sent of a stuffed frame never looks like a flag. -/
theorem stuff_take_ne_flag (k : Nat) {xs : List Bool} (hx : xs ≠ []) (rest : List Bool) :
    (stuff k xs ++ flag ++ rest).take 8 ≠ flag := by
  intro h
  have hp : flag <+: stuff k xs ++ flag ++ rest := flag_prefix_of_take h
  cases xs with
  | nil => exact hx rfl
  | cons b xs =>
    cases b with
    | false =>
      have run := stuff_run_lt_six (k := 0) (by omega) xs rest
      apply run
      have ht : List.replicate 6 true ++ [false] <+: stuff 0 xs ++ flag ++ rest := by
        simpa [stuff, flag] using hp
      exact (List.prefix_append _ _).trans ht
    | true =>
      simp only [stuff] at hp
      split at hp <;> simp [flag] at hp

/-- The run of ones after a received bit. -/
def nextOnes (ones : Nat) : Bool → Nat
  | true => ones + 1
  | false => 0

/-- Zero-bit deletion of one received bit, the bit after five ones being dropped if it is zero. -/
def destuffBit (ones : Nat) (acc : List Bool) : Bool → List Bool
  | true => acc ++ [true]
  | false => if ones = 5 then acc else acc ++ [false]

inductive Scan where
  | more (ones : Nat) (acc rest : List Bool)
  | found (acc rest : List Bool)
  deriving DecidableEq, Repr

/-- Look for the next flag, deleting the stuffed bits on the way. A bit is taken only while the
eight bits that begin with it are known, so up to seven bits stay unread. -/
def scan (ones : Nat) (acc : List Bool) : List Bool → Scan
  | [] => .more ones acc []
  | b :: rest =>
    if rest.length < 7 then .more ones acc (b :: rest)
    else if (b :: rest).take 8 = flag then .found acc (rest.drop 7)
    else scan (nextOnes ones b) (destuffBit ones acc b) rest

/-- Go on with what a scan left unread and the bits that came since. -/
def Scan.resume (ys : List Bool) : Scan → Scan
  | .more ones acc rest => scan ones acc (rest ++ ys)
  | .found acc rest => .found acc (rest ++ ys)

theorem scan_append (ones : Nat) (acc xs ys : List Bool) :
    scan ones acc (xs ++ ys) = (scan ones acc xs).resume ys := by
  induction xs generalizing ones acc with
  | nil => rfl
  | cons b xs ih =>
    rw [scan]
    split
    next => rfl
    next hl =>
      have hl' : ¬(xs ++ ys).length < 7 := by simp; omega
      have ht : (b :: (xs ++ ys)).take 8 = (b :: xs).take 8 := by
        rw [← List.cons_append, List.take_append_of_le_length (by simp; omega)]
      rw [List.cons_append, scan, if_neg hl', ht]
      split
      next =>
        rw [List.drop_append_of_le_length (by omega)]
        rfl
      next => exact ih _ _

/-- Put bits in front of those a scan has kept. -/
def Scan.prepend (front : List Bool) : Scan → Scan
  | .more ones acc rest => .more ones (front ++ acc) rest
  | .found acc rest => .found (front ++ acc) rest

theorem destuffBit_append (ones : Nat) (front acc : List Bool) (b : Bool) :
    destuffBit ones (front ++ acc) b = front ++ destuffBit ones acc b := by
  cases b with
  | true => simp [destuffBit]
  | false =>
    simp only [destuffBit]
    split <;> simp

theorem scan_prepend (ones : Nat) (front acc xs : List Bool) :
    scan ones (front ++ acc) xs = (scan ones acc xs).prepend front := by
  induction xs generalizing ones acc with
  | nil => rfl
  | cons b xs ih =>
    rw [scan, scan]
    split
    next => rfl
    next =>
      split
      next => rfl
      next => rw [destuffBit_append, ih]

theorem scan_found_length {ones : Nat} {acc a xs rest : List Bool}
    (h : scan ones acc xs = .found a rest) : rest.length + 8 ≤ xs.length := by
  induction xs generalizing ones acc with
  | nil => cases h
  | cons b xs ih =>
    rw [scan] at h
    split at h
    next => cases h
    next hl =>
      split at h
      next =>
        cases h
        simp
        omega
      next =>
        have := ih h
        simp
        omega

theorem destuffBit_length (ones : Nat) (acc : List Bool) (b : Bool) :
    (destuffBit ones acc b).length ≤ acc.length + 1 := by
  cases b with
  | true => simp [destuffBit]
  | false =>
    simp only [destuffBit]
    split <;> simp

/-- No more bits are kept than there are in front of the flag. -/
theorem scan_found_kept {ones : Nat} {acc a xs rest : List Bool}
    (h : scan ones acc xs = .found a rest) : a.length + rest.length + 8 ≤ acc.length + xs.length := by
  induction xs generalizing ones acc with
  | nil => cases h
  | cons b xs ih =>
    rw [scan] at h
    split at h
    next => cases h
    next hl =>
      split at h
      next =>
        cases h
        simp
        omega
      next =>
        have := ih h
        have := destuffBit_length ones acc b
        simp
        omega

theorem scan_short {ones : Nat} {acc xs : List Bool} (h : xs.length < 8) :
    scan ones acc xs = .more ones acc xs := by
  cases xs with
  | nil => rfl
  | cons b xs => rw [scan, if_pos (by simp at h; omega)]

theorem scan_flag (ones : Nat) (acc rest : List Bool) :
    scan ones acc (flag ++ rest) = .found acc rest := by
  simp [flag, scan]

/-- A stuffed frame is read back up to its closing flag, whatever follows the flag. -/
theorem scan_stuff {k : Nat} (hk : k < 5) (acc xs rest : List Bool) :
    scan k acc (stuff k xs ++ flag ++ rest) = .found (acc ++ xs) rest := by
  induction xs generalizing k acc with
  | nil => simpa [stuff] using scan_flag k acc rest
  | cons b xs ih =>
    have hne := stuff_take_ne_flag k (List.cons_ne_nil b xs) rest
    have hlong : ∀ ys : List Bool, ¬(ys ++ flag ++ rest).length < 7 := by
      intro ys
      simp [flag]
      omega
    cases b with
    | false =>
      simp only [stuff, List.cons_append] at hne ⊢
      rw [scan, if_neg (hlong _), if_neg hne]
      simp only [nextOnes, destuffBit, if_neg (show k ≠ 5 by omega)]
      rw [ih (by omega)]
      simp
    | true =>
      simp only [stuff] at hne ⊢
      split at hne
      next h5 =>
        -- the fifth one is followed by the stuffed zero, which the receiver takes out again
        have hz : (false :: (stuff 0 xs ++ flag ++ rest)).take 8 ≠ flag := by
          intro h
          have hp := flag_prefix_of_take h
          have ht : List.replicate 6 true ++ [false] <+: stuff 0 xs ++ flag ++ rest := by
            simpa [flag] using hp
          exact stuff_run_lt_six (k := 0) (by omega) xs rest ((List.prefix_append _ _).trans ht)
        simp only [if_pos h5, List.cons_append] at hne ⊢
        rw [scan, if_neg (by simp [flag]; omega), if_neg hne, scan, if_neg (hlong _), if_neg hz]
        simp only [nextOnes, destuffBit, h5, if_true]
        rw [ih (by omega)]
        simp
      next h5 =>
        simp only [if_neg h5, List.cons_append] at hne ⊢
        rw [scan, if_neg (hlong _), if_neg hne]
        simp only [nextOnes, destuffBit]
        rw [ih (by omega)]
        simp

end BitStuffing
