import Mathlib.Data.Nat.Digits.Lemmas
import T38Modem.CommandRounds

namespace T38Modem

namespace Cmd

def digit (c : Char) : Nat := c.toNat - '0'.toNat

/-- The value of a string of digits, however long. -/
def decimal (ds : List Char) : Nat := Nat.ofDigits 10 (ds.reverse.map digit)

variable {ds : List Char} {c : Cursor} {minDigits maxDigits : Nat} {maxNum defNum : Int}

theorem digit_lt {ch : Char} (h : ch.isDigit = true) : digit ch < 10 := by
  have h9 : ch.toNat ≤ '9'.toNat := by
    simp only [Char.isDigit, Bool.and_eq_true, decide_eq_true_eq] at h
    exact h.2
  have h9' : ('9'.toNat : Nat) = 57 := rfl
  have h0 : ('0'.toNat : Nat) = 48 := rfl
  unfold digit
  omega

theorem decimal_lt (h : ∀ ch ∈ ds, ch.isDigit = true) : decimal ds < 10 ^ ds.length := by
  have hlt := Nat.ofDigits_lt_base_pow_length (b := 10) (l := ds.reverse.map digit) (by decide) (by
    intro d hd
    obtain ⟨ch, hch, rfl⟩ := List.mem_map.mp hd
    exact digit_lt (h ch (List.mem_reverse.mp hch)))
  simpa [decimal] using hlt

theorem int32_eq {n : Nat} (h : n < 2 ^ 31) : int32 n = n := by
  unfold int32
  exact Int.bmod_eq_of_le (by omega) (by omega)

/-- Up to nine digits the `int` does not wrap around. -/
theorem value_eq (h : ∀ ch ∈ ds, ch.isDigit = true) (hl : ds.length ≤ 9) : value ds = decimal ds := by
  induction ds using List.reverseRecOn with
  | nil => rfl
  | append_singleton ds ch ih =>
    have hds : ∀ ch ∈ ds, ch.isDigit = true := fun x hx => h x (List.mem_append_left _ hx)
    have hlen : ds.length < 9 := by simpa using hl
    have hv : value (ds ++ [ch]) = int32 (value ds * 10 + digit ch) := by simp [value, digit]
    have hd : decimal (ds ++ [ch]) = decimal ds * 10 + digit ch := by
      simp [decimal, Nat.ofDigits_cons]
      omega
    have hlt : decimal (ds ++ [ch]) < 2 ^ 31 := by
      have h1 := decimal_lt h
      have h2 : 10 ^ (ds ++ [ch]).length ≤ 10 ^ 9 := Nat.pow_le_pow_right (by decide) hl
      omega
    rw [hv, ih hds (by omega), ← int32_eq hlt, hd]
    push_cast
    rfl

/-- `ParseNum` returns -1, the default or the value of the digits, and points behind them. -/
theorem parseNum_value (hc : c.Inside) (hmax : maxDigits ≤ 9) : ∃ v,
    parseNum c minDigits maxDigits maxNum defNum = some (v, c.skip (digits c.rest).length) ∧
    (v = -1 ∨ v = defNum ∧ digits c.rest = [] ∨ 0 ≤ v ∧ v ≤ maxNum ∧ v = decimal (digits c.rest)) := by
  have hdigits : ∀ ch ∈ digits c.rest, ch.isDigit = true := fun _ h => (List.mem_takeWhile_imp h :)
  unfold parseNum
  rw [Cursor.read_inside hc]
  dsimp only
  split
  next => exact ⟨-1, rfl, .inl rfl⟩
  next hn =>
    split
    next hz => exact ⟨defNum, rfl, .inr (.inl ⟨rfl, List.length_eq_zero_iff.mp hz⟩)⟩
    next =>
      have hv := value_eq hdigits (by omega)
      exact ⟨_, rfl, .inr (.inr ⟨by omega, by omega, hv⟩)⟩

theorem digits_end (c : Cursor) : (c.skip (digits c.rest).length).rest = c.rest.dropWhile Char.isDigit := by
  rw [Cursor.rest, Cursor.skip_line, Cursor.skip_pos, ← List.drop_drop]
  calc c.rest.drop (digits c.rest).length
      = (digits c.rest ++ c.rest.dropWhile Char.isDigit).drop (digits c.rest).length := by
        rw [digits, List.takeWhile_append_dropWhile]
    _ = c.rest.dropWhile Char.isDigit := List.drop_left

end Cmd

open Cmd in
/-- The parser ends on every line, from every state of the modem and of the registers, and reads nothing
behind the NUL: a round that goes behind it raises the error. `ParseNum`, whose callers allow five digits
at most, does not wrap around, and leaves the pointer behind the digits. -/
theorem handleCmdRest_bounds (w : Nat → World) (s : CmdLine) :
    (∃ u, s.handleCmdRest w = some u) ∧
    (∀ t, CmdLine.Rounds w s.start t → t.err = true ∨ t.Inside) ∧
    ∀ (c : Cursor) (minDigits maxDigits : Nat) (maxNum defNum : Int), c.Inside → maxDigits ≤ 9 →
      ∃ v c', parseNum c minDigits maxDigits maxNum defNum = some (v, c') ∧
        c'.line = c.line ∧ c'.Inside ∧ c'.rest = c.rest.dropWhile Char.isDigit ∧
        (v = -1 ∨ v = defNum ∧ digits c.rest = [] ∨ 0 ≤ v ∧ v ≤ maxNum ∧ v = decimal (digits c.rest)) := by
  refine ⟨?_, fun t ht => ht.inside s.start_inside, ?_⟩
  · obtain ⟨u, hu, _⟩ := CmdLine.handleCmdRest_some w s
    exact ⟨u.finish, hu⟩
  · intro c minDigits maxDigits maxNum defNum hc hmax
    obtain ⟨v, hv, h⟩ := parseNum_value hc hmax
    exact ⟨v, _, hv, rfl, Cursor.takeWhile_inside _ hc, digits_end c, h⟩

end T38Modem
