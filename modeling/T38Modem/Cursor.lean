import Mathlib.Data.List.GetD
import Mathlib.Data.List.Induction
import Mathlib.Data.List.TakeWhile
import Mathlib.Algebra.Group.Nat.Even

def Cursor.nul : Char := Char.ofNat 0

/-- A pointer into a line of characters that a NUL ends. -/
structure Cursor where
  line : List Char
  pos : Nat
  noNul : Cursor.nul ∉ line
  deriving DecidableEq

namespace Cursor

/-- The NUL may be read, and nothing behind it. -/
def Inside (c : Cursor) : Prop := c.pos ≤ c.line.length

instance (c : Cursor) : Decidable c.Inside := inferInstanceAs (Decidable (_ ≤ _))

/-- The character that the pointer points to, or `none` where it may not be read. -/
def read (c : Cursor) : Option Char := if c.pos ≤ c.line.length then some (c.line.getD c.pos nul) else none

/-- The characters from the pointer on. -/
def rest (c : Cursor) : List Char := c.line.drop c.pos

def skip (c : Cursor) (n : Nat) : Cursor := { c with pos := c.pos + n }

variable {c : Cursor} {x : Char} {w : List Char} {n : Nat}

@[simp] theorem skip_line : (c.skip n).line = c.line := rfl

@[simp] theorem skip_pos : (c.skip n).pos = c.pos + n := rfl

theorem read_inside (h : c.Inside) : c.read = some (c.line.getD c.pos nul) := if_pos h

theorem read_some (h : c.read = some x) : c.Inside ∧ x = c.line.getD c.pos nul := by
  unfold read at h
  split at h
  next hc => exact ⟨hc, (Option.some.inj h).symm⟩
  next => cases h

/-- Behind a character other than the NUL the pointer is still in the line. -/
theorem skip_inside (h : c.read = some x) (hx : x ≠ nul) : (c.skip 1).Inside := by
  obtain ⟨hc, rfl⟩ := read_some h
  unfold Inside at hc ⊢
  by_contra hn
  simp only [skip_pos, skip_line] at hn
  have hlen : c.pos = c.line.length := by omega
  exact hx (by simp [hlen])

/-- The NUL is read at the end of the line and there alone. -/
theorem read_nul (h : c.Inside) : c.read = some nul ↔ c.rest = [] := by
  rw [read_inside h, rest, List.drop_eq_nil_iff, Option.some.injEq]
  constructor
  · intro hn
    by_contra hlt
    have hlt : c.pos < c.line.length := by omega
    rw [List.getD_eq_getElem _ _ hlt] at hn
    exact c.noNul (hn ▸ List.getElem_mem hlt)
  · exact fun hl => List.getD_eq_default _ _ hl

theorem rest_cons (h : c.read = some x) (hx : x ≠ nul) : c.rest = x :: (c.skip 1).rest := by
  obtain ⟨hc, hd⟩ := read_some h
  have hne : c.rest ≠ [] := fun hr => hx (Option.some.inj (h.symm.trans ((read_nul hc).mpr hr)))
  have hlt : c.pos < c.line.length := by
    by_contra hn
    exact hne (List.drop_eq_nil_iff.mpr (by omega))
  rw [rest, List.drop_eq_getElem_cons hlt, hd, List.getD_eq_getElem _ _ hlt]
  rfl

theorem read_rest (h : c.Inside) : c.read = some (c.rest.headD nul) := by
  rw [read_inside h, rest, List.headD_eq_head?_getD, List.head?_drop, List.getD_eq_getElem?_getD]

theorem rest_length : c.rest.length = c.line.length - c.pos := List.length_drop

/-- What a word without the NUL is read over is in the line. -/
theorem word_inside (h : w <+: c.rest) (hc : c.Inside) : (c.skip w.length).Inside := by
  have hl := h.length_le
  rw [rest_length] at hl
  unfold Inside at hc ⊢
  simp only [skip_pos, skip_line]
  omega

theorem takeWhile_inside (p : Char → Bool) (hc : c.Inside) : (c.skip (c.rest.takeWhile p).length).Inside :=
  word_inside (List.takeWhile_prefix p) hc

end Cursor
