import Mathlib.Data.List.Range
import Mathlib.Data.Nat.ModEq

/-! Stretches of an endless signal, given by the value at each position. -/

namespace Signal

variable {α : Type*} {f g : Nat → α} {p q m n c : Nat}

/-- The `n` values from position `p` on. -/
def window (f : Nat → α) (p n : Nat) : List α := (List.range' p n).map f

@[simp] theorem window_zero : window f p 0 = [] := rfl

@[simp] theorem length_window : (window f p n).length = n := by simp [window]

theorem window_append : window f p m ++ window f (p + m) n = window f p (m + n) := by
  rw [window, window, window, ← List.map_append, List.range'_append_1]

theorem window_get (i : Nat) (h : i < n) : (window f p n)[i]? = some (f (p + i)) := by
  simp [window, h]

theorem window_congr (h : ∀ i < n, f (p + i) = g (q + i)) : window f p n = window g q n := by
  apply List.ext_getElem?
  intro i
  by_cases hi : i < n
  · rw [window_get i hi, window_get i hi, h i hi]
  · rw [List.getElem?_eq_none (by simpa using hi), List.getElem?_eq_none (by simpa using hi)]

/-- A signal of period `c` looks the same from all positions that are equal up to periods. -/
theorem window_mod (hf : ∀ p, f (p % c) = f p) (h : p % c = q % c) : window f p n = window f q n := by
  apply window_congr
  intro i _
  have hpq : (p + i) % c = (q + i) % c := Nat.ModEq.add_right i h
  rw [← hf (p + i), ← hf (q + i), hpq]

theorem window_const {a : α} (h : ∀ i < n, f (p + i) = a) : window f p n = List.replicate n a := by
  apply List.ext_getElem?
  intro i
  by_cases hi : i < n
  · rw [window_get i hi, h i hi, List.getElem?_replicate, if_pos hi]
  · rw [List.getElem?_eq_none (by simpa using hi), List.getElem?_eq_none (by simpa using hi)]

end Signal
