import Mathlib.Data.List.Basic

namespace Escape

variable {α : Type} [DecidableEq α] (esc stop : α)

/-- A string as it is sent when `esc` begins a control sequence: `esc` itself goes out twice. -/
def stuff : List α → List α
  | [] => []
  | a :: as => if a = esc then esc :: esc :: stuff as else a :: stuff as

/-- What a reader knows after a part of a stuffed string: the data in it, whether an `esc` is
pending, whether the end was met, and what follows the end. -/
structure Reading (α : Type) where
  data : List α
  pending : Bool
  stopped : Bool
  rest : List α
  deriving DecidableEq

/-- The reading that goes on behind the data `xs`. -/
def Reading.after (xs : List α) (r : Reading α) : Reading α := { r with data := xs ++ r.data }

/-- The reference reader. An `esc` pair stands for `esc`, `esc stop` for the end, and any other pair
for nothing. -/
def scan : Bool → List α → Reading α
  | pending, [] => ⟨[], pending, false, []⟩
  | false, a :: as => if a = esc then scan true as else (scan false as).after [a]
  | true, a :: as =>
    if a = esc then (scan false as).after [esc]
    else if a = stop then ⟨[], false, true, as⟩
    else scan false as

variable {esc stop} {xs ys : List α} {a : α} {p : Bool}

omit [DecidableEq α] in
@[simp] theorem Reading.after_nil (r : Reading α) : r.after [] = r := rfl

omit [DecidableEq α] in
@[simp] theorem Reading.after_rest (r : Reading α) : (r.after xs).rest = r.rest := rfl

omit [DecidableEq α] in
@[simp] theorem Reading.after_after (r : Reading α) : (r.after ys).after xs = r.after (xs ++ ys) := by
  simp [Reading.after]

theorem stuff_append : stuff esc (xs ++ ys) = stuff esc xs ++ stuff esc ys := by
  induction xs with
  | nil => rfl
  | cons a xs ih =>
    simp only [List.cons_append, stuff, ih]
    split <;> rfl

theorem length_stuff_le : (stuff esc xs).length ≤ 2 * xs.length := by
  induction xs with
  | nil => simp [stuff]
  | cons a xs ih =>
    simp only [stuff]
    split <;> simp only [List.length_cons] <;> omega

theorem length_le_stuff : xs.length ≤ (stuff esc xs).length := by
  induction xs with
  | nil => simp
  | cons a xs ih =>
    simp only [stuff]
    split <;> simp only [List.length_cons] <;> omega

theorem scan_escape : scan esc stop false (esc :: xs) = scan esc stop true xs := by
  simp [scan]

theorem scan_pair : scan esc stop true (esc :: xs) = (scan esc stop false xs).after [esc] := by
  simp [scan]

theorem scan_stop (h : esc ≠ stop) : scan esc stop true (stop :: xs) = ⟨[], false, true, xs⟩ := by
  simp [scan, h.symm]

theorem scan_other (h : a ≠ esc) (hs : a ≠ stop) :
    scan esc stop true (a :: xs) = scan esc stop false xs := by
  simp [scan, h, hs]

/-- A run without `esc` is data. -/
theorem scan_run (h : esc ∉ xs) :
    scan esc stop false (xs ++ ys) = (scan esc stop false ys).after xs := by
  induction xs with
  | nil => rfl
  | cons a xs ih =>
    have ha : esc ≠ a := List.ne_of_not_mem_cons h
    have ht : esc ∉ xs := List.not_mem_of_not_mem_cons h
    have hread : scan esc stop false (a :: (xs ++ ys)) = (scan esc stop false (xs ++ ys)).after [a] := by
      simp [scan, Ne.symm ha]
    rw [List.cons_append, hread, ih ht, Reading.after_after]
    rfl

/-- A stuffed string is read as the data it was made of. -/
theorem scan_stuff : scan esc stop false (stuff esc xs ++ ys) = (scan esc stop false ys).after xs := by
  induction xs with
  | nil => rfl
  | cons a xs ih =>
    by_cases ha : a = esc
    · subst ha
      have hs : stuff a (a :: xs) = a :: a :: stuff a xs := by simp [stuff]
      rw [hs, List.cons_append, List.cons_append, scan_escape, scan_pair, ih, Reading.after_after]
      rfl
    · have hs : stuff esc (a :: xs) = a :: stuff esc xs := by simp [stuff, ha]
      have hread : scan esc stop false (a :: (stuff esc xs ++ ys)) =
          (scan esc stop false (stuff esc xs ++ ys)).after [a] := by simp [scan, ha]
      rw [hs, List.cons_append, hread, ih, Reading.after_after]
      rfl

/-- The reader of a stuffed string and its end gets the string and leaves what follows. -/
theorem scan_stuff_stop (h : esc ≠ stop) :
    scan esc stop false (stuff esc xs ++ esc :: stop :: ys) = ⟨xs, false, true, ys⟩ := by
  rw [scan_stuff, scan_escape, scan_stop h]
  simp [Reading.after]

/-- Reading may be cut anywhere before the end is met. -/
theorem scan_append (h : (scan esc stop p xs).stopped = false) :
    scan esc stop p (xs ++ ys) =
      (scan esc stop (scan esc stop p xs).pending ys).after (scan esc stop p xs).data := by
  induction xs generalizing p with
  | nil => simp [scan]
  | cons a xs ih =>
    cases p <;> simp only [List.cons_append, scan] at h ⊢
    · split at h
      next ha => simpa only [if_pos ha] using ih h
      next ha =>
        simp only [if_neg ha]
        rw [ih h]
        simp [Reading.after]
    · split at h
      next ha =>
        simp only [if_pos ha]
        rw [ih h]
        simp [Reading.after]
      next ha =>
        split at h
        next => cases h
        next hs => simpa only [if_neg ha, if_neg hs] using ih h

/-- After the end nothing is read. -/
theorem scan_append_stopped (h : (scan esc stop p xs).stopped = true) :
    scan esc stop p (xs ++ ys) = { scan esc stop p xs with rest := (scan esc stop p xs).rest ++ ys } := by
  induction xs generalizing p with
  | nil => cases h
  | cons a xs ih =>
    cases p <;> simp only [List.cons_append, scan] at h ⊢
    · split at h
      next ha => simpa only [if_pos ha] using ih h
      next ha =>
        simp only [if_neg ha]
        rw [ih h]
        rfl
    · split at h
      next ha =>
        simp only [if_pos ha]
        rw [ih h]
        rfl
      next ha =>
        split at h
        next hs => simp [if_neg ha, if_pos hs]
        next hs => simpa only [if_neg ha, if_neg hs] using ih h

theorem scan_rest_nil (h : (scan esc stop p xs).stopped = false) : (scan esc stop p xs).rest = [] := by
  induction xs generalizing p with
  | nil => rfl
  | cons a xs ih =>
    cases p <;> simp only [scan] at h ⊢
    · split at h
      next ha => simpa only [if_pos ha] using ih h
      next ha => simpa only [if_neg ha, Reading.after_rest] using ih h
    · split at h
      next ha => simpa only [if_pos ha, Reading.after_rest] using ih h
      next ha =>
        split at h
        next => cases h
        next hs => simpa only [if_neg ha, if_neg hs] using ih h

theorem scan_rest_suffix : (scan esc stop p xs).rest <:+ xs := by
  induction xs generalizing p with
  | nil => simp [scan]
  | cons a xs ih =>
    have hlater : ∀ q, (scan esc stop q xs).rest <:+ a :: xs := fun q => ih.trans (List.suffix_cons a xs)
    cases p <;> simp only [scan]
    · split
      next => exact hlater true
      next => exact hlater false
    · split
      next => exact hlater false
      next =>
        split
        next => exact List.suffix_cons a xs
        next => exact hlater false

theorem scan_rest_length : (scan esc stop p xs).rest.length ≤ xs.length := scan_rest_suffix.length_le

/-- A reader that leaves nothing of a string left nothing of the parts before. -/
theorem scan_rest_append (h : (scan esc stop p (xs ++ ys)).rest = []) :
    (scan esc stop p xs).rest = [] ∧ (ys ≠ [] → (scan esc stop p xs).stopped = false) := by
  cases hs : (scan esc stop p xs).stopped with
  | false => exact ⟨scan_rest_nil hs, fun _ => rfl⟩
  | true =>
    rw [scan_append_stopped hs] at h
    obtain ⟨hx, hy⟩ := List.append_eq_nil_iff.mp h
    exact ⟨hx, fun hne => absurd hy hne⟩

/-- How many elements a reader takes. -/
def taken (esc stop : α) (p : Bool) (xs : List α) : Nat := xs.length - (scan esc stop p xs).rest.length

end Escape
