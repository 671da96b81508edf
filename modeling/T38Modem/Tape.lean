import Mathlib.Data.List.Basic
import Mathlib.Data.List.Induction

/-- Records written one after the other, each a text with a mark: those that are closed, and the one that
is being written. -/
structure Tape (α δ : Type*) where
  closed : List (List α × δ) := []
  current : Option (List α × δ) := none

namespace Tape

variable {α δ β : Type*} {t : Tape α δ} {d : δ} {xs : List α} {f : δ → δ} {k : Nat}

/-- What a reader finds in a place of the tape: a text, its mark, and whether they are final. -/
structure Cell (α δ : Type*) where
  text : List α
  mark : δ
  full : Bool

def cells (t : Tape α δ) : List (Cell α δ) :=
  t.closed.map (fun r => ⟨r.1, r.2, true⟩) ++ t.current.toList.map fun r => ⟨r.1, r.2, false⟩

/-- A new record, unless one is being written. -/
def start (t : Tape α δ) (d : δ) : Tape α δ := { t with current := t.current.or (some ([], d)) }

def put (t : Tape α δ) (xs : List α) : Tape α δ := { t with current := t.current.map fun r => (r.1 ++ xs, r.2) }

def mark (t : Tape α δ) (f : δ → δ) : Tape α δ := { t with current := t.current.map fun r => (r.1, f r.2) }

def close (t : Tape α δ) : Tape α δ := { closed := t.closed ++ t.current.toList, current := none }

/-- The record is closed, and another one begun. -/
def next (t : Tape α δ) (d : δ) : Tape α δ :=
  { closed := t.closed ++ t.current.toList, current := t.current.map fun _ => ([], d) }

/-- Change the last member of a list. -/
def onLast (f : β → β) : List β → List β
  | [] => []
  | [x] => [f x]
  | x :: y :: l => x :: onLast f (y :: l)

@[simp] theorem onLast_concat (f : β → β) (l : List β) (x : β) : onLast f (l ++ [x]) = l ++ [f x] := by
  induction l with
  | nil => rfl
  | cons y l ih =>
    cases l with
    | nil => rfl
    | cons z l =>
      rw [List.cons_append, List.cons_append, onLast]
      · exact congrArg (y :: ·) ih

theorem onLast_append (f : β → β) (l : List β) {l' : List β} (h : l' ≠ []) : onLast f (l ++ l') = l ++ onLast f l' := by
  obtain ⟨front, x, rfl⟩ := (List.eq_nil_or_concat' l').resolve_left h
  rw [← List.append_assoc, onLast_concat, onLast_concat, List.append_assoc]

namespace Cell

variable {c : Cell α δ}

def put (xs : List α) (c : Cell α δ) : Cell α δ := { c with text := c.text ++ xs }

def remark (f : δ → δ) (c : Cell α δ) : Cell α δ := { c with mark := f c.mark }

def close (c : Cell α δ) : Cell α δ := { c with full := true }

end Cell

theorem cells_none (h : t.current = none) : t.cells = t.closed.map fun r => ⟨r.1, r.2, true⟩ := by
  simp [cells, h]

theorem cells_some {r : List α × δ} (h : t.current = some r) :
    t.cells = t.closed.map (fun r => ⟨r.1, r.2, true⟩) ++ [⟨r.1, r.2, false⟩] := by
  simp [cells, h]

/-- From any record on, the record that is written is the last one. -/
theorem drop_some {r : List α × δ} (h : t.current = some r) (hk : k ≤ t.closed.length) :
    t.cells.drop k = (t.closed.drop k).map (fun r => ⟨r.1, r.2, true⟩) ++ [⟨r.1, r.2, false⟩] := by
  rw [cells_some h, List.drop_append_of_le_length (by simpa using hk), List.map_drop]

/-- Behind the records that are closed a new one is begun. -/
theorem drop_start (hk : k ≤ t.closed.length) (h : t.current = none) (d : δ) :
    (t.start d).cells.drop k = t.cells.drop k ++ [⟨[], d, false⟩] := by
  have hs : (t.start d).current = some ([], d) := by simp [start, h]
  rw [drop_some hs hk, cells_none h, ← List.map_drop]
  rfl

theorem drop_put (hk : k ≤ t.closed.length) (h : t.current.isSome = true) (xs : List α) :
    (t.put xs).cells.drop k = onLast (Cell.put xs) (t.cells.drop k) := by
  obtain ⟨r, hr⟩ := Option.isSome_iff_exists.mp h
  have hw : (t.put xs).current = some (r.1 ++ xs, r.2) := by simp [put, hr]
  rw [drop_some hw hk, drop_some hr hk, onLast_concat]
  rfl

theorem drop_mark (hk : k ≤ t.closed.length) (h : t.current.isSome = true) (f : δ → δ) :
    (t.mark f).cells.drop k = onLast (Cell.remark f) (t.cells.drop k) := by
  obtain ⟨r, hr⟩ := Option.isSome_iff_exists.mp h
  have hw : (t.mark f).current = some (r.1, f r.2) := by simp [mark, hr]
  rw [drop_some hw hk, drop_some hr hk, onLast_concat]
  rfl

theorem drop_close (hk : k ≤ t.closed.length) (h : t.current.isSome = true) :
    t.close.cells.drop k = onLast Cell.close (t.cells.drop k) := by
  obtain ⟨r, hr⟩ := Option.isSome_iff_exists.mp h
  rw [drop_some hr hk, onLast_concat, cells_none (t := t.close) rfl, ← List.map_drop]
  simp [close, hr, List.drop_append_of_le_length hk, Cell.close]

theorem drop_finish (hk : k ≤ t.closed.length) (h : t.current.isSome = true) (f : δ → δ) :
    (t.mark f).close.cells.drop k = onLast (fun c => (c.remark f).close) (t.cells.drop k) := by
  obtain ⟨r, hr⟩ := Option.isSome_iff_exists.mp h
  have hw : (t.mark f).current = some (r.1, f r.2) := by simp [mark, hr]
  rw [drop_close (t := t.mark f) hk (by rw [hw]; rfl), drop_some hw hk, drop_some hr hk, onLast_concat, onLast_concat]
  rfl

theorem drop_next (hk : k ≤ t.closed.length) (h : t.current.isSome = true) (d : δ) :
    (t.next d).cells.drop k = onLast Cell.close (t.cells.drop k) ++ [⟨[], d, false⟩] := by
  obtain ⟨r, hr⟩ := Option.isSome_iff_exists.mp h
  have hw : (t.next d).current = some ([], d) := by simp [next, hr]
  have hk' : k ≤ (t.next d).closed.length := by
    simp only [next, List.length_append]
    omega
  rw [drop_some hw hk', drop_some hr hk, onLast_concat]
  simp [next, hr, List.drop_append_of_le_length hk, Cell.close]

/-- Where there is a full cell, its record is closed. -/
theorem closed_of_drop {c : Cell α δ} {cs : List (Cell α δ)} (h : t.cells.drop k = c :: cs) (hf : c.full = true) :
    t.closed.take (k + 1) = t.closed.take k ++ [(c.text, c.mark)] ∧ k < t.closed.length := by
  have hget : t.cells[k]? = some c := by
    rw [← List.head?_drop, h]
    rfl
  by_cases hk : k < t.closed.length
  · refine ⟨?_, hk⟩
    rw [cells, List.getElem?_append_left (by simpa using hk), List.getElem?_map,
      List.getElem?_eq_getElem hk, Option.map_some] at hget
    rw [List.take_add_one, List.getElem?_eq_getElem hk, ← Option.some.inj hget]
    rfl
  · rw [cells, List.getElem?_append_right (by simpa using hk)] at hget
    obtain ⟨r, -, hr⟩ := List.mem_map.mp (List.mem_of_getElem? hget)
    rw [← hr] at hf
    cases hf

def Cell.record (c : Cell α δ) : List α × δ := (c.text, c.mark)

/-- Where there are full cells, their records are closed. -/
theorem closed_of_front {front rest : List (Cell α δ)} (h : t.cells.drop k = front ++ rest)
    (hf : ∀ c ∈ front, c.full = true) (hk : k ≤ t.closed.length) :
    t.closed.take (k + front.length) = t.closed.take k ++ front.map Cell.record ∧
      t.cells.drop (k + front.length) = rest ∧ k + front.length ≤ t.closed.length := by
  induction front generalizing k with
  | nil => exact ⟨(List.append_nil _).symm, h, hk⟩
  | cons c front ih =>
    obtain ⟨hc, hf⟩ := List.forall_mem_cons.mp hf
    obtain ⟨htake, hlt⟩ := closed_of_drop h hc
    have hnext : t.cells.drop (k + 1) = front ++ rest := by
      rw [← List.tail_drop, h]
      rfl
    obtain ⟨ht, hd, hle⟩ := ih hnext hf hlt
    rw [List.length_cons, show k + (front.length + 1) = k + 1 + front.length by omega]
    refine ⟨?_, hd, hle⟩
    rw [ht, htake, List.append_assoc]
    rfl

/-- The last cell is full when nothing is being written. -/
theorem closed_of_last {c : Cell α δ} (h : t.cells.drop k = [c]) (hf : c.full = true) :
    t.current = none ∧ t.closed = t.closed.take k ++ [c.record] := by
  obtain ⟨htake, hlt⟩ := closed_of_drop h hf
  have hlen := congrArg List.length h
  rw [List.length_drop, cells, List.length_append, List.length_map, List.length_map, List.length_singleton] at hlen
  refine ⟨?_, ?_⟩
  · cases hc : t.current with
    | none => rfl
    | some r =>
      rw [hc, Option.toList_some, List.length_singleton] at hlen
      omega
  · rw [Cell.record, ← htake, List.take_of_length_le (by omega)]

/-- The last cell is that of the last record, when nothing is being written. -/
theorem last_closed {c : Cell α δ} (h : (t.cells.drop k).getLast? = some c) (hf : c.full = true) :
    t.current = none ∧ t.closed.getLast? = some c.record := by
  have hlast : t.cells.getLast? = some c := by
    rw [List.getLast?_drop] at h
    split at h
    · cases h
    · exact h
  unfold cells at hlast
  cases hc : t.current with
  | none =>
    rw [hc, Option.toList_none, List.map_nil, List.append_nil, List.getLast?_map] at hlast
    obtain ⟨r, hr, rfl⟩ := Option.map_eq_some_iff.mp hlast
    exact ⟨rfl, hr⟩
  | some r =>
    rw [hc, Option.toList_some, List.map_singleton, List.getLast?_concat] at hlast
    rw [← Option.some.inj hlast] at hf
    cases hf

/-- What is closed stays where it is. -/
theorem full_of_prefix {t' : Tape α δ} {c : Cell α δ} {cs : List (Cell α δ)} (h : t.cells.drop k = c :: cs) (hf : c.full = true)
    (hp : t.closed <+: t'.closed) : ∃ cs', t'.cells.drop k = c :: cs' := by
  obtain ⟨-, hk⟩ := closed_of_drop h hf
  obtain ⟨more, hmore⟩ := hp
  have hget : t.cells[k]? = some c := by
    rw [← List.head?_drop, h]
    rfl
  have hget' : t'.cells[k]? = some c := by
    unfold cells at hget ⊢
    rw [List.getElem?_append_left (by simpa using hk)] at hget
    rw [← hmore, List.map_append, List.append_assoc, List.getElem?_append_left (by simpa using hk), hget]
  obtain ⟨hlt, hc⟩ := List.getElem?_eq_some_iff.mp hget'
  exact ⟨_, by rw [List.drop_eq_getElem_cons hlt, hc]⟩

theorem closed_close : t.closed <+: t.close.closed := List.prefix_append _ _

theorem closed_next (d : δ) : t.closed <+: (t.next d).closed := List.prefix_append _ _

/-- The texts, the one that is being written behind the others. -/
def texts (t : Tape α δ) : List (List α) := t.closed.map Prod.fst ++ t.current.toList.map Prod.fst

theorem cells_texts (t : Tape α δ) : t.cells.map Cell.text = t.texts := by
  simp [cells, texts, Function.comp_def]

/-- No text is taken back. -/
def Extends (t t' : Tape α δ) : Prop :=
  ∀ (i : Nat) (xs : List α), t.texts[i]? = some xs → ∃ ys, t'.texts[i]? = some ys ∧ xs <+: ys

section

variable {t' t'' : Tape α δ}

theorem Extends.refl (t : Tape α δ) : Extends t t := fun _ xs h => ⟨xs, h, List.prefix_refl xs⟩

theorem Extends.trans (h : Extends t t') (h' : Extends t' t'') : Extends t t'' := by
  intro i xs hx
  obtain ⟨ys, hy, hp⟩ := h i xs hx
  obtain ⟨zs, hz, hp'⟩ := h' i ys hy
  exact ⟨zs, hz, hp.trans hp'⟩

theorem Extends.of_beginning (h : t.texts <+: t'.texts) : Extends t t' := by
  intro i xs hx
  obtain ⟨more, hmore⟩ := h
  obtain ⟨hi, -⟩ := List.getElem?_eq_some_iff.mp hx
  exact ⟨xs, by rw [← hmore, List.getElem?_append_left hi, hx], List.prefix_refl xs⟩

theorem extends_start (t : Tape α δ) (d : δ) : Extends t (t.start d) := by
  refine .of_beginning ?_
  unfold texts start
  cases t.current <;> simp

theorem extends_mark (t : Tape α δ) (f : δ → δ) : Extends t (t.mark f) := by
  refine .of_beginning ?_
  unfold texts mark
  cases t.current <;> simp

theorem extends_close (t : Tape α δ) : Extends t t.close := by
  refine .of_beginning ?_
  unfold texts close
  cases t.current <;> simp

theorem extends_next (t : Tape α δ) (d : δ) : Extends t (t.next d) := by
  refine .of_beginning ?_
  unfold texts next
  cases t.current <;> simp

theorem extends_put (t : Tape α δ) (xs : List α) : Extends t (t.put xs) := by
  unfold Extends texts put
  cases t.current with
  | none => exact fun i ys hy => ⟨ys, hy, List.prefix_refl ys⟩
  | some r =>
    intro i ys hy
    simp only [Option.map_some, Option.toList_some, List.map_cons, List.map_nil] at hy ⊢
    by_cases hi : i < (t.closed.map Prod.fst).length
    · rw [List.getElem?_append_left hi] at hy ⊢
      exact ⟨ys, hy, List.prefix_refl ys⟩
    · rw [List.getElem?_append_right (by omega), List.getElem?_singleton] at hy ⊢
      split at hy
      next h0 =>
        rw [if_pos h0, ← Option.some.inj hy]
        exact ⟨_, rfl, List.prefix_append _ _⟩
      next => cases hy

end

/-- What is in a cell is in the record that it becomes. -/
theorem cell_of_finished {rs : List (List α × δ)} (hp : t.closed <+: rs) (he : t.Extends { closed := rs }) {c : Cell α δ}
    {cs : List (Cell α δ)} (hc : t.cells.drop k = c :: cs) :
    ∃ r, rs[k]? = some r ∧ c.text <+: r.1 ∧ (c.full = true → c.record = r) := by
  have htext : t.texts[k]? = some c.text := by
    rw [← cells_texts, List.getElem?_map, ← List.head?_drop, hc]
    rfl
  obtain ⟨ys, hys, hpre⟩ := he k c.text htext
  obtain ⟨r, hr, rfl⟩ : ∃ r, rs[k]? = some r ∧ r.1 = ys := by simpa [texts] using hys
  refine ⟨r, hr, hpre, fun hfull => ?_⟩
  obtain ⟨htake, hlt⟩ := closed_of_drop hc hfull
  have hcell : t.closed[k]? = some c.record := by
    have h := congrArg List.getLast? htake
    rwa [List.getLast?_concat, List.getLast?_take, if_neg (by simp), Nat.add_sub_cancel, List.getElem?_eq_getElem hlt,
      Option.some_or, ← List.getElem?_eq_getElem hlt] at h
  obtain ⟨more, rfl⟩ := hp
  rw [List.getElem?_append_left hlt, hcell] at hr
  exact Option.some.inj hr

section Marks

variable {p : δ → Prop}

/-- All marks of a tape have a property. -/
def Marks (p : δ → Prop) (t : Tape α δ) : Prop := (∀ r ∈ t.closed, p r.2) ∧ ∀ r ∈ t.current, p r.2

theorem Marks.cell (h : t.Marks p) {c : Cell α δ} (hc : c ∈ t.cells) : p c.mark := by
  unfold cells at hc
  rcases List.mem_append.mp hc with hc | hc
  · obtain ⟨r, hr, rfl⟩ := List.mem_map.mp hc
    exact h.1 r hr
  · obtain ⟨r, hr, rfl⟩ := List.mem_map.mp hc
    exact h.2 r (Option.mem_toList.mp hr)

theorem Marks.start (h : t.Marks p) {d : δ} (hd : p d) : (t.start d).Marks p := by
  refine ⟨h.1, fun r hr => ?_⟩
  unfold Tape.start at hr
  cases hc : t.current with
  | none =>
    rw [hc] at hr
    cases hr
    exact hd
  | some r' =>
    rw [hc] at hr
    exact h.2 r (by rw [hc]; exact hr)

theorem Marks.put (h : t.Marks p) (xs : List α) : (t.put xs).Marks p := by
  refine ⟨h.1, fun r hr => ?_⟩
  obtain ⟨r', hr', rfl⟩ := Option.map_eq_some_iff.mp hr
  exact h.2 r' hr'

theorem Marks.mark (h : t.Marks p) {f : δ → δ} (hf : ∀ d, p d → p (f d)) : (t.mark f).Marks p := by
  refine ⟨h.1, fun r hr => ?_⟩
  obtain ⟨r', hr', rfl⟩ := Option.map_eq_some_iff.mp hr
  exact hf _ (h.2 r' hr')

theorem Marks.close (h : t.Marks p) : t.close.Marks p := by
  refine ⟨fun r hr => ?_, fun r hr => by cases hr⟩
  rcases List.mem_append.mp hr with hr | hr
  · exact h.1 r hr
  · exact h.2 r (Option.mem_toList.mp hr)

theorem Marks.next (h : t.Marks p) {d : δ} (hd : p d) : (t.next d).Marks p := by
  refine ⟨h.close.1, fun r hr => ?_⟩
  obtain ⟨r', -, rfl⟩ := Option.map_eq_some_iff.mp hr
  exact hd

end Marks

end Tape
