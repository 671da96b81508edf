import Mathlib.Data.List.Induction
import T38Modem.T30Tone

namespace T38Modem

/-- The lengths of the last runs of a sequence: the last off run, which may be empty, the on run in front
of it and the off run in front of that. -/
structure LastRuns where
  head : Nat := 0
  on : Nat := 0
  tail : Nat := 0

namespace LastRuns

def chunk (r : LastRuns) : Bool → LastRuns
  | false => { r with tail := r.tail + 1 }
  | true => if r.tail = 0 then { r with on := r.on + 1 } else { head := r.tail, on := 1, tail := 0 }

def ofChunks (cs : List Bool) : LastRuns := cs.foldl chunk {}

variable {r : LastRuns} {cs : List Bool} {k : Nat}

theorem ofChunks_snoc (b : Bool) : ofChunks (cs ++ [b]) = (ofChunks cs).chunk b := by
  rw [ofChunks, List.foldl_append]
  rfl

theorem tail_on (r : LastRuns) : (r.chunk true).tail = 0 := by
  by_cases ht : r.tail = 0
  · rwa [chunk, if_pos ht]
  · rw [chunk, if_neg ht]

theorem foldl_off : (List.replicate k false).foldl chunk r = { r with tail := r.tail + k } := by
  induction k generalizing r with
  | zero => rfl
  | succ k ih =>
    rw [List.replicate_succ, List.foldl_cons, ih, chunk, Nat.add_assoc, Nat.add_comm 1]

theorem foldl_on (hr : 0 < r.tail) (hk : 0 < k) :
    (List.replicate k true).foldl chunk r = { head := r.tail, on := k, tail := 0 } := by
  induction k with
  | zero => omega
  | succ k ih =>
    rw [List.replicate_succ', List.foldl_append]
    rcases Nat.eq_zero_or_pos k with rfl | hk
    · have hne : r.tail ≠ 0 := by omega
      simp [chunk, hne]
    · rw [ih hk]
      rfl

/-- The sequence ends in its last runs. -/
theorem ofChunks_split (cs : List Bool) : ∃ start,
    cs = start ++ List.replicate (ofChunks cs).head false ++ List.replicate (ofChunks cs).on true ++
      List.replicate (ofChunks cs).tail false := by
  induction cs using List.reverseRecOn with
  | nil => exact ⟨[], rfl⟩
  | append_singleton cs b ih =>
    obtain ⟨start, hs⟩ := ih
    rw [ofChunks_snoc]
    generalize ofChunks cs = r at hs ⊢
    cases b with
    | false =>
      refine ⟨start, ?_⟩
      rw [hs, chunk, List.replicate_succ']
      simp only [List.append_assoc]
    | true =>
      by_cases ht : r.tail = 0
      · refine ⟨start, ?_⟩
        rw [hs, chunk, if_pos ht, ht, List.replicate_succ' (n := r.on)]
        simp only [List.append_assoc, List.replicate_zero, List.append_nil]
      · refine ⟨start ++ List.replicate r.head false ++ List.replicate r.on true, ?_⟩
        rw [hs, chunk, if_neg ht]
        simp only [List.append_assoc, List.replicate_zero, List.append_nil, List.replicate_one]

end LastRuns

/-- The chunks end in the cadence: enough silence, a tone of the right length, and just enough silence. -/
def EndsInCng (cs : List Bool) : Prop :=
  ∃ start a k, cs = start ++ List.replicate a false ++ List.replicate k true ++
      List.replicate cngOffChunksMin false ∧
    cngOffChunksMin ≤ a ∧ cngOnChunksMin ≤ k ∧ k ≤ cngOnChunksMax

theorem endsInCng_iff (cs : List Bool) : EndsInCng cs ↔
    cngOffChunksMin ≤ (LastRuns.ofChunks cs).head ∧ cngOnChunksMin ≤ (LastRuns.ofChunks cs).on ∧
      (LastRuns.ofChunks cs).on ≤ cngOnChunksMax ∧ (LastRuns.ofChunks cs).tail = cngOffChunksMin := by
  constructor
  · rintro ⟨start, a, k, rfl, ha, hk, hk'⟩
    have hoff : 0 < cngOffChunksMin := by decide
    have hon : 0 < cngOnChunksMin := by decide
    have htail : ∀ r : LastRuns, 0 < ((List.replicate a false).foldl LastRuns.chunk r).tail := fun r => by
      rw [LastRuns.foldl_off]
      exact Nat.add_pos_right _ (by omega)
    rw [LastRuns.ofChunks, List.foldl_append, List.foldl_append, List.foldl_append, LastRuns.foldl_off,
      LastRuns.foldl_on (htail _) (by omega), LastRuns.foldl_off]
    dsimp only
    omega
  · rintro ⟨hh, ho, ho', ht⟩
    obtain ⟨start, hs⟩ := LastRuns.ofChunks_split cs
    rw [ht] at hs
    exact ⟨start, _, _, hs, hh, ho, ho'⟩

namespace CngCadence

/-- The counters and the phase say of the last runs what is still needed. -/
structure Tracks (c : CngCadence) (r : LastRuns) : Prop where
  onCount : c.onCount = if r.tail = 0 then r.on else 0
  offCount : c.offCount = r.tail
  phase : c.phase =
    if r.tail = 0 then if cngOffChunksMin ≤ r.head then .on else .offHead
    else if r.tail < cngOffChunksMin ∧ cngOffChunksMin ≤ r.head ∧ cngOnChunksMin ≤ r.on ∧ r.on ≤ cngOnChunksMax
      then .offTail else .offHead

variable {c : CngCadence} {r : LastRuns}

theorem offMin_eq : cngOffChunksMin = 49 := rfl

theorem Tracks.start : Tracks {} {} := ⟨rfl, rfl, rfl⟩

theorem Tracks.toneOn (h : c.Tracks r) : c.toneOn.Tracks (r.chunk true) := by
  obtain ⟨hon, hoff, hphase⟩ := h
  have hmin := offMin_eq
  by_cases ht : r.tail = 0
  · have hchunk : r.chunk true = { r with on := r.on + 1 } := if_pos ht
    rw [if_pos ht] at hon hphase
    rw [hchunk]
    refine ⟨by simp [CngCadence.toneOn, hon, ht], ht.symm, ?_⟩
    simp only [CngCadence.toneOn, hphase, hoff, ht, if_pos]
    by_cases hh : cngOffChunksMin ≤ r.head
    · simp only [hh, if_true]
    · simp only [hh, if_false]
      rw [if_neg (by omega)]
  · have hchunk : r.chunk true = { head := r.tail, on := 1, tail := 0 } := if_neg ht
    rw [if_neg ht] at hon hphase
    rw [hchunk]
    refine ⟨by simp [CngCadence.toneOn, hon], rfl, ?_⟩
    simp only [CngCadence.toneOn, hphase, hoff, if_true]
    split
    next hp => rfl
    next hp => split at hp <;> cases hp
    next hp =>
      split at hp
      next hr => rw [if_neg (by omega)]
      next => cases hp

theorem toneOff_counts (c : CngCadence) : c.toneOff.2.onCount = 0 ∧ c.toneOff.2.offCount = c.offCount + 1 := by
  unfold CngCadence.toneOff
  dsimp only
  split
  next => exact ⟨rfl, rfl⟩
  next => exact ⟨rfl, rfl⟩
  next => split <;> exact ⟨rfl, rfl⟩

theorem Tracks.toneOff (h : c.Tracks r) : c.toneOff.2.Tracks (r.chunk false) ∧
    (c.toneOff.1 = true ↔ cngOffChunksMin ≤ r.head ∧ cngOnChunksMin ≤ r.on ∧ r.on ≤ cngOnChunksMax ∧
      r.tail + 1 = cngOffChunksMin) := by
  obtain ⟨hon, hoff, hphase⟩ := h
  obtain ⟨hon', hoff'⟩ := toneOff_counts c
  have hmin := offMin_eq
  have hchunk : r.chunk false = { r with tail := r.tail + 1 } := rfl
  suffices hp : c.toneOff.2.phase = (if r.tail + 1 < cngOffChunksMin ∧ cngOffChunksMin ≤ r.head ∧
      cngOnChunksMin ≤ r.on ∧ r.on ≤ cngOnChunksMax then .offTail else .offHead) ∧
      (c.toneOff.1 = true ↔ cngOffChunksMin ≤ r.head ∧ cngOnChunksMin ≤ r.on ∧ r.on ≤ cngOnChunksMax ∧
        r.tail + 1 = cngOffChunksMin) by
    refine ⟨⟨?_, ?_, ?_⟩, hp.2⟩
    · rw [hon', hchunk, if_neg (Nat.succ_ne_zero _)]
    · rw [hoff', hoff, hchunk]
    · rw [hp.1, hchunk, if_neg (Nat.succ_ne_zero _)]
  unfold CngCadence.toneOff
  dsimp only
  by_cases ht : r.tail = 0
  · -- the tone has just ended
    rw [if_pos ht] at hon hphase
    split
    next hp =>
      have hhead : ¬cngOffChunksMin ≤ r.head := fun hh => by rw [hphase, if_pos hh] at hp; cases hp
      exact ⟨(if_neg fun h => hhead h.2.1).symm, iff_of_false Bool.false_ne_true fun h => hhead h.1⟩
    next hp =>
      have hhead : cngOffChunksMin ≤ r.head := by
        by_contra hh
        rw [hphase, if_neg hh] at hp
        cases hp
      refine ⟨?_, iff_of_false Bool.false_ne_true fun h => by omega⟩
      rw [hon]
      exact if_congr (by omega) rfl rfl
    next hp => rw [hphase] at hp; split at hp <;> cases hp
  · rw [if_neg ht] at hphase
    split
    next hp =>
      have hr : ¬(r.tail < cngOffChunksMin ∧ cngOffChunksMin ≤ r.head ∧ cngOnChunksMin ≤ r.on ∧
          r.on ≤ cngOnChunksMax) := fun h => by rw [hphase, if_pos h] at hp; cases hp
      refine ⟨(if_neg (by omega)).symm, iff_of_false Bool.false_ne_true (by omega)⟩
    next hp => rw [hphase] at hp; split at hp <;> cases hp
    next hp =>
      have hr : r.tail < cngOffChunksMin ∧ cngOffChunksMin ≤ r.head ∧ cngOnChunksMin ≤ r.on ∧
          r.on ≤ cngOnChunksMax := by
        by_contra h
        rw [hphase, if_neg h] at hp
        cases hp
      rw [hoff]
      split
      next hge => exact ⟨(if_neg (by omega)).symm, iff_of_true rfl (by omega)⟩
      next hlt => exact ⟨(if_pos (by omega)).symm, iff_of_false Bool.false_ne_true (by omega)⟩

theorem Tracks.chunk (h : c.Tracks r) (b : Bool) : (c.chunk b).2.Tracks (r.chunk b) := by
  cases b with
  | false => exact h.toneOff.1
  | true => exact h.toneOn

theorem tracks (cs : List Bool) : (CngCadence.chunks {} cs).Tracks (LastRuns.ofChunks cs) := by
  induction cs using List.reverseRecOn with
  | nil => exact .start
  | append_singleton cs b ih =>
    rw [LastRuns.ofChunks_snoc, chunks, List.foldl_append]
    exact ih.chunk b

/-- A chunk is reported where the chunks up to it end in the cadence. -/
theorem chunk_iff (cs : List Bool) (b : Bool) :
    ((CngCadence.chunks {} cs).chunk b).1 = true ↔ EndsInCng (cs ++ [b]) := by
  have ht := tracks cs
  rw [endsInCng_iff, LastRuns.ofChunks_snoc]
  cases b with
  | false => exact ht.toneOff.2
  | true =>
    refine iff_of_false Bool.false_ne_true ?_
    rintro ⟨-, -, -, h⟩
    have hmin := offMin_eq
    rw [LastRuns.tail_on] at h
    omega

end CngCadence

/-- The filter steps of a chunk. -/
def cngChunkLen : Nat := cngFilterBufLen * cngFilterChunkLen

/-- The sample that a filter step takes, counted from the one where the resampling began. -/
def resampled (j : Nat) : Nat := j * simplesPerSec / (cngFilterBufLen * cngHz)

/-- The samples that go by in `n` filter steps. -/
def simplesOf (n : Nat) : Nat := resampled (n - 1) + 1

/-- The sample that step `j` of a call takes, if the chunk it finds has `index0` steps behind it. The
resampling begins again with the call and with every chunk. -/
def simpleIndex (index0 j : Nat) : Nat :=
  let first := cngChunkLen - index0
  if j < first then resampled j
  else simplesOf first + (j - first) / cngChunkLen * simplesOf cngChunkLen + resampled ((j - first) % cngChunkLen)

/-- What `n` filter steps find in the buffer at the samples that `at` names. -/
def simples (buf : List Byte) (i : Nat → Nat) (n : Nat) : List Int :=
  (List.range n).filterMap fun j => (simpleAt buf (i j)).map BitVec.toInt

/-- The filter steps of a call. They are never more than twice as many as its samples. -/
def steps (index0 : Nat) (buf : List Byte) : List Int := simples buf (simpleIndex index0) (2 * (buf.length / 2))

/-- The filter steps of a sequence of calls. -/
def inputs : Nat → List (List Byte) → List Int
  | _, [] => []
  | index0, buf :: bufs =>
    steps index0 buf ++ inputs ((index0 + (steps index0 buf).length) % cngChunkLen) bufs

section Resampling

variable {buf : List Byte} {i : Nat → Nat} {n m index0 j : Nat}

theorem simpleAt_some {k : Nat} (hk : k < buf.length / 2) : ∃ v, simpleAt buf k = some v := by
  have h0 : 2 * k < buf.length := by omega
  have h1 : 2 * k + 1 < buf.length := by omega
  rw [simpleAt, List.getElem?_eq_getElem h0, List.getElem?_eq_getElem h1]
  exact ⟨_, rfl⟩

theorem simpleAt_none {k : Nat} (hk : buf.length / 2 ≤ k) : simpleAt buf k = none := by
  have h1 : buf[2 * k + 1]? = none := List.getElem?_eq_none (by omega)
  rw [simpleAt, h1]
  cases buf[2 * k]? <;> rfl

theorem simples_succ : simples buf i (n + 1) =
    ((simpleAt buf (i 0)).map BitVec.toInt).toList ++ simples buf (fun j => i (j + 1)) n := by
  rw [simples, List.range_succ_eq_map, List.filterMap_cons, List.filterMap_map]
  cases simpleAt buf (i 0) <;> rfl

theorem simples_add : simples buf i (n + m) = simples buf i n ++ simples buf (fun j => i (n + j)) m := by
  rw [simples, List.range_add, List.filterMap_append, List.filterMap_map]
  rfl

theorem simples_length (h : ∀ j < n, i j < buf.length / 2) : (simples buf i n).length = n := by
  induction n generalizing i with
  | zero => rfl
  | succ n ih =>
    obtain ⟨v, hv⟩ := simpleAt_some (h 0 (Nat.succ_pos n))
    rw [simples_succ, hv, List.length_append, ih fun j hj => h (j + 1) (Nat.succ_lt_succ hj)]
    exact Nat.add_comm 1 n

theorem simples_eq_nil (h : ∀ j, buf.length / 2 ≤ i j) : simples buf i n = [] := by
  rw [simples, List.filterMap_eq_nil_iff]
  intro j _
  rw [simpleAt_none (h j)]
  rfl

theorem cngChunkLen_eq : cngChunkLen = 160 := rfl

theorem simpleIndex_lt (h : j < cngChunkLen - index0) : simpleIndex index0 j = resampled j := if_pos h

theorem simpleIndex_ge (h : cngChunkLen - index0 ≤ j) : simpleIndex index0 j =
    simplesOf (cngChunkLen - index0) + (j - (cngChunkLen - index0)) / 160 * 145 +
      resampled ((j - (cngChunkLen - index0)) % 160) := if_neg (by omega)

theorem resampled_mono (h : j ≤ n) : resampled j ≤ resampled n :=
  Nat.div_le_div_right (Nat.mul_le_mul_right _ h)

theorem resampled_bounds (j : Nat) : j ≤ 2 * resampled j + 1 ∧ resampled j ≤ j := by
  have h : resampled j = j * 8000 / 8800 := rfl
  omega

theorem simpleIndex_mono (h : j ≤ n) : simpleIndex index0 j ≤ simpleIndex index0 n := by
  by_cases hn : n < cngChunkLen - index0
  · rw [simpleIndex_lt hn, simpleIndex_lt (by omega)]
    exact resampled_mono h
  · rw [simpleIndex_ge (j := n) (by omega)]
    by_cases hj : j < cngChunkLen - index0
    · have hle : resampled j ≤ resampled (cngChunkLen - index0 - 1) := resampled_mono (by omega)
      rw [simpleIndex_lt hj, simplesOf]
      omega
    · rw [simpleIndex_ge (by omega)]
      have hr : ∀ k, resampled k = k * 8000 / 8800 := fun _ => rfl
      rw [hr, hr]
      omega

theorem le_simpleIndex : j ≤ 2 * simpleIndex index0 j + 1 := by
  by_cases hj : j < cngChunkLen - index0
  · rw [simpleIndex_lt hj]
    exact (resampled_bounds j).1
  · rw [simpleIndex_ge (by omega), simplesOf]
    have h0 := resampled_bounds (cngChunkLen - index0 - 1)
    have h1 := resampled_bounds ((j - (cngChunkLen - index0)) % 160)
    omega

/-- Behind the chunk that is open the steps go on like those of a call that finds none open. -/
theorem simpleIndex_add :
    simpleIndex index0 (cngChunkLen - index0 + j) = simplesOf (cngChunkLen - index0) + simpleIndex 0 j := by
  have h160 := cngChunkLen_eq
  rw [simpleIndex_ge (Nat.le_add_right _ _), Nat.add_sub_cancel_left, Nat.add_assoc]
  by_cases hj : j < cngChunkLen - 0
  · rw [simpleIndex_lt hj, Nat.div_eq_of_lt (by omega), Nat.mod_eq_of_lt (by omega), Nat.zero_mul, Nat.zero_add]
  · have h145 : simplesOf (cngChunkLen - 0) = 145 := rfl
    rw [simpleIndex_ge (by omega), h145, Nat.sub_zero, h160, Nat.mod_eq_sub_mod (by omega)]
    omega

/-- The steps of a call are those up to the first one behind the buffer. -/
theorem steps_eq (h : ∀ j < n, simpleIndex index0 j < buf.length / 2) (hn : buf.length / 2 ≤ simpleIndex index0 n) :
    steps index0 buf = simples buf (simpleIndex index0) n := by
  have hle : n ≤ 2 * (buf.length / 2) := by
    cases n with
    | zero => exact Nat.zero_le _
    | succ n =>
      have hlt := h n (Nat.lt_succ_self n)
      have hge : n ≤ 2 * simpleIndex index0 n + 1 := le_simpleIndex
      omega
  obtain ⟨m, hm⟩ := Nat.exists_eq_add_of_le hle
  rw [steps, hm, simples_add, simples_eq_nil fun j => Nat.le_trans hn (simpleIndex_mono (Nat.le_add_right _ _)),
    List.append_nil]

end Resampling

namespace CngFilter

/-- The filter after the steps of a chunk. -/
def adds (f : CngFilter) (xs : List Int) : CngFilter := xs.foldl add f

variable {buf : List Byte} {p len index0 j : Nat} {f : CngFilter}

theorem adds_index (f : CngFilter) (xs : List Int) : (f.adds xs).index = f.index + xs.length := by
  induction xs generalizing f with
  | nil => rfl
  | cons x xs ih =>
    have hx : (f.add x).index = f.index + 1 := rfl
    rw [adds, List.foldl_cons, ← adds, ih, hx, List.length_cons]
    omega

theorem adds_append (f : CngFilter) (xs ys : List Int) : f.adds (xs ++ ys) = (f.adds xs).adds ys :=
  List.foldl_append

/-- The loop goes on until the chunk is full or the buffer is used up, and reads inside the buffer alone. -/
theorem fill_eq (n iBuf : Nat) (hp : p + len = buf.length / 2) (hf : f.index = index0 + j) :
    (∃ i, f.fill buf p len index0 n iBuf =
        some (true, f.adds (simples buf (fun k => p + resampled (j + k)) n), i) ∧
      (∀ k < n, resampled (j + k) < len) ∧ (0 < n → i = resampled (j + (n - 1)))) ∨
    ∃ m i, f.fill buf p len index0 n iBuf =
        some (false, f.adds (simples buf (fun k => p + resampled (j + k)) m), i) ∧
      m < n ∧ (∀ k < m, resampled (j + k) < len) ∧ len ≤ resampled (j + m) := by
  induction n generalizing f iBuf j with
  | zero => exact .inl ⟨iBuf, rfl, fun k hk => absurd hk (Nat.not_lt_zero k), fun h => absurd h (Nat.lt_irrefl 0)⟩
  | succ n ih =>
    have hi : (f.index - index0) * simplesPerSec / (cngFilterBufLen * cngHz) = resampled j := by
      rw [hf, Nat.add_sub_cancel_left]
      rfl
    rw [fill, hi]
    split
    next hge =>
      exact .inr ⟨0, resampled j, rfl, Nat.succ_pos n, fun k hk => absurd hk (Nat.not_lt_zero k), hge⟩
    next hlt =>
      obtain ⟨v, hv⟩ := simpleAt_some (show p + resampled j < buf.length / 2 by omega)
      have hadds (m : Nat) : f.adds (simples buf (fun k => p + resampled (j + k)) (m + 1)) =
          (f.add v.toInt).adds (simples buf (fun k => p + resampled (j + 1 + k)) m) := by
        have hcomm : (fun k => p + resampled (j + (k + 1))) = fun k => p + resampled (j + 1 + k) := by
          funext k
          rw [Nat.add_right_comm j 1 k, Nat.add_assoc]
        rw [simples_succ, Nat.add_zero, hv, hcomm]
        rfl
      have hbelow {m : Nat} (h : ∀ k < m, resampled (j + 1 + k) < len) :
          ∀ k < m + 1, resampled (j + k) < len := by
        intro k hk
        cases k with
        | zero => exact Nat.lt_of_not_ge hlt
        | succ k =>
          have hk' := h k (Nat.lt_of_succ_lt_succ hk)
          rwa [Nat.add_right_comm, Nat.add_assoc] at hk'
      rw [hv, Option.bind_eq_bind, Option.bind_some]
      rcases ih (resampled j) (f := f.add v.toInt) (j := j + 1) (by rw [add, hf]; rfl) with
        ⟨i, he, hall, hlast⟩ | ⟨m, i, he, hm, hall, hend⟩
      · refine .inl ⟨i, by rw [he, hadds], hbelow hall, fun _ => ?_⟩
        rcases Nat.eq_zero_or_pos n with rfl | hn
        · have hs := Option.some.inj he
          exact (Prod.mk.inj (Prod.mk.inj hs).2).2.symm
        · rw [hlast hn]
          congr 1
          omega
      · exact .inr ⟨m + 1, i, by rw [he, hadds], Nat.succ_lt_succ hm, hbelow hall,
          by rwa [Nat.add_right_comm, Nat.add_assoc] at hend⟩

end CngFilter

namespace T30ToneDetect

/-- One of the chunks completed after those of `h` ends the cadence. -/
def Reports (h cs : List Bool) : Prop := ∃ done c rest, cs = done ++ c :: rest ∧ EndsInCng (h ++ done ++ [c])

variable {buf : List Byte} {p len n : Nat} {d : T30ToneDetect} {h : List Bool}

theorem not_reports_nil : ¬Reports h [] := by
  rintro ⟨done, c, rest, hs, -⟩
  simp at hs

theorem reports_cons {c : Bool} {cs : List Bool} :
    Reports h (c :: cs) ↔ EndsInCng (h ++ [c]) ∨ Reports (h ++ [c]) cs := by
  constructor
  · rintro ⟨done, b, rest, hs, he⟩
    cases done with
    | nil =>
      cases hs
      exact .inl (by simpa using he)
    | cons x done =>
      cases hs
      exact .inr ⟨done, b, rest, rfl, by simpa using he⟩
  · rintro (he | ⟨done, b, rest, rfl, he⟩)
    · exact ⟨[], c, cs, rfl, by simpa using he⟩
    · exact ⟨c :: done, b, rest, rfl, by simpa using he⟩

/-- The chunks that are completed and the one that is open, of all filter steps `xs` so far: a chunk is full
after as many steps as it has, it is classified from its own steps and the run of the chunks before it, and
what is left over is in the filter. -/
structure Chunked (xs : List Int) (cs : List Bool) (d : T30ToneDetect) : Prop where
  steps : cngChunkLen * cs.length + d.filter.index = xs.length
  room : d.filter.index < cngChunkLen
  filter : d.filter = CngFilter.adds {} (xs.drop (cngChunkLen * cs.length))
  cadence : d.cadence = CngCadence.chunks {} cs
  classified : ∀ i on, cs[i]? = some on → on = isOn {
    filter := CngFilter.adds {} ((xs.drop (cngChunkLen * i)).take cngChunkLen)
    cadence := CngCadence.chunks {} (cs.take i) }

namespace Chunked

variable {xs ys : List Int} {cs : List Bool}

theorem start : Chunked [] [] {} where
  steps := rfl
  room := by decide
  filter := rfl
  cadence := rfl
  classified := fun _ _ h => (by cases h)

theorem drop_append (h : Chunked xs cs d) (ys : List Int) :
    CngFilter.adds {} ((xs ++ ys).drop (cngChunkLen * cs.length)) = d.filter.adds ys := by
  have hle : cngChunkLen * cs.length ≤ xs.length := by
    rw [← h.steps]
    exact Nat.le_add_right _ _
  rw [List.drop_append_of_le_length hle, CngFilter.adds_append, ← h.filter]

/-- Later steps do not change what a full chunk was classified from. -/
theorem take_append (h : Chunked xs cs d) (ys : List Int) {i : Nat} (hi : i < cs.length) :
    ((xs ++ ys).drop (cngChunkLen * i)).take cngChunkLen = (xs.drop (cngChunkLen * i)).take cngChunkLen := by
  have hle : cngChunkLen * i + cngChunkLen ≤ xs.length := by
    rw [← h.steps, ← Nat.mul_succ]
    exact Nat.le_trans (Nat.mul_le_mul_left _ hi) (Nat.le_add_right _ _)
  rw [List.drop_append_of_le_length (by omega), List.take_append_of_le_length (by rw [List.length_drop]; omega)]

theorem part (h : Chunked xs cs d) (hy : d.filter.index + ys.length < cngChunkLen) :
    Chunked (xs ++ ys) cs { d with filter := d.filter.adds ys } where
  steps := by
    rw [CngFilter.adds_index, List.length_append, ← h.steps]
    omega
  room := by rwa [CngFilter.adds_index]
  filter := (h.drop_append ys).symm
  cadence := h.cadence
  classified := fun i on hi => by
    rw [h.take_append ys (List.getElem?_eq_some_iff.mp hi).1]
    exact h.classified i on hi

/-- The step that fills the open chunk. -/
theorem full (h : Chunked xs cs d) (hy : d.filter.index + ys.length = cngChunkLen) :
    Chunked (xs ++ ys) (cs ++ [isOn { d with filter := d.filter.adds ys }])
      { filter := {}, cadence := (d.cadence.chunk (isOn { d with filter := d.filter.adds ys })).2 } := by
  generalize hon : isOn { d with filter := d.filter.adds ys } = on
  have hlen : (xs ++ ys).length = cngChunkLen * (cs ++ [on]).length := by
    rw [List.length_append, List.length_append, List.length_singleton, ← h.steps, Nat.mul_succ]
    omega
  refine ⟨hlen.symm, Nat.succ_pos 159, ?_, ?_, fun i b hi => ?_⟩
  · rw [← hlen, List.drop_length]
    rfl
  · rw [h.cadence, CngCadence.chunks, CngCadence.chunks, List.foldl_append]
    rfl
  · rcases Nat.lt_or_ge i cs.length with hlt | hge
    · rw [List.getElem?_append_left hlt] at hi
      rw [h.take_append ys hlt, List.take_append_of_le_length (Nat.le_of_lt hlt)]
      exact h.classified i b hi
    · have hend : i = cs.length := by
        have hlt := (List.getElem?_eq_some_iff.mp hi).1
        rw [List.length_append, List.length_singleton] at hlt
        omega
      subst hend
      rw [List.getElem?_concat_length, Option.some.injEq] at hi
      rw [← hi, ← hon, List.take_left, ← h.cadence, List.take_of_length_le, h.drop_append ys]
      rw [List.length_drop, List.length_append, ← h.steps]
      omega

end Chunked

/-- What the loop does with the buffer from the sample `p` on. -/
theorem writeLoop_chunked {xs : List Int} (hp : p + len = buf.length / 2) (hn : len ≤ n) (hc : Chunked xs h d)
    (detected : Bool) :
    ∃ det cs d' k, d.writeLoop buf n p len detected = some (det, cs, d') ∧
      (∀ j < k, simpleIndex d.filter.index j < len) ∧ len ≤ simpleIndex d.filter.index k ∧
      Chunked (xs ++ simples buf (fun j => p + simpleIndex d.filter.index j) k) (h ++ cs) d' ∧
      (det = true ↔ detected = true ∨ Reports h cs) := by
  induction n generalizing p len d h xs detected with
  | zero =>
    obtain rfl : len = 0 := by omega
    exact ⟨detected, [], d, 0, rfl, fun j hj => absurd hj (Nat.not_lt_zero j), Nat.zero_le _,
      by simpa [simples] using hc, by simp [not_reports_nil]⟩
  | succ n ih =>
    rw [writeLoop, show cngFilterBufLen * cngFilterChunkLen = cngChunkLen from rfl]
    split
    next h0 =>
      exact ⟨detected, [], d, 0, rfl, fun j hj => absurd hj (Nat.not_lt_zero j), by omega,
        by simpa [simples] using hc, by simp [not_reports_nil]⟩
    next h0 =>
      have hroom := hc.room
      have hsame {m : Nat} (hm : m ≤ cngChunkLen - d.filter.index) :
          simples buf (fun j => p + simpleIndex d.filter.index j) m = simples buf (fun k => p + resampled (0 + k)) m :=
        List.filterMap_congr fun j hj => by
          dsimp only
          rw [simpleIndex_lt (Nat.lt_of_lt_of_le (List.mem_range.mp hj) hm), Nat.zero_add]
      rcases CngFilter.fill_eq (cngChunkLen - d.filter.index) 0 hp
        (Nat.add_zero d.filter.index).symm with ⟨i, he, hall, hlast⟩ | ⟨m, i, he, hm, hall, hend⟩
      · have hpos : 0 < cngChunkLen - d.filter.index := Nat.sub_pos_of_lt hroom
        have hi : i + 1 = simplesOf (cngChunkLen - d.filter.index) := by
          rw [hlast hpos, Nat.zero_add, simplesOf]
        have hle : i + 1 ≤ len := by
          rw [hlast hpos]
          exact hall _ (by omega)
        have hopen : ∀ j < cngChunkLen - d.filter.index, simpleIndex d.filter.index j < len := fun j hj => by
          rw [simpleIndex_lt hj, ← Nat.zero_add j]
          exact hall j hj
        have hlength : d.filter.index +
            (simples buf (fun k => p + resampled (0 + k)) (cngChunkLen - d.filter.index)).length = cngChunkLen := by
          rw [simples_length fun j hj => by have := hall j hj; omega]
          omega
        have hfull := hc.full hlength
        rw [he]
        simp only [Option.bind_eq_bind, Option.bind_some, Bool.not_true, Bool.false_eq_true, if_false]
        generalize isOn _ = on at hfull ⊢
        obtain ⟨det, cs, d', k, hw, hbelow, hend, hd', hdet⟩ := ih
          (show p + (i + 1) + (len - (i + 1)) = buf.length / 2 by omega) (by omega) hfull (detected || (d.cadence.chunk on).1)
        change ∀ j < k, simpleIndex 0 j < len - (i + 1) at hbelow
        change len - (i + 1) ≤ simpleIndex 0 k at hend
        have hgo (j : Nat) : simpleIndex d.filter.index (cngChunkLen - d.filter.index + j) = i + 1 + simpleIndex 0 j := by
          rw [simpleIndex_add, hi]
        refine ⟨det, on :: cs, d', cngChunkLen - d.filter.index + k, by rw [hw]; rfl, fun j hj => ?_, ?_, ?_, ?_⟩
        · rcases Nat.lt_or_ge j (cngChunkLen - d.filter.index) with hlt | hge
          · exact hopen j hlt
          · obtain ⟨j, rfl⟩ := Nat.exists_eq_add_of_le hge
            have hlt := hbelow j (Nat.lt_of_add_lt_add_left hj)
            rw [hgo]
            omega
        · rw [hgo]
          omega
        · have hshift : (fun j => p + simpleIndex d.filter.index (cngChunkLen - d.filter.index + j)) =
              fun j => p + (i + 1) + simpleIndex 0 j := by
            funext j
            rw [hgo]
            omega
          rw [simples_add, hsame (Nat.le_refl _), hshift, ← List.append_assoc, ← List.singleton_append,
            ← List.append_assoc]
          exact hd'
        · rw [hdet, reports_cons, Bool.or_eq_true, or_assoc, hc.cadence, CngCadence.chunk_iff]
      · refine ⟨detected, [], { d with filter := d.filter.adds (simples buf (fun k => p + resampled (0 + k)) m) }, m,
          by rw [he]; rfl, fun j hj => ?_, ?_, ?_, by simp [not_reports_nil]⟩
        · rw [simpleIndex_lt (by omega), ← Nat.zero_add j]
          exact hall j hj
        · rwa [simpleIndex_lt hm, ← Nat.zero_add m]
        · rw [List.append_nil, hsame (Nat.le_of_lt hm)]
          refine hc.part ?_
          rw [simples_length fun j hj => by have := hall j hj; omega]
          omega

theorem write_chunked {xs : List Int} (hc : Chunked xs h d) (buf : List Byte) :
    ∃ det cs d', d.write buf = some (det, cs, d') ∧ Chunked (xs ++ steps d.filter.index buf) (h ++ cs) d' ∧
      (det = true ↔ Reports h cs) := by
  obtain ⟨det, cs, d', k, hw, hbelow, hend, hd', hdet⟩ :=
    writeLoop_chunked (Nat.zero_add (buf.length / 2)) (Nat.le_refl _) hc false
  refine ⟨det, cs, d', hw, ?_, hdet.trans (or_iff_right Bool.false_ne_true)⟩
  rw [steps_eq hbelow hend]
  simpa only [Nat.zero_add] using hd'

theorem writes_chunked {xs : List Int} (bufs : List (List Byte)) (hc : Chunked xs h d) :
    ∃ cs d', d.writes bufs = some (cs, d') ∧ Chunked (xs ++ inputs d.filter.index bufs) (h ++ cs) d' := by
  induction bufs generalizing d h xs with
  | nil => exact ⟨[], d, rfl, by rwa [inputs, List.append_nil, List.append_nil]⟩
  | cons buf bufs ih =>
    obtain ⟨det, cs, d₁, hw, hd₁, -⟩ := write_chunked hc buf
    obtain ⟨cs', d', hw', hd'⟩ := ih hd₁
    have hindex : d₁.filter.index = (d.filter.index + (steps d.filter.index buf).length) % cngChunkLen := by
      have h0 := hc.steps
      have h1 := hd₁.steps
      rw [List.length_append, List.length_append, ← h0, Nat.mul_add] at h1
      have hsum : d.filter.index + (steps d.filter.index buf).length =
          d₁.filter.index + cngChunkLen * cs.length := by omega
      rw [hsum, Nat.add_mul_mod_self_left, Nat.mod_eq_of_lt hd₁.room]
    refine ⟨cs ++ cs', d', ?_, ?_⟩
    · rw [writes, hw]
      simp only [Option.bind_eq_bind, Option.bind_some, hw']
    · rw [inputs, ← hindex, ← List.append_assoc, ← List.append_assoc]
      exact hd'

/-- For every sequence of classified chunks the detector reports the chunks that end the cadence and no
others. Whatever was written before, `Write` terminates, reads inside the buffer alone, completes as many
chunks as the filter steps of its samples fill, each of them classified from its own steps however these are
cut into buffers, and returns whether one of the chunks it completed is reported. -/
theorem detects :
    (∀ (cs : List Bool) (on : Bool), ((CngCadence.chunks {} cs).chunk on).1 = true ↔ EndsInCng (cs ++ [on])) ∧
      ∀ (bufs : List (List Byte)) (buf : List Byte), ∃ h d det cs d',
        T30ToneDetect.writes {} bufs = some (h, d) ∧ d.write buf = some (det, cs, d') ∧
          Chunked (inputs 0 bufs) h d ∧ Chunked (inputs 0 bufs ++ steps d.filter.index buf) (h ++ cs) d' ∧
          cngChunkLen * cs.length + d'.filter.index = d.filter.index + (steps d.filter.index buf).length ∧
          (det = true ↔ ∃ done on rest, cs = done ++ on :: rest ∧ EndsInCng (h ++ done ++ [on])) := by
  refine ⟨CngCadence.chunk_iff, fun bufs buf => ?_⟩
  obtain ⟨h, d, hw, hd⟩ := writes_chunked bufs Chunked.start
  rw [List.nil_append, List.nil_append] at hd
  obtain ⟨det, cs, d', hw', hd', hdet⟩ := write_chunked hd buf
  refine ⟨h, d, det, cs, d', hw, hw', hd, hd', ?_, hdet⟩
  have hs := hd.steps
  have hs' := hd'.steps
  rw [List.length_append, List.length_append, Nat.mul_add] at hs'
  omega

end T30ToneDetect

end T38Modem
