import Mathlib.Data.List.Infix
import T38Modem.Dle

namespace T38Modem

open Escape

namespace DLEData

/-- What the copying loop makes of a run: beyond `tmp` it comes to its first octets again. -/
def tile (run : List Byte) : List Byte :=
  (List.range run.length).map fun i => bitRevTable (run.getD (i % 1024) 0)

def image (bitRev : Bool) (run : List Byte) : List Byte := if bitRev then tile run else run

/-- The runs of octets that `PutDleData` copies at once, the first of which has begun with `run`. -/
def runs : Bool → List Byte → List Byte → List (List Byte)
  | _, run, [] => [run]
  | false, run, b :: p => if b = DLE then run :: runs true [] p else runs false (run ++ [b]) p
  | true, _, b :: p =>
    if b = DLE then runs false [b] p else if b = ETX then [] else runs false [] p

def Periodic (run : List Byte) : Prop := ∀ i < run.length, run[i]? = run[i % 1024]?

/-- Where `PutDleData` is after the octets `p`, in front of which it has come to `run`. -/
def decoded (d : DLEData) (run p : List Byte) : DLEData :=
  { d with data := d.data ++ (runs d.dle run p).flatMap (image d.bitRev),
           dle := (scan DLE ETX d.dle p).pending, eof := (scan DLE ETX d.dle p).stopped }

variable {d : DLEData} {p q xs ys run : List Byte} {n c : Nat} {b rev : Bool}

theorem put_eq (he : d.eof = false) (bs : List Byte) : d.put bs = { d with data := d.data ++ bs } := by
  simp [put, DataStream.putData, he]

@[simp] theorem put_eof (bs : List Byte) : (d.put bs).eof = d.eof := by
  simp [put, DataStream.putData_eof]

@[simp] theorem put_nil : d.put [] = d := by
  unfold put DataStream.putData
  split <;> simp

@[simp] theorem length_tile : (tile run).length = run.length := by simp [tile]

@[simp] theorem length_image : (image b run).length = run.length := by
  unfold image
  split <;> simp

/-- A run is copied as it is when it repeats its first 1024 octets. -/
theorem tile_eq_iff : tile run = run.map bitRevTable ↔ Periodic run := by
  constructor
  · intro h i hi
    have hm : i % 1024 < run.length := Nat.lt_of_le_of_lt (Nat.mod_le i 1024) hi
    have hg := congrArg (fun l => l[i]?) h
    simp only [tile, List.getElem?_map, List.getElem?_range hi, Option.map_some,
      List.getElem?_eq_getElem hi, List.getD_eq_getElem?_getD, List.getElem?_eq_getElem hm,
      Option.getD_some] at hg
    rw [List.getElem?_eq_getElem hi, List.getElem?_eq_getElem hm]
    exact congrArg some (bitRevTable_inj (Option.some.inj hg)).symm
  · intro h
    refine List.ext_getElem (by simp) ?_
    intro i hi hi'
    rw [length_tile] at hi
    have hp := h i hi
    simp only [tile, List.getElem_map, List.getElem_range, List.getD_eq_getElem?_getD, ← hp,
      List.getElem?_eq_getElem hi, Option.getD_some]

theorem periodic_of_short (h : run.length ≤ 1024) : Periodic run := by
  intro i hi
  rw [Nat.mod_eq_of_lt (by omega)]

theorem image_eq_iff : image b run = run.map (if b then bitRevTable else id) ↔ (b = true → Periodic run) := by
  cases b
  · simp [image]
  · simpa [image] using tile_eq_iff

/-- What the loop copies in its rounds over `p`. -/
theorem tile_split (hc : 1024 < c) (hp : c ≤ p.length) :
    tile (p.take c) = (p.take 1024).map bitRevTable ++ tile (p.take (c - 1024)) := by
  have h0 : 0 < 1024 := by omega
  unfold tile
  generalize 1024 = m at *
  have hl : (p.take m).length = m := List.length_take_of_le (by omega)
  refine List.ext_getElem (by simp; omega) ?_
  intro i hi hi'
  have hic : i < c := by simpa [hp] using hi
  have hm : i % m ≤ i := Nat.mod_le i m
  rw [List.getElem_map, List.getElem_range, List.getD_eq_getElem?_getD,
    List.getElem?_take_of_lt (by omega)]
  by_cases him : i < m
  · rw [List.getElem_append_left (by rw [List.length_map, hl]; exact him), Nat.mod_eq_of_lt him,
      List.getElem?_eq_getElem (by omega)]
    simp
  · have h2 : (i - m) % m = i % m := (Nat.mod_eq_sub_mod (by omega)).symm
    have h3 : i % m ≤ i - m := h2 ▸ Nat.mod_le (i - m) m
    rw [List.getElem_append_right (by rw [List.length_map, hl]; omega)]
    simp only [List.getElem_map, List.getElem_range, List.length_map, hl, h2,
      List.getD_eq_getElem?_getD]
    rw [List.getElem?_take_of_lt (by omega)]

theorem copyLoop_eq (he : d.eof = false) (hn : c ≤ n) (hp : c ≤ p.length) :
    copyLoop p n d c = d.put (tile (p.take c)) := by
  induction n generalizing d c with
  | zero =>
    have hc : c = 0 := by omega
    subst hc
    simp [copyLoop, tile]
  | succ n ih =>
    unfold copyLoop
    by_cases hc : c = 0
    · subst hc
      simp [tile]
    · rw [if_neg hc]
      dsimp only
      have hput : (d.put ((p.take 1024).map bitRevTable)).eof = false := by rw [put_eq he]; exact he
      by_cases hl : c > 1024
      · rw [if_pos hl, ih hput (by omega) (by omega), tile_split hl hp, put_eq hput, put_eq he, put_eq he]
        simp
      · have hs : tile (p.take c) = (p.take c).map bitRevTable :=
          tile_eq_iff.mpr (periodic_of_short (by simp; omega))
        rw [if_neg hl, Nat.sub_self, hs]
        cases n <;> simp [copyLoop]

theorem copyRun_eq (he : d.eof = false) (hp : c ≤ p.length) :
    d.copyRun p c = d.put (image d.bitRev (p.take c)) := by
  unfold copyRun image
  by_cases hc : c = 0
  · subst hc
    simp [tile]
  · rw [if_neg hc]
    split
    next => exact copyLoop_eq he (Nat.le_refl c) hp
    next => rfl

theorem idxOf?_split {l : List Byte} {a : Byte} {i : Nat} (h : l.idxOf? a = some i) :
    l = l.take i ++ a :: l.drop (i + 1) ∧ a ∉ l.take i ∧ i < l.length := by
  obtain ⟨hi, ha, hn⟩ := List.idxOf?_eq_some_iff.mp h
  refine ⟨?_, ?_, hi⟩
  · rw [← ha, ← List.drop_eq_getElem_cons hi, List.take_append_drop]
  · intro hm
    obtain ⟨j, hj, he⟩ := List.mem_take_iff_getElem.mp hm
    exact hn j (by omega) he

theorem runs_run (h : DLE ∉ xs) : runs false run (xs ++ ys) = runs false (run ++ xs) ys := by
  induction xs generalizing run with
  | nil => simp
  | cons a xs ih =>
    have ha : ¬ a = DLE := fun he => List.ne_of_not_mem_cons h he.symm
    have ht : DLE ∉ xs := List.not_mem_of_not_mem_cons h
    rw [List.cons_append, runs, if_neg ha, ih ht, List.append_assoc]
    rfl

/-- The runs of a call are what the reference reader gets of it. -/
theorem flatten_runs (hr : b = true → run = []) :
    (runs b run p).flatten = run ++ (scan DLE ETX b p).data := by
  induction p generalizing b run with
  | nil => simp [runs, scan]
  | cons a p ih =>
    cases b
    · unfold runs scan
      split
      next => rw [List.flatten_cons, ih (fun _ => rfl), List.nil_append]
      next => rw [ih (b := false) (fun h => by cases h), List.append_assoc]; rfl
    · have hn : run = [] := hr rfl
      subst hn
      unfold runs scan
      split
      next ha => rw [ih (b := false) (fun h => by cases h), ha]; rfl
      next =>
        split
        next => rfl
        next => rw [ih (b := false) (fun h => by cases h)]

/-- A round that comes to a DLE: what is in front of it is copied. -/
theorem putRun_dle (he : d.eof = false) (hx : DLE ∉ xs) :
    d.putRun (run ++ xs ++ DLE :: ys) run.length =
      (({ d with dle := true } : DLEData).put (image d.bitRev (run ++ xs)), ys) := by
  have hd : (run ++ xs ++ DLE :: ys).drop run.length = xs ++ DLE :: ys := by
    rw [List.append_assoc, List.drop_left]
  have hi : (xs ++ DLE :: ys).idxOf? DLE = some xs.length := by
    refine List.idxOf?_eq_some_iff.mpr ⟨by simp, by simp, ?_⟩
    intro j hj
    rw [List.getElem_append_left hj]
    intro h
    exact hx (h ▸ List.getElem_mem hj)
  have hl : run.length + xs.length = (run ++ xs).length := by simp
  have hc := copyRun_eq (d := { d with dle := true }) (p := run ++ xs ++ DLE :: ys)
    (c := (run ++ xs).length) he (by simp)
  unfold putRun
  rw [hd, hi]
  dsimp only
  rw [hl, hc, List.take_left, List.drop_append]
  simp

theorem putRun_last (he : d.eof = false) (hx : DLE ∉ xs) :
    d.putRun (run ++ xs) run.length = (d.put (image d.bitRev (run ++ xs)), []) := by
  unfold putRun
  rw [List.drop_left, List.idxOf?_eq_none_iff.mpr hx]
  dsimp only
  rw [copyRun_eq he (Nat.le_refl _), List.take_length]

theorem decoded_nil (he : d.eof = false) : d.decoded [] [] = d := by
  obtain ⟨⟨data, threshold, eof, diag⟩, dle, recvEtx, rev⟩ := d
  subst he
  cases rev <;> simp [decoded, runs, scan, image, tile]

/-- A round over `run` and what follows it, and the rounds behind. -/
theorem putRun_decoded (run : List Byte) (he : d.eof = false) (hd : d.dle = false) (hl : (run ++ p).length ≤ n + 1)
    (ih : ∀ (d : DLEData) (q : List Byte), d.eof = false → q.length ≤ n →
      putLoop n d q = (d.decoded [] q, (scan DLE ETX d.dle q).rest)) :
    putLoop n (d.putRun (run ++ p) run.length).1 (d.putRun (run ++ p) run.length).2 =
      (d.decoded run p, (scan DLE ETX false p).rest) := by
  cases hi : p.idxOf? DLE with
  | some i =>
    obtain ⟨hs, hx, -⟩ := idxOf?_split hi
    generalize p.take i = xs at *
    generalize p.drop (i + 1) = ys at *
    subst hs
    have hy : ys.length ≤ n := by
      simp only [List.length_append, List.length_cons] at hl
      omega
    rw [← List.append_assoc, putRun_dle he hx, ih _ ys (by rw [put_eof]; exact he) hy,
      put_eq (d := { d with dle := true }) he, scan_run hx, scan_escape]
    simp only [decoded, hd, runs_run hx, scan_run hx, scan_escape]
    simp [runs, Reading.after]
  | none =>
    have hx : DLE ∉ p := List.idxOf?_eq_none_iff.mp hi
    have hr : scan DLE ETX false p = ⟨p, false, false, []⟩ := by
      have h : scan DLE ETX false (p ++ []) = (scan DLE ETX false []).after p := scan_run hx
      simpa [scan, Reading.after] using h
    have hu : runs false run p = [run ++ p] := by
      have h : runs false run (p ++ []) = runs false (run ++ p) [] := runs_run hx
      simpa [runs] using h
    rw [putRun_last he hx, ih _ [] (by rw [put_eof]; exact he) (Nat.zero_le n),
      decoded_nil (by rw [put_eof]; exact he), put_eq he]
    simp [decoded, hd, hr, hu, scan, he]

theorem putLoop_eq (he : d.eof = false) (hn : p.length ≤ n) :
    putLoop n d p = (d.decoded [] p, (scan DLE ETX d.dle p).rest) := by
  induction n generalizing d p with
  | zero =>
    have hp : p = [] := List.eq_nil_of_length_eq_zero (by omega)
    subst hp
    rw [decoded_nil he]
    rfl
  | succ n ih =>
    cases p with
    | nil =>
      rw [decoded_nil he]
      cases d.dle <;> rfl
    | cons a p =>
      have hp : p.length ≤ n := by simpa using hn
      have ih' : ∀ (d : DLEData) (q : List Byte), d.eof = false → q.length ≤ n →
          putLoop n d q = (d.decoded [] q, (scan DLE ETX d.dle q).rest) := fun _ _ he hq => ih he hq
      unfold putLoop
      cases hd : d.dle
      · rw [if_neg (by simp)]
        exact putRun_decoded [] he hd (by simpa using hn) ih'
      · rw [if_pos rfl]
        dsimp only
        split
        next ha =>
          split
          next hs =>
            subst hs
            simp [decoded, putEnd, DataStream.putEof, runs, scan, hd, DLE, ETX]
          next hs =>
            have hr : scan DLE ETX true (a :: p) = scan DLE ETX false p := scan_other ha hs
            have hu : runs true [] (a :: p) = runs false [] p := by simp [runs, ha, hs]
            have := putRun_decoded (d := { d with dle := false }) (p := p) [] he rfl
              (by simpa using Nat.le_succ_of_le hp) ih'
            simp only [List.nil_append, List.length_nil] at this
            rw [this, hr]
            simp only [decoded, hd, hr, hu]
        next ha =>
          have ha : a = DLE := by simpa using ha
          subst ha
          have hr : scan DLE ETX true (DLE :: p) = (scan DLE ETX false p).after [DLE] := scan_pair
          have hu : runs true [] (DLE :: p) = runs false [DLE] p := by simp [runs]
          have := putRun_decoded (d := { d with dle := false }) (p := p) [DLE] he rfl
            (by simpa using hn) ih'
          simp only [List.cons_append, List.nil_append, List.length_singleton] at this
          rw [this, hr]
          simp only [decoded, hd, hr, hu, Reading.after]

theorem putDleData_closed (he : d.eof = true) (bs : List Byte) : d.putDleData bs = (none, d) := by
  simp [putDleData, DataStream.putData_closed he]

theorem putDleData_open (he : d.eof = false) (bs : List Byte) :
    d.putDleData bs = (some (taken DLE ETX d.dle bs), d.decoded [] bs) := by
  unfold putDleData
  rw [DataStream.putData_open he]
  dsimp only
  rw [putLoop_eq he (Nat.le_refl _)]
  rfl

/-- Where the calls of `PutDleData` lead to. -/
def putAll (d : DLEData) (cs : List (List Byte)) : DLEData := cs.foldl (fun d c => (d.putDleData c).2) d

/-- The runs that the calls copy at once. -/
def copied : Bool → List (List Byte) → List (List Byte)
  | _, [] => []
  | p, c :: cs =>
    runs p [] c ++
      if (scan DLE ETX p c).stopped then [] else copied (scan DLE ETX p c).pending cs

/-- The calls do to an object that was empty what the reference reader does. -/
structure Decodes (rev : Bool) (cs : List (List Byte)) : Prop where
  data : (putAll { bitRev := rev } cs).data =
    (scan DLE ETX false cs.flatten).data.map (if rev then BitVec.reverse else id)
  eof : (putAll { bitRev := rev } cs).eof = (scan DLE ETX false cs.flatten).stopped
  results : ∀ pre c post, cs = pre ++ c :: post →
    ((putAll { bitRev := rev } pre).putDleData c).1 =
      if (scan DLE ETX false pre.flatten).stopped then none
      else some (taken DLE ETX false (pre.flatten ++ c) - pre.flatten.length)
  closed : (putAll { bitRev := rev } cs).eof = true → ∀ c,
    (putAll { bitRev := rev } cs).putDleData c = (none, putAll { bitRev := rev } cs)

theorem putAll_closed (he : d.eof = true) (cs : List (List Byte)) : putAll d cs = d := by
  induction cs with
  | nil => rfl
  | cons c cs ih =>
    have hc : (d.putDleData c).2 = d := by rw [putDleData_closed he]
    unfold putAll at ih ⊢
    rw [List.foldl_cons, hc, ih]

theorem putAll_open (he : d.eof = false) (cs : List (List Byte)) :
    putAll d cs = { d with
      data := d.data ++ (copied d.dle cs).flatMap (image d.bitRev),
      dle := (scan DLE ETX d.dle cs.flatten).pending,
      eof := (scan DLE ETX d.dle cs.flatten).stopped } := by
  induction cs generalizing d with
  | nil =>
    obtain ⟨⟨data, threshold, eof, diag⟩, dle, recvEtx, rev⟩ := d
    subst he
    simp [putAll, copied, scan]
  | cons c cs ih =>
    have hc : putAll d (c :: cs) = putAll (d.decoded [] c) cs := by
      unfold putAll
      rw [List.foldl_cons, putDleData_open he]
    rw [hc, List.flatten_cons]
    cases hs : (scan DLE ETX d.dle c).stopped
    · have hd : (d.decoded [] c).eof = false := hs
      rw [ih hd, scan_append hs]
      simp [decoded, copied, hs, Reading.after]
    · have hd : (d.decoded [] c).eof = true := hs
      rw [putAll_closed hd, scan_append_stopped hs]
      simp [decoded, copied, hs]

/-- The runs are together what the reference reader gets. -/
theorem flatten_copied {p : Bool} (cs : List (List Byte)) :
    (copied p cs).flatten = (scan DLE ETX p cs.flatten).data := by
  induction cs generalizing p with
  | nil => simp [copied, scan]
  | cons c cs ih =>
    have hr : (runs p [] c).flatten = (scan DLE ETX p c).data := flatten_runs fun _ => rfl
    rw [List.flatten_cons, copied, List.flatten_append, hr]
    cases hs : (scan DLE ETX p c).stopped
    · rw [scan_append hs, if_neg (by simp), ih]
      rfl
    · rw [scan_append_stopped hs]
      simp

theorem flatMap_eq_iff {f g : List Byte → List Byte} {rs : List (List Byte)}
    (hl : ∀ r, (f r).length = (g r).length) : rs.flatMap f = rs.flatMap g ↔ ∀ r ∈ rs, f r = g r := by
  induction rs with
  | nil => simp
  | cons r rs ih =>
    rw [List.flatMap_cons, List.flatMap_cons, List.forall_mem_cons]
    constructor
    · intro h
      obtain ⟨h1, h2⟩ := List.append_inj h (hl r)
      exact ⟨h1, ih.mp h2⟩
    · rintro ⟨h1, h2⟩
      rw [h1, ih.mpr h2]

theorem bitRevTable_ext : bitRevTable = BitVec.reverse := funext bitRevTable_eq

theorem putAll_data_iff (cs : List (List Byte)) :
    (putAll { bitRev := rev } cs).data =
        (scan DLE ETX false cs.flatten).data.map (if rev then BitVec.reverse else id) ↔
      (rev = true → ∀ r ∈ copied false cs, Periodic r) := by
  rw [putAll_open rfl, ← flatten_copied, List.map_flatten, ← List.flatMap_def, ← bitRevTable_ext]
  have hl : ∀ r, (image rev r).length = (r.map (if rev then bitRevTable else id)).length := by simp
  have hi : (copied false cs).flatMap (image rev) =
      (copied false cs).flatMap (List.map (if rev then bitRevTable else id)) ↔ _ := flatMap_eq_iff hl
  constructor
  · intro h hr r hm
    exact image_eq_iff.mp (hi.mp h r hm) hr
  · intro h
    exact hi.mpr fun r hm => image_eq_iff.mpr fun hr => h hr r hm

theorem putAll_result (pre : List (List Byte)) (c : List Byte) :
    ((putAll { bitRev := rev } pre).putDleData c).1 =
      if (scan DLE ETX false pre.flatten).stopped then none
      else some (taken DLE ETX false (pre.flatten ++ c) - pre.flatten.length) := by
  have hp := putAll_open (d := { bitRev := rev }) rfl pre
  generalize putAll { bitRev := rev } pre = d at *
  have he : d.eof = (scan DLE ETX false pre.flatten).stopped := by rw [hp]
  have hd : d.dle = (scan DLE ETX false pre.flatten).pending := by rw [hp]
  cases hs : (scan DLE ETX false pre.flatten).stopped
  · rw [putDleData_open (he.trans hs), if_neg (by simp)]
    have hr : (scan DLE ETX d.dle c).rest.length ≤ c.length := scan_rest_length
    refine congrArg some ?_
    unfold taken
    rw [scan_append hs, ← hd, Reading.after_rest, List.length_append]
    omega
  · rw [putDleData_closed (he.trans hs)]
    rfl

theorem Decodes.of_periodic {cs : List (List Byte)}
    (h : rev = true → ∀ r ∈ copied false cs, Periodic r) : Decodes rev cs where
  data := (putAll_data_iff cs).mpr h
  eof := by rw [putAll_open rfl]
  results := fun pre c _ _ => putAll_result pre c
  closed := fun he c => putDleData_closed he c

/-- A run that is reversed comes out as the reference reader gets it only when it repeats its first
1024 octets: `p` stays where it is while `tmp` is filled again. -/
theorem decodes_iff (rev : Bool) (cs : List (List Byte)) :
    Decodes rev cs ↔ (rev = true → ∀ r ∈ copied false cs, Periodic r) :=
  ⟨fun h => (putAll_data_iff cs).mp h.data, Decodes.of_periodic⟩

theorem long_run_not_decodes : ¬ Decodes true [List.replicate 1024 0 ++ [1]] := by
  intro h
  have := h.data
  revert this
  decide +kernel

theorem length_of_mem_runs {r : List Byte} (h : r ∈ runs b run p) : r.length ≤ run.length + p.length := by
  induction p generalizing b run with
  | nil =>
    have hr : r = run := by simpa [runs] using h
    simp [hr]
  | cons a p ih =>
    have hd : r ∈ runs true [] p → r.length ≤ p.length := fun hm => by simpa using ih hm
    have hf : r ∈ runs false [] p → r.length ≤ p.length := fun hm => by simpa using ih hm
    simp only [List.length_cons]
    cases b <;> simp only [runs] at h
    · split at h
      next =>
        rcases List.mem_cons.mp h with rfl | hm
        · omega
        · have := hd hm
          omega
      next =>
        have := ih h
        simp at this
        omega
    · split at h
      next =>
        have := ih h
        simp at this
        omega
      next =>
        split at h
        next => cases h
        next =>
          have := hf h
          omega

/-- Calls of no more than 1024 octets copy no longer runs. -/
theorem periodic_of_chunks {cs : List (List Byte)} (h : ∀ c ∈ cs, c.length ≤ 1024) {q : Bool} :
    ∀ r ∈ copied q cs, Periodic r := by
  induction cs generalizing q with
  | nil =>
    intro r hr
    cases hr
  | cons c cs ih =>
    intro r hr
    obtain ⟨hc, hcs⟩ := List.forall_mem_cons.mp h
    rw [copied] at hr
    rcases List.mem_append.mp hr with hr | hr
    · have := length_of_mem_runs hr
      exact periodic_of_short (by simp at this; omega)
    · split at hr
      next => cases hr
      next => exact ih hcs r hr

end DLEData

end T38Modem
