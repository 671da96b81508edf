import Mathlib.Tactic.Ring
import T38Modem.ToneGenerator

namespace T38Modem

namespace ToneGenerator

open Signal

/-- The octet of the endless tone at a position. -/
def cadence (g : ToneGenerator) (p : Nat) : Byte :=
  if p % g.bytesOnOff < g.bytesOn then g.toneOn.getD (p % g.bytesOnOff % g.toneOn.length) 0 else 0

/-- Inside the next `amount` octets the tone changes to silence. -/
def Crosses (g : ToneGenerator) (amount : Nat) : Prop :=
  ∃ d, 0 < d ∧ d < amount ∧ (g.index + d) % g.bytesOnOff = g.bytesOn

variable {g : ToneGenerator} {n amount i : Nat} {h : i ≤ g.bytesOn + g.bytesOff}

@[simp] theorem setIndex_index : (g.setIndex i h).index = i := rfl
@[simp] theorem setIndex_bytesOn : (g.setIndex i h).bytesOn = g.bytesOn := rfl
@[simp] theorem setIndex_toneOn : (g.setIndex i h).toneOn = g.toneOn := rfl
@[simp] theorem setIndex_bytesOnOff : (g.setIndex i h).bytesOnOff = g.bytesOnOff := rfl
@[simp] theorem setIndex_cadence : (g.setIndex i h).cadence = g.cadence := rfl

@[simp] theorem setIndex_setIndex {j : Nat} (hj : j ≤ g.bytesOn + g.bytesOff) :
    (g.setIndex i h).setIndex j hj = g.setIndex j hj := rfl

theorem rewind_cases (g : ToneGenerator) :
    ∃ i h, g.rewind = g.setIndex i h ∧ i < g.bytesOnOff ∧ i % g.bytesOnOff = g.index % g.bytesOnOff := by
  have hc : 0 < g.bytesOnOff := g.cycle_pos
  have hi : g.index ≤ g.bytesOnOff := g.index_le
  unfold rewind
  split
  next he =>
    have heq : g.index = g.bytesOnOff := by omega
    exact ⟨0, Nat.zero_le _, rfl, hc, by rw [heq, Nat.mod_self, Nat.zero_mod]⟩
  next he => exact ⟨g.index, g.index_le, rfl, by omega, rfl⟩

theorem cadence_mod (g : ToneGenerator) (p : Nat) : g.cadence (p % g.bytesOnOff) = g.cadence p := by
  unfold cadence
  rw [Nat.mod_mod]

theorem cadence_on {p : Nat} (hp : p < g.bytesOn) : g.cadence p = g.toneOn.getD (p % g.toneOn.length) 0 := by
  have hlt : p < g.bytesOnOff := Nat.lt_of_lt_of_le hp (Nat.le_add_right _ _)
  rw [cadence, Nat.mod_eq_of_lt hlt, if_pos hp]

theorem cadence_off {p : Nat} (hp : g.bytesOn ≤ p) (hlt : p < g.bytesOnOff) : g.cadence p = 0 := by
  rw [cadence, Nat.mod_eq_of_lt hlt, if_neg (Nat.not_lt.mpr hp)]

theorem roundLen_on (amount : Nat) (hi : g.index < g.bytesOn) :
    g.roundLen amount = min (g.toneOn.length - g.index % g.toneOn.length) amount := by
  unfold roundLen
  dsimp only
  rw [if_pos hi]
  split <;> omega

theorem roundLen_off (amount : Nat) (hi : g.bytesOn ≤ g.index) :
    g.roundLen amount = min (g.bytesOnOff - g.index) amount := by
  unfold roundLen
  dsimp only
  rw [if_neg (Nat.not_lt.mpr hi)]
  split <;> omega

theorem roundLen_le : g.roundLen amount ≤ amount := by
  rcases Nat.lt_or_ge g.index g.bytesOn with hi | hi
  · rw [roundLen_on _ hi]
    exact Nat.min_le_right _ _
  · rw [roundLen_off _ hi]
    exact Nat.min_le_right _ _

theorem roundLen_pos (hi : g.index < g.bytesOnOff) (ha : 0 < amount) : 0 < g.roundLen amount := by
  rcases Nat.lt_or_ge g.index g.bytesOn with hon | hoff
  · have hmod := Nat.mod_lt g.index (g.tone_pos (by omega))
    rw [roundLen_on _ hon]
    omega
  · rw [roundLen_off _ hoff]
    omega

theorem length_round : (g.round amount).length = g.roundLen amount := by
  unfold round
  split
  next hi =>
    have hlen := roundLen_on amount hi
    simp only [List.length_take, List.length_drop]
    omega
  next => exact List.length_replicate

/-- A round that starts in the tone copies the waveform, also where it runs past the tone. -/
theorem round_get (hi : g.index < g.bytesOn) {d : Nat} (hd : d < g.roundLen amount) :
    (g.round amount)[d]? = some (g.toneOn.getD ((g.index + d) % g.toneOn.length) 0) := by
  have hlen := roundLen_on amount hi
  have hmod := Nat.mod_lt g.index (g.tone_pos (by omega))
  have hlt : g.index % g.toneOn.length + d < g.toneOn.length := by omega
  have hpos : (g.index + d) % g.toneOn.length = g.index % g.toneOn.length + d := by
    rw [Nat.add_mod, Nat.mod_eq_of_lt (show d < g.toneOn.length by omega), Nat.mod_eq_of_lt hlt]
  rw [round, if_pos hi, List.getElem?_take, if_pos hd, List.getElem?_drop, hpos,
    List.getElem?_eq_getElem hlt, List.getD_eq_getElem?_getD, List.getElem?_eq_getElem hlt, Option.getD_some]

/-- The tone does not end inside a round, if whole waveforms fit into it or the read stops first. -/
theorem round_fits (hi : g.index < g.bytesOn) (hr : g.toneOn.length ∣ g.bytesOn ∨ ¬g.Crosses amount) :
    g.index + g.roundLen amount ≤ g.bytesOn := by
  have hlen := roundLen_on amount hi
  have htone := g.tone_pos (by omega)
  rcases hr with ⟨k, hk⟩ | hr
  · have hdiv := Nat.div_add_mod g.index g.toneOn.length
    have hlt : g.index / g.toneOn.length < k := by
      apply Nat.div_lt_of_lt_mul
      rwa [← hk]
    have hmul : g.toneOn.length * (g.index / g.toneOn.length + 1) ≤ g.toneOn.length * k :=
      Nat.mul_le_mul_left _ hlt
    rw [Nat.mul_add, Nat.mul_one] at hmul
    omega
  · apply Nat.le_of_not_lt
    intro hlt
    have htail := g.tail_room
    have heq : g.index + (g.bytesOn - g.index) = g.bytesOn := by omega
    refine hr ⟨g.bytesOn - g.index, by omega, by omega, ?_⟩
    rw [heq]
    exact Nat.mod_eq_of_lt (show g.bytesOn < g.bytesOn + g.bytesOff by omega)

theorem round_window (hi : g.index < g.bytesOnOff)
    (hr : g.toneOn.length ∣ g.bytesOn ∨ ¬g.Crosses amount) :
    g.round amount = window g.cadence g.index (g.roundLen amount) := by
  rcases Nat.lt_or_ge g.index g.bytesOn with hon | hoff
  · have hfits := round_fits hon hr
    apply List.ext_getElem?
    intro d
    by_cases hd : d < g.roundLen amount
    · rw [round_get hon hd, window_get d hd, cadence_on (by omega)]
    · rw [List.getElem?_eq_none (by rw [length_round]; omega),
        List.getElem?_eq_none (by rw [length_window]; omega)]
  · have hlen := roundLen_off amount hoff
    rw [round, if_neg (Nat.not_lt.mpr hoff)]
    exact (window_const fun i hlt => cadence_off (by omega) (by omega)).symm

theorem Crosses.rest {len : Nat} (hlen : len ≤ amount) (hl : g.index + len ≤ g.bytesOn + g.bytesOff)
    (hc : (g.setIndex (g.index + len) hl).Crosses (amount - len)) : g.Crosses amount := by
  obtain ⟨d, hd, hlt, hmod⟩ := hc
  simp only [setIndex_index, setIndex_bytesOnOff, setIndex_bytesOn] at hmod
  exact ⟨len + d, by omega, by omega, by rw [← Nat.add_assoc]; exact hmod⟩

theorem crosses_congr {j : Nat} (hj : j ≤ g.bytesOn + g.bytesOff)
    (hmod : j % g.bytesOnOff = g.index % g.bytesOnOff) :
    (g.setIndex j hj).Crosses amount ↔ g.Crosses amount := by
  have hadd : ∀ d, (j + d) % g.bytesOnOff = (g.index + d) % g.bytesOnOff := fun d => Nat.ModEq.add_right d hmod
  simp only [Crosses, setIndex_index, setIndex_bytesOnOff, setIndex_bytesOn, hadd]

theorem readLoop_zero : readLoop n g 0 = ([], g) := by
  cases n with
  | zero => rfl
  | succ n => rw [readLoop, if_pos rfl]

theorem readLoop_succ (ha : 0 < amount) :
    ∃ j hj len hl, j < g.bytesOnOff ∧ j % g.bytesOnOff = g.index % g.bytesOnOff ∧ 0 < len ∧ len ≤ amount ∧
      (g.setIndex j hj).roundLen amount = len ∧
      readLoop (n + 1) g amount =
        ((g.setIndex j hj).round amount ++ (readLoop n (g.setIndex (j + len) hl) (amount - len)).1,
          (readLoop n (g.setIndex (j + len) hl) (amount - len)).2) := by
  obtain ⟨j, hj, he, hlt, hmod⟩ := g.rewind_cases
  refine ⟨j, hj, (g.setIndex j hj).roundLen amount, index_roundLen (g.setIndex j hj) amount, hlt, hmod,
    roundLen_pos hlt ha, roundLen_le, rfl, ?_⟩
  rw [readLoop, if_neg (by omega), he]
  rfl

theorem length_readLoop (hn : amount ≤ n) : (readLoop n g amount).1.length = amount := by
  induction n generalizing g amount with
  | zero =>
    obtain rfl : amount = 0 := by omega
    rfl
  | succ n ih =>
    rcases Nat.eq_zero_or_pos amount with rfl | ha
    · rw [readLoop_zero, List.length_nil]
    · obtain ⟨j, hj, len, hl, -, -, hpos, hle, hlen, hr⟩ := readLoop_succ (n := n) (g := g) ha
      have hrest := ih (g := g.setIndex (j + len) hl) (show amount - len ≤ n by omega)
      rw [hr, List.length_append, length_round, hlen, hrest]
      omega

/-- A read moves the index alone, by what was asked for. -/
theorem readLoop_index (hn : amount ≤ n) :
    ∃ i h, (readLoop n g amount).2 = g.setIndex i h ∧
      i % g.bytesOnOff = (g.index + amount) % g.bytesOnOff := by
  induction n generalizing g amount with
  | zero =>
    obtain rfl : amount = 0 := by omega
    exact ⟨g.index, g.index_le, rfl, rfl⟩
  | succ n ih =>
    rcases Nat.eq_zero_or_pos amount with rfl | ha
    · rw [readLoop_zero]
      exact ⟨g.index, g.index_le, rfl, rfl⟩
    · obtain ⟨j, hj, len, hl, -, hmod, hpos, hle, -, hr⟩ := readLoop_succ (n := n) (g := g) ha
      obtain ⟨i, hi, he, hmi⟩ := ih (g := g.setIndex (j + len) hl) (show amount - len ≤ n by omega)
      refine ⟨i, hi, by rw [hr]; exact he, ?_⟩
      have hadd : j + len + (amount - len) = j + amount := by omega
      simp only [setIndex_bytesOnOff, setIndex_index, hadd] at hmi
      exact hmi.trans (Nat.ModEq.add_right amount hmod)

/-- A read gives the cadence, if the tone does not end inside it. -/
theorem readLoop_window (hn : amount ≤ n) (hr : g.toneOn.length ∣ g.bytesOn ∨ ¬g.Crosses amount) :
    (readLoop n g amount).1 = window g.cadence g.index amount := by
  induction n generalizing g amount with
  | zero =>
    obtain rfl : amount = 0 := by omega
    rfl
  | succ n ih =>
    rcases Nat.eq_zero_or_pos amount with rfl | ha
    · rw [readLoop_zero, window_zero]
    · obtain ⟨j, hj, len, hl, hlt, hmod, hpos, hle, hlen, he⟩ := readLoop_succ (n := n) (g := g) ha
      have hrj : g.toneOn.length ∣ g.bytesOn ∨ ¬(g.setIndex j hj).Crosses amount :=
        hr.imp_right (mt (crosses_congr hj hmod).mp)
      have hrest : ¬g.Crosses amount → ¬(g.setIndex (j + len) hl).Crosses (amount - len) := fun hc hcross =>
        hc ((crosses_congr hj hmod).mp (hcross.rest (g := g.setIndex j hj) hle hl))
      rw [he, ih (g := g.setIndex (j + len) hl) (by omega) (hr.imp_right hrest),
        round_window (g := g.setIndex j hj) hlt hrj, hlen]
      simp only [setIndex_cadence, setIndex_index]
      rw [window_append, Nat.add_sub_cancel' hle]
      exact window_mod g.cadence_mod hmod

/-- Where the tone ends inside a read, though not with a waveform, the waveform runs on. -/
theorem readLoop_cross (hn : amount ≤ n) (hw : ¬g.toneOn.length ∣ g.bytesOn) {d : Nat} (hd : 0 < d)
    (hlt : d < amount) (hc : (g.index + d) % g.bytesOnOff = g.bytesOn) :
    (readLoop n g amount).1[d]? = some (g.toneOn.getD (g.bytesOn % g.toneOn.length) 0) := by
  induction n generalizing g amount d with
  | zero => omega
  | succ n ih =>
    obtain ⟨j, hj, len, hl, hj', hmod, hpos, hle, hlen, he⟩ :=
      readLoop_succ (n := n) (g := g) (show 0 < amount by omega)
    have hcj : (j + d) % g.bytesOnOff = g.bytesOn := by
      rw [← hc]
      exact Nat.ModEq.add_right d hmod
    have hon : 0 < g.bytesOn := Nat.pos_of_ne_zero fun h0 => hw (h0 ▸ Nat.dvd_zero _)
    have hcycle : g.bytesOnOff = g.bytesOn + g.bytesOff := rfl
    have hround : ((g.setIndex j hj).round amount).length = (g.setIndex j hj).roundLen amount := length_round
    -- up to its end the round stays in one cycle
    have hin : d ≤ len → j + d = g.bytesOn := by
      intro hdl
      rcases Nat.lt_or_ge (j + d) g.bytesOnOff with hlt | hge
      · rwa [Nat.mod_eq_of_lt hlt] at hcj
      · rw [show j + d = g.bytesOnOff by omega, Nat.mod_self] at hcj
        omega
    rw [he]
    rcases Nat.lt_trichotomy d len with hdl | rfl | hdl
    · have hjd := hin (by omega)
      rw [List.getElem?_append_left (by omega),
        round_get (g := g.setIndex j hj) (by simp only [setIndex_index, setIndex_bytesOn]; omega) (by omega)]
      simp only [setIndex_index, setIndex_toneOn, hjd]
    · -- it would end with a waveform
      exfalso
      have hjd := hin (Nat.le_refl _)
      rw [roundLen_on _ (by simp only [setIndex_index, setIndex_bytesOn]; omega)] at hlen
      simp only [setIndex_index, setIndex_toneOn] at hlen
      have hdiv := Nat.div_add_mod j g.toneOn.length
      have hmodlt := Nat.mod_lt j (g.tone_pos hon)
      refine hw ⟨j / g.toneOn.length + 1, ?_⟩
      rw [Nat.mul_add, Nat.mul_one]
      omega
    · rw [List.getElem?_append_right (by omega), hround, hlen]
      apply ih (g := g.setIndex (j + len) hl) (by omega) hw (by omega) (by omega)
      simp only [setIndex_index, setIndex_bytesOnOff, setIndex_bytesOn]
      rwa [show j + len + (d - len) = j + d by omega]

end ToneGenerator

end T38Modem
