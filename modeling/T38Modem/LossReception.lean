import T38Modem.ImageReception
import T38Modem.LossMarks

namespace T38Modem

open BitList BitStuffing
open T38Engine
open Tape (Cell)

/-- A good frame of a raw stream is a record with good diagnostics. -/
theorem sentFrame_good {rs rs' : List (List Byte × Diag)} {raw : List Byte} (hline : octetBits raw <+: imageLine rs) {i : Nat}
    {bs : List Byte} (hb : (rawFrames raw)[i]? = some (bs, true))
    (hrs : ∀ r, rs[i]? = some r → rs'[i]? = some r ∨ r.2 = diagBadFcs) :
    ∃ d, rs'[i]? = some (bs, d) ∧ d &&& diagErrorMask = 0 := by
  have hsent : (rs.map sentFrame)[i]? = some (bs, true) := by
    obtain ⟨more, hmore⟩ := rawFrames_begun hline
    obtain ⟨hi, -⟩ := List.getElem?_eq_some_iff.mp hb
    rw [← hmore, List.getElem?_append_left hi, hb]
  rw [List.getElem?_map] at hsent
  obtain ⟨r, hr, hframe⟩ := Option.map_eq_some_iff.mp hsent
  obtain ⟨rfl, hgood⟩ := Prod.mk.inj hframe
  have hgood : r.2 &&& diagErrorMask = 0 := beq_iff_eq.mp hgood
  rcases hrs r hr with hmem | hbad
  · exact ⟨r.2, hmem, hgood⟩
  · rw [hbad] at hgood
    exact absurd hgood (by decide)

namespace T38Engine

variable {e : T38Engine} {l : Incoming} {k : Nat} {got raw : List Byte}

/-- The good frames of the raw stream are records that are closed as good ones. -/
theorem Recodes.good (h : Recodes l k got raw e) (hph : ReadPhase Coded e) (hs : e.stateModem = .stmInRecvData) {i : Nat}
    {bs : List Byte} (hb : (rawFrames raw)[i]? = some (bs, true)) :
    ∃ d, l.tape.closed[i]? = some (bs, d) ∧ d &&& diagErrorMask = 0 := by
  obtain ⟨m, b, cs, hm, hfirst, -, hc⟩ := reading_record h.tracks hph hs
  have hemits := h.emits m b hm hfirst
  have htext : got <+: (b.shown got).text := List.prefix_append _ _
  have kept {n : Nat} {r : List Byte × Diag} (hr : (l.tape.closed.take n)[i]? = some r) : l.tape.closed[i]? = some r := by
    rw [List.getElem?_take] at hr
    split at hr
    · exact hr
    · cases hr
  -- the record that is read may still be written, and is no good frame so far
  obtain ⟨rs, hline, hrs⟩ : ∃ rs, octetBits raw <+: imageLine rs ∧
      ∀ r, rs[i]? = some r → l.tape.closed[i]? = some r ∨ r.2 = diagBadFcs := by
    cases hfull : (b.shown got).full with
    | true =>
      obtain ⟨htake, -⟩ := Tape.closed_of_drop hc hfull
      refine ⟨_, hemits.begun (r := (b.shown got).record) htext fun _ => rfl, fun r hr => .inl ?_⟩
      rw [Cell.record, ← htake] at hr
      exact kept hr
    | false =>
      refine ⟨_, hemits.begun (r := (got, diagBadFcs)) (List.prefix_refl _) fun hn => absurd (hfull.symm.trans hn)
        Bool.false_ne_true, fun r hr => ?_⟩
      by_cases hi : i < (l.tape.closed.take k).length
      · rw [List.getElem?_append_left hi] at hr
        exact .inl (kept hr)
      · rw [List.getElem?_append_right (not_lt.mp hi)] at hr
        exact .inr (congrArg Prod.snd (List.mem_singleton.mp (List.mem_of_getElem? hr)))
  exact sentFrame_good hline hb hrs

theorem Whole.good (h : Whole l k raw) {i : Nat} {bs : List Byte} (hb : (rawFrames raw)[i]? = some (bs, true)) :
    ∃ d, l.tape.closed[i]? = some (bs, d) ∧ d &&& diagErrorMask = 0 := by
  obtain ⟨tail, hline, -⟩ := h.line
  exact sentFrame_good (hline ▸ List.prefix_append _ tail) hb fun r hr => .inl hr

end T38Engine

namespace Sys

variable {junk : Hdlc} {now : Int} {as₀ as : List Act} {es₀ es : List Event} {s₀ : Sys} {x : Sys × DteLog} {ind : Indicator}
  {pkts : List (List DataField)} {left : List (Option (List DataField))} {frames : List (List Byte × Bool)}

theorem Imaged.good {type : MsgType} {l : Incoming} (h : Imaged type l x) {raw : List Byte}
    (hraw : x.2.text = some raw ∨ ∃ diag, (raw, diag) ∈ x.2.records) {i : Nat} {bs : List Byte}
    (hb : (rawFrames raw)[i]? = some (bs, true)) : ∃ d, l.tape.closed[i]? = some (bs, d) ∧ d &&& diagErrorMask = 0 := by
  cases h.recoding with
  | before _ ht hd =>
    rw [ht, hd] at hraw
    simp at hraw
  | reads k got raw' hs ht hd hrec =>
    rw [ht, hd] at hraw
    obtain rfl : raw' = raw := by simpa using hraw
    exact hrec.good h.phase hs hb
  | told k got raw' raw'' m _ ht hd _ hw =>
    rw [ht, hd] at hraw
    obtain rfl : raw = raw' := by simpa using hraw
    exact hw.good hb
  | after k raw' m _ ht hd _ hw =>
    rw [ht, hd] at hraw
    obtain rfl : raw = raw' := by simpa using hraw
    exact hw.good hb

def marked (r : (Sys × DteLog) × List Event) : Bool :=
  decide (r.1.2.records = [([0xFF, 0x20], diagBadFcs), ([0xFF, 0x13], 0)])

end Sys

end T38Modem
