import Mathlib.Data.List.Basic
import T38Modem.T30

namespace T38Modem

/-! What the frames of a session have agreed on, whoever sent them. -/

/-- A frame with the facsimile control field `fcf`, of either side. -/
def isMessage (fcf : Byte) : List Byte → Bool
  | address :: control :: x :: _ =>
    address = 0xFF && (control = 0xC0 || control = 0xC8) && (x = fcf || x = fcf ||| 0x80)
  | _ => false

def isDcs : List Byte → Bool := isMessage 0x41

def isCfr : List Byte → Bool := isMessage 0x21

/-- The extend bit and the ECM bit of a DCS. -/
def announcesEcm (frame : List Byte) : Bool := frame.getD 5 0 &&& 1 != 0 && frame.getD 6 0 &&& 0x20 != 0

/-- The last DCS announced error correction. -/
def EcmAnnounced (frames : List (List Byte)) : Prop :=
  ∃ before dcs after, frames = before ++ dcs :: after ∧ isDcs dcs = true ∧ announcesEcm dcs = true ∧
    ∀ f ∈ after, isDcs f = false

/-- The last DCS announced error correction, and a CFR came behind it. -/
def EcmAgreed (frames : List (List Byte)) : Prop :=
  ∃ before dcs after, frames = before ++ dcs :: after ∧ isDcs dcs = true ∧ announcesEcm dcs = true ∧
    (∀ f ∈ after, isDcs f = false) ∧ ∃ f ∈ after, isCfr f = true

variable {frames : List (List Byte)} {f : List Byte}

theorem ecmAnnounced_dcs (h : isDcs f = true) : EcmAnnounced (frames ++ [f]) ↔ announcesEcm f = true := by
  constructor
  · rintro ⟨before, dcs, after, he, -, hecm, hlast⟩
    rcases List.eq_nil_or_concat' after with rfl | ⟨after, g, rfl⟩
    · have hf : f = dcs := by simpa using (List.append_inj' he rfl).2
      exact hf ▸ hecm
    · have hg : f = g := by
        have he' : frames ++ [f] = (before ++ dcs :: after) ++ [g] := by simpa using he
        simpa using (List.append_inj' he' rfl).2
      have hno := hlast g (by simp)
      rw [← hg, h] at hno
      cases hno
  · intro hecm
    exact ⟨frames, f, [], rfl, h, hecm, by simp⟩

/-- A frame behind the last DCS that is none. -/
theorem split_snoc {P : List (List Byte) → Prop} (h : isDcs f = false) :
    (∃ before dcs after, frames ++ [f] = before ++ dcs :: after ∧ isDcs dcs = true ∧ announcesEcm dcs = true ∧
      (∀ g ∈ after, isDcs g = false) ∧ P after) ↔
    ∃ before dcs after, frames = before ++ dcs :: after ∧ isDcs dcs = true ∧ announcesEcm dcs = true ∧
      (∀ g ∈ after, isDcs g = false) ∧ P (after ++ [f]) := by
  constructor
  · rintro ⟨before, dcs, after, he, hd, hecm, hlast, hp⟩
    rcases List.eq_nil_or_concat' after with rfl | ⟨after, g, rfl⟩
    · have hf : f = dcs := by simpa using (List.append_inj' he rfl).2
      rw [hf, hd] at h
      cases h
    · have he' : frames ++ [f] = (before ++ dcs :: after) ++ [g] := by simpa using he
      obtain ⟨hfr, hg⟩ := List.append_inj' he' rfl
      obtain rfl : f = g := by simpa using hg
      exact ⟨before, dcs, after, hfr, hd, hecm, fun x hx => hlast x (by simp [hx]), hp⟩
  · rintro ⟨before, dcs, after, rfl, hd, hecm, hlast, hp⟩
    refine ⟨before, dcs, after ++ [f], by simp, hd, hecm, fun x hx => ?_, hp⟩
    rcases List.mem_append.mp hx with hx | hx
    · exact hlast x hx
    · rw [List.mem_singleton.mp hx]
      exact h

theorem ecmAnnounced_other (h : isDcs f = false) : EcmAnnounced (frames ++ [f]) ↔ EcmAnnounced frames := by
  simpa [EcmAnnounced] using @split_snoc frames f (fun _ => True) h

theorem ecmAgreed_dcs (h : isDcs f = true) : ¬EcmAgreed (frames ++ [f]) := by
  rintro ⟨before, dcs, after, he, -, -, hlast, g, hg, hcfr⟩
  rcases List.eq_nil_or_concat' after with rfl | ⟨after, x, rfl⟩
  · cases hg
  · have he' : frames ++ [f] = (before ++ dcs :: after) ++ [x] := by simpa using he
    obtain rfl : f = x := by simpa using (List.append_inj' he' rfl).2
    have hno := hlast f (by simp)
    rw [h] at hno
    cases hno

theorem ecmAgreed_other (h : isDcs f = false) :
    EcmAgreed (frames ++ [f]) ↔ EcmAgreed frames ∨ isCfr f = true ∧ EcmAnnounced frames := by
  have hs := @split_snoc frames f (fun after => ∃ g ∈ after, isCfr g = true) h
  rw [EcmAgreed, hs]
  constructor
  · rintro ⟨before, dcs, after, he, hd, hecm, hlast, g, hg, hcfr⟩
    rcases List.mem_append.mp hg with hg | hg
    · exact .inl ⟨before, dcs, after, he, hd, hecm, hlast, g, hg, hcfr⟩
    · obtain rfl := List.mem_singleton.mp hg
      exact .inr ⟨hcfr, before, dcs, after, he, hd, hecm, hlast⟩
  · rintro (⟨before, dcs, after, he, hd, hecm, hlast, g, hg, hcfr⟩ | ⟨hcfr, before, dcs, after, he, hd, hecm, hlast⟩)
    · exact ⟨before, dcs, after, he, hd, hecm, hlast, g, by simp [hg], hcfr⟩
    · exact ⟨before, dcs, after, he, hd, hecm, hlast, f, by simp, hcfr⟩

namespace T30

variable {t : T30}

/-- What the engine has learnt is what the frames have agreed on. -/
structure Agrees (t : T30) (frames : List (List Byte)) : Prop where
  ecm : t.ecm = true ↔ EcmAnnounced frames
  hdlcOnly : t.hdlcOnly = true ↔ EcmAgreed frames

theorem control_iff : ∀ c : Byte, c &&& 0xF7 = 0xC0 ↔ c = 0xC0 ∨ c = 0xC8 := by decide +kernel

theorem dcsEcm_eq (a b c : Byte) (fif : List Byte) : dcsEcm fif = announcesEcm (a :: b :: c :: fif) := by
  match fif with
  | [] | [_] | [_, _] | [_, _, _] => simp [dcsEcm, announcesEcm]
  | _ :: _ :: _ :: _ :: _ => rfl

theorem v21End_eq : t.v21End =
    if isDcs t.v21frame then { t with ecm := announcesEcm t.v21frame, cfr := false }
    else if isCfr t.v21frame then { t with cfr := true } else t := by
  have hmessage : ∀ x a c f fif, isMessage x (a :: c :: f :: fif) = true ↔
      a = 0xFF ∧ c &&& 0xF7 = 0xC0 ∧ (f = x ∨ f = x ||| 0x80) := by
    intro x a c f fif
    rw [control_iff]
    simp [isMessage, and_assoc]
  unfold v21End isDcs isCfr
  split
  next address control fcf fif hf =>
    rw [hf]
    by_cases ha : address = 0xFF
    · rw [if_neg (not_not.mpr ha)]
      by_cases hc : control &&& 0xF7 = 0xC0
      · rw [if_neg (not_not.mpr hc), dcsEcm_eq address control fcf fif]
        refine if_congr ?_ rfl (if_congr ?_ rfl rfl)
        · rw [hmessage]
          exact ⟨fun h => ⟨ha, hc, h⟩, fun h => h.2.2⟩
        · rw [hmessage]
          exact ⟨fun h => ⟨ha, hc, h⟩, fun h => h.2.2⟩
      · rw [if_pos hc, if_neg fun h => hc ((hmessage ..).mp h).2.1, if_neg fun h => hc ((hmessage ..).mp h).2.1]
    · rw [if_pos ha, if_neg fun h => ha ((hmessage ..).mp h).1, if_neg fun h => ha ((hmessage ..).mp h).1]
  next hf =>
    have hno : ∀ x, isMessage x t.v21frame = false := by
      intro x
      unfold isMessage
      split
      next h => exact absurd h (hf _ _ _ _)
      next => rfl
    simp [hno]

@[simp] theorem v21End_frame : t.v21End.v21frame = t.v21frame := by
  rw [v21End_eq]
  split
  · rfl
  · split <;> rfl

/-- To end a frame twice is to end it once. -/
theorem v21End_v21End : t.v21End.v21End = t.v21End := by
  rw [v21End_eq (t := t.v21End), v21End_frame, v21End_eq]
  split
  · rfl
  · split <;> rfl

/-- The end of a frame adds it to what has passed. -/
theorem Agrees.v21End (h : Agrees t frames) : Agrees t.v21End (frames ++ [t.v21frame]) := by
  rw [v21End_eq]
  split
  next hd =>
    refine ⟨(ecmAnnounced_dcs hd).symm, ?_⟩
    exact iff_of_false (by simp [T30.hdlcOnly]) (ecmAgreed_dcs hd)
  next hd =>
    have hd : isDcs t.v21frame = false := by simpa using hd
    split
    next hc =>
      refine ⟨h.ecm.trans (ecmAnnounced_other hd).symm, ?_⟩
      rw [ecmAgreed_other hd]
      have hann : EcmAgreed frames → EcmAnnounced frames := fun ⟨before, dcs, after, he, h1, h2, h3, _⟩ =>
        ⟨before, dcs, after, he, h1, h2, h3⟩
      simp only [T30.hdlcOnly, Bool.true_and, h.ecm]
      exact ⟨fun ha => .inr ⟨hc, ha⟩, fun ha => ha.elim hann And.right⟩
    next hc =>
      refine ⟨h.ecm.trans (ecmAnnounced_other hd).symm, ?_⟩
      rw [ecmAgreed_other hd, h.hdlcOnly]
      simp [hc]

theorem Agrees.congr {t' : T30} (h : Agrees t frames) (he : t'.ecm = t.ecm) (hc : t'.cfr = t.cfr) : Agrees t' frames := by
  refine ⟨he ▸ h.ecm, ?_⟩
  have hh : t'.hdlcOnly = t.hdlcOnly := by rw [T30.hdlcOnly, T30.hdlcOnly, he, hc]
  rw [hh]
  exact h.hdlcOnly

theorem agrees_start : Agrees {} [] := by
  refine ⟨iff_of_false nofun ?_, iff_of_false nofun ?_⟩
  · rintro ⟨before, dcs, after, he, -⟩
    simp at he
  · rintro ⟨before, dcs, after, he, -⟩
    simp at he

end T30

end T38Modem
