import T38Modem.Channel
import T38Modem.PacketGrammar
import T38Modem.SignalTape
import T38Modem.Udptl

namespace T38Modem

open T38Engine

/-- The packets from the beginning on. -/
def spoken (ps : List Ifp) : Incoming := ps.foldl Incoming.packet {}

theorem spoken_append (ps qs : List Ifp) : spoken (ps ++ qs) = qs.foldl Incoming.packet (spoken ps) := List.foldl_append

theorem spoken_concat (ps : List Ifp) (p : Ifp) : spoken (ps ++ [p]) = (spoken ps).packet p := spoken_append ps [p]

namespace Incoming

/-- What may be sent next: an indicator between two signals, or again right behind itself, and fields of the signal,
of which the last may be its end. -/
def Fits (l : Incoming) : Ifp → Prop
  | .t30Indicator type => l.tape.current = none ∨
      type.isTraining = true ∧ l.tape.current = some ([], 0) ∧ l.type = (getModParsByInd type).msgType
  | .data type (some fs) => l.tape.current.isSome = true ∧ l.type = type ∧
      ∀ f ∈ fs.dropLast, FieldType.isSigEnd f.fieldType = false
  | _ => False

/-- Packets that fit one behind the other. -/
def Speaks (l : Incoming) : List Ifp → Prop
  | [] => True
  | p :: ps => l.Fits p ∧ (l.packet p).Speaks ps

variable {l : Incoming} {ps : List Ifp} {p : Ifp}

theorem speaks_append {qs : List Ifp} : l.Speaks (ps ++ qs) ↔ l.Speaks ps ∧ (ps.foldl packet l).Speaks qs := by
  induction ps generalizing l with
  | nil => simp [Speaks]
  | cons p ps ih =>
    rw [List.cons_append, Speaks, Speaks, ih, and_assoc]
    rfl

theorem speaks_concat : l.Speaks (ps ++ [p]) ↔ l.Speaks ps ∧ (ps.foldl packet l).Fits p := by
  rw [speaks_append, Speaks, Speaks, and_true]

/-- Behind an indicator the indicator may come again, and says nothing. -/
theorem fits_again {type : Indicator} (h : l.Fits (.t30Indicator type)) :
    (l.packet (.t30Indicator type)).Fits (.t30Indicator type) ∧
      (l.packet (.t30Indicator type)).packet (.t30Indicator type) = l.packet (.t30Indicator type) := by
  cases ht : type.isTraining with
  | false =>
    have hnone : l.tape.current = none := by
      rcases h with h | ⟨htrue, -⟩
      · exact h
      · exact absurd (ht.symm.trans htrue) Bool.false_ne_true
    have hsame : l.packet (.t30Indicator type) = l := by
      unfold packet
      dsimp only
      rw [if_pos ht, SignalTape.breakOff_none hnone]
    rw [hsame, hsame]
    exact ⟨.inl hnone, rfl⟩
  | true =>
    rcases h with hnone | ⟨-, hcur, htype⟩
    · rw [packet_begin ht hnone]
      have hstart : (l.tape.start 0).current = some ([], 0) := by simp [Tape.start, hnone]
      exact ⟨.inr ⟨ht, hstart, rfl⟩, packet_again ht (by rw [hstart]; rfl)⟩
    · have hsame := packet_again ht (by rw [hcur]; rfl : l.tape.current.isSome = true)
      rw [hsame, hsame]
      exact ⟨.inr ⟨ht, hcur, htype⟩, rfl⟩

end Incoming

/-- What has been begun is on the tape. -/
def Stage.On (o : Stage) (l : Incoming) : Prop :=
  match o with
  | .hdlc m false => l.tape.current = some ([], 0) ∧ l.type = m.msgType
  | .hdlc m true | .raw m => ∃ bs, l.tape.current = some (bs, 0) ∧ l.type = m.msgType
  | _ => l.tape.current = none

theorem row_training {m : ModPars} (hm : m ∈ mods) : m.ind.isTraining = true :=
  List.contains_iff_mem.mpr (List.mem_map.mpr ⟨m, hm, rfl⟩)

theorem data_octets (fieldType : FieldType) (bs : List Byte) :
    octetsOf [⟨fieldType, if bs = [] then none else some bs⟩] = bs := by
  by_cases h : bs = [] <;> simp [octetsOf, h]

variable {o : Stage} {ps : List Ifp}

theorem spoken_data {type : MsgType} (ht : (spoken ps).type = type) (ft : FieldType) (bs : List Byte) :
    spoken (ps ++ [t38data type ft bs]) =
      { spoken ps with tape := (spoken ps).tape.field ⟨ft, if bs = [] then none else some bs⟩ } := by
  rw [spoken_concat, t38data, Incoming.packet_data ht]
  rfl

theorem spoken_indicator {type : Indicator} (ht : type.isTraining = false) (hon : (spoken ps).tape.current = none) :
    spoken (ps ++ [t38indicator type]) = spoken ps := by
  rw [spoken_concat]
  unfold Incoming.packet t38indicator
  dsimp only
  rw [if_pos ht, SignalTape.breakOff_none hon]

/-- The packets of a sender fit one behind the other. -/
theorem Begun.speaks (h : Begun o ps) : Incoming.Speaks {} ps ∧ o.On (spoken ps) := by
  have begins {m : ModPars} (hm : m ∈ mods) {ps : List Ifp} (h : Incoming.Speaks {} ps) (hon : (spoken ps).tape.current = none) :
      Incoming.Speaks {} (ps ++ [t38indicator m.ind]) ∧ (spoken (ps ++ [t38indicator m.ind])).tape.current = some ([], 0) ∧
        (spoken (ps ++ [t38indicator m.ind])).type = m.msgType := by
    refine ⟨Incoming.speaks_concat.mpr ⟨h, .inl hon⟩, ?_⟩
    rw [spoken_concat, t38indicator, Incoming.packet_begin (row_training hm) hon, getModParsByInd_row hm]
    exact ⟨by simp [Tape.start, hon], rfl⟩
  have passes {type : Indicator} (ht : type.isTraining = false) {ps : List Ifp} (h : Incoming.Speaks {} ps)
      (hon : (spoken ps).tape.current = none) :
      Incoming.Speaks {} (ps ++ [t38indicator type]) ∧ (spoken (ps ++ [t38indicator type])).tape.current = none := by
    refine ⟨Incoming.speaks_concat.mpr ⟨h, .inl hon⟩, ?_⟩
    rw [spoken_indicator ht hon]
    exact hon
  have fields {type : MsgType} (ft : FieldType) (bs : List Byte) {ps : List Ifp} {xs : List Byte} (h : Incoming.Speaks {} ps)
      (hc : (spoken ps).tape.current = some (xs, 0)) (ht : (spoken ps).type = type) :
      Incoming.Speaks {} (ps ++ [t38data type ft bs]) ∧ spoken (ps ++ [t38data type ft bs]) =
        { spoken ps with tape := (spoken ps).tape.field ⟨ft, if bs = [] then none else some bs⟩ } := by
    refine ⟨Incoming.speaks_concat.mpr ⟨h, ?_⟩, spoken_data ht ft bs⟩
    exact ⟨Option.isSome_iff_exists.mpr ⟨_, hc⟩, ht, fun f hf => by cases hf⟩
  induction h with
  | start => exact ⟨trivial, rfl⟩
  | noSignal ho _ ih =>
    refine passes rfl ih.1 ?_
    rcases ho with rfl | rfl | rfl <;> exact ih.2
  | cng _ ih => exact passes rfl ih.1 ih.2
  | ced _ ih => exact passes rfl ih.1 ih.2
  | hdlc hm _ ih => exact begins hm ih.1 ih.2
  | @hdlcData m d bs ps _ ih =>
    obtain ⟨xs, hc, ht⟩ : ∃ xs, (spoken ps).tape.current = some (xs, 0) ∧ (spoken ps).type = m.msgType := by
      cases d with
      | false => exact ⟨[], ih.2⟩
      | true => exact ih.2
    obtain ⟨hs, he⟩ := fields .hdlcData bs ih.1 hc ht
    refine ⟨hs, xs ++ bs, ?_, ?_⟩
    · rw [he, SignalTape.field_data (.inl rfl), SignalTape.put_current hc, data_octets]
    · rw [he]
      exact ht
  | @hdlcFcs m ok ps _ ih =>
    obtain ⟨xs, hc, ht⟩ := ih.2
    obtain ⟨hs, he⟩ := fields (if ok then .hdlcFcsOK else .hdlcFcsBAD) [] ih.1 hc ht
    refine ⟨hs, ?_, ?_⟩
    · rw [he, SignalTape.field_fcs hc rfl]
    · rw [he]
      exact ht
  | @hdlcSigEnd m ps _ ih =>
    obtain ⟨hs, he⟩ := fields .hdlcSigEnd [] ih.1 ih.2.1 ih.2.2
    refine ⟨hs, ?_⟩
    show (spoken _).tape.current = none
    rw [he, SignalTape.field_sigEnd ih.2.1 (.inl rfl)]
  | raw hm _ ih =>
    obtain ⟨hs, hc, ht⟩ := begins hm ih.1 ih.2
    exact ⟨hs, [], hc, ht⟩
  | @rawData m bs ps _ ih =>
    obtain ⟨xs, hc, ht⟩ := ih.2
    obtain ⟨hs, he⟩ := fields .t4NonEcmData bs ih.1 hc ht
    refine ⟨hs, xs ++ bs, ?_, ?_⟩
    · rw [he, SignalTape.field_data (.inr rfl), SignalTape.put_current hc, data_octets]
    · rw [he]
      exact ht
  | @rawSigEnd m ps _ ih =>
    obtain ⟨xs, hc, ht⟩ := ih.2
    obtain ⟨hs, he⟩ := fields .t4NonEcmSigEnd [] ih.1 hc ht
    refine ⟨hs, ?_⟩
    show (spoken _).tape.current = none
    rw [he, SignalTape.field_sigEnd hc (.inr rfl)]

/-- Indicators that are said again say nothing new. -/
theorem spoken_stutters {ps qs : List Ifp} (h : Stutters (fun p => p.isIndicator = true) ps qs) (hs : Incoming.Speaks {} ps) :
    Incoming.Speaks {} qs ∧ spoken qs = spoken ps := by
  induction h with
  | nil => exact ⟨trivial, rfl⟩
  | next p _ ih =>
    obtain ⟨hps, hfit⟩ := Incoming.speaks_concat.mp hs
    obtain ⟨hqs, he⟩ := ih hps
    refine ⟨Incoming.speaks_concat.mpr ⟨hqs, ?_⟩, ?_⟩
    · show (spoken _).Fits p
      rw [he]
      exact hfit
    · rw [spoken_concat, spoken_concat, he]
  | @again p ps qs hp hl _ ih =>
    obtain ⟨hqs, he⟩ := ih hs
    obtain ⟨front, rfl⟩ := List.getLast?_eq_some_iff.mp hl
    obtain ⟨-, hfit⟩ := Incoming.speaks_concat.mp hqs
    cases p with
    | t30Indicator type =>
      obtain ⟨hagain, hsame⟩ := Incoming.fits_again hfit
      have hfront : spoken (front ++ [.t30Indicator type]) = (spoken front).packet (.t30Indicator type) :=
        spoken_concat front _
      refine ⟨Incoming.speaks_concat.mpr ⟨hqs, ?_⟩, ?_⟩
      · show (spoken _).Fits _
        rw [hfront]
        exact hagain
      · rw [spoken_concat, ← he, hfront]
        exact hsame
    | data type fields => cases hp
    | badTag => cases hp

end T38Modem
