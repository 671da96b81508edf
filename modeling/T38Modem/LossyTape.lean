import T38Modem.Spoken

namespace Tape

variable {α δ : Type*} {t : Tape α δ}

/-- The tape with other records before its own. -/
def behind (rs : List (List α × δ)) (t : Tape α δ) : Tape α δ := { t with closed := rs ++ t.closed }

theorem behind_nil (t : Tape α δ) : (⟨[], t.current⟩ : Tape α δ).behind t.closed = t := by
  simp [behind]

theorem mark_behind (rs : List (List α × δ)) (f : δ → δ) : (t.behind rs).mark f = (t.mark f).behind rs := rfl

theorem close_behind (rs : List (List α × δ)) : (t.behind rs).close = t.close.behind rs := by
  simp [behind, close]

theorem next_behind (rs : List (List α × δ)) (d : δ) : (t.behind rs).next d = (t.next d).behind rs := by
  simp [behind, next]

end Tape

namespace T38Modem

open T38Engine

/-- The diagnostics say that the check sequence was bad. -/
def IsBad (d : Diag) : Prop := d ||| diagBadFcs = d

theorem IsBad.ne {d : Diag} (h : IsBad d) : d ≠ 0 := by
  rintro rfl
  unfold IsBad at h
  exact absurd h (by decide)

theorem IsBad.or {d : Diag} (h : IsBad d) (d' : Diag) : IsBad (d ||| d') := by
  unfold IsBad at h ⊢
  rw [BitVec.or_assoc, BitVec.or_comm d', ← BitVec.or_assoc, h]

theorem isBad_or (d : Diag) : IsBad (d ||| diagBadFcs) := by
  unfold IsBad
  rw [BitVec.or_assoc, BitVec.or_self]

namespace SignalTape

variable {t u : SignalTape} {f : DataField} {fs : List DataField}

theorem field_behind (rs : List (List Byte × Diag)) (f : DataField) :
    SignalTape.field (t.behind rs) f = (t.field f).behind rs := by
  have hdata : SignalTape.fieldData (t.behind rs) f = (t.fieldData f).behind rs := by
    unfold fieldData
    split <;> rfl
  have hfcs (t : SignalTape) : SignalTape.fieldFcs (t.behind rs) f = (t.fieldFcs f).behind rs := by
    unfold fieldFcs
    split
    · rw [Tape.mark_behind, Tape.next_behind]
    · rw [Tape.mark_behind, Tape.next_behind]
    · exact Tape.next_behind rs 0
    · exact Tape.next_behind rs 0
    · rfl
  unfold field
  rw [hdata, hfcs]
  dsimp only
  split
  · rw [Tape.mark_behind, Tape.close_behind]
  · rfl

/-- What a field adds depends on the record that is written alone. -/
theorem field_closed (f : DataField) :
    (t.field f).closed = t.closed ++ (SignalTape.field ⟨[], t.current⟩ f).closed ∧
      (t.field f).current = (SignalTape.field ⟨[], t.current⟩ f).current := by
  have hb := field_behind (t := ⟨[], t.current⟩) t.closed f
  rw [Tape.behind_nil] at hb
  rw [hb]
  exact ⟨rfl, rfl⟩

/-- Of two tapes that go the same way the first has no record that it writes, or one of bad octets, or the record of the
other one. -/
inductive Near (t u : SignalTape) : Prop
  | silent (h : t.current = none)
  | bad (xs : List Byte) (d : Diag) (h : t.current = some (xs, d)) (hd : IsBad d)
  | same (h : t.current = u.current)

/-- What is added to the tape is good only where it is added to the other one. -/
structure Adds (t t' u u' : SignalTape) : Prop where
  near : Near t' u'
  adds : ∃ rs rs', t'.closed = t.closed ++ rs ∧ u'.closed = u.closed ++ rs' ∧
    (rs.filter (·.2 = 0)).Sublist (rs'.filter (·.2 = 0))

/-- A record of bad octets is closed as such, and the record behind it begins where the other one's does. -/
theorem field_bad {xs : List Byte} {d : Diag} (hd : IsBad d) (hu : u.current.isSome = true) (f : DataField) :
    (∀ r ∈ (SignalTape.field ⟨[], some (xs, d)⟩ f).closed, IsBad r.2 ∨ r = ([], diagNoCarrier)) ∧
      Near (SignalTape.field ⟨[], some (xs, d)⟩ f) (u.field f) := by
  obtain ⟨closed, current⟩ := u
  obtain ⟨⟨ys, d'⟩, rfl⟩ := Option.isSome_iff_exists.mp hu
  have hend := hd.or diagNoCarrier
  have hbad := isBad_or d
  obtain ⟨ft, fd⟩ := f
  cases ft with
  | hdlcData | t4NonEcmData | other => cases fd <;> exact ⟨fun r hr => (by cases hr), .bad _ d rfl hd⟩
  | hdlcSigEnd | t4NonEcmSigEnd =>
    refine ⟨?_, .silent rfl⟩
    cases fd <;> simp [field, fieldData, fieldFcs, FieldType.isSigEnd, Tape.put, Tape.mark, Tape.close, hend]
  | hdlcFcsOK | hdlcFcsBAD =>
    refine ⟨?_, .same ?_⟩ <;> cases fd <;>
      simp [field, fieldData, fieldFcs, FieldType.isSigEnd, Tape.put, Tape.mark, Tape.next, hd, hbad]
  | hdlcFcsOKSigEnd | hdlcFcsBADSigEnd =>
    refine ⟨?_, .silent rfl⟩
    cases fd <;> simp [field, fieldData, fieldFcs, FieldType.isSigEnd, Tape.put, Tape.mark, Tape.next, Tape.close, hd, hbad]

theorem Adds.refl (h : Near t u) : Adds t t u u :=
  ⟨h, [], [], (List.append_nil _).symm, (List.append_nil _).symm, List.Sublist.refl []⟩

theorem Adds.trans {t' t'' u' u'' : SignalTape} (h : Adds t t' u u') (h' : Adds t' t'' u' u'') : Adds t t'' u u'' := by
  obtain ⟨rs, rs', ht, hu, hs⟩ := h.adds
  obtain ⟨qs, qs', ht', hu', hs'⟩ := h'.adds
  refine ⟨h'.near, rs ++ qs, rs' ++ qs', ?_, ?_, ?_⟩
  · rw [ht', ht, List.append_assoc]
  · rw [hu', hu, List.append_assoc]
  · rw [List.filter_append, List.filter_append]
    exact hs.append hs'

theorem field_adds (h : Near t u) (hu : u.current.isSome = true) (f : DataField) : Adds t (t.field f) u (u.field f) := by
  obtain ⟨hclosed, hcur⟩ := field_closed (t := t) f
  obtain ⟨huclosed, hucur⟩ := field_closed (t := u) f
  have hnil {rs : List (List Byte × Diag)} (hr : ∀ r ∈ rs, r.2 ≠ 0) : rs.filter (·.2 = 0) = [] :=
    List.filter_eq_nil_iff.mpr fun r hm => by simpa using hr r hm
  cases h with
  | silent h =>
    rw [field_none h]
    refine ⟨.silent h, [], _, (List.append_nil _).symm, huclosed, List.nil_sublist _⟩
  | bad xs d h hd =>
    rw [h] at hclosed hcur
    obtain ⟨hr, hnear⟩ := field_bad hd hu f
    have hr (r : List Byte × Diag) (hm : r ∈ (SignalTape.field ⟨[], some (xs, d)⟩ f).closed) : r.2 ≠ 0 := by
      rcases hr r hm with hbad | rfl
      · exact hbad.ne
      · decide
    refine ⟨?_, _, _, hclosed, huclosed, by rw [hnil hr]; exact List.nil_sublist _⟩
    cases hnear with
    | silent h => exact .silent (hcur.trans h)
    | bad ys d' h hd' => exact .bad ys d' (hcur.trans h) hd'
    | same h => exact .same (hcur.trans h)
  | same h =>
    rw [h] at hclosed hcur
    exact ⟨.same (hcur.trans hucur.symm), _, _, hclosed, huclosed, List.Sublist.refl _⟩

/-- The fields of a packet, of which the last may be the end of the signal. -/
theorem fields_adds (h : Near t u) (hu : fs ≠ [] → u.current.isSome = true)
    (hend : ∀ f ∈ fs.dropLast, FieldType.isSigEnd f.fieldType = false) : Adds t (fs.foldl field t) u (fs.foldl field u) := by
  induction fs generalizing t u with
  | nil => exact .refl h
  | cons f fs ih =>
    have hf := field_adds h (hu (List.cons_ne_nil f fs)) f
    refine hf.trans (ih hf.near (fun hne => ?_) fun g hg => hend g ?_)
    · rw [List.dropLast_cons_of_ne_nil hne] at hend
      exact field_current (hu (List.cons_ne_nil f fs)) (hend f List.mem_cons_self)
    · have hne : fs ≠ [] := by
        rintro rfl
        cases hg
      rw [List.dropLast_cons_of_ne_nil hne]
      exact List.mem_cons_of_mem f hg

/-- A record that is broken off is not a good one. -/
theorem breakOff_closed : ∃ rs, t.breakOff.closed = t.closed ++ rs ∧ ∀ r ∈ rs, r.2 ≠ 0 := by
  refine ⟨_, rfl, fun r hr => ?_⟩
  obtain ⟨q, -, rfl⟩ := Option.map_eq_some_iff.mp (Option.mem_toList.mp hr)
  intro hz
  have hbit := congrArg (·.getLsbD 0) hz
  simp [diagOutOfOrder, diagNoCarrier] at hbit

end SignalTape

namespace Incoming

variable {l sp : Incoming} {p : Ifp} {ps : List Ifp} {a : Option Ifp} {as : List (Option Ifp)}

/-- The frames of V.21 signals that `a` brings to a good end. -/
def controls (l : Incoming) (a : Option Ifp) : List (List Byte) :=
  if l.type = .v21 then (((l.arrive a).tape.closed.drop l.tape.closed.length).filter (·.2 = 0)).map Prod.fst else []

def controlFrames (l : Incoming) : List (Option Ifp) → List (List Byte)
  | [] => []
  | a :: as => l.controls a ++ (l.arrive a).controlFrames as

theorem controlFrames_append (l : Incoming) (as bs : List (Option Ifp)) :
    l.controlFrames (as ++ bs) = l.controlFrames as ++ (as.foldl arrive l).controlFrames bs := by
  induction as generalizing l with
  | nil => rfl
  | cons a as ih =>
    rw [List.cons_append, controlFrames, controlFrames, ih, List.append_assoc]
    rfl

/-- Of two receivers the first, who has not got all packets, has no frame of V.21 that is begun, or one of bad octets, or
the frame of the other one. -/
inductive Follows (l sp : Incoming) : Prop
  | other (h : l.type ≠ .v21)
  | silent (h : l.tape.current = none)
  | bad (xs : List Byte) (d : Diag) (ht : l.type = .v21) (h : l.tape.current = some (xs, d)) (hd : IsBad d)
  | same (ht : l.type = .v21) (hs : sp.type = .v21) (h : l.tape.current = sp.tape.current)

/-- With nothing closed no frame has come. -/
theorem controls_nil (h : l.type = .v21 → ∃ rs, (l.arrive a).tape.closed = l.tape.closed ++ rs ∧ ∀ r ∈ rs, r.2 ≠ 0) :
    l.controls a = [] := by
  unfold controls
  split
  next ht =>
    obtain ⟨rs, hc, hr⟩ := h ht
    rw [hc, List.drop_left, List.filter_eq_nil_iff.mpr fun r hm => by simpa using hr r hm]
    rfl
  next => rfl

theorem controls_same (h : (l.arrive a).tape.closed = l.tape.closed) : l.controls a = [] :=
  controls_nil fun _ => ⟨[], by rw [h, List.append_nil], fun r hr => by cases hr⟩

/-- Whatever is lost, what is begun is marked. -/
theorem lost_follows (l sp : Incoming) : Follows l.lost sp ∧ l.controls none = [] := by
  refine ⟨?_, controls_same ?_⟩
  · unfold Incoming.lost
    by_cases ht : l.type = .v21
    · rw [if_pos ht]
      cases hc : l.tape.current with
      | none => exact .silent (by simp [Tape.mark, hc])
      | some r => exact .bad r.1 _ ht (by simp [Tape.mark, hc]) (isBad_or r.2)
    · rw [if_neg ht]
      exact .other ht
  · show l.lost.tape.closed = l.tape.closed
    unfold Incoming.lost
    split <;> rfl

theorem packet_break {type : Indicator} (ht : type.isTraining = false) :
    l.packet (.t30Indicator type) = { l with tape := l.tape.breakOff } := by
  unfold packet
  dsimp only
  rw [if_pos ht]

theorem packet_foreign {type : MsgType} (ht : l.type ≠ type) (fs : Option (List DataField)) :
    l.packet (.data type fs) = { l with tape := l.tape.breakOff } := by
  unfold packet
  dsimp only
  rw [if_neg ht]

/-- The beginning of a signal is heard alike. -/
theorem Follows.begin {type : Indicator} (h : Follows l sp) (hf : sp.Fits (.t30Indicator type)) (ht : type.isTraining = true) :
    Follows (l.packet (.t30Indicator type)) (sp.packet (.t30Indicator type)) ∧ l.controls (some (.t30Indicator type)) = [] := by
  -- the sender's frame is empty, and of the modulation of the indicator
  have hsp : (sp.packet (.t30Indicator type)).tape.current = some ([], 0) ∧
      (sp.packet (.t30Indicator type)).type = (getModParsByInd type).msgType := by
    rcases hf with hnone | ⟨-, hcur, htype⟩
    · rw [packet_begin ht hnone]
      exact ⟨by simp [Tape.start, hnone], rfl⟩
    · rw [packet_again ht (by rw [hcur]; rfl)]
      exact ⟨hcur, htype⟩
  cases hc : l.tape.current with
  | none =>
    have hl := packet_begin ht hc
    refine ⟨?_, controls_same (by show (l.packet _).tape.closed = _; rw [hl]; rfl)⟩
    rw [hl]
    by_cases hv : (getModParsByInd type).msgType = .v21
    · exact .same hv (hsp.2.trans hv) (by rw [hsp.1]; simp [Tape.start, hc])
    · exact .other hv
  | some r =>
    have hl := packet_again ht (by rw [hc]; rfl : l.tape.current.isSome = true)
    refine ⟨?_, controls_same (by show (l.packet _).tape.closed = _; rw [hl])⟩
    rw [hl]
    cases h with
    | other h => exact .other h
    | silent h => exact .silent h
    | bad xs d ht h hd => exact .bad xs d ht h hd
    | same hv hs h =>
      rcases hf with hnone | ⟨-, hcur, -⟩
      · exact .silent (h.trans hnone)
      · rw [packet_again ht (by rw [hcur]; rfl)]
        exact .same hv hs h

theorem Follows.packet (h : Follows l sp) (hf : sp.Fits p) :
    Follows (l.packet p) (sp.packet p) ∧ (l.controls (some p)).Sublist (sp.controls (some p)) := by
  have breaks (hl : l.packet p = { l with tape := l.tape.breakOff }) :
      Follows (l.packet p) (sp.packet p) ∧ (l.controls (some p)).Sublist (sp.controls (some p)) := by
    rw [controls_nil fun _ => by show ∃ rs, (l.packet p).tape.closed = _ ∧ _; rw [hl]; exact SignalTape.breakOff_closed, hl]
    exact ⟨.silent rfl, List.nil_sublist _⟩
  cases p with
  | badTag => exact hf.elim
  | t30Indicator type =>
    cases ht : type.isTraining with
    | false => exact breaks (packet_break ht)
    | true =>
      obtain ⟨hnext, hnil⟩ := h.begin hf ht
      rw [hnil]
      exact ⟨hnext, List.nil_sublist _⟩
  | data type fields =>
    cases fields with
    | none => exact hf.elim
    | some fs =>
      obtain ⟨hcur, htype, hend⟩ := hf
      by_cases ht : l.type = type
      · have adds (hv : l.type = .v21) (hn : SignalTape.Near l.tape sp.tape) :
            SignalTape.Adds l.tape (l.packet (.data type (some fs))).tape sp.tape (sp.packet (.data type (some fs))).tape ∧
              (l.controls (some (.data type (some fs)))).Sublist (sp.controls (some (.data type (some fs)))) := by
          have ha := SignalTape.fields_adds hn (fun _ => hcur) hend
          rw [packet_data ht, packet_data htype]
          refine ⟨ha, ?_⟩
          obtain ⟨rs, rs', hl, hs, hsub⟩ := ha.adds
          have hspv : sp.type = .v21 := htype.trans (ht.symm.trans hv)
          unfold controls
          rw [if_pos hv, if_pos hspv]
          show ((((l.packet _).tape.closed.drop _).filter _).map _).Sublist ((((sp.packet _).tape.closed.drop _).filter _).map _)
          rw [packet_data ht, packet_data htype]
          dsimp only
          rw [hl, hs, List.drop_left, List.drop_left]
          exact hsub.map Prod.fst
        have follows (hv : l.type = .v21) (hn : SignalTape.Near l.tape sp.tape) :
            Follows (l.packet (.data type (some fs))) (sp.packet (.data type (some fs))) ∧
              (l.controls (some (.data type (some fs)))).Sublist (sp.controls (some (.data type (some fs)))) := by
          obtain ⟨ha, hsub⟩ := adds hv hn
          refine ⟨?_, hsub⟩
          have hlt : (l.packet (.data type (some fs))).type = .v21 := hv
          have hst : (sp.packet (.data type (some fs))).type = .v21 := htype.trans (ht.symm.trans hv)
          cases ha.near with
          | silent h => exact .silent h
          | bad xs d h hd => exact .bad xs d hlt h hd
          | same h => exact .same hlt hst h
        cases h with
        | other h =>
          rw [controls_nil fun hv => absurd hv h]
          exact ⟨.other h, List.nil_sublist _⟩
        | silent h =>
          have hl : l.packet (.data type (some fs)) = l := by
            rw [packet_data ht, SignalTape.fields_none h]
          rw [controls_same (by show (l.packet _).tape.closed = _; rw [hl]), hl]
          exact ⟨.silent h, List.nil_sublist _⟩
        | bad xs d hv h hd => exact follows hv (.bad xs d h hd)
        | same hv _ h => exact follows hv (.same h)
      · exact breaks (packet_foreign ht _)

theorem arrive_packets (l : Incoming) (ps : List Ifp) : (ps.map some).foldl arrive l = ps.foldl packet l := by
  rw [List.foldl_map]
  rfl

/-- No loss is hidden: the frames of V.21 signals that have come to a good end are, in their order, among those sent. -/
theorem Follows.controlFrames (h : Follows l sp) (ht : Thins ps as) (hs : sp.Speaks ps) :
    (l.controlFrames as).Sublist (sp.controlFrames (ps.map some)) := by
  induction ht generalizing l sp with
  | nil => exact List.Sublist.refl []
  | keep p _ ih =>
    obtain ⟨hfit, hrest⟩ := hs
    obtain ⟨hnext, hsub⟩ := h.packet hfit
    exact hsub.append (ih hnext hrest)
  | @gap lost ps as _ ih =>
    obtain ⟨-, hrest⟩ := speaks_append.mp hs
    obtain ⟨hnext, hnil⟩ := lost_follows _ (lost.foldl Incoming.packet sp)
    rw [List.map_append, controlFrames_append, arrive_packets, Incoming.controlFrames, hnil, List.nil_append]
    exact (ih hnext hrest).trans (List.sublist_append_right _ _)

end Incoming

end T38Modem
