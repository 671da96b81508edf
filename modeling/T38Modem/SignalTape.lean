import T38Modem.HandlePacket
import T38Modem.Repeated
import T38Modem.Tape

namespace T38Modem

/-- A received signal as records of octets with their diagnostics. -/
abbrev SignalTape := Tape Byte Diag

/-- The octets of a field. -/
def SignalTape.fieldData (t : SignalTape) (f : DataField) : SignalTape :=
  match f.fieldType, f.fieldData with
  | .other _, _ => t
  | _, none => t
  | _, some bs => t.put bs

/-- The check sequence of a frame, with another frame behind it. -/
def SignalTape.fieldFcs (t : SignalTape) (f : DataField) : SignalTape :=
  match f.fieldType with
  | .hdlcFcsBAD | .hdlcFcsBADSigEnd => (t.mark (· ||| diagBadFcs)).next 0
  | .hdlcFcsOK | .hdlcFcsOKSigEnd => t.next 0
  | _ => t

/-- What a field of a data packet says. -/
def SignalTape.field (t : SignalTape) (f : DataField) : SignalTape :=
  let t := (t.fieldData f).fieldFcs f
  if T38Engine.FieldType.isSigEnd f.fieldType then (t.mark (· ||| diagNoCarrier)).close else t

/-- The signal breaks off. -/
def SignalTape.breakOff (t : SignalTape) : SignalTape := (t.mark (· ||| (diagOutOfOrder ||| diagNoCarrier))).close

/-- What the packets have said so far, the last signal being of the modulation `type`. -/
structure Incoming where
  tape : SignalTape := {}
  type : MsgType := .other unsignedMinusOne

namespace Incoming

/-- What a packet says. -/
def packet (l : Incoming) : Ifp → Incoming
  | .t30Indicator type =>
    if type.isTraining = false then { l with tape := l.tape.breakOff }
    else if l.tape.current.isSome then l
    else { tape := l.tape.start 0, type := (getModParsByInd type).msgType }
  | .data type fields =>
    { l with tape := if l.type = type then (fields.getD []).foldl SignalTape.field l.tape else l.tape.breakOff }
  | .badTag => l

/-- Packets of the signal have been lost. -/
def lost (l : Incoming) : Incoming := if l.type = .v21 then { l with tape := l.tape.mark (· ||| diagBadFcs) } else l

/-- A packet, or a gap. -/
def arrive (l : Incoming) : Option Ifp → Incoming
  | some ifp => l.packet ifp
  | none => l.lost

end Incoming

def octetsOf (fs : List DataField) : List Byte := fs.flatMap fun f => f.fieldData.getD []

/-- The fields of a signal of frames, each of them with what its check sequence is to be. -/
inductive Carries : List (List Byte × Bool) → List DataField → Prop
  | sigEnd {f : DataField} (hf : f.fieldType = .hdlcSigEnd) (hd : octetsOf [f] = []) : Carries [] [f]
  | frame {fs : List DataField} {f : DataField} {ok : Bool} {frames : List (List Byte × Bool)} {rest : List DataField}
      (hd : ∀ f ∈ fs, f.fieldType = .hdlcData) (hf : f.fieldType = if ok then .hdlcFcsOK else .hdlcFcsBAD)
      (h : Carries frames rest) : Carries ((octetsOf (fs ++ [f]), ok) :: frames) (fs ++ f :: rest)
  | last {fs : List DataField} {f : DataField} {ok : Bool} (hd : ∀ f ∈ fs, f.fieldType = .hdlcData)
      (hf : f.fieldType = if ok then .hdlcFcsOKSigEnd else .hdlcFcsBADSigEnd) :
      Carries [(octetsOf (fs ++ [f]), ok)] (fs ++ [f])

/-- The fields of an image signal without error correction. -/
inductive CarriesRaw : List Byte → List DataField → Prop
  | intro {fs : List DataField} {f : DataField} (hd : ∀ f ∈ fs, f.fieldType = .t4NonEcmData)
      (hf : f.fieldType = .t4NonEcmSigEnd) : CarriesRaw (octetsOf (fs ++ [f])) (fs ++ [f])

/-- A frame as the DTE is to get it. -/
def frameRecord (f : List Byte × Bool) : List Byte × Diag := (f.1, if f.2 then 0 else diagBadFcs)

/-- The records that the fields of a whole signal are. -/
inductive Brings : List DataField → List (List Byte × Diag) → Prop
  | hdlc {frames : List (List Byte × Bool)} {fs : List DataField} (h : Carries frames fs) :
      Brings fs (frames.map frameRecord ++ [([], diagNoCarrier)])
  | raw {bs : List Byte} {fs : List DataField} (h : CarriesRaw bs fs) : Brings fs [(bs, diagNoCarrier)]

/-- The packets behind the indicator of a signal, by which its fields come. The indicator may come again in between. -/
inductive SignalPackets (ind : Indicator) : List Ifp → List DataField → Prop
  | nil : SignalPackets ind [] []
  | data (fs : List DataField) {ps : List Ifp} {rest : List DataField} (h : SignalPackets ind ps rest) :
      SignalPackets ind (.data (getModParsByInd ind).msgType (some fs) :: ps) (fs ++ rest)
  | again {ps : List Ifp} {rest : List DataField} (hne : rest ≠ []) (h : SignalPackets ind ps rest) :
      SignalPackets ind (.t30Indicator ind :: ps) rest

namespace SignalTape

variable {t : SignalTape} {fs : List DataField} {f : DataField} {xs : List Byte} {d : Diag}

theorem put_nil (t : SignalTape) : t.put [] = t := by
  obtain ⟨closed, current⟩ := t
  cases current <;> simp [Tape.put]

theorem fieldData_put (hn : ∀ n, f.fieldType ≠ .other n) : t.fieldData f = t.put (octetsOf [f]) := by
  obtain ⟨ft, fd⟩ := f
  cases ft with
  | other n => exact absurd rfl (hn n)
  | _ => cases fd <;> simp [fieldData, octetsOf, put_nil]

theorem put_current (h : t.current = some (xs, d)) (bs : List Byte) :
    t.put bs = { t with current := some (xs ++ bs, d) } := by
  simp [Tape.put, h]

theorem field_data (hf : f.fieldType = .hdlcData ∨ f.fieldType = .t4NonEcmData) : t.field f = t.put (octetsOf [f]) := by
  have hn : ∀ n, f.fieldType ≠ .other n := fun n => by rcases hf with hf | hf <;> rw [hf] <;> simp
  unfold field fieldFcs
  rw [fieldData_put hn]
  rcases hf with hf | hf <;> simp [hf, T38Engine.FieldType.isSigEnd]

/-- The data fields of one record. -/
theorem fields_data (hd : ∀ f ∈ fs, f.fieldType = .hdlcData ∨ f.fieldType = .t4NonEcmData) (h : t.current = some (xs, d)) :
    fs.foldl field t = { t with current := some (xs ++ octetsOf fs, d) } := by
  induction fs generalizing t xs with
  | nil =>
    obtain ⟨closed, current⟩ := t
    simpa [octetsOf] using h
  | cons f fs ih =>
    obtain ⟨hf, hfs⟩ := List.forall_mem_cons.mp hd
    rw [List.foldl_cons, field_data hf, put_current h, ih hfs rfl, List.append_assoc]
    simp [octetsOf]

/-- Between two signals the fields say nothing. -/
theorem field_none (h : t.current = none) (f : DataField) : t.field f = t := by
  obtain ⟨closed, current⟩ := t
  obtain rfl : current = none := h
  have hput (bs : List Byte) : Tape.put (⟨closed, none⟩ : SignalTape) bs = ⟨closed, none⟩ := rfl
  have hmark (f : Diag → Diag) : Tape.mark (⟨closed, none⟩ : SignalTape) f = ⟨closed, none⟩ := rfl
  have hnext (d : Diag) : Tape.next (⟨closed, none⟩ : SignalTape) d = ⟨closed, none⟩ := by simp [Tape.next]
  have hclose : Tape.close (⟨closed, none⟩ : SignalTape) = ⟨closed, none⟩ := by simp [Tape.close]
  have hdata : fieldData ⟨closed, none⟩ f = ⟨closed, none⟩ := by
    unfold fieldData
    split <;> simp [hput]
  have hfcs : fieldFcs ⟨closed, none⟩ f = ⟨closed, none⟩ := by
    unfold fieldFcs
    split <;> simp [hmark, hnext]
  unfold field
  rw [hdata, hfcs]
  dsimp only
  rw [hmark, hclose, ite_self]

theorem fields_none (h : t.current = none) (fs : List DataField) : fs.foldl field t = t := by
  induction fs with
  | nil => rfl
  | cons f fs ih => rw [List.foldl_cons, field_none h, ih]

theorem breakOff_none (h : t.current = none) : t.breakOff = t := by
  obtain ⟨closed, current⟩ := t
  obtain rfl : current = none := h
  simp [breakOff, Tape.mark, Tape.close]

theorem octetsOf_append (fs gs : List DataField) : octetsOf (fs ++ gs) = octetsOf fs ++ octetsOf gs := List.flatMap_append

/-- The end of a frame behind which another one begins. -/
theorem field_fcs {ok : Bool} (h : t.current = some (xs, 0)) (hf : f.fieldType = if ok then .hdlcFcsOK else .hdlcFcsBAD) :
    t.field f = { closed := t.closed ++ [frameRecord (xs ++ octetsOf [f], ok)], current := some ([], 0) } := by
  have hn : ∀ n, f.fieldType ≠ .other n := fun n => by rw [hf]; cases ok <;> simp
  unfold field fieldFcs
  rw [fieldData_put hn, put_current h, hf]
  cases ok <;> simp [T38Engine.FieldType.isSigEnd, Tape.next, Tape.mark, frameRecord]

/-- The end of the last frame is the end of the signal. -/
theorem field_fcsSigEnd {ok : Bool} (h : t.current = some (xs, 0))
    (hf : f.fieldType = if ok then .hdlcFcsOKSigEnd else .hdlcFcsBADSigEnd) :
    t.field f =
      { closed := t.closed ++ [frameRecord (xs ++ octetsOf [f], ok), ([], diagNoCarrier)], current := none } := by
  have hn : ∀ n, f.fieldType ≠ .other n := fun n => by rw [hf]; cases ok <;> simp
  unfold field fieldFcs
  rw [fieldData_put hn, put_current h, hf]
  cases ok <;> simp [T38Engine.FieldType.isSigEnd, Tape.next, Tape.mark, Tape.close, frameRecord]

theorem field_sigEnd (h : t.current = some (xs, 0)) (hf : f.fieldType = .hdlcSigEnd ∨ f.fieldType = .t4NonEcmSigEnd) :
    t.field f = { closed := t.closed ++ [(xs ++ octetsOf [f], diagNoCarrier)], current := none } := by
  have hn : ∀ n, f.fieldType ≠ .other n := fun n => by rcases hf with hf | hf <;> rw [hf] <;> simp
  unfold field fieldFcs
  rw [fieldData_put hn, put_current h]
  rcases hf with hf | hf <;> simp only [hf] <;> simp [T38Engine.FieldType.isSigEnd, Tape.mark, Tape.close]

theorem closed_field (f : DataField) : t.closed <+: (t.field f).closed := by
  have hdata : (t.fieldData f).closed = t.closed := by
    unfold fieldData
    split <;> rfl
  have hfcs (t : SignalTape) : t.closed <+: (t.fieldFcs f).closed := by
    unfold fieldFcs
    split
    · exact Tape.closed_next (t := t.mark _) 0
    · exact Tape.closed_next (t := t.mark _) 0
    · exact Tape.closed_next 0
    · exact Tape.closed_next 0
    · exact List.prefix_refl _
  have hboth : t.closed <+: ((t.fieldData f).fieldFcs f).closed := hdata ▸ hfcs (t.fieldData f)
  unfold field
  dsimp only
  split
  · exact hboth.trans (Tape.closed_close (t := Tape.mark _ _))
  · exact hboth

theorem closed_fields (fs : List DataField) : t.closed <+: (fs.foldl field t).closed := by
  induction fs generalizing t with
  | nil => exact List.prefix_refl _
  | cons f fs ih => exact (closed_field f).trans ih

theorem extends_field (f : DataField) : t.Extends (t.field f) := by
  have hdata : t.Extends (t.fieldData f) := by
    unfold fieldData
    split
    · exact .refl t
    · exact .refl t
    · exact Tape.extends_put t _
  have hfcs (t : SignalTape) : t.Extends (t.fieldFcs f) := by
    unfold fieldFcs
    split
    · exact (Tape.extends_mark t _).trans (Tape.extends_next _ 0)
    · exact (Tape.extends_mark t _).trans (Tape.extends_next _ 0)
    · exact Tape.extends_next t 0
    · exact Tape.extends_next t 0
    · exact .refl t
  have hboth := hdata.trans (hfcs _)
  unfold field
  dsimp only
  split
  · exact (hboth.trans (Tape.extends_mark _ _)).trans (Tape.extends_close _)
  · exact hboth

theorem extends_fields (fs : List DataField) : t.Extends (fs.foldl field t) := by
  induction fs generalizing t with
  | nil => exact .refl t
  | cons f fs ih => exact (extends_field f).trans ih

theorem closed_breakOff : t.closed <+: t.breakOff.closed := Tape.closed_close (t := t.mark _)

end SignalTape

/-- A signal that has come whole is on the tape frame by frame, with its end behind them. -/
theorem Carries.tape {frames : List (List Byte × Bool)} {fs : List DataField} (h : Carries frames fs) {t : SignalTape}
    (ht : t.current = some ([], 0)) :
    fs.foldl SignalTape.field t =
      { closed := t.closed ++ frames.map frameRecord ++ [([], diagNoCarrier)], current := none } := by
  induction h generalizing t with
  | sigEnd hf hd =>
    rw [List.foldl_cons, List.foldl_nil, SignalTape.field_sigEnd ht (.inl hf), hd]
    simp
  | @frame fs f ok frames rest hd hf _ ih =>
    have hdata := SignalTape.fields_data (fun f hf => .inl (hd f hf)) ht
    rw [List.foldl_append, List.foldl_cons, hdata, SignalTape.field_fcs rfl hf, ih rfl, SignalTape.octetsOf_append]
    simp
  | @last fs f ok hd hf =>
    have hdata := SignalTape.fields_data (fun f hf => .inl (hd f hf)) ht
    rw [List.foldl_append, List.foldl_cons, List.foldl_nil, hdata, SignalTape.field_fcsSigEnd rfl hf,
      SignalTape.octetsOf_append]
    simp

theorem CarriesRaw.tape {bs : List Byte} {fs : List DataField} (h : CarriesRaw bs fs) {t : SignalTape}
    (ht : t.current = some ([], 0)) :
    fs.foldl SignalTape.field t = { closed := t.closed ++ [(bs, diagNoCarrier)], current := none } := by
  obtain ⟨hd, hf⟩ := h
  have hdata := SignalTape.fields_data (fun f hf => .inr (hd f hf)) ht
  rw [List.foldl_append, List.foldl_cons, List.foldl_nil, hdata, SignalTape.field_sigEnd rfl (.inr hf),
    SignalTape.octetsOf_append]
  simp

/-- A field that is not the last one of a signal of frames. -/
def Inner (f : DataField) : Prop := f.fieldType = .hdlcData ∨ f.fieldType = .hdlcFcsOK ∨ f.fieldType = .hdlcFcsBAD

theorem Inner.not_sigEnd {f : DataField} (h : Inner f) : T38Engine.FieldType.isSigEnd f.fieldType = false := by
  rcases h with h | h | h <;> rw [h] <;> rfl

/-- The end of a signal is its last field. -/
theorem Carries.inner {frames : List (List Byte × Bool)} {fs : List DataField} (h : Carries frames fs) :
    ∃ front f, fs = front ++ [f] ∧ ∀ g ∈ front, Inner g := by
  induction h with
  | @sigEnd f hf hd => exact ⟨[], f, rfl, fun g hg => (by cases hg)⟩
  | @frame fs f ok frames rest hd hf _ ih =>
    obtain ⟨front, last, rfl, hfront⟩ := ih
    refine ⟨fs ++ f :: front, last, by simp,
      List.forall_mem_append.mpr ⟨fun g hg => .inl (hd g hg), List.forall_mem_cons.mpr ⟨?_, hfront⟩⟩⟩
    unfold Inner
    rw [hf]
    cases ok
    · exact .inr (.inr rfl)
    · exact .inr (.inl rfl)
  | @last fs f ok hd hf => exact ⟨fs, f, rfl, fun g hg => .inl (hd g hg)⟩

theorem Brings.inner {fs : List DataField} {rs : List (List Byte × Diag)} (h : Brings fs rs) :
    ∃ front f, fs = front ++ [f] ∧ ∀ g ∈ front, T38Engine.FieldType.isSigEnd g.fieldType = false := by
  cases h with
  | hdlc h =>
    obtain ⟨front, f, hfs, hfront⟩ := h.inner
    exact ⟨front, f, hfs, fun g hg => (hfront g hg).not_sigEnd⟩
  | raw h =>
    obtain ⟨hd, hf⟩ := h
    exact ⟨_, _, rfl, fun g hg => by rw [hd g hg]; rfl⟩

theorem Brings.tape {fs : List DataField} {rs : List (List Byte × Diag)} (h : Brings fs rs) {t : SignalTape}
    (ht : t.current = some ([], 0)) : fs.foldl SignalTape.field t = { closed := t.closed ++ rs, current := none } := by
  cases h with
  | hdlc h => rw [h.tape ht, List.append_assoc]
  | raw h => exact h.tape ht

theorem SignalTape.fieldFcs_current {t : SignalTape} (h : t.current.isSome = true) (f : DataField) :
    ((t.fieldData f).fieldFcs f).current.isSome = true := by
  have hdata : (t.fieldData f).current.isSome = true := by
    unfold fieldData
    split <;> simpa [Tape.put] using h
  unfold fieldFcs
  split <;> simpa [Tape.next, Tape.mark] using hdata

/-- Before its end a signal is on the tape. -/
theorem SignalTape.field_current {t : SignalTape} (h : t.current.isSome = true) {f : DataField}
    (hf : T38Engine.FieldType.isSigEnd f.fieldType = false) : (t.field f).current.isSome = true := by
  unfold field
  dsimp only
  rw [if_neg (by simp [hf])]
  exact fieldFcs_current h f

theorem SignalTape.fields_current {t : SignalTape} (h : t.current.isSome = true) {fs : List DataField}
    (hfs : ∀ f ∈ fs, T38Engine.FieldType.isSigEnd f.fieldType = false) :
    (fs.foldl SignalTape.field t).current.isSome = true := by
  induction fs generalizing t with
  | nil => exact h
  | cons f fs ih =>
    obtain ⟨hf, hfs⟩ := List.forall_mem_cons.mp hfs
    exact ih (SignalTape.field_current h hf) hfs

namespace Incoming

variable {l : Incoming}

theorem packet_data {type : MsgType} (h : l.type = type) (fs : List DataField) :
    l.packet (.data type (some fs)) = { l with tape := fs.foldl SignalTape.field l.tape } := by
  unfold packet
  dsimp only
  rw [if_pos h, Option.getD_some]

/-- The indicator of a signal begins a record. -/
theorem packet_begin {ind : Indicator} (ht : ind.isTraining = true) (hcur : l.tape.current = none) :
    l.packet (.t30Indicator ind) = { tape := l.tape.start 0, type := (getModParsByInd ind).msgType } := by
  unfold packet
  dsimp only
  rw [if_neg (by simp [ht]), if_neg (by simp [hcur])]

theorem packet_again {ind : Indicator} (ht : ind.isTraining = true) (hcur : l.tape.current.isSome = true) :
    l.packet (.t30Indicator ind) = l := by
  unfold packet
  dsimp only
  rw [if_neg (by simp [ht]), if_pos hcur]

/-- The fields come by the packets, however they are cut. -/
theorem packets_fields {ind : Indicator} (ht : ind.isTraining = true) {ps : List Ifp} {fs : List DataField}
    (h : SignalPackets ind ps fs) (hend : ∀ f ∈ fs.dropLast, T38Engine.FieldType.isSigEnd f.fieldType = false)
    (hcur : fs ≠ [] → l.tape.current.isSome = true) (htype : l.type = (getModParsByInd ind).msgType) :
    (ps.foldl packet l).tape = fs.foldl SignalTape.field l.tape := by
  induction h generalizing l with
  | nil => rfl
  | @data fs ps rest _ ih =>
    rw [List.foldl_cons, packet_data htype, List.foldl_append]
    refine ih (fun f hf => hend f ?_) (fun hne => ?_) htype
    · by_cases hne : rest = []
      · rw [hne] at hf
        cases hf
      · rw [List.dropLast_append_of_ne_nil hne]
        exact List.mem_append_right fs hf
    · rw [List.dropLast_append_of_ne_nil hne] at hend
      obtain ⟨hfs, -⟩ := List.forall_mem_append.mp hend
      exact SignalTape.fields_current (hcur (by simp [hne])) hfs
  | @again ps rest hne _ ih =>
    rw [List.foldl_cons, packet_again ht (hcur hne)]
    exact ih hend hcur htype

/-- A whole signal is on the tape record by record, behind what has come before it. -/
theorem packets_signal {ind : Indicator} (ht : ind.isTraining = true) (hcur : l.tape.current = none) {ps : List Ifp}
    {fs : List DataField} (h : SignalPackets ind ps fs) {rs : List (List Byte × Diag)} (hb : Brings fs rs) :
    ((.t30Indicator ind :: ps).foldl packet l).tape = { closed := l.tape.closed ++ rs, current := none } := by
  have hstart : (l.tape.start 0).current = some ([], 0) := by simp [Tape.start, hcur]
  obtain ⟨front, f, hfs, hfront⟩ := hb.inner
  have hend : ∀ g ∈ fs.dropLast, T38Engine.FieldType.isSigEnd g.fieldType = false := by
    rw [hfs, List.dropLast_concat]
    exact hfront
  rw [List.foldl_cons, packet_begin ht hcur, packets_fields ht h hend (fun _ => by rw [hstart]; rfl) rfl, hb.tape hstart]
  rfl

theorem packet_closed (ifp : Ifp) : l.tape.closed <+: (l.packet ifp).tape.closed := by
  cases ifp with
  | t30Indicator type =>
    unfold packet
    dsimp only
    split
    · exact SignalTape.closed_breakOff
    · split <;> exact List.prefix_refl _
  | data type fields =>
    unfold packet
    dsimp only
    split
    · exact SignalTape.closed_fields _
    · exact SignalTape.closed_breakOff
  | badTag => exact List.prefix_refl _

theorem lost_closed : l.tape.closed <+: l.lost.tape.closed := by
  unfold lost
  split <;> exact List.prefix_refl _

theorem arrive_closed (a : Option Ifp) : l.tape.closed <+: (l.arrive a).tape.closed := by
  cases a with
  | none => exact lost_closed
  | some ifp => exact packet_closed ifp

theorem arrives_closed (as : List (Option Ifp)) : l.tape.closed <+: (as.foldl arrive l).tape.closed := by
  induction as generalizing l with
  | nil => exact List.prefix_refl _
  | cons a as ih => exact (arrive_closed a).trans ih

/-- No octet that has come is taken back. -/
theorem arrive_extends (a : Option Ifp) : l.tape.Extends (l.arrive a).tape := by
  have breaks : l.tape.Extends l.tape.breakOff := (Tape.extends_mark _ _).trans (Tape.extends_close _)
  cases a with
  | none =>
    show l.tape.Extends l.lost.tape
    unfold lost
    split
    · exact Tape.extends_mark _ _
    · exact .refl _
  | some ifp =>
    cases ifp with
    | t30Indicator type =>
      unfold arrive packet
      dsimp only
      split
      · exact breaks
      · split
        · exact .refl _
        · exact Tape.extends_start _ 0
    | data type fields =>
      unfold arrive packet
      dsimp only
      split
      · exact SignalTape.extends_fields _
      · exact breaks
    | badTag => exact .refl _

theorem arrives_extends (as : List (Option Ifp)) : l.tape.Extends (as.foldl arrive l).tape := by
  induction as generalizing l with
  | nil => exact .refl _
  | cons a as ih => exact (arrive_extends a).trans ih

end Incoming

section

variable {t : SignalTape}

/-- The last record has the mark of the end of a signal, unless a signal is on the tape yet. -/
def SignalTape.Sealed (t : SignalTape) : Prop :=
  t.current = none → ∀ r, t.closed.getLast? = some r → r.2 &&& diagNoCarrier ≠ 0

namespace SignalTape.Sealed

theorem of_current (h : t.current.isSome = true) : t.Sealed := fun hn => by
  rw [hn] at h
  cases h

theorem finish (h : t.Sealed) {d : Diag} (hd : ∀ x : Diag, (x ||| d) &&& diagNoCarrier ≠ 0) :
    SignalTape.Sealed (t.mark (· ||| d)).close := by
  intro _ r hr
  cases hc : t.current with
  | none =>
    have hsame : (t.mark (· ||| d)).close.closed = t.closed := by simp [Tape.mark, Tape.close, hc]
    exact h hc r (hsame ▸ hr)
  | some r' =>
    have hlast : (t.mark (· ||| d)).close.closed = t.closed ++ [(r'.1, r'.2 ||| d)] := by
      simp [Tape.mark, Tape.close, hc]
    rw [hlast, List.getLast?_concat] at hr
    rw [← Option.some.inj hr]
    exact hd r'.2

theorem noCarrier_set {d : Diag} (hd : d &&& diagNoCarrier = diagNoCarrier) (x : Diag) :
    (x ||| d) &&& diagNoCarrier ≠ 0 := by
  intro hx
  have hbit := congrArg (·.getLsbD 0) hx
  have hd0 := congrArg (·.getLsbD 0) hd
  simp [diagNoCarrier] at hbit hd0
  simp [hd0] at hbit

theorem field (h : t.Sealed) (f : DataField) : (t.field f).Sealed := by
  cases hc : t.current with
  | none => rwa [field_none hc]
  | some r =>
    have hcur : t.current.isSome = true := by rw [hc]; rfl
    cases hf : T38Engine.FieldType.isSigEnd f.fieldType with
    | false => exact .of_current (field_current hcur hf)
    | true =>
      have hinner : ((t.fieldData f).fieldFcs f).Sealed := .of_current (fieldFcs_current hcur f)
      unfold SignalTape.field
      dsimp only
      rw [if_pos hf]
      exact hinner.finish (noCarrier_set rfl)

theorem fields (h : t.Sealed) (fs : List DataField) : (fs.foldl SignalTape.field t).Sealed := by
  induction fs generalizing t with
  | nil => exact h
  | cons f fs ih => exact ih (h.field f)

end SignalTape.Sealed

theorem Incoming.arrive_sealed {l : Incoming} (h : l.tape.Sealed) (a : Option Ifp) : (l.arrive a).tape.Sealed := by
  have hbreak : l.tape.breakOff.Sealed := h.finish (SignalTape.Sealed.noCarrier_set rfl)
  cases a with
  | none =>
    show l.lost.tape.Sealed
    unfold lost
    split
    · exact fun hn => h (Option.map_eq_none_iff.mp hn)
    · exact h
  | some ifp =>
    cases ifp with
    | t30Indicator type =>
      unfold arrive packet
      dsimp only
      split
      · exact hbreak
      · split
        · exact h
        · refine .of_current ?_
          unfold Tape.start
          cases l.tape.current <;> rfl
    | data type fields =>
      unfold arrive packet
      dsimp only
      split
      · exact h.fields _
      · exact hbreak
    | badTag => exact h

theorem Incoming.arrives_sealed {l : Incoming} (h : l.tape.Sealed) (as : List (Option Ifp)) :
    (as.foldl arrive l).tape.Sealed := by
  induction as generalizing l with
  | nil => exact h
  | cons a as ih => exact ih (arrive_sealed h a)

end

end T38Modem
