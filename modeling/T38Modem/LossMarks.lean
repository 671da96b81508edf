import T38Modem.LossyTape

namespace T38Modem

open T38Engine

/-- The octets of the frame that is begun behind the last check sequence of the fields. -/
def begun (fs : List DataField) : List Byte :=
  fs.foldl (fun bs f => if f.fieldType = .hdlcData then bs ++ f.fieldData.getD [] else []) []

/-- What comes of the packets of a signal when some of them are lost, with a gap in front of the packet that comes next, if
one does. The fields `sent` have been in the packets before. Of a gap with a packet behind it is asked what `ok` says of
these fields and of those that are lost. -/
inductive Lossy (ok : List DataField → List DataField → Prop) :
    List DataField → List (List DataField) → List (Option (List DataField)) → Prop
  | nil (sent : List DataField) (pkts : List (List DataField)) : Lossy ok sent pkts []
  | tail (sent : List DataField) (pkts : List (List DataField)) : Lossy ok sent pkts [none]
  | keep {sent : List DataField} (fs : List DataField) {pkts : List (List DataField)}
      {as : List (Option (List DataField))} (h : Lossy ok (sent ++ fs) pkts as) : Lossy ok sent (fs :: pkts) (some fs :: as)
  | gap {sent : List DataField} (lost : List (List DataField)) (fs : List DataField) {pkts : List (List DataField)}
      {as : List (Option (List DataField))} (hok : ok sent lost.flatten) (h : Lossy ok (sent ++ lost.flatten ++ fs) pkts as) :
      Lossy ok sent (lost ++ fs :: pkts) (none :: some fs :: as)

/-- The frame that is under way behind the gap has begun as the one in front of it, as it does when whole frames are lost;
of a V.21 signal nothing is asked. -/
def Spared (ind : Indicator) (sent lost : List DataField) : Prop :=
  (getModParsByInd ind).msgType = .v21 ∨ begun (sent ++ lost) = begun sent

/-- The record is not taken for a good frame, or is among the records `rs`, or is the end of the signal. -/
def Honest (rs : List (List Byte × Diag)) (r : List Byte × Diag) : Prop :=
  r.2 &&& diagErrorMask = 0 → r ∈ rs ∨ r = ([], diagNoCarrier)

variable {rs rs' : List (List Byte × Diag)} {r : List Byte × Diag} {sent fs : List DataField}
  {pkts : List (List DataField)} {as : List (Option (List DataField))} {ind : Indicator} {front : List DataField}
  {f : DataField}

theorem Honest.mono (h : Honest rs r) (hp : rs <+: rs') : Honest rs' r := fun hg => (h hg).imp_left fun hm => hp.subset hm

theorem IsBad.honest {d : Diag} (h : IsBad d) (xs : List Byte) : Honest rs (xs, d) := by
  intro hg
  have hd : d ||| diagBadFcs = d := h
  have hbit := congrArg (·.getLsbD 11) hg
  have hset := congrArg (·.getLsbD 11) hd
  simp [diagErrorMask, diagBadFcs] at hbit hset
  rw [hset] at hbit
  cases hbit

namespace SignalTape

variable {t u : SignalTape}

theorem field_honest (h : Near t u) (hu : u.current.isSome = true) (f : DataField)
    (hc : ∀ r ∈ t.closed, Honest u.closed r) : ∀ r ∈ (t.field f).closed, Honest (u.field f).closed r := by
  have old (r : List Byte × Diag) (hr : r ∈ t.closed) : Honest (u.field f).closed r := (hc r hr).mono (closed_field f)
  obtain ⟨hclosed, -⟩ := field_closed (t := t) f
  obtain ⟨huclosed, -⟩ := field_closed (t := u) f
  intro r hr
  cases h with
  | silent h =>
    rw [field_none h] at hr
    exact old r hr
  | bad xs d h hd =>
    rw [hclosed, h, List.mem_append] at hr
    rcases hr with hr | hr
    · exact old r hr
    · rcases (field_bad hd hu f).1 r hr with hbad | hend
      · exact hbad.honest r.1
      · exact fun _ => .inr hend
  | same h =>
    rw [hclosed, h, List.mem_append] at hr
    rcases hr with hr | hr
    · exact old r hr
    · rw [huclosed]
      exact fun _ => .inl (List.mem_append_right _ hr)

theorem fields_honest (h : Near t u) (hu : fs ≠ [] → u.current.isSome = true)
    (hend : ∀ f ∈ fs.dropLast, T38Engine.FieldType.isSigEnd f.fieldType = false)
    (hc : ∀ r ∈ t.closed, Honest u.closed r) : ∀ r ∈ (fs.foldl field t).closed, Honest (fs.foldl field u).closed r := by
  induction fs generalizing t u with
  | nil => exact hc
  | cons f fs ih =>
    have hcur := hu (List.cons_ne_nil f fs)
    have hnext : fs ≠ [] → f ∈ (f :: fs).dropLast := fun hne => by
      rw [List.dropLast_cons_of_ne_nil hne]
      exact List.mem_cons_self
    refine ih (field_adds h hcur f).near (fun hne => field_current hcur (hend f (hnext hne))) (fun g hg => hend g ?_)
      (field_honest h hcur f hc)
    have hne : fs ≠ [] := by
      rintro rfl
      cases hg
    rw [List.dropLast_cons_of_ne_nil hne]
    exact List.mem_cons_of_mem f hg

end SignalTape

/-- What the fields of a signal are on the tape. -/
def sentTape (fs : List DataField) : SignalTape := fs.foldl SignalTape.field { current := some ([], 0) }

theorem sentTape_append (fs gs : List DataField) : sentTape (fs ++ gs) = gs.foldl SignalTape.field (sentTape fs) :=
  List.foldl_append

theorem sentTape_mono (fs gs : List DataField) : (sentTape fs).closed <+: (sentTape (fs ++ gs)).closed := by
  rw [sentTape_append]
  exact SignalTape.closed_fields gs

theorem begun_concat (fs : List DataField) (f : DataField) :
    begun (fs ++ [f]) = if f.fieldType = .hdlcData then begun fs ++ f.fieldData.getD [] else [] := by
  unfold begun
  rw [List.foldl_append]
  rfl

/-- Before the end of the signal the frame that is begun is on the tape. -/
theorem sentTape_current (h : ∀ f ∈ fs, Inner f) : (sentTape fs).current = some (begun fs, 0) := by
  induction fs using List.reverseRecOn with
  | nil => rfl
  | append_singleton fs f ih =>
    obtain ⟨hfs, hf⟩ := List.forall_mem_append.mp h
    have hcur := ih hfs
    have hoctets : octetsOf [f] = f.fieldData.getD [] := by simp [octetsOf]
    rw [sentTape_append, List.foldl_cons, List.foldl_nil, begun_concat]
    rcases hf f (List.mem_singleton_self f) with hf | hf | hf
    · rw [SignalTape.field_data (.inl hf), SignalTape.put_current hcur, if_pos hf, hoctets]
    · have hfcs : f.fieldType = if true then .hdlcFcsOK else .hdlcFcsBAD := hf
      rw [SignalTape.field_fcs hcur hfcs, if_neg (by simp [hf])]
    · have hfcs : f.fieldType = if false then .hdlcFcsOK else .hdlcFcsBAD := hf
      rw [SignalTape.field_fcs hcur hfcs, if_neg (by simp [hf])]

theorem inner_of_cut {rest : List DataField} (h : sent ++ fs ++ rest = front ++ [f]) (hne : fs ≠ []) :
    (∀ g ∈ sent, g ∈ front) ∧ ∀ g ∈ fs.dropLast, g ∈ front := by
  obtain ⟨gs, g, rfl⟩ := (List.eq_nil_or_concat' fs).resolve_left hne
  have hall : sent ++ gs <+: front ++ [f] := ⟨g :: rest, by rw [← h]; simp⟩
  have hfront : sent ++ gs <+: front := by
    refine List.prefix_of_prefix_length_le hall (List.prefix_append _ _) ?_
    have hlen := congrArg List.length h
    simp only [List.length_append, List.length_singleton] at hlen ⊢
    omega
  refine ⟨fun x hx => hfront.subset (List.mem_append_left _ hx), fun x hx => hfront.subset (List.mem_append_right _ ?_)⟩
  rwa [List.dropLast_concat] at hx

namespace Incoming

variable {l : Incoming} {rest lost : List DataField} {frames : List (List Byte × Bool)}

/-- The receiver of a signal, of which the fields `sent` have been sent and `rest` are still to come. -/
structure Gathers (ind : Indicator) (l : Incoming) (sent rest : List DataField) : Prop where
  type : l.type = (getModParsByInd ind).msgType
  near : rest ≠ [] → SignalTape.Near l.tape (sentTape sent)
  honest : ∀ r ∈ l.tape.closed, Honest (sentTape sent).closed r

namespace Gathers

theorem packet (h : Gathers ind l sent (fs ++ rest)) (hf : Carries frames (sent ++ fs ++ rest)) :
    Gathers ind (l.packet (.data (getModParsByInd ind).msgType (some fs))) (sent ++ fs) rest := by
  rw [packet_data h.type]
  by_cases hne : fs = []
  · subst hne
    rw [List.append_nil]
    exact h
  · obtain ⟨front, f, hall, hfront⟩ := hf.inner
    obtain ⟨hsent, hfs⟩ := inner_of_cut hall hne
    have hnear := h.near (List.append_ne_nil_of_left_ne_nil hne rest)
    have hcur : (sentTape sent).current.isSome = true := by
      rw [sentTape_current fun g hg => hfront g (hsent g hg)]
      rfl
    have hend : ∀ g ∈ fs.dropLast, FieldType.isSigEnd g.fieldType = false := fun g hg => (hfront g (hfs g hg)).not_sigEnd
    refine ⟨h.type, fun _ => ?_, ?_⟩
    · rw [sentTape_append]
      exact (SignalTape.fields_adds hnear (fun _ => hcur) hend).near
    · rw [sentTape_append]
      exact SignalTape.fields_honest hnear (fun _ => hcur) hend h.honest

/-- Of a V.21 signal the record that is begun is marked; of another one it is as good as before when the gap cuts no
frame. -/
theorem gap (h : Gathers ind l sent (lost ++ rest)) (hf : Carries frames (sent ++ lost ++ rest)) (hs : Spared ind sent lost) :
    Gathers ind l.lost (sent ++ lost) rest := by
  have hhonest : ∀ r ∈ l.tape.closed, Honest (sentTape (sent ++ lost)).closed r :=
    fun r hr => (h.honest r hr).mono (sentTape_mono sent lost)
  by_cases hv : l.type = .v21
  · have hlost : l.lost = { l with tape := l.tape.mark (· ||| diagBadFcs) } := if_pos hv
    rw [hlost]
    refine ⟨h.type, fun _ => ?_, hhonest⟩
    cases hc : l.tape.current with
    | none => exact .silent (by simp [Tape.mark, hc])
    | some r => exact .bad r.1 _ (by simp [Tape.mark, hc]) (isBad_or r.2)
  · have hlost : l.lost = l := if_neg hv
    have hbegun := hs.resolve_left (h.type ▸ hv)
    rw [hlost]
    refine ⟨h.type, fun hne => ?_, hhonest⟩
    obtain ⟨front, f, hall, hfront⟩ := hf.inner
    have hall : sent ++ lost ++ rest ++ [] = front ++ [f] := by rw [List.append_nil, hall]
    have hinner : ∀ g ∈ sent ++ lost, Inner g := fun g hg => hfront g ((inner_of_cut hall hne).1 g hg)
    have hcur := sentTape_current hinner
    rw [hbegun, ← sentTape_current fun g hg => hinner g (List.mem_append_left _ hg)] at hcur
    cases h.near (List.append_ne_nil_of_right_ne_nil lost hne) with
    | silent h => exact .silent h
    | bad xs d h hd => exact .bad xs d h hd
    | same h => exact .same (h.trans hcur.symm)

end Gathers

end Incoming

/-- The data packets of a signal, and the gaps. -/
def dataPackets (ind : Indicator) (as : List (Option (List DataField))) : List (Option Ifp) :=
  as.map (Option.map fun fs => .data (getModParsByInd ind).msgType (some fs))

theorem Lossy.honest {frames : List (List Byte × Bool)} {l : Incoming} (h : Lossy (Spared ind) sent pkts as)
    (hf : Carries frames (sent ++ pkts.flatten)) (hg : l.Gathers ind sent pkts.flatten) :
    ∀ r ∈ ((dataPackets ind as).foldl Incoming.arrive l).tape.closed, Honest (sentTape (sent ++ pkts.flatten)).closed r := by
  induction h generalizing l with
  | nil sent pkts => exact fun r hr => (hg.honest r hr).mono (sentTape_mono sent _)
  | tail sent pkts =>
    intro r hr
    have hsame : l.lost.tape.closed = l.tape.closed := by
      unfold Incoming.lost
      split <;> rfl
    exact (hg.honest r (hsame ▸ hr)).mono (sentTape_mono sent _)
  | @keep sent fs pkts as _ ih =>
    rw [List.flatten_cons, ← List.append_assoc] at hf ⊢
    exact ih hf (hg.packet hf)
  | @gap sent lost fs pkts as hok _ ih =>
    rw [List.flatten_append, List.flatten_cons, ← List.append_assoc, ← List.append_assoc] at hf ⊢
    rw [List.flatten_append, List.flatten_cons] at hg
    have hgap := hg.gap (by rw [← List.append_assoc]; exact hf) hok
    exact ih hf (hgap.packet hf)

end T38Modem
