import T38Modem.SendFidelity
import T38Modem.Spoken

namespace T38Modem

open T38Engine

/-- What has been heard of the signal of `ind`, which begins behind the first `n` packets, is on the tape behind what the
packets before it say. -/
inductive HeardOn (ind : Indicator) (n : Nat) (h : Heard) (ps : List Ifp) : Prop
  | before (hh : h = {}) (hn : n ≤ ps.length)
  | during (front rest : List Ifp) (hp : ps = front ++ t38indicator ind :: rest) (hn : n ≤ front.length) (hb : h.begun = true)
      (he : h.ended = false) (hc : (spoken ps).tape.closed = (spoken front).tape.closed ++ h.frames.map frameRecord)
      (hcur : (spoken ps).tape.current = some (h.data, 0))
  | behind (front rest : List Ifp) (hp : ps = front ++ t38indicator ind :: rest) (hn : n ≤ front.length) (hb : h.begun = true)
      (he : h.ended = true)
      (hc : (spoken ps).tape.closed = (spoken front).tape.closed ++ h.frames.map frameRecord ++ [(h.data, diagNoCarrier)])
      (hcur : (spoken ps).tape.current = none)

namespace HeardOn

variable {m : ModPars} {ind : Indicator} {n : Nat} {h : Heard} {ps : List Ifp} {p : Ifp} {o : Stage}

/-- A field of the signal is heard and written alike. -/
theorem field {f : FieldType} {bs : List Byte} (hh : HeardOn ind n h ps) (hb : (spoken ps).tape.current.isSome = true)
    {type : MsgType} (ht : (spoken ps).type = type)
    (step : ∀ {h : Heard} {t : SignalTape} {qs : List (List Byte × Diag)}, t.closed = qs ++ h.frames.map frameRecord →
      t.current = some (h.data, 0) → h.ended = false →
      let h' := h.field ⟨f, if bs = [] then none else some bs⟩
      let t' := t.field ⟨f, if bs = [] then none else some bs⟩
      h'.begun = h.begun ∧ (h'.ended = false ∧ t'.closed = qs ++ h'.frames.map frameRecord ∧ t'.current = some (h'.data, 0) ∨
        h'.ended = true ∧ t'.closed = qs ++ h'.frames.map frameRecord ++ [(h'.data, diagNoCarrier)] ∧ t'.current = none)) :
    HeardOn ind n (h.packet ind (some (t38data type f bs))) (ps ++ [t38data type f bs]) := by
  have hspoken := spoken_data ht f bs
  cases hh with
  | before hh hn =>
    subst hh
    rw [Heard.packet_other rfl (by simp [t38data, t38indicator])]
    exact .before rfl (by rw [List.length_append]; omega)
  | during front rest hp hn hbegun he hc hcur =>
    rw [Heard.packet_field hbegun]
    have hlater : ps ++ [t38data type f bs] = front ++ t38indicator ind :: (rest ++ [t38data type f bs]) := by rw [hp]; simp
    obtain ⟨hb', hcase⟩ := step hc hcur he
    rcases hcase with ⟨he', hc', hcur'⟩ | ⟨he', hc', hcur'⟩
    · exact .during front _ hlater hn (hb'.trans hbegun) he' (by rw [hspoken]; exact hc') (by rw [hspoken]; exact hcur')
    · exact .behind front _ hlater hn (hb'.trans hbegun) he' (by rw [hspoken]; exact hc') (by rw [hspoken]; exact hcur')
  | behind front rest hp hn hbegun he hc hcur =>
    rw [hcur] at hb
    cases hb

theorem data {f : FieldType} {bs : List Byte} (hf : f = .hdlcData ∨ f = .t4NonEcmData) (hh : HeardOn ind n h ps)
    (hb : (spoken ps).tape.current.isSome = true) {type : MsgType} (ht : (spoken ps).type = type) :
    HeardOn ind n (h.packet ind (some (t38data type f bs))) (ps ++ [t38data type f bs]) := by
  refine hh.field hb ht fun {h t qs} hc hcur he => ?_
  have hfield : h.field ⟨f, if bs = [] then none else some bs⟩ = { h with data := h.data ++ bs } := by
    rcases hf with rfl | rfl <;> by_cases hbs : bs = [] <;> simp [Heard.field, hbs]
  dsimp only
  rw [hfield, SignalTape.field_data hf, SignalTape.put_current hcur, data_octets]
  exact ⟨rfl, .inl ⟨he, hc, rfl⟩⟩

theorem fcs {ok : Bool} (hh : HeardOn ind n h ps) (hb : (spoken ps).tape.current.isSome = true) {type : MsgType}
    (ht : (spoken ps).type = type) :
    HeardOn ind n (h.packet ind (some (t38data type (if ok then .hdlcFcsOK else .hdlcFcsBAD) [])))
      (ps ++ [t38data type (if ok then .hdlcFcsOK else .hdlcFcsBAD) []]) := by
  refine hh.field hb ht fun {h t qs} hc hcur he => ?_
  dsimp only
  rw [SignalTape.field_fcs hcur rfl, hc]
  cases ok <;> simp [Heard.field, he, octetsOf]

theorem sigEnd {f : FieldType} (hf : f = .hdlcSigEnd ∨ f = .t4NonEcmSigEnd) (hh : HeardOn ind n h ps)
    (hb : (spoken ps).tape.current.isSome = true) {type : MsgType} (ht : (spoken ps).type = type) :
    HeardOn ind n (h.packet ind (some (t38data type f []))) (ps ++ [t38data type f []]) := by
  refine hh.field hb ht fun {h t qs} hc hcur he => ?_
  dsimp only
  rw [SignalTape.field_sigEnd hcur hf, hc]
  rcases hf with rfl | rfl <;> simp [Heard.field, octetsOf]

/-- A packet is heard and written alike. Of the indicators of signals it may only be that of this one. -/
theorem packet (hi : ind.isTraining = true) (hh : HeardOn ind n h ps) (hb : Begun o (ps ++ [p]))
    (hm : ∀ m ∈ mods, p = t38indicator m.ind → m.ind = ind ∧ h.ended = false) :
    HeardOn ind n (h.packet ind (some p)) (ps ++ [p]) := by
  have quiet {i : Indicator} (ht : i.isTraining = false) (hon : (spoken ps).tape.current = none) :
      HeardOn ind n (h.packet ind (some (t38indicator i))) (ps ++ [t38indicator i]) := by
    have hsame := spoken_indicator ht hon
    have hne : t38indicator i ≠ t38indicator ind := by
      intro he
      rw [Ifp.t30Indicator.inj he] at ht
      exact Bool.false_ne_true (ht.symm.trans hi)
    cases hh with
    | before hh hn =>
      subst hh
      rw [Heard.packet_other rfl hne]
      exact .before rfl (by rw [List.length_append]; omega)
    | during front rest hp hn hbegun he hc hcur => exact absurd (hon.symm.trans hcur) (Option.some_ne_none _).symm
    | behind front rest hp hn hbegun he hc hcur =>
      rw [Heard.packet_indicator hbegun]
      exact .behind front (rest ++ [t38indicator i]) (by rw [hp]; simp) hn hbegun he (by rw [hsame]; exact hc)
        (by rw [hsame]; exact hcur)
  have begins {m : ModPars} (hm' : m ∈ mods) (hp : p = t38indicator m.ind) (hon : (spoken ps).tape.current = none) :
      HeardOn ind n (h.packet ind (some p)) (ps ++ [p]) := by
    obtain ⟨hmi, he⟩ := hm m hm' hp
    rw [hmi] at hp
    subst hp
    cases hh with
    | before hh hn =>
      subst hh
      have htape : (spoken (ps ++ [t38indicator ind])).tape = (spoken ps).tape.start 0 := by
        rw [spoken_concat, t38indicator, Incoming.packet_begin hi hon]
      rw [Heard.packet_begins]
      exact .during ps [] rfl hn rfl rfl (by rw [htape]; exact (List.append_nil _).symm)
        (by rw [htape]; simp [Tape.start, hon])
    | during front rest hp hn hbegun he hc hcur => exact absurd (hon.symm.trans hcur) (Option.some_ne_none _).symm
    | behind _ _ _ _ _ he' => exact absurd (he.symm.trans he') Bool.false_ne_true
  generalize hw : ps ++ [p] = w at hb
  have last {qs : List Ifp} {q : Ifp} (hq : ps ++ [p] = qs ++ [q]) : ps = qs ∧ p = q := by
    obtain ⟨h1, h2⟩ := List.append_inj' hq rfl
    exact ⟨h1, List.singleton_inj.mp h2⟩
  cases hb with
  | start => simp at hw
  | noSignal ho hb =>
    obtain ⟨rfl, rfl⟩ := last hw
    rw [← hw]
    refine quiet rfl ?_
    rcases ho with rfl | rfl | rfl <;> exact hb.speaks.2
  | cng hb =>
    obtain ⟨rfl, rfl⟩ := last hw
    rw [← hw]
    exact quiet rfl hb.speaks.2
  | ced hb =>
    obtain ⟨rfl, rfl⟩ := last hw
    rw [← hw]
    exact quiet rfl hb.speaks.2
  | hdlc hm' hb =>
    obtain ⟨rfl, hp⟩ := last hw
    rw [← hw]
    exact begins hm' hp hb.speaks.2
  | raw hm' hb =>
    obtain ⟨rfl, hp⟩ := last hw
    rw [← hw]
    exact begins hm' hp hb.speaks.2
  | @hdlcData m d bs qs hb =>
    obtain ⟨rfl, rfl⟩ := last hw
    rw [← hw]
    obtain ⟨xs, hc, ht⟩ : ∃ xs, (spoken ps).tape.current = some (xs, 0) ∧ (spoken ps).type = m.msgType := by
      cases d with
      | false => exact ⟨[], hb.speaks.2⟩
      | true => exact hb.speaks.2
    exact hh.data (.inl rfl) (by rw [hc]; rfl) ht
  | hdlcFcs ok hb =>
    obtain ⟨rfl, rfl⟩ := last hw
    rw [← hw]
    obtain ⟨xs, hc, ht⟩ := hb.speaks.2
    exact hh.fcs (by rw [hc]; rfl) ht
  | hdlcSigEnd hb =>
    obtain ⟨rfl, rfl⟩ := last hw
    rw [← hw]
    obtain ⟨hc, ht⟩ := hb.speaks.2
    exact hh.sigEnd (.inl rfl) (by rw [hc]; rfl) ht
  | rawData bs hb =>
    obtain ⟨rfl, rfl⟩ := last hw
    rw [← hw]
    obtain ⟨xs, hc, ht⟩ := hb.speaks.2
    exact hh.data (.inr rfl) (by rw [hc]; rfl) ht
  | rawSigEnd hb =>
    obtain ⟨rfl, rfl⟩ := last hw
    rw [← hw]
    obtain ⟨xs, hc, ht⟩ := hb.speaks.2
    exact hh.sigEnd (.inr rfl) (by rw [hc]; rfl) ht

end HeardOn

/-- Behind the indicator of a row its signal is begun. -/
theorem Begun.of_row {m : ModPars} (hm : m ∈ mods) {o : Stage} {ps : List Ifp} (h : Begun o (ps ++ [t38indicator m.ind])) :
    o = .hdlc m false ∨ o = .raw m := by
  obtain ⟨h1, h2, h3⟩ := mods_training hm
  generalize hw : ps ++ [t38indicator m.ind] = w at h
  have last {qs : List Ifp} {p : Ifp} (hq : ps ++ [t38indicator m.ind] = qs ++ [p]) : t38indicator m.ind = p := by
    simpa using (List.append_inj' hq rfl).2
  have row {m' : ModPars} (hm' : m' ∈ mods) {qs : List Ifp} (hq : ps ++ [t38indicator m.ind] = qs ++ [t38indicator m'.ind]) :
      m' = m := by
    have hind : m.ind = m'.ind := Ifp.t30Indicator.inj (last hq)
    rw [← getModParsByInd_row hm', ← hind, getModParsByInd_row hm]
  cases h with
  | start => simp at hw
  | noSignal => exact absurd (last hw) (by simpa [t38indicator] using h1)
  | cng => exact absurd (last hw) (by simpa [t38indicator] using h2)
  | ced => exact absurd (last hw) (by simpa [t38indicator] using h3)
  | hdlc hm' => exact .inl (by rw [row hm' hw])
  | raw hm' => exact .inr (by rw [row hm' hw])
  | hdlcData => cases last hw
  | hdlcFcs => cases last hw
  | hdlcSigEnd => cases last hw
  | rawData => cases last hw
  | rawSigEnd => cases last hw

/-- A step of the thread gives back one packet at most, which leads to the stage that the sender is at. -/
theorem OutPc.Moves.said {o : Stage} {e : T38Engine} {now : Int} {pc : OutPc} {r : T38Engine × OutPc × List Event}
    (hm : Moves e now pc r) (h : At o e pc) : packets r.2.2 = [] ∨
      ∃ o' p, packets r.2.2 = [some p] ∧ Sends o' e ∧ ∀ qs, Begun o qs → Begun o' (qs ++ [p]) := by
  cases hm with
  | @quiet pc pc' es f d t n hi hi' hl hes => exact .inl (by rcases hes with rfl | rfl <;> rfl)
  | prepare l =>
    obtain ⟨hc, hs⟩ := (at_idle rfl).mp h
    exact .inl (keeps_at (hs.prepare_keeps hc)).2
  | data l count =>
    obtain ⟨hc, hs, hd⟩ := h
    exact .inl (keeps_at (hs.dataSwitch_keeps hc hd count)).2
  | @packet l hr =>
    obtain ⟨o', hm, hs⟩ := h
    cases hm with
    | redo hr' _ => exact absurd (hr'.symm.trans hr) (by decide)
    | packet _ p _ hi begun =>
      refine .inr ⟨o', p, ?_, hs, begun⟩
      show [l.ifp] = _
      rw [show l.ifp = some p from hi]
  | _ => exact .inl rfl

namespace Sys

variable {s s' : Sys} {a : Act} {es es' : List Event} {ind : Indicator} {t : DataType}

/-- The records that what the modem has got in becomes. -/
def sentRecords (t : DataType) (a : Accepted) : List (List Byte × Diag) :=
  if t = .dtHdlc then (closed a.frames).map frameRecord ++ [([], diagNoCarrier)] else [(a.bytes, diagNoCarrier)]

theorem delivered_records {h : Heard} {a : Accepted} (hd : Delivered h a t) :
    h.frames.map frameRecord ++ [(h.data, diagNoCarrier)] = sentRecords t a := by
  cases hd with
  | hdlc done last ha _ hf hdata =>
    rw [hf, hdata]
    rfl
  | raw last more ha hf hdata =>
    rw [hf, hdata, ha]
    simp [sentRecords, Accepted.bytes]

/-- While the sender is behind the end of the signal, it does not begin another one. -/
theorem Sends.not_begun {e : T38Engine} {m : ModPars} {o : Stage} (hs : Sends o e) (ho : o = .hdlc m false ∨ o = .raw m) :
    e.stateModem.isOut = true ∧ e.modParsOut.ind = m.ind := by
  have hstage := hs.stage
  rcases ho with rfl | rfl
  · cases hstage with
    | hdlc _ _ row _ hst =>
      refine ⟨hs.busy (fun h => ?_) (fun h => ?_), row.ind⟩ <;> rcases hst with ⟨-, hst | hst⟩ | ⟨-, hst | hst⟩ <;>
        exact absurd (h.symm.trans hst) (by simp)
  · cases hstage with
    | raw _ row _ hst =>
      refine ⟨hs.busy (fun h => ?_) (fun h => ?_), row.ind⟩ <;> rcases hst with hst | hst | hst <;>
        exact absurd (h.symm.trans hst) (by simp)

/-- What the packets since the start of a signal say, the packets before it being `ps₀`. -/
structure Renders (ps₀ : List Ifp) (ind : Indicator) (t : DataType) (es : List Event) (s : Sys) : Prop where
  conveys : s.Conveys ind t es
  row : ind.isTraining = true
  renders : ∃ ps, packets es = ps.map some ∧ s.Grammatical (ps₀ ++ ps) ∧
    HeardOn ind ps₀.length (heard ind (packets es)) (ps₀ ++ ps)

theorem Renders.step {ps₀ : List Ifp} (h : s.Renders ps₀ ind t es) (hok : s.Patient a) (hs : Steps s a s' es') :
    s'.Renders ps₀ ind t (es ++ es') := by
  obtain ⟨ps, hp, hg, hon⟩ := h.renders
  refine ⟨h.conveys.step hok hs, h.row, ?_⟩
  obtain ⟨ps', hp', hg'⟩ := hg.step hs
  rw [List.append_assoc] at hg'
  refine ⟨ps ++ ps', by rw [packets_append, hp, hp', List.map_append], hg', ?_⟩
  rw [packets_append]
  have silent (hnil : packets es' = []) :
      HeardOn ind ps₀.length (heard ind (packets es ++ packets es')) (ps₀ ++ (ps ++ ps')) := by
    obtain rfl : ps' = [] := List.map_eq_nil_iff.mp (hp'.symm.trans hnil)
    rwa [hnil, List.append_nil, List.append_nil]
  cases hs with
  | @out r hr =>
    obtain ⟨o, hb, hat⟩ := hg.begun
    rcases (hr ▸ hg.attached.moves).said hat with hnil | ⟨o', p, hsaid, hsend, begun⟩
    · exact silent hnil
    · obtain rfl : ps' = [p] := by
        have hmap : ps'.map some = [some p] := hp'.symm.trans hsaid
        obtain ⟨q, rfl, hq⟩ := List.map_eq_singleton_iff.mp hmap
        rw [Option.some.inj hq]
      rw [hsaid, heard_concat, ← List.append_assoc]
      have hb' := begun _ hb
      refine hon.packet h.row hb' fun m hm hpm => ?_
      rw [hpm] at hb'
      obtain ⟨hout, hind⟩ := Sends.not_begun hsend (hb'.of_row hm)
      have hmi : m.ind = ind := hind.symm.trans h.conveys.signals.row
      refine ⟨hmi, ?_⟩
      cases he : (heard ind (packets es)).ended with
      | false => rfl
      | true =>
        have hrest := (h.conveys.joined.link.delivered (ended_packet he)).2
        exact absurd (hrest.symm.trans hout) Bool.false_ne_true
  | receives _ hr => exact silent (packets_eq_nil hr.events)
  | setPreparePacketTimeout timeout period => exact silent rfl
  | _ => exact silent rfl

/-- What the packets of a signal say to whom gets them all: the frames of a signal that is ended are those that the modem
has got in. -/
theorem run_spoken {junk : Hdlc} {now : Int} {as₀ : List Act} {es₀ : List Event} {s₀ s₁ : Sys} {param : Int}
    (h₀ : machine.Run (fun _ _ => True) (Sys.start junk now) as₀ es₀ s₀) (ht : t = .dtHdlc ∨ t = .dtRaw)
    (hstart : machine.step s₀ (.sendStart t param) = some (s₁, [.sendStart t true]))
    (ht38 : s₁.e.modParsOut.dataTypeT38 = t) {as : List Act} (h : machine.Run Patient s₁ as es s) :
    ∃ ps₀ ps, packets es₀ = ps₀.map some ∧ packets es = ps.map some ∧ (∃ o, Begun o (ps₀ ++ ps)) ∧
      HeardOn s₁.e.modParsOut.ind ps₀.length (heard s₁.e.modParsOut.ind (packets es)) (ps₀ ++ ps) ∧
      Conveyed t (heard s₁.e.modParsOut.ind (packets es)) (accepted es) := by
  have hg : ∃ ps, packets es₀ = ps.map some ∧ s₀.Grammatical ps := by
    refine h₀.invariant (I := fun es s => ∃ ps, packets es = ps.map some ∧ s.Grammatical ps)
      ⟨[], rfl, .start junk now⟩ fun es s a s' es' hi _ hs => ?_
    obtain ⟨ps, hp, hgr⟩ := hi
    obtain ⟨ps', hp', hgr'⟩ := hgr.step (step_cases hs)
    exact ⟨ps ++ ps', by rw [packets_append, hp, hp', List.map_append], hgr'⟩
  obtain ⟨ps₀, hp₀, hg₀⟩ := hg
  have hsteps := step_cases hstart
  have hrow : s₁.e.modParsOut.ind.isTraining = true := by
    generalize hes : [Event.sendStart t true] = es at hsteps
    cases hsteps with
    | receives ha => cases ha
    | sendStart _ _ hm =>
      have hok : (s₀.e.sendStart t param).1 = true := by simpa using hes.symm
      obtain ⟨-, -, -, -, -, m, hm', hind⟩ := Conveys.sendStart_accepted ht hok
      dsimp only
      rw [hind]
      exact row_training hm'
  obtain ⟨ps', hp', hg'⟩ := hg₀.step hsteps
  obtain rfl : ps' = [] := by
    cases ps' with
    | nil => rfl
    | cons p ps' => cases hp'
  have hfirst : s₁.Renders ps₀ s₁.e.modParsOut.ind t [] :=
    ⟨.of_sendStart ⟨ps₀, hg₀⟩ ht hsteps ht38, hrow, [], rfl, hg', .before rfl (by rw [List.append_nil])⟩
  have hrun : s.Renders ps₀ s₁.e.modParsOut.ind t es :=
    h.invariant (I := fun es s => s.Renders ps₀ s₁.e.modParsOut.ind t es) hfirst
      fun es s a s' es' hi hok hs => hi.step hok (step_cases hs)
  obtain ⟨ps, hp, hgr, hon⟩ := hrun.renders
  obtain ⟨o, hb, -⟩ := hgr.begun
  exact ⟨ps₀, ps, hp₀, hp, ⟨o, hb⟩, hon, hrun.conveys.conveyed⟩

end Sys

end T38Modem
