import T38Modem.ReceptionRun

namespace T38Modem

open T38Engine
open Tape (Cell)

/-- The calls by which the DTE receives. -/
def Act.ofDte : Act → Bool
  | .recvWait .. | .recvStart _ | .recv _ | .recvDiag | .recvStop => true
  | _ => false

namespace Sys

variable {s s' : Sys} {l : Incoming} {d d' : DteLog} {x x' : Sys × DteLog} {a : Act} {as : List Act} {es : List Event}

/-- The DTE does nothing but receive, as it should. -/
def Receiving (x : Sys × DteLog) (a : Act) : Prop := KeepsTurn x a ∧ a.ofDte = true

/-- The DTE goes on by some calls. -/
def Goes (x x' : Sys × DteLog) : Prop := ∃ as es, reception.Run Receiving x as es x'

theorem Goes.refl (x : Sys × DteLog) : Goes x x := ⟨_, _, .start⟩

theorem Goes.trans {x'' : Sys × DteLog} (h : Goes x x') (h' : Goes x' x'') : Goes x x'' := by
  obtain ⟨_, _, hr⟩ := h
  obtain ⟨_, _, hr'⟩ := h'
  exact ⟨_, _, hr.trans hr'⟩

theorem act_ofDte (ha : a.ofDte = true) : l.act a = l := by
  cases a <;> first | rfl | cases ha

theorem Goes.received (hg : Goes x x') (h : Received l x) : Received l x' := by
  obtain ⟨_, _, hr⟩ := hg
  induction hr with
  | start => exact h
  | next _ hok hs ih =>
    have hnext := ih.step hok.1 hs
    rwa [act_ofDte hok.2] at hnext

/-- A call of the DTE, which nobody keeps waiting. -/
theorem goes_call (e : T38Engine) (ev : List Event) (hm : s.modem = .out) (ha : a.ofDte = true) (hok : KeepsTurn (s, d) a)
    (hs : machine.step s a = s.modemCall (e, ev)) : Goes (s, d) ({ s with e }, ev.foldl DteLog.see d) := by
  refine ⟨[a], ev, .one ⟨hok, ha⟩ ?_⟩
  have hcall : s.modemCall (e, ev) = some ({ s with e }, ev) := if_pos hm
  show (machine.step s a).map _ = _
  rw [hs, hcall]
  rfl

/-- All that has come is closed. -/
theorem cells_closed (hcur : l.tape.current = none) {c : Cell Byte Diag} {cs : List (Cell Byte Diag)} {k : Nat}
    (hc : l.tape.cells.drop k = c :: cs) : c.full = true := by
  have hmem : c ∈ l.tape.cells := List.mem_of_mem_drop (by rw [hc]; exact List.mem_cons_self ..)
  rw [Tape.cells_none hcur] at hmem
  obtain ⟨r, -, rfl⟩ := List.mem_map.mp hmem
  rfl

/-- The DTE comes to the end of the record that it reads, of which less than `n` octets are left. -/
theorem goes_end (n : Nat) (h : Received l (s, d)) (hm : s.modem = .out) (hcur : l.tape.current = none)
    (hs : s.e.stateModem = .stmInRecvData) (ht : d.text.isSome = true)
    (hleft : ∀ m b, s.e.modStreamIn = some m → m.firstBuf = some b → b.stream.data.length < n) :
    ∃ s' d', Goes (s, d) (s', d') ∧ s'.modem = .out ∧ s'.e.stateModem = .stmInRecvData ∧ d'.text.isSome = true ∧
      d'.ended = true ∧ d'.records = d.records := by
  induction n generalizing s d with
  | zero =>
    obtain ⟨m, hin, -⟩ := h.phase.reads (by rw [show s.e.stateModem = _ from hs]; rfl)
    obtain ⟨b, hb⟩ := Option.isSome_iff_exists.mp ((h.phase.first m hin).mpr hs)
    exact absurd (hleft m b hin hb) (Nat.not_lt_zero _)
  | succ n ih =>
    cases h.reading with
    | idle hne => exact absurd hs hne
    | told _ _ _ _ _ hn =>
      rw [show d.text = none from hn] at ht
      cases ht
    | reads got _ htext htr =>
      obtain ⟨m, b, cs, hin, hb, hplain, hc⟩ := reading_record htr h.phase hs
      have hfull : b.stream.eof = true := cells_closed hcur hc
      have hres := recv_result h.attached.modemOpen hs hin hb hplain 1
      have hgo := goes_call (a := .recv 1) (d := d) (s.e.recv 1).2 [.recv (s.e.recv 1).1] hm rfl trivial rfl
      obtain ⟨hphase, hst, hgot⟩ := recv_tracks htr h.phase h.attached.modemOpen hs 1
      have hnext := hgo.received h
      have hlen := hleft m b hin hb
      generalize s.e.recv 1 = r at hgo hphase hst hgot hnext hres
      obtain ⟨res, e'⟩ := r
      cases res with
      | none => exact ⟨_, _, hgo, hm, hst, ht, rfl, rfl⟩
      | some bs =>
        have hne : bs ≠ [] := by
          rintro rfl
          obtain ⟨-, hopen⟩ := DataStream.getData_some_nil Nat.one_pos hres.symm
          exact Bool.false_ne_true (hopen.symm.trans hfull)
        have hgot : Tracks l d.records.length (got ++ bs) e' := hgot
        obtain ⟨m', b', cs', hin', hb', -, hc'⟩ := reading_record hgot hphase hst
        -- what is left of the record has become shorter
        rw [hc] at hc'
        have htexts : got ++ b.stream.data = got ++ bs ++ b'.stream.data := congrArg Cell.text (List.cons.inj hc').1
        have hlens := congrArg List.length htexts
        have hpos := List.length_pos_of_ne_nil hne
        simp only [List.length_append] at hlens
        obtain ⟨s', d', hgo', hm', hs', ht', he', hrec'⟩ := ih hnext hm hst (by
          show (d.text.map _).isSome = true
          rw [Option.isSome_map, ht]) fun m₁ b₁ hm₁ hb₁ => by
            have hm₁ : e'.modStreamIn = some m₁ := hm₁
            rw [hin'] at hm₁
            rw [← Option.some.inj hm₁, hb'] at hb₁
            rw [← Option.some.inj hb₁]
            omega
        exact ⟨s', d', hgo.trans hgo', hm', hs', ht', he', hrec'⟩

/-- The DTE takes note of the record that it has come to the end of, and stops. -/
theorem goes_stop (h : Received l (s, d)) (hm : s.modem = .out) (hs : s.e.stateModem = .stmInRecvData)
    (ht : d.text.isSome = true) (he : d.ended = true) :
    ∃ s' d', Goes (s, d) (s', d') ∧ s'.modem = .out ∧ s'.e.stateModem = .stmIdle ∧ d'.text = none ∧
      d'.records.length = d.records.length + 1 := by
  obtain ⟨text, htext⟩ := Option.isSome_iff_exists.mp ht
  have hdiag := goes_call (a := .recvDiag) (d := d) s.e [.recvDiag s.e.recvDiag] hm rfl trivial rfl
  have hd : [Event.recvDiag s.e.recvDiag].foldl DteLog.see d =
      { d with records := d.records ++ [(text, s.e.recvDiag)], text := none } := by
    show d.see (.recvDiag s.e.recvDiag) = _
    unfold DteLog.see
    rw [he, htext]
  rw [hd] at hdiag
  have hopen : s.e.isModemOpen = true := h.attached.modemOpen
  have hstop : s.e.recvStop = { s.e with modStreamIn := s.e.modStreamIn.map ModStream.deleteFirstBuf, stateModem := .stmIdle } := by
    unfold recvStop
    rw [if_neg (by simp [hopen]), if_neg (by simp [hs, StateModem.isIn])]
  have hgo := goes_call (a := .recvStop) (s := { s with e := s.e })
    (d := { d with records := d.records ++ [(text, s.e.recvDiag)], text := none }) s.e.recvStop [] hm rfl rfl rfl
  refine ⟨_, _, hdiag.trans hgo, hm, ?_, rfl, ?_⟩
  · show s.e.recvStop.stateModem = .stmIdle
    rw [hstop]
  · show (d.records ++ [_]).length = _
    rw [List.length_append, List.length_singleton]

/-- The DTE takes the record that is ready. -/
theorem goes_start (h : Received l (s, d)) (hm : s.modem = .out) (hs : s.e.stateModem = .stmInReadyData) :
    ∃ s' d', Goes (s, d) (s', d') ∧ s'.modem = .out ∧ s'.e.stateModem = .stmInRecvData ∧ d'.text.isSome = true ∧
      d'.records = d.records := by
  have hgo := goes_call (a := .recvStart 0) (d := d) (s.e.recvStart 0).2 [.recvStart (s.e.recvStart 0).1] hm rfl trivial rfl
  cases h.reading with
  | idle _ _ htr =>
    rcases recvStart_tracks htr h.phase 0 with ⟨ho | hne, -⟩ | ⟨-, hok, hst, -⟩
    · exact absurd (ho.symm.trans h.attached.modemOpen) Bool.false_ne_true
    · exact absurd hs hne
    · rw [hok] at hgo
      exact ⟨_, _, hgo, hm, hst, rfl, rfl⟩
  | reads _ hr => exact absurd (hs.symm.trans hr) (by simp)
  | told _ _ _ _ hr => exact absurd (hs.symm.trans hr) (by simp)

/-- The DTE asks for the record that is next. -/
theorem goes_wait (h : Received l (s, d)) (hm : s.modem = .out) (hs : s.e.stateModem = .stmIdle)
    (hv : s.e.view [] ≠ []) :
    ∃ s' d', Goes (s, d) (s', d') ∧ s'.modem = .out ∧ s'.e.stateModem = .stmInReadyData ∧ d'.records = d.records := by
  obtain ⟨k, got, htr⟩ := h.reading.tracked
  have hne : s.e.stateModem ≠ .stmInRecvData := by simp [hs]
  obtain ⟨param, hvalid, htype⟩ : ∃ param, (getModPars param).isModValid = true ∧
      ∀ type, s.e.pendingType = some type → (getModPars param).msgType = type := by
    by_cases hin : viewOf [] s.e.modStreamIn = []
    · have hsaved : viewOf [] s.e.modStreamInSaved ≠ [] := fun hn => hv (List.append_eq_nil_iff.mpr ⟨hin, hn⟩)
      obtain ⟨m, hm, -⟩ := viewOf_ne.mp hsaved
      obtain ⟨param, hvalid, htype⟩ := htr.known .modStreamInSaved m hm
      refine ⟨param, hvalid, fun type ht => ?_⟩
      rw [pendingType_saved hin hm] at ht
      rw [htype, Option.some.inj ht]
    · obtain ⟨m, hm, hb⟩ := viewOf_ne.mp hin
      obtain ⟨param, hvalid, htype⟩ := htr.known .modStreamIn m hm
      refine ⟨param, hvalid, fun type ht => ?_⟩
      rw [pendingType_in hm hb] at ht
      rw [htype, Option.some.inj ht]
  obtain ⟨t, hsig, hh⟩ : ∃ t, (t = .dtHdlc ∨ t = .dtRaw) ∧ hdlcT38 (getModPars param) s.e.t30.hdlcOnly = t := by
    refine ⟨_, ?_, rfl⟩
    unfold hdlcT38
    split
    · exact .inl rfl
    · exact .inr rfl
  have hasks : s.e.Asks t param := by
    rcases hsig with rfl | rfl <;> exact ⟨htype, hh⟩
  have hgo := goes_call (a := .recvWait t param 0) (d := d) (s.e.recvWait t param 0).2.2
    [.recvWait (s.e.recvWait t param 0).1 (s.e.recvWait t param 0).2.1] hm rfl (fun _ => hasks) rfl
  refine ⟨_, _, hgo, hm, ?_, rfl⟩
  show (s.e.recvWait t param 0).2.2.stateModem = .stmInReadyData
  rcases recvWait_cases s.e param 0 hsig with ⟨ho | hn | hn, -⟩ | ⟨-, ⟨hq, -, he⟩ | ⟨m, -, -, he⟩⟩
  · exact absurd (ho.symm.trans h.attached.modemOpen) Bool.false_ne_true
  · exact absurd hs hn
  · exact absurd (hn.symm.trans hvalid) Bool.false_ne_true
  · have hin := asked_empty h.phase hne htype hq
    have hsaved : viewOf [] s.e.modStreamInSaved ≠ [] := fun hn => hv (List.append_eq_nil_iff.mpr ⟨hin, hn⟩)
    obtain ⟨m, hm, -⟩ := viewOf_ne.mp hsaved
    rw [he]
    unfold openStream
    dsimp only
    rw [hm]
    dsimp only
    split <;> rfl
  · rw [he]

/-- The DTE reads on to the end of its record and stops. -/
theorem goes_record (h : Received l (s, d)) (hm : s.modem = .out) (hcur : l.tape.current = none)
    (hs : s.e.stateModem = .stmInRecvData) (ht : d.text.isSome = true) :
    ∃ s' d', Goes (s, d) (s', d') ∧ s'.modem = .out ∧ s'.e.stateModem = .stmIdle ∧
      d'.records.length = d.records.length + 1 := by
  obtain ⟨m, hin, -⟩ := h.phase.reads (by rw [show s.e.stateModem = _ from hs]; rfl)
  obtain ⟨b, hb⟩ := Option.isSome_iff_exists.mp ((h.phase.first m hin).mpr hs)
  have hleft (m' : ModStream) (b' : Buf) (hm' : s.e.modStreamIn = some m') (hb' : m'.firstBuf = some b') :
      b'.stream.data.length < b.stream.data.length + 1 := by
    have hin : s.e.modStreamIn = some m := hin
    rw [hin] at hm'
    rw [← Option.some.inj hm', hb] at hb'
    rw [← Option.some.inj hb']
    exact Nat.lt_succ_self _
  obtain ⟨s₁, d₁, hgo₁, hm₁, hs₁, ht₁, he₁, hrec₁⟩ := goes_end _ h hm hcur hs ht hleft
  obtain ⟨s₂, d₂, hgo₂, hm₂, hs₂, -, hrec₂⟩ := goes_stop (hgo₁.received h) hm₁ hs₁ ht₁ he₁
  exact ⟨s₂, d₂, hgo₁.trans hgo₂, hm₂, hs₂, by rw [hrec₂, hrec₁]⟩

/-- The DTE that is not reading a record stops. -/
theorem goes_recvStop (h : Received l (s, d)) (hm : s.modem = .out) (hs : s.e.stateModem.isIn = true) (ht : d.text = none) :
    ∃ s', Goes (s, d) (s', d) ∧ s'.modem = .out ∧ s'.e.stateModem = .stmIdle := by
  have hgo := goes_call (a := .recvStop) s.e.recvStop [] hm rfl ht rfl
  refine ⟨_, hgo, hm, ?_⟩
  have hopen : s.e.isModemOpen = true := h.attached.modemOpen
  show s.e.recvStop.stateModem = .stmIdle
  unfold recvStop
  rw [if_neg (by simp [hopen]), if_neg (by simp [hs])]

theorem goes_idle (h : Received l (s, d)) (hm : s.modem = .out) (hcur : l.tape.current = none)
    (hs : s.e.stateModem.isIn = true) : ∃ s' d', Goes (s, d) (s', d') ∧ s'.modem = .out ∧ s'.e.stateModem = .stmIdle := by
  cases h.reading with
  | idle _ ht =>
    obtain ⟨s', hgo, hm', hs'⟩ := goes_recvStop h hm hs ht
    exact ⟨s', d, hgo, hm', hs'⟩
  | told _ _ _ _ _ ht =>
    obtain ⟨s', hgo, hm', hs'⟩ := goes_recvStop h hm hs ht
    exact ⟨s', d, hgo, hm', hs'⟩
  | reads got hr ht =>
    obtain ⟨s', d', hgo, hm', hs', -⟩ := goes_record h hm hcur hr (by rw [ht]; rfl)
    exact ⟨s', d', hgo, hm', hs'⟩

/-- The DTE gets the records one after the other. -/
theorem goes_on (n : Nat) (h : Received l (s, d)) (hm : s.modem = .out) (hcur : l.tape.current = none)
    (hs : s.e.stateModem = .stmIdle) (hn : l.tape.closed.length ≤ d.records.length + n) :
    ∃ x', Goes (s, d) x' ∧ x'.2.records = l.tape.closed := by
  induction n generalizing s d with
  | zero =>
    refine ⟨_, .refl _, ?_⟩
    have hrec : d.records = l.tape.closed.take d.records.length := h.records
    rwa [List.take_of_length_le (by omega)] at hrec
  | succ n ih =>
    by_cases hall : l.tape.closed.length ≤ d.records.length
    · exact ih h hm hs (by omega)
    · have hv : s.e.view [] ≠ [] := by
        cases h.reading with
        | reads _ hr => exact absurd (hs.symm.trans hr) (by simp)
        | told _ _ _ _ hr => exact absurd (hs.symm.trans hr) (by simp)
        | idle _ _ htr =>
          rw [htr.view, Tape.cells_none hcur]
          intro hnil
          rw [List.drop_eq_nil_iff, List.length_map] at hnil
          exact hall hnil
      obtain ⟨s₁, d₁, hgo₁, hm₁, hs₁, hrec₁⟩ := goes_wait h hm hs hv
      have h₁ := hgo₁.received h
      obtain ⟨s₂, d₂, hgo₂, hm₂, hs₂, ht₂, hrec₂⟩ := goes_start h₁ hm₁ hs₁
      have h₂ := hgo₂.received h₁
      obtain ⟨s₃, d₃, hgo₃, hm₃, hs₃, hrec₃⟩ := goes_record h₂ hm₂ hcur hs₂ ht₂
      have h₃ := hgo₃.received h₂
      rw [hrec₂, hrec₁] at hrec₃
      obtain ⟨x', hgo, hrec⟩ := ih h₃ hm₃ hs₃ (by omega)
      exact ⟨x', (hgo₁.trans (hgo₂.trans hgo₃)).trans hgo, hrec⟩

/-- From any point on at which no signal is being received, the DTE can get all that has come. -/
theorem goes_all (h : Received l (s, d)) (hm : s.modem = .out) (hcur : l.tape.current = none)
    (hs : s.e.stateModem = .stmIdle ∨ s.e.stateModem.isIn = true) :
    ∃ x', Goes (s, d) x' ∧ x'.2.records = l.tape.closed := by
  obtain ⟨s', d', hgo, hm', hs'⟩ : ∃ s' d', Goes (s, d) (s', d') ∧ s'.modem = .out ∧ s'.e.stateModem = .stmIdle := by
    rcases hs with hs | hs
    · exact ⟨s, d, .refl _, hm, hs⟩
    · exact goes_idle h hm hcur hs
  obtain ⟨x', hgo', hrec⟩ := goes_on l.tape.closed.length (hgo.received h) hm' hcur hs' (Nat.le_add_left ..)
  exact ⟨x', hgo.trans hgo', hrec⟩

/-- The DTE gets the frames of a signal that has come whole, be it during the signal or later, with what its
diagnostics are to be, and the end of the signal behind them; and the octets of a signal without frames. -/
theorem signal_received {junk : Hdlc} {now : Int} {bs : List Act} {ind : Indicator} {ps : List Ifp} {fs : List DataField}
    {rs : List (List Byte × Diag)} (h : reception.Run KeepsTurn (start junk now, {}) (as ++ bs) es (s, d))
    (hcur : (incoming as).tape.current = none) (ht : ind.isTraining = true)
    (hb : arrivals bs = some (.t30Indicator ind) :: ps.map some) (hp : SignalPackets ind ps fs) (hf : Brings fs rs) :
    d.records <+: (incoming as).tape.closed ++ rs ∧
      (s.modem = .out → s.e.stateModem = .stmIdle ∨ s.e.stateModem.isIn = true →
        ∃ as' es' x', reception.Run Receiving (s, d) as' es' x' ∧ x'.2.records = (incoming as).tape.closed ++ rs) := by
  have htape : (incoming (as ++ bs)).tape = { closed := (incoming as).tape.closed ++ rs, current := none } := by
    have hmap : arrivals bs = (.t30Indicator ind :: ps).map some := hb
    have hfold : (incoming (as ++ bs)) = (.t30Indicator ind :: ps).foldl Incoming.packet (incoming as) := by
      unfold incoming
      rw [List.foldl_append, incoming_arrivals _ bs, hmap, List.foldl_map]
      rfl
    rw [hfold, Incoming.packets_signal ht hcur hp hf]
  have hr := run_received h
  refine ⟨?_, fun hm hs => ?_⟩
  · have hrec : d.records = _ := hr.records
    rw [hrec, htape]
    exact List.take_prefix _ _
  · obtain ⟨x', ⟨as', es', hrun⟩, hrec⟩ := goes_all hr hm (by rw [htape]) hs
    rw [htape] at hrec
    exact ⟨as', es', x', hrun, hrec⟩

/-- A signal of two frames, the second of them with a bad check sequence, of which the DTE has begun to read the first. -/
def signalRun : List Act :=
  [.recvWait .dtHdlc 3 1, .handlePacket (.t30Indicator .v21Preamble), .inn, .inn, .recvStart 2,
    .handlePacket (t38data .v21 .hdlcData [0xFF, 0x03]), .inn, .inn, .recv 1, .handlePacket (.t30Indicator .v21Preamble),
    .handlePacket (.data .v21 (some [⟨.hdlcFcsOK, none⟩, ⟨.hdlcData, some [0xFF, 0x13]⟩, ⟨.hdlcFcsBADSigEnd, none⟩]))]

def ready (r : (Sys × DteLog) × List Event) : Bool :=
  decide (r.1.1.modem = .out) && r.1.1.e.stateModem.isIn && r.1.2.records.isEmpty

theorem two_received : ∃ es x as' es' x', reception.Run KeepsTurn (start default 0, {}) signalRun es x ∧ x.2.records = [] ∧
    reception.Run Receiving x as' es' x' ∧
    x'.2.records = [([0xFF, 0x03], 0), ([0xFF, 0x13], diagBadFcs), ([], diagNoCarrier)] := by
  obtain ⟨⟨s, d⟩, es, hr, ht⟩ : ∃ x es, reception.Run KeepsTurn (start default 0, {}) signalRun es x ∧ ready (x, es) = true :=
    Machine.exec_passes (by decide +kernel)
  unfold ready at ht
  simp only [Bool.and_eq_true, decide_eq_true_eq, List.isEmpty_iff] at ht
  obtain ⟨⟨hm, hin⟩, hd⟩ := ht
  have hpackets : SignalPackets .v21Preamble _ _ :=
    .data [⟨.hdlcData, some [0xFF, 0x03]⟩] (.again (by simp) (.data [⟨.hdlcFcsOK, none⟩,
      ⟨.hdlcData, some [0xFF, 0x13]⟩, ⟨.hdlcFcsBADSigEnd, none⟩] .nil))
  have hlast := @Carries.last [⟨.hdlcData, some [0xFF, 0x13]⟩] ⟨.hdlcFcsBADSigEnd, none⟩ false (by simp) rfl
  have hframes := @Carries.frame [⟨.hdlcData, some [0xFF, 0x03]⟩] ⟨.hdlcFcsOK, none⟩ true _ _ (by simp) rfl hlast
  have hrun : reception.Run KeepsTurn (start default 0, {}) ([] ++ signalRun) es (s, d) := hr
  obtain ⟨-, hall⟩ := signal_received hrun rfl rfl rfl hpackets (.hdlc hframes)
  obtain ⟨as', es', x', hrun, hrec⟩ := hall hm (.inr hin)
  exact ⟨es, _, as', es', x', hr, hd, hrun, hrec⟩

end Sys

end T38Modem
