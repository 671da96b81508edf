import T38Modem.Reception

namespace T38Modem

open T38Engine

namespace Sys

variable {s s' : Sys} {a : Act} {es : List Event} {ps : List Ifp}

theorem moves_notIn {pc : OutPc} {r : T38Engine × OutPc × List Event} (h : OutPc.Moves s.e s.now pc r)
    (hi : s.e.stateModem.isIn = false) : r.1.stateModem.isIn = false := by
  have hdata (l : Locals) (count : Option (List Byte)) :
      (s.e.dataSwitch s.now l count).engine.stateModem = s.e.stateModem := by
    unfold dataSwitch
    split
    · dsimp only
      split <;> rfl
    · split
      · rfl
      · split
        · rfl
        · split <;> rfl
    · dsimp only
      split <;> rfl
  cases h with
  | prepare l =>
    rw [OutPc.ofOutcome_engine]
    exact prepare_notIn hi l
  | data l count =>
    rw [OutPc.ofOutcome_engine, hdata]
    exact hi
  | _ => exact hi

theorem moves_rests {pc : OutPc} {r : T38Engine × OutPc × List Event} {o : Stage} (h : OutPc.Moves s.e s.now pc r)
    (hat : pc.At o s.e) (hrest : s.e.stateModem.isOut = false) : r.1.stateModem = s.e.stateModem := by
  obtain ⟨o', hsend⟩ := hat.sends
  cases h with
  | prepare l => exact (OutPc.prepare_rests s.now hsend hrest l).1
  | data l count => exact absurd (hrest.symm.trans (hat.busy rfl)) Bool.false_ne_true
  | _ => rfl

/-- Sending begins when nothing is received, and does not end a receive. -/
theorem sends_state (hg : s.Grammatical ps) (hm : s.modem ≠ .out → s.e.stateModem.isIn = false) (hs : Steps s a s' es)
    (ha : a.receiving = false) (hr : a ≠ .resetModemState) :
    (s'.e.stateModem = s.e.stateModem ∨ s.e.stateModem.isIn = false ∧ s'.e.stateModem.isIn = false) ∧
      (s'.modem ≠ .out → s'.e.stateModem.isIn = false) := by
  cases hs with
  | tick ms => exact ⟨.inl rfl, hm⟩
  | @out r hout =>
    have hmoves := hout ▸ hg.attached.moves
    have hnot := moves_notIn hmoves
    refine ⟨?_, fun hne => hnot (hm hne)⟩
    cases hi : s.e.stateModem.isIn with
    | false => exact .inr ⟨rfl, hnot hi⟩
    | true =>
      -- nothing is sent, and there is nothing for the thread to tell
      have hrest : s.e.stateModem.isOut = false := by
        cases hst : s.e.stateModem <;> rw [hst] at hi <;> first | rfl | cases hi
      obtain ⟨o, -, hat⟩ := hg.begun
      exact .inl (moves_rests hmoves hat hrest)
  | setPreparePacketTimeout timeout period =>
    unfold T38Engine.setPreparePacketTimeout
    split <;> exact ⟨.inl rfl, hm⟩
  | receives ha' => exact absurd (ha.symm.trans ha') Bool.false_ne_true
  | sendOnIdle dataType => exact ⟨.inl rfl, hm⟩
  | sendStart dataType param hout =>
    refine ⟨?_, fun hne => absurd hout hne⟩
    show (s.e.sendStart dataType param).2.stateModem = _ ∨ _
    unfold sendStart
    split
    · exact .inl rfl
    · split
      · exact .inl rfl
      next hidle =>
        have hst : s.e.stateModem.isIn = false := by rw [not_not.mp hidle]; rfl
        dsimp only
        split
        · split
          · exact .inr ⟨hst, rfl⟩
          · exact .inl rfl
        · split
          · exact .inr ⟨hst, rfl⟩
          · exact .inl rfl
  | checkSend bs hout hc =>
    refine ⟨.inl rfl, fun _ => ?_⟩
    simp only [canSend, decide_eq_true_eq] at hc
    rw [show s.e.stateModem = _ from hc.2]
    rfl
  | refuseSend bs hout => exact ⟨.inl rfl, fun hne => absurd hout hne⟩
  | checkSendStop moreFrames cb hout hc =>
    refine ⟨.inl rfl, fun _ => ?_⟩
    simp only [canSend, decide_eq_true_eq] at hc
    rw [show s.e.stateModem = _ from hc.2]
    rfl
  | refuseSendStop moreFrames cb hout => exact ⟨.inl rfl, fun hne => absurd hout hne⟩
  | send bs hout => exact ⟨.inl rfl, fun hne => absurd rfl hne⟩
  | sendStop moreFrames cb hout =>
    exact ⟨.inr ⟨hm (by simp [hout]), rfl⟩, fun hne => absurd rfl hne⟩
  | resetModemState => exact absurd rfl hr

/-- What every run in order keeps of the engine, when the DTE receives streams of the kind `P`. -/
structure Ordered (P : ModPars → Prop) (s : Sys) : Prop where
  tidy : ∃ es, Tidy es s
  grammatical : ∃ ps, s.Grammatical ps
  phase : ReadPhase P s.e
  pending : ∀ t, afterOf s.inn = some (.indicator t) → t.isTraining = false
  sending : s.modem ≠ .out → s.e.stateModem.isIn = false

namespace Ordered

variable {P : ModPars → Prop}

theorem next (h : Ordered P s) (hs : machine.step s a = some (s', es)) (phase : ReadPhase P s'.e)
    (pending : ∀ t, afterOf s'.inn = some (.indicator t) → t.isTraining = false)
    (sending : s'.modem ≠ .out → s'.e.stateModem.isIn = false) : Ordered P s' := by
  obtain ⟨es₀, ht⟩ := h.tidy
  exact ⟨⟨_, step_tidy ht hs⟩, grammatical_step h.grammatical (step_cases hs), phase, pending, sending⟩

/-- Nothing comes, and the DTE does not do anything. -/
theorem rests (h : Ordered P s) (hs : machine.step s a = some (s', es)) (hi : s'.e.modStreamIn = s.e.modStreamIn)
    (hst : s'.e.stateModem = s.e.stateModem ∨ s.e.stateModem.isIn = false ∧ s'.e.stateModem.isIn = false)
    (hinn : afterOf s'.inn = afterOf s.inn) (hm : s'.modem ≠ .out → s'.e.stateModem.isIn = false) :
    Ordered P s' ∧ (s'.e.stateModem = .stmInRecvData ↔ s.e.stateModem = .stmInRecvData) := by
  rcases hst with hst | ⟨hst, hst'⟩
  · exact ⟨h.next hs (h.phase.of_state hi hst) (hinn ▸ h.pending) hm, by rw [hst]⟩
  · exact ⟨h.next hs (h.phase.of_notIn hi hst hst') (hinn ▸ h.pending) hm,
      fun hr => absurd hr (ne_of_isIn hst' rfl), fun hr => absurd hr (ne_of_isIn hst rfl)⟩

/-- `HandlePacket` goes on to its next stop. -/
theorem advances (h : Ordered P s) {r : InOutcome} {ifp : Ifp} (hs : machine.step s a = some (s.ofInOutcome ifp r))
    (ha : Advances s.e r.engine) (hpend : ∀ t, r.after = some (.indicator t) → t.isTraining = false) :
    Ordered P (s.ofInOutcome ifp r).1 ∧
      ((s.ofInOutcome ifp r).1.e.stateModem = .stmInRecvData ↔ s.e.stateModem = .stmInRecvData) := by
  have hmodem : (s.ofInOutcome ifp r).1.modem = s.modem := by cases r <;> rfl
  have heng : (s.ofInOutcome ifp r).1.e = r.engine := ofInOutcome_engine ifp r
  refine ⟨h.next hs ?_ (fun t hafter => ?_) fun hne => ?_, ?_⟩
  · rw [heng]
    exact h.phase.advances ha
  · cases r with
    | ret e => cases hafter
    | call e kind extra after => exact hpend t hafter
  · have hin := h.sending (hmodem ▸ hne)
    rw [heng]
    rcases ha.state with hst | ⟨-, hst⟩ | ⟨hst, -⟩
    · rwa [hst]
    · rw [hst]
      rfl
    · rw [show s.e.stateModem = _ from hst] at hin
      cases hin
  · rw [heng]
    rcases ha.state with hst | ⟨hst, hst'⟩ | ⟨hst, hst', -⟩
    · rw [hst]
    · rw [hst, hst']
      simp
    · rw [hst, hst']
      simp

/-- A gap. -/
theorem lost (h : Ordered P s) (hs : machine.step s .handlePacketLost = some ({ s with e := s.e.handlePacketLost }, es)) :
    Ordered P { s with e := s.e.handlePacketLost } :=
  h.next hs (h.phase.advances handlePacketLost_advances) h.pending fun hne =>
    (congrArg StateModem.isIn handlePacketLost_state).trans (h.sending hne)

/-- A call of the modem. -/
theorem calls (h : Ordered P s) (hs : machine.step s a = some (s', es)) (hm : s.modem = .out) (hm' : s'.modem = s.modem)
    (hinn : s'.inn = s.inn) (hph : ReadPhase P s'.e) : Ordered P s' :=
  h.next hs hph (fun t ht => h.pending t (hinn ▸ ht)) fun hne => absurd (hm'.trans hm) hne

theorem attached (h : Ordered P s) : s.Attached := h.grammatical.elim fun _ hg => hg.attached

theorem waits (h : Ordered P s) (hw : s.e.stateModem = .stmInWaitData) : s.e.modStreamIn ≠ none := by
  obtain ⟨m, hm, -⟩ := h.phase.reads (by rw [show s.e.stateModem = _ from hw]; rfl)
  exact fun hn => absurd (hn.symm.trans hm) (Option.some_ne_none m).symm

end Ordered

/-- What every run in order keeps. -/
structure Received (l : Incoming) (x : Sys × DteLog) : Prop extends Ordered Plain x.1 where
  records : x.2.records = l.tape.closed.take x.2.records.length
  reading : Reading l x.2 x.1.e

theorem see_sending {ev : Event} (h : ev.sending = true) (d : DteLog) : d.see ev = d := by
  cases ev <;> first | rfl | cases h

theorem sees_sending (h : ∀ ev ∈ es, ev.sending = true) (d : DteLog) : es.foldl DteLog.see d = d := by
  induction es generalizing d with
  | nil => rfl
  | cons ev es ih =>
    obtain ⟨hev, hes⟩ := List.forall_mem_cons.mp h
    rw [List.foldl_cons, see_sending hev, ih hes]

theorem take_of_prefix {α : Type*} {xs ys zs : List α} (h : xs = ys.take xs.length) (hp : ys <+: zs) :
    xs = zs.take xs.length := by
  have hle : xs.length ≤ ys.length := by
    have hl := congrArg List.length h
    rw [List.length_take] at hl
    omega
  obtain ⟨more, rfl⟩ := hp
  rwa [List.take_append_of_le_length hle]

variable {l l' : Incoming} {d d' : DteLog}

namespace Received

/-- What is kept whatever the step is. -/
theorem next (h : Received l (s, d)) (ho : Ordered Plain s') (hp : l.tape.closed <+: l'.tape.closed)
    (hd : d'.records = d.records) (reading : Reading l' d' s'.e) : Received l' (s', d') := by
  refine ⟨ho, ?_, reading⟩
  show d'.records = _
  rw [hd]
  exact take_of_prefix h.records hp

/-- Nothing comes, and the DTE does not do anything. -/
theorem rests (h : Received l (s, d)) (hs : machine.step s a = some (s', es)) (hi : s'.e.modStreamIn = s.e.modStreamIn)
    (hv : s'.e.modStreamInSaved = s.e.modStreamInSaved) (hst : s'.e.stateModem = s.e.stateModem ∨
      s.e.stateModem.isIn = false ∧ s'.e.stateModem.isIn = false) (hinn : afterOf s'.inn = afterOf s.inn)
    (hm : s'.modem ≠ .out → s'.e.stateModem.isIn = false) : Received l (s', d) := by
  obtain ⟨ho, hrecv⟩ := h.toOrdered.rests hs hi hst hinn hm
  exact h.next ho (List.prefix_refl _) rfl (h.reading.goes (List.prefix_refl _) hrecv fun k got ht => ht.of_eq hi hv)

/-- `HandlePacket` goes on to its next stop. -/
theorem advances (h : Received l (s, d)) {r : InOutcome} {ifp : Ifp} (hs : machine.step s a = some (s.ofInOutcome ifp r))
    (hp : l.tape.closed <+: l'.tape.closed) (ha : Advances s.e r.engine)
    (hpend : ∀ t, r.after = some (.indicator t) → t.isTraining = false)
    (ht : ∀ k got, Tracks l k got s.e → Tracks l' k got r.engine) :
    Received l' ((s.ofInOutcome ifp r).1, (s.ofInOutcome ifp r).2.foldl DteLog.see d) := by
  have hd : (s.ofInOutcome ifp r).2.foldl DteLog.see d = d := by cases r <;> rfl
  obtain ⟨ho, hrecv⟩ := h.toOrdered.advances hs ha hpend
  rw [hd]
  refine h.next ho hp rfl (h.reading.goes hp hrecv fun k got htr => ?_)
  rw [ofInOutcome_engine]
  exact ht k got htr

/-- A call of the modem. -/
theorem calls (h : Received l (s, d)) (hs : machine.step s a = some (s', es)) (hm : s.modem = .out)
    (hm' : s'.modem = s.modem) (hinn : s'.inn = s.inn) (hd : d'.records = d.records)
    (hr : Reading l d' s'.e ∧ ReadPhase Plain s'.e) : Received l (s', d') :=
  h.next (h.toOrdered.calls hs hm hm' hinn hr.2) (List.prefix_refl _) hd hr.1

theorem step {x x' : Sys × DteLog} (h : Received l x) (hok : KeepsTurn x a) (hs : reception.step x a = some (x', es)) :
    Received (l.act a) x' := by
  obtain ⟨s, d⟩ := x
  obtain ⟨s', d'⟩ := x'
  obtain ⟨hstep, hd⟩ := Machine.watched_step hs
  obtain rfl : d' = es.foldl DteLog.see d := hd
  have hstep : machine.step s a = some (s', es) := hstep
  obtain ⟨es₀, htidy⟩ := h.tidy
  obtain ⟨ps, hg⟩ := h.grammatical
  have hreset (hs : machine.step s .resetModemState = some ({ s with e := s.e.onResetModemState }, []))
      (ht : d.text = none) : Received l ({ s with e := s.e.onResetModemState }, d) := by
    obtain ⟨hm, -, -⟩ := modemCall_some hs
    have hst : s.e.onResetModemState.stateModem.isIn = false := by
      show StateModem.isIn (if s.e.stateModem.isOut then s.e.stateModem else .stmIdle) = false
      cases s.e.stateModem <;> rfl
    exact h.calls hs hm rfl rfl rfl
      ⟨h.reading.stops htidy.paired h.phase ht rfl rfl (ne_of_isIn hst rfl), .stopped rfl hst⟩
  cases step_hears h.attached hstep with
  | speaks ha hsp =>
    rw [sees_sending hsp.events]
    have hi : s'.e.modStreamIn = s.e.modStreamIn := congrArg InSide.modStreamIn hsp.inSide
    have hv : s'.e.modStreamInSaved = s.e.modStreamInSaved := congrArg InSide.modStreamInSaved hsp.inSide
    by_cases hr : a = .resetModemState
    · subst hr
      obtain ⟨-, rfl, rfl⟩ := modemCall_some hstep
      exact hreset hstep hok
    · obtain ⟨hst, hm⟩ := sends_state hg h.sending (step_cases hstep) ha hr
      have hl : l.act a = l := by cases a <;> first | rfl | cases ha
      rw [hl]
      exact h.rests hstep hi hv hst (by rw [hsp.inn]) hm
  | sendStart t param =>
    obtain ⟨hm, -, -⟩ := modemCall_some hstep
    have hsend (k : Nat) (got : List Byte) (htr : Tracks l k got s.e) := sendStart_tracks htr h.phase htidy.paired t param hok
    obtain ⟨hst, -⟩ := sends_state hg h.sending (.sendStart t param hm) rfl (by simp)
    have hrecv : (s.e.sendStart t param).2.stateModem = .stmInRecvData ↔ s.e.stateModem = .stmInRecvData := by
      rcases hst with hst | ⟨hst, hst'⟩
      · exact ⟨fun hr => hst.symm.trans hr, fun hr => hst.trans hr⟩
      · exact ⟨fun hr => absurd hr (ne_of_isIn hst' rfl), fun hr => absurd hr (ne_of_isIn hst rfl)⟩
    have hphase : ReadPhase Plain (s.e.sendStart t param).2 := by
      cases h.reading with
      | idle _ _ htr => exact (hsend _ _ htr).2
      | reads _ _ _ htr => exact (hsend _ _ htr).2
      | told _ _ _ _ _ _ _ htr => exact (hsend _ _ htr).2
    exact h.calls hstep hm rfl rfl rfl
      ⟨h.reading.goes (List.prefix_refl _) hrecv fun k got htr => (hsend k got htr).1, hphase⟩
  | resetModemState => exact hreset hstep hok
  | openIn => exact h.rests hstep rfl rfl (.inl rfl) rfl h.sending
  | handlePacket ifp hi =>
    refine h.advances hstep (Incoming.packet_closed ifp) (handlePacket_advances h.waits ifp) (fun t ht => ?_)
      fun k got htr => handlePacket_tracks htr htidy.paired htidy.rows hok
    exact pending_ends hok ht
  | @calls ifp kind extra after hi =>
    refine h.rests hstep rfl rfl (.inl rfl) ?_ h.sending
    rw [hi]
    rfl
  | @resumes ifp after hi =>
    have hpend (t : Indicator) (ht : after = .indicator t) : t.isTraining = false ∧ s.e.modStreamInSaved = none := by
      have hafter : afterOf s.inn = some (.indicator t) := by
        rw [hi, ht]
        rfl
      exact ⟨h.pending t hafter, (htidy.follows.pending t hafter).2.2⟩
    exact h.advances hstep (List.prefix_refl _) (resumePacket_advances h.waits after)
      (fun t ht => absurd ht (resumePacket_after after t)) fun k got htr => resumePacket_tracks htr hpend
  | handlePacketLost hi =>
    refine h.next (h.toOrdered.lost hstep) Incoming.lost_closed rfl ?_
    refine h.reading.goes Incoming.lost_closed ?_ fun k got htr => handlePacketLost_tracks htr htidy.paired
    rw [handlePacketLost_state]
  | recvWait t param cb =>
    obtain ⟨hm, -, -⟩ := modemCall_some hstep
    exact h.calls hstep hm rfl rfl rfl (h.reading.recvWait h.phase htidy.paired cb hok)
  | recvStart cb =>
    obtain ⟨hm, -, -⟩ := modemCall_some hstep
    exact h.calls hstep hm rfl rfl (by cases (s.e.recvStart cb).1 <;> rfl) (h.reading.recvStart h.phase cb)
  | recv n =>
    obtain ⟨hm, -, -⟩ := modemCall_some hstep
    exact h.calls hstep hm rfl rfl (by cases (s.e.recv n).1 <;> rfl) (h.reading.recv h.phase h.attached.modemOpen n)
  | recvDiag =>
    obtain ⟨hm, -, -⟩ := modemCall_some hstep
    obtain ⟨hread, hrec⟩ := h.reading.recvDiag h.phase h.records
    exact ⟨h.toOrdered, hrec, hread⟩
  | recvStop =>
    obtain ⟨hm, -, -⟩ := modemCall_some hstep
    refine h.calls hstep hm rfl rfl rfl ?_
    show Reading l d s.e.recvStop ∧ ReadPhase Plain s.e.recvStop
    unfold recvStop
    have hopen : s.e.modemOpen = true := h.attached.modemOpen
    rw [if_neg (by simp [isModemOpen, hopen])]
    split
    next hin => exact ⟨h.reading, h.phase⟩
    next hin =>
      exact ⟨h.reading.stops htidy.paired h.phase hok rfl rfl (by simp), .stopped rfl rfl⟩

end Received

variable {junk : Hdlc} {now : Int} {as : List Act} {x : Sys × DteLog}

theorem start_in_out : (start junk now).e.modStreamIn = none ∧ (start junk now).e.modStreamInSaved = none := ⟨rfl, rfl⟩

theorem start_received : Received {} (start junk now, {}) := by
  obtain ⟨hi, hs⟩ := @start_in_out junk now
  have hat (q : Place) (m : ModStream) : (start junk now).e.streamAt q ≠ some m := by
    cases q <;> exact (Option.some_ne_none m).symm
  have hphase : ReadPhase Plain (start junk now).e :=
    ⟨fun m hm => absurd hm (hat .modStreamIn m), fun hin => (by cases hin), fun hr => (by cases hr)⟩
  have htr : Tracks {} 0 [] (start junk now).e :=
    ⟨Nat.le_refl 0, rfl, rfl, fun ho => (by cases ho), fun m hm => absurd hm (hat .modStreamInSaved m),
      fun q m hm => absurd hm (hat q m), fun q m hm => absurd hm (hat q m)⟩
  exact ⟨⟨⟨_, start_tidy⟩, ⟨_, .start junk now⟩, hphase, fun t ht => (by cases ht), fun hm => absurd rfl hm⟩, rfl,
    .idle (fun hr => (by cases hr)) rfl htr⟩

theorem run_received (h : reception.Run KeepsTurn (start junk now, {}) as es x) : Received (incoming as) x := by
  induction h with
  | start => exact start_received
  | next _ hok hs ih =>
    rw [incoming, List.foldl_append]
    exact ih.step hok hs

theorem run_records (h : reception.Run KeepsTurn (start junk now, {}) as es x) :
    x.2.records <+: (incoming as).tape.closed := by
  rw [(run_received h).records]
  exact List.take_prefix _ _

/-- The DTE gets what has come, record by record in the order in which it has come, each octet once, and it is told the
end of a record where the record ends. -/
theorem received_in_order (h : reception.Run KeepsTurn (start junk now, {}) as es x) :
    x.2.records <+: (incoming as).tape.closed ∧ ∀ text, x.2.text = some text →
      ∃ c, (incoming as).tape.cells[x.2.records.length]? = some c ∧ text <+: c.text ∧
        (x.2.ended = true → c.full = true ∧ text = c.text) := by
  have hr := run_received h
  refine ⟨run_records h, fun text ht => ?_⟩
  cases hr.reading with
  | idle _ hn => exact absurd (hn.symm.trans ht) (Option.some_ne_none text).symm
  | told _ _ _ _ _ hn => exact absurd (hn.symm.trans ht) (Option.some_ne_none text).symm
  | reads got hs htext htr hend =>
    obtain rfl : got = text := Option.some.inj (htext.symm.trans ht)
    obtain ⟨m, b, cs, -, -, -, hc⟩ := reading_record htr hr.phase hs
    refine ⟨b.shown got, ?_, List.prefix_append _ _, fun he => ?_⟩
    · rw [← List.head?_drop, hc]
      rfl
    · obtain ⟨d, cs', hc'⟩ := hend he
      rw [hc] at hc'
      obtain ⟨hb, -⟩ := List.cons.inj hc'
      rw [hb]
      exact ⟨rfl, rfl⟩

/-- A frame that has come whole and been got, and the beginning of the next one. -/
def framesRun : List Act :=
  [.recvWait .dtHdlc 3 1, .handlePacket (.t30Indicator .v21Preamble), .inn, .inn, .recvStart 2,
    .handlePacket (.data .v21 (some [⟨.hdlcData, some [0xFF, 0x03]⟩, ⟨.hdlcFcsOK, none⟩])), .inn, .inn, .recv 5, .recv 5,
    .recvDiag, .recvStop, .recvWait .dtHdlc 3 1, .recvStart 2, .handlePacket (t38data .v21 .hdlcData [0xFF, 0x13]), .inn,
    .inn, .recv 1]

def oneGot (r : (Sys × DteLog) × List Event) : Bool := decide (r.1.2 = ⟨[([0xFF, 0x03], 0)], some [0xFF], false⟩)

theorem frames_in_order : ∃ es x, reception.Run KeepsTurn (start default 0, {}) framesRun es x ∧
    x.2 = ⟨[([0xFF, 0x03], 0)], some [0xFF], false⟩ ∧ x.2.records <+: (incoming framesRun).tape.closed ∧
    ∃ c, (incoming framesRun).tape.cells[1]? = some c ∧ [0xFF] <+: c.text := by
  obtain ⟨x, es, hr, ht⟩ : ∃ x es, reception.Run KeepsTurn (start default 0, {}) framesRun es x ∧ oneGot (x, es) = true :=
    Machine.exec_passes (by decide +kernel)
  have hd : x.2 = ⟨[([0xFF, 0x03], 0)], some [0xFF], false⟩ := of_decide_eq_true ht
  obtain ⟨hrec, htext⟩ := received_in_order hr
  obtain ⟨c, hc, hpre, -⟩ := htext [0xFF] (by rw [hd])
  rw [hd] at hc
  exact ⟨es, x, hr, hd, hrec, c, hc, hpre⟩

end Sys

end T38Modem
