import T38Modem.ImageCalls

namespace T38Modem

open BitList BitStuffing
open T38Engine
open Tape (Cell)

/-- What the DTE has got of an image as a raw stream, and what it is about. -/
inductive Recoding (l : Incoming) (d : DteLog) (e : T38Engine) : Prop
  | before (hs : e.stateModem ≠ .stmInRecvData) (ht : d.text = none) (hd : d.records = []) (h : Tracks l 0 [] e)
  | reads (k : Nat) (got raw : List Byte) (hs : e.stateModem = .stmInRecvData) (ht : d.text = some raw) (hd : d.records = [])
      (h : Recodes l k got raw e) (hend : d.ended = true → Whole l k raw)
  | told (k : Nat) (got raw raw' : List Byte) (m : Diag) (hs : e.stateModem = .stmInRecvData) (ht : d.text = none)
      (hd : d.records = [(raw, m)]) (h : Recodes l k got raw' e) (hw : Whole l k raw)
  | after (k : Nat) (raw : List Byte) (m : Diag) (hs : e.stateModem ≠ .stmInRecvData) (ht : d.text = none)
      (hd : d.records = [(raw, m)]) (h : Tracks l (k + 1) [] e) (hw : Whole l k raw)

namespace Recoding

variable {l l' : Incoming} {d : DteLog} {e e' : T38Engine}

theorem tracked (h : Recoding l d e) : ∃ k got, Tracks l k got e := by
  cases h with
  | before _ _ _ htr => exact ⟨_, _, htr⟩
  | reads _ _ _ _ _ _ hr => exact ⟨_, _, hr.tracks⟩
  | told _ _ _ _ _ _ _ _ hr => exact ⟨_, _, hr.tracks⟩
  | after _ _ _ _ _ _ htr => exact ⟨_, _, htr⟩

/-- More has come, or nothing: the DTE goes on as before. Behind the end nothing comes. -/
theorem goes (h : Recoding l d e) (hph : ReadPhase Coded e) (hp : l.tape.closed <+: l'.tape.closed)
    (hsame : l.tape.current = none → l.tape.closed ≠ [] → l'.tape = l.tape) (hr : e'.reader = e.reader)
    (hs : e'.stateModem = .stmInRecvData ↔ e.stateModem = .stmInRecvData)
    (ht : ∀ k got, Tracks l k got e → Tracks l' k got e') : Recoding l' d e' := by
  have whole {k : Nat} {raw : List Byte} (hw : Whole l k raw) : Whole l' k raw :=
    hw.goes (hsame hw.current fun hn => by simpa [hn] using hw.last)
  cases h with
  | before hst htext hd htr => exact .before (fun hn => hst (hs.mp hn)) htext hd (ht _ _ htr)
  | reads k got raw hst htext hd hrec hend =>
    exact .reads k got raw (hs.mpr hst) htext hd (hrec.goes hph hst hp hr (ht _ _ hrec.tracks)) fun he => whole (hend he)
  | told k got raw raw' m hst htext hd hrec hw =>
    exact .told k got raw raw' m (hs.mpr hst) htext hd (hrec.goes hph hst hp hr (ht _ _ hrec.tracks)) (whole hw)
  | after k raw m hst htext hd htr hw =>
    exact .after k raw m (fun hn => hst (hs.mp hn)) htext hd (ht _ _ htr) (whole hw)

/-- The DTE stops before it has begun, or behind the end. -/
theorem stops (h : Recoding l d e) (hp : e.Paired) (hph : ReadPhase Coded e) (ht : d.text = none)
    (hi : e'.modStreamIn = e.modStreamIn.map ModStream.deleteFirstBuf) (hs : e'.modStreamInSaved = e.modStreamInSaved)
    (hst : e'.stateModem ≠ .stmInRecvData) : Recoding l d e' := by
  cases h with
  | before hne _ hd htr => exact .before hst ht hd (stop_tracks htr hph hne hi hs)
  | reads _ _ raw _ htext => exact absurd (ht.symm.trans htext) (Option.some_ne_none raw).symm
  | told k got raw raw' m hr _ hd hrec hw =>
    obtain ⟨m₁, b, cs, -, -, -, hc⟩ := reading_record hrec.tracks hph hr
    have hfull : (b.shown got).full = true := by
      have hmem : b.shown got ∈ l.tape.cells := List.mem_of_mem_drop (by rw [hc]; exact List.mem_cons_self ..)
      rw [Tape.cells_none hw.current] at hmem
      obtain ⟨r, -, hr⟩ := List.mem_map.mp hmem
      rw [← hr]
    exact .after k raw m hst ht hd (done_tracks hrec.tracks hph hp hr hc hfull hi hs) hw
  | after k raw m hne _ hd htr hw => exact .after k raw m hst ht hd (stop_tracks htr hph hne hi hs) hw

theorem recvWait (h : Recoding l d e) {t : DataType} {param : Int} (cb : Int)
    (hw : e.stateModem = .stmIdle → ∀ k got, Tracks l k got e → Tracks l k got (e.recvWait t param cb).2.2) :
    Recoding l d (e.recvWait t param cb).2.2 := by
  by_cases hidle : e.stateModem = .stmIdle
  · cases h with
    | before hs ht hd htr => exact .before (recvWait_notRecv t param cb hs) ht hd (hw hidle _ _ htr)
    | after k raw m hs ht hd htr hwhole =>
      exact .after k raw m (recvWait_notRecv t param cb hs) ht hd (hw hidle _ _ htr) hwhole
    | reads _ _ _ hs => exact absurd (hidle.symm.trans hs) (by simp)
    | told _ _ _ _ _ hs => exact absurd (hidle.symm.trans hs) (by simp)
  · rw [recvWait_busy t param cb hidle]
    exact h

/-- The DTE that has begun has no other record to begin. -/
theorem recvStart_begun (h : Recoding l d e) (hph : ReadPhase Coded e) (hb : d.text ≠ none ∨ d.records ≠ []) (cb : Int) :
    e.recvStart cb = (false, e) := by
  have hbusy {k : Nat} {got : List Byte} (htr : Tracks l k got e) (hs : e.stateModem ≠ .stmInReadyData) :
      e.recvStart cb = (false, e) := by
    rcases recvStart_tracks htr hph cb with ⟨-, he⟩ | ⟨hst, -⟩
    · exact he
    · exact absurd hst hs
  cases h with
  | before _ ht hd => exact absurd hb (by simp [ht, hd])
  | reads _ _ _ hs _ _ hrec => exact hbusy hrec.tracks (by simp [hs])
  | told _ _ _ _ _ hs _ _ hrec => exact hbusy hrec.tracks (by simp [hs])
  | after k raw m hs _ _ htr hw =>
    refine hbusy htr fun hready => hph.ready hready ?_
    -- all records have been taken
    have hview := htr.view
    rw [List.drop_eq_nil_of_le (by rw [Tape.cells_none hw.current, List.length_map, hw.last])] at hview
    exact (List.append_eq_nil_iff.mp hview).1

theorem recvStart (h : Recoding l d e) (hph : ReadPhase Coded e) (cb : Int) :
    Recoding l (d.see (.recvStart (e.recvStart cb).1)) (e.recvStart cb).2 ∧ ReadPhase Coded (e.recvStart cb).2 := by
  by_cases hb : d.text ≠ none ∨ d.records ≠ []
  · rw [h.recvStart_begun hph hb]
    exact ⟨h, hph⟩
  · cases h with
    | before hs ht hd htr =>
      rcases recvStart_recodes htr hph cb with he | ⟨-, hok, hst, hrec, hphase⟩
      · rw [he]
        exact ⟨.before hs ht hd htr, hph⟩
      · rw [hok]
        exact ⟨.reads 0 [] [] hst rfl hd hrec fun hend => (by cases hend), hphase⟩
    | reads _ _ _ _ ht => exact absurd hb (by simp [ht])
    | told _ _ _ _ _ _ _ hd => exact absurd hb (by simp [hd])
    | after _ _ _ _ _ hd => exact absurd hb (by simp [hd])

theorem recv (h : Recoding l d e) (hph : ReadPhase Coded e) (hp : e.Paired) (ha : e.Alone) (hl : l.tape.Sealed)
    (ho : e.modemOpen = true) (n : Nat) :
    Recoding l (d.see (.recv (e.recv n).1)) (e.recv n).2 ∧ ReadPhase Coded (e.recv n).2 := by
  have hst := (recv_shape e n).1
  cases h with
  | before hs ht hd htr =>
    rw [recv_other hs n]
    exact ⟨.before hs ht hd htr, hph⟩
  | after k raw m hs ht hd htr hw =>
    rw [recv_other hs n]
    exact ⟨.after k raw m hs ht hd htr hw, hph⟩
  | reads k got raw hs ht hd hrec hend =>
    obtain ⟨k', got', hk, hrec', hphase, hnone, -⟩ := recv_recodes hrec hph hp ha hl ho hs n
    refine ⟨?_, hphase⟩
    generalize e.recv n = r at hst hrec' hphase hnone
    obtain ⟨res, e'⟩ := r
    have hs' : e'.stateModem = .stmInRecvData := hst.trans hs
    cases res with
    | none =>
      have hrec' : Recodes l k' got' (raw ++ []) e' := hrec'
      rw [List.append_nil] at hrec'
      exact .reads k' got' raw hs' ht hd hrec' fun _ => hnone rfl
    | some bs =>
      have hrec' : Recodes l k' got' (raw ++ bs) e' := hrec'
      have htext : (d.see (.recv (some bs))).text = some (raw ++ bs) := by
        show d.text.map _ = _
        rw [ht, Option.map_some]
      refine .reads k' got' (raw ++ bs) hs' htext hd hrec' fun he => ?_
      have hw := hend he
      rw [hw.stays hrec' hphase hs', List.append_nil, hw.reads_last hrec'.tracks hphase hs' hk]
      exact hw
  | told k got raw raw' m hs ht hd hrec hw =>
    obtain ⟨k', got', hk, hrec', hphase, -⟩ := recv_recodes hrec hph hp ha hl ho hs n
    refine ⟨?_, hphase⟩
    have hs' := hst.trans hs
    have htext : (d.see (.recv (e.recv n).1)).text = none := by
      cases (e.recv n).1 with
      | none => exact ht
      | some bs =>
        show d.text.map _ = _
        rw [ht, Option.map_none]
    have hrecords : (d.see (.recv (e.recv n).1)).records = [(raw, m)] := by
      rw [← hd]
      cases (e.recv n).1 <;> rfl
    obtain rfl := hw.reads_last hrec'.tracks hphase hs' hk
    exact .told k' got' raw _ m hs' htext hrecords hrec' hw

theorem recvDiag (h : Recoding l d e) (diag : Diag) : Recoding l (d.see (.recvDiag diag)) e := by
  have hsame (ht : d.text = none) : d.see (.recvDiag diag) = d := by
    unfold DteLog.see
    rw [ht]
    cases d.ended <;> rfl
  cases h with
  | before hs ht hd htr =>
    rw [hsame ht]
    exact .before hs ht hd htr
  | told k got raw raw' m hs ht hd hrec hw =>
    rw [hsame ht]
    exact .told k got raw raw' m hs ht hd hrec hw
  | after k raw m hs ht hd htr hw =>
    rw [hsame ht]
    exact .after k raw m hs ht hd htr hw
  | reads k got raw hs ht hd hrec hend =>
    cases he : d.ended with
    | false =>
      have hd' : d.see (.recvDiag diag) = d := by
        unfold DteLog.see
        rw [he]
      rw [hd']
      exact .reads k got raw hs ht hd hrec hend
    | true =>
      have hd' : d.see (.recvDiag diag) = { d with records := d.records ++ [(raw, diag)], text := none } := by
        unfold DteLog.see
        rw [he, ht]
      rw [hd', hd]
      exact .told k got raw raw diag hs rfl rfl hrec (hend he)

end Recoding

namespace Incoming

variable {l : Incoming}

/-- Between two signals the fields say nothing. -/
theorem packet_rest (h : l.tape.current = none) {ifp : Ifp} (hi : ∀ ind, ifp ≠ .t30Indicator ind) :
    (l.packet ifp).tape = l.tape := by
  cases ifp with
  | t30Indicator ind => exact absurd rfl (hi ind)
  | data type fields =>
    unfold packet
    dsimp only
    split
    · exact SignalTape.fields_none h _
    · exact SignalTape.breakOff_none h
  | badTag => rfl

theorem lost_rest (h : l.tape.current = none) : l.lost.tape = l.tape := by
  obtain ⟨⟨closed, current⟩, type⟩ := l
  obtain rfl : current = none := h
  unfold lost
  split <;> rfl

theorem act_sealed (h : l.tape.Sealed) (a : Act) : (l.act a).tape.Sealed := by
  cases a with
  | handlePacket ifp => exact arrive_sealed h (some ifp)
  | handlePacketLost => exact arrive_sealed h none
  | _ => exact h

end Incoming

/-- `Recv` with room for an octet. -/
def Act.takes : Act → Bool
  | .recv n => decide (0 < n)
  | _ => false

namespace Sys

variable {s s' : Sys} {a : Act} {as : List Act} {es : List Event} {l : Incoming} {d d' : DteLog} {x x' : Sys × DteLog}
  {type : MsgType}

/-- What every run keeps in which the DTE receives a signal of frames as a raw stream. -/
structure Imaged (type : MsgType) (l : Incoming) (x : Sys × DteLog) : Prop extends Ordered Coded x.1 where
  cycling : Cycling type x.1
  alone : x.1.e.Alone
  sealed : l.tape.Sealed
  recoding : Recoding l x.2 x.1.e

theorem Imaged.step (h : Imaged type l x) (hok : Cycles type .dtRaw .dtHdlc x a)
    (hind : ∀ ind, a = .handlePacket (.t30Indicator ind) → (getModParsByInd ind).msgType = type ∧ l = {})
    (hs : reception.step x a = some (x', es)) : Imaged type (l.act a) x' := by
  obtain ⟨s, d⟩ := x
  obtain ⟨s', d'⟩ := x'
  obtain ⟨hstep, hd⟩ := Machine.watched_step hs
  obtain rfl : d' = es.foldl DteLog.see d := hd
  have hstep : machine.step s a = some (s', es) := hstep
  obtain ⟨es₀, htidy⟩ := h.tidy
  obtain ⟨ps, hg⟩ := h.grammatical
  have hcyc := h.cycling.step h.toOrdered (.inr rfl) hok.oneSignal (fun ind hp => (hind ind hp).1) hstep
  have hseal := Incoming.act_sealed h.sealed a
  -- nothing comes, and the DTE does not do anything
  have rests (hi : s'.e.modStreamIn = s.e.modStreamIn) (hv : s'.e.modStreamInSaved = s.e.modStreamInSaved)
      (hst : s'.e.stateModem = s.e.stateModem ∨ s.e.stateModem.isIn = false ∧ s'.e.stateModem.isIn = false)
      (hinn : afterOf s'.inn = afterOf s.inn) (hm : s'.modem ≠ .out → s'.e.stateModem.isIn = false) (hl : l.act a = l) :
      Imaged type (l.act a) (s', d) := by
    obtain ⟨ho, hrecv⟩ := h.toOrdered.rests hstep hi hst hinn hm
    refine ⟨ho, hcyc, h.alone.of_eq hi hv, hseal, ?_⟩
    rw [hl]
    exact h.recoding.goes h.phase (List.prefix_refl _) (fun _ _ => rfl) (congrArg (Option.map ModStream.reader) hi) hrecv
      fun k got ht => ht.of_eq hi hv
  cases step_hears h.attached hstep with
  | speaks ha hsp =>
    rw [sees_sending hsp.events]
    have hne : a ≠ .resetModemState := fun hr => by
      rw [hr] at hok
      cases hok
    obtain ⟨hst, hm⟩ := sends_state hg h.sending (step_cases hstep) ha hne
    exact rests (congrArg InSide.modStreamIn hsp.inSide) (congrArg InSide.modStreamInSaved hsp.inSide) hst
      (by rw [hsp.inn]) hm (by cases a <;> first | rfl | cases ha)
  | sendStart => cases hok
  | resetModemState => cases hok
  | openIn => exact rests rfl rfl (.inl rfl) rfl h.sending rfl
  | handlePacket ifp hi =>
    have hturn : s.e.PacketInTurn ifp := by
      rintro ind rfl
      obtain ⟨rfl, rfl⟩ := hind ind rfl
      obtain ⟨k, got, htr⟩ := h.recoding.tracked
      exact h.cycling.inTurn htr
    have htracks {k : Nat} {got : List Byte} (htr : Tracks l k got s.e) :
        Tracks (l.packet ifp) k got (s.e.handlePacket ifp).engine := handlePacket_tracks htr htidy.paired htidy.rows hturn
    have hd : (s.ofInOutcome ifp (s.e.handlePacket ifp)).2.foldl DteLog.see d = d := by cases s.e.handlePacket ifp <;> rfl
    obtain ⟨ho, hrecv⟩ := h.toOrdered.advances hstep (handlePacket_advances h.waits ifp) fun t ht => pending_ends hturn ht
    rw [hd]
    rw [ofInOutcome_engine] at hrecv
    refine ⟨ho, hcyc, ?_, hseal, ?_⟩
    · rw [ofInOutcome_engine]
      by_cases hifp : ∃ ind, ifp = .t30Indicator ind
      · obtain ⟨ind, rfl⟩ := hifp
        obtain ⟨-, rfl⟩ := hind ind rfl
        obtain ⟨k, got, htr⟩ := h.recoding.tracked
        refine .of_single (htracks htr) ?_
        unfold Incoming.packet
        dsimp only
        split
        · exact Nat.zero_le 1
        · exact Nat.le_refl 1
      · exact h.alone.handlePacket htidy.paired fun ind hn => hifp ⟨ind, hn⟩
    · rw [ofInOutcome_engine]
      refine h.recoding.goes h.phase (Incoming.packet_closed ifp)
        (fun hcur hne => Incoming.packet_rest hcur fun ind hn => ?_) (handlePacket_reader ifp) hrecv
        fun k got htr => htracks htr
      obtain ⟨-, rfl⟩ := hind ind (by rw [hn])
      exact hne rfl
  | @calls ifp kind extra after hi =>
    refine rests rfl rfl (.inl rfl) ?_ h.sending rfl
    rw [hi]
    rfl
  | @resumes ifp after hi =>
    have hpend (t : Indicator) (ht : after = .indicator t) : t.isTraining = false ∧ s.e.modStreamInSaved = none := by
      have hafter : afterOf s.inn = some (.indicator t) := by
        rw [hi, ht]
        rfl
      exact ⟨h.pending t hafter, (htidy.follows.pending t hafter).2.2⟩
    have hd : (s.ofInOutcome ifp (s.e.resumePacket after)).2.foldl DteLog.see d = d := by
      cases s.e.resumePacket after <;> rfl
    obtain ⟨hin, hsaved⟩ := resumePacket_streams hpend
    obtain ⟨ho, hrecv⟩ := h.toOrdered.advances hstep (resumePacket_advances h.waits after)
      fun t ht => absurd ht (resumePacket_after after t)
    rw [hd]
    rw [ofInOutcome_engine] at hrecv
    refine ⟨ho, hcyc, ?_, hseal, ?_⟩
    · rw [ofInOutcome_engine]
      exact h.alone.of_eq hin hsaved
    · rw [ofInOutcome_engine]
      exact h.recoding.goes h.phase (List.prefix_refl _) (fun _ _ => rfl) (resumePacket_reader after) hrecv
        fun k got htr => htr.of_eq hin hsaved
  | handlePacketLost hi =>
    refine ⟨h.toOrdered.lost hstep, hcyc, h.alone.lost htidy.paired, hseal, ?_⟩
    refine h.recoding.goes h.phase Incoming.lost_closed (fun hcur _ => Incoming.lost_rest hcur) handlePacketLost_reader ?_
      fun k got htr => handlePacketLost_tracks htr htidy.paired
    rw [handlePacketLost_state]
  | recvWait t param cb =>
    obtain ⟨rfl, hp, hh⟩ := hok
    obtain ⟨hm, -, -⟩ := modemCall_some hstep
    have hsignal {k : Nat} {got : List Byte} (htr : Tracks l k got s.e) : Tracks l k got (s.e.recvWait .dtRaw param cb).2.2 ∧
        ReadPhase Coded (s.e.recvWait .dtRaw param cb).2.2 :=
      recvWait_signal htr h.phase htidy.paired (.inr rfl)
        (fun type' ht => hp.trans (h.cycling.ofSignal.pending ht)) fun mp hmp => ⟨rfl, by
          show hdlcT38 mp s.e.t30.hdlcOnly = .dtHdlc
          rw [← hh]
          unfold hdlcT38
          rw [hmp]⟩
    obtain ⟨k, got, htr⟩ := h.recoding.tracked
    exact ⟨h.toOrdered.calls hstep hm rfl rfl (hsignal htr).2, hcyc,
      h.alone.recvWait h.cycling.ofSignal h.phase (.inr rfl) hp cb, hseal,
      h.recoding.recvWait cb fun _ k got htr => (hsignal htr).1⟩
  | recvStart cb =>
    obtain ⟨hm, -, -⟩ := modemCall_some hstep
    obtain ⟨hrec, hphase⟩ := h.recoding.recvStart h.phase cb
    exact ⟨h.toOrdered.calls hstep hm rfl rfl hphase, hcyc, h.alone.recvStart h.phase cb, hseal, hrec⟩
  | recv n =>
    obtain ⟨hm, -, -⟩ := modemCall_some hstep
    obtain ⟨hrec, hphase⟩ := h.recoding.recv h.phase htidy.paired h.alone h.sealed h.attached.modemOpen n
    exact ⟨h.toOrdered.calls hstep hm rfl rfl hphase, hcyc, h.alone.recv h.phase n, hseal, hrec⟩
  | recvDiag => exact ⟨h.toOrdered, hcyc, h.alone, hseal, h.recoding.recvDiag _⟩
  | recvStop =>
    obtain ⟨hm, -, -⟩ := modemCall_some hstep
    have hrec : Recoding l d s.e.recvStop ∧ ReadPhase Coded s.e.recvStop := by
      unfold recvStop
      have hopen : s.e.modemOpen = true := h.attached.modemOpen
      rw [if_neg (by simp [isModemOpen, hopen])]
      split
      next hin => exact ⟨h.recoding, h.phase⟩
      next hin => exact ⟨h.recoding.stops htidy.paired h.phase hok rfl rfl (by simp), .stopped rfl rfl⟩
    exact ⟨h.toOrdered.calls hstep hm rfl rfl hrec.2, hcyc, h.alone.recvStop, hseal, hrec.1⟩

section

variable {junk : Hdlc} {now : Int} {as₀ as : List Act} {es₀ : List Event} {s₀ : Sys} {ind : Indicator}
  {pkts : List (List DataField)} {frames : List (List Byte × Bool)}

theorem Vacant.imaged (h : s₀.Vacant) (h₀ : machine.Run (fun _ _ => True) (start junk now) as₀ es₀ s₀) (type : MsgType) :
    Imaged type {} (s₀, {}) := by
  have hs : s₀.e.stateModem ≠ .stmInRecvData := by simp [h.stateModem]
  refine ⟨h.ordered h₀, h.cycling type, fun _ => h.saved, fun _ r hr => ?_, .before hs rfl rfl (h.tracks h₀)⟩
  exact absurd hr (by simp)

theorem run_imaged (h₀ : machine.Run (fun _ _ => True) (start junk now) as₀ es₀ s₀) (hv : s₀.Vacant)
    (h : reception.Run (Cycles (getModParsByInd ind).msgType .dtRaw .dtHdlc) (s₀, {}) as es x)
    (hl : Leads ind (arrivals as)) : Imaged (getModParsByInd ind).msgType (incoming as) x := by
  induction h with
  | start => exact hv.imaged h₀ _
  | @next as es x a x' es' hr hok hs ih =>
    rw [arrivals_append] at hl
    have hi := ih (hl.front (List.prefix_append _ _))
    rw [incoming, List.foldl_append]
    refine hi.step hok (fun ind' hp => ?_) hs
    obtain ⟨hnone, rfl⟩ := hl.first hp
    exact ⟨rfl, hnone⟩

/-- All fields of the signal have come, its end the last of them. -/
def Come (ind : Indicator) (pkts : List (List DataField)) (as : List Act) : Prop :=
  ∃ come, arrivals as = signalPackets ind come ∧ come.flatten = pkts.flatten

theorem Come.tape {rs : List (List Byte × Diag)} (h : Come ind pkts as) (htr : ind.isTraining = true)
    (hf : Brings pkts.flatten rs) : (incoming as).tape = { closed := rs } := by
  obtain ⟨come, has, hall⟩ := h
  rw [incoming, incoming_arrivals, has, signalPackets_tape htr (hall ▸ hf)]

/-- What has come is at its end only when all has come. -/
theorem come_of_current {rs : List (List Byte × Diag)} (htr : ind.isTraining = true) (hf : Brings pkts.flatten rs)
    (ha : arrivals as <+: signalPackets ind pkts) (hcur : (incoming as).tape.current = none)
    (hne : (incoming as).tape.closed ≠ []) : Come ind pkts as := by
  rw [incoming, incoming_arrivals] at hcur hne
  cases has : arrivals as with
  | nil =>
    rw [has] at hne
    exact absurd rfl hne
  | cons p ps =>
    rw [has, signalPackets, List.cons_prefix_cons] at ha
    obtain ⟨rfl, hps⟩ := ha
    obtain ⟨come, hcome, rfl⟩ := List.prefix_map_iff.mp hps
    refine ⟨come, has, ?_⟩
    obtain ⟨front, f, hfields, hfront⟩ := hf.inner
    have hpre : come.flatten <+: pkts.flatten := by
      obtain ⟨more, rfl⟩ := hcome
      rw [List.flatten_append]
      exact List.prefix_append _ _
    rw [hfields, List.prefix_concat_iff] at hpre
    rcases hpre with hall | hpre
    · rw [hall, hfields]
    · -- the signal is still on the tape
      have hfields : ∀ g ∈ come.flatten, T38Engine.FieldType.isSigEnd g.fieldType = false :=
        fun g hg => hfront g (hpre.subset hg)
      have hstart : (Incoming.packet {} (.t30Indicator ind)).tape.current.isSome = true := by
        rw [Incoming.packet_begin htr rfl]
        rfl
      have htype : (Incoming.packet {} (.t30Indicator ind)).type = (getModParsByInd ind).msgType := by
        rw [Incoming.packet_begin htr rfl]
      have htape := Incoming.packets_fields htr (signalPackets_fields ind come)
        (fun g hg => hfields g (List.dropLast_subset _ hg)) (fun _ => hstart) htype
      have hopen := SignalTape.fields_current hstart hfields
      rw [← htape] at hopen
      rw [has, List.foldl_cons, List.foldl_map] at hcur
      rw [List.foldl_map] at hopen
      have hcur : (come.foldl (fun l fs => l.packet (.data (getModParsByInd ind).msgType (some fs)))
        (Incoming.packet {} (.t30Indicator ind))).tape.current = none := hcur
      rw [hcur] at hopen
      cases hopen

/-- The DTE that has been told the end has not begun again. -/
def Told (d : DteLog) : Prop := d.ended = true ∧ (d.text ≠ none ∨ d.records ≠ [])

/-- When all has come the DTE gets an octet or the end by each `Recv` with room for one. -/
theorem Imaged.nears (h : Imaged type l (s, d)) (hcur : l.tape.current = none)
    (hok : Cycles type .dtRaw .dtHdlc (s, d) a) (hs : reception.step (s, d) a = some ((s', d'), es)) :
    (Told d → Told d') ∧ ∀ raw, d.text = some raw →
      Told d' ∨ ∃ raw', d'.text = some raw' ∧ raw.length + (if a.takes then 1 else 0) ≤ raw'.length := by
  obtain ⟨hstep, hd⟩ := Machine.watched_step hs
  obtain rfl : d' = es.foldl DteLog.see d := hd
  have hstep : machine.step s a = some (s', es) := hstep
  obtain ⟨es₀, htidy⟩ := h.tidy
  -- the DTE sees nothing
  have unseen (hd : es.foldl DteLog.see d = d) (ha : a.takes = false) : (Told d → Told (es.foldl DteLog.see d)) ∧
      ∀ raw, d.text = some raw → Told (es.foldl DteLog.see d) ∨ ∃ raw', (es.foldl DteLog.see d).text = some raw' ∧
        raw.length + (if a.takes then 1 else 0) ≤ raw'.length := by
    rw [hd, ha]
    exact ⟨id, fun raw ht => .inr ⟨raw, ht, Nat.le_refl _⟩⟩
  have outcome (ifp : Ifp) (r : InOutcome) : (s.ofInOutcome ifp r).2.foldl DteLog.see d = d := by cases r <;> rfl
  cases step_hears h.attached hstep with
  | speaks ha hsp => exact unseen (sees_sending hsp.events d) (by cases a <;> first | rfl | cases ha)
  | sendStart => cases hok
  | resetModemState => cases hok
  | openIn => exact unseen rfl rfl
  | handlePacket ifp => exact unseen (outcome _ _) rfl
  | calls => exact unseen rfl rfl
  | resumes => exact unseen (outcome _ _) rfl
  | handlePacketLost => exact unseen rfl rfl
  | recvWait t param cb => exact unseen rfl rfl
  | recvStart cb =>
    by_cases hb : d.text ≠ none ∨ d.records ≠ []
    · refine unseen ?_ rfl
      have hno := h.recoding.recvStart_begun h.phase hb cb
      show d.see (.recvStart (s.e.recvStart cb).1) = d
      rw [hno]
      rfl
    · refine ⟨fun ht => absurd ht.2 hb, fun raw ht => absurd (.inl ?_) hb⟩
      rw [ht]
      exact Option.some_ne_none raw
  | recvDiag =>
    cases he : d.ended with
    | false =>
      refine unseen ?_ rfl
      show d.see (.recvDiag s.e.recvDiag) = d
      unfold DteLog.see
      rw [he]
    | true =>
      by_cases hn : d.text = none
      · refine unseen ?_ rfl
        show d.see (.recvDiag s.e.recvDiag) = d
        unfold DteLog.see
        rw [he, hn]
      · obtain ⟨raw, ht⟩ := Option.ne_none_iff_exists'.mp hn
        have hd : d.see (.recvDiag s.e.recvDiag) =
            { d with records := d.records ++ [(raw, s.e.recvDiag)], text := none } := by
          unfold DteLog.see
          rw [he, ht]
        have htold : Told (d.see (.recvDiag s.e.recvDiag)) := by
          rw [hd]
          exact ⟨he, .inr (by simp)⟩
        exact ⟨fun _ => htold, fun _ _ => .inl htold⟩
  | recvStop => exact unseen rfl rfl
  | recv n =>
    show (Told d → Told (d.see (.recv (s.e.recv n).1))) ∧ ∀ raw, d.text = some raw →
      Told (d.see (.recv (s.e.recv n).1)) ∨ ∃ raw', (d.see (.recv (s.e.recv n).1)).text = some raw' ∧
        raw.length + (if Act.takes (.recv n) then 1 else 0) ≤ raw'.length
    refine ⟨fun ht => ?_, fun raw ht => ?_⟩
    · cases (s.e.recv n).1 with
      | none => exact ⟨rfl, ht.2⟩
      | some bs =>
        refine ⟨ht.1, ht.2.imp_left fun hne hn => hne ?_⟩
        exact Option.map_eq_none_iff.mp hn
    · cases h.recoding with
      | before _ hn => exact absurd (hn.symm.trans ht) (Option.some_ne_none raw).symm
      | told _ _ _ _ _ _ hn => exact absurd (hn.symm.trans ht) (Option.some_ne_none raw).symm
      | after _ _ _ _ hn => exact absurd (hn.symm.trans ht) (Option.some_ne_none raw).symm
      | reads k got _ hst _ _ hrec =>
        obtain ⟨-, -, -, -, -, -, hfull⟩ :=
          recv_recodes hrec h.phase htidy.paired h.alone h.sealed h.attached.modemOpen hst n
        cases hres : (s.e.recv n).1 with
        | none => exact .inl ⟨rfl, .inl fun hn => Option.some_ne_none raw (ht.symm.trans hn)⟩
        | some bs =>
          refine .inr ⟨raw ++ bs, congrArg (Option.map (· ++ bs)) ht, ?_⟩
          have htakes : Act.takes (.recv n) = decide (0 < n) := rfl
          rw [List.length_append, htakes]
          by_cases hn : 0 < n
          · have hne : bs ≠ [] := fun hbs => hfull hcur hn (by rw [hres, hbs])
            rw [if_pos (decide_eq_true hn)]
            exact Nat.add_le_add_left (List.length_pos_of_ne_nil hne) _
          · rw [if_neg (by simpa using hn)]
            exact Nat.le_add_right _ _

theorem run_nears (h : Imaged type l x) (hcur : l.tape.current = none)
    (hr : reception.Run (Cycles type .dtRaw .dtHdlc) x as es x') (hno : arrivals as = []) :
    Imaged type l x' ∧ (Told x.2 → Told x'.2) ∧ ∀ raw, x.2.text = some raw →
      Told x'.2 ∨ ∃ raw', x'.2.text = some raw' ∧ raw.length + as.countP Act.takes ≤ raw'.length := by
  induction hr with
  | start => exact ⟨h, id, fun raw ht => .inr ⟨raw, ht, Nat.le_refl _⟩⟩
  | @next as es y a y' es' hr hok hs ih =>
    rw [arrivals_append] at hno
    obtain ⟨hnone, hone⟩ := List.append_eq_nil_iff.mp hno
    obtain ⟨hy, htold, htext⟩ := ih hnone
    have hpacket (ifp : Ifp) : a ≠ .handlePacket ifp := fun ha => by
      rw [ha] at hone
      cases hone
    have hl : l.act a = l := by
      cases a with
      | handlePacket ifp => exact absurd rfl (hpacket ifp)
      | handlePacketLost => cases hone
      | _ => rfl
    have hy' := hy.step hok (fun ind ha => absurd ha (hpacket _)) hs
    rw [hl] at hy'
    obtain ⟨hkeeps, hnear⟩ := hy.nears hcur hok hs
    refine ⟨hy', hkeeps ∘ htold, fun raw ht => ?_⟩
    rcases htext raw ht with he | ⟨raw₁, ht₁, hlen⟩
    · exact .inl (hkeeps he)
    · rcases hnear raw₁ ht₁ with he | ⟨raw', ht', hlen'⟩
      · exact .inl he
      · refine .inr ⟨raw', ht', ?_⟩
        rw [List.countP_append, List.countP_singleton]
        omega

/-- When all has come the DTE that calls `Recv` often enough is told the end. -/
theorem Imaged.ends (h : Imaged type l x) (hcur : l.tape.current = none) {raw : List Byte} (ht : x.2.text = some raw)
    (hr : reception.Run (Cycles type .dtRaw .dtHdlc) x as es x') (hno : arrivals as = [])
    (hn : (imageLine l.tape.closed).length < as.countP Act.takes) : x'.2.ended = true := by
  obtain ⟨h', -, htext⟩ := run_nears h hcur hr hno
  rcases htext raw ht with he | ⟨raw', ht', hlen⟩
  · exact he.1
  · cases h'.recoding with
    | before _ hn => exact absurd (hn.symm.trans ht') (Option.some_ne_none raw').symm
    | told _ _ _ _ _ _ hn => exact absurd (hn.symm.trans ht') (Option.some_ne_none raw').symm
    | after _ _ _ _ hn => exact absurd (hn.symm.trans ht') (Option.some_ne_none raw').symm
    | reads k got raw₁ hst hraw _ hrec =>
      obtain rfl : raw₁ = raw' := Option.some.inj (hraw.symm.trans ht')
      have htape : ({ closed := l.tape.closed } : SignalTape) = l.tape := by rw [← hcur]
      have hbegun := (hrec.begun h'.phase hst (List.prefix_refl _) (by rw [htape]; exact .refl _)).length_le
      rw [length_octetBits] at hbegun
      omega

/-- The DTE calls `Recv` again and again. -/
theorem recv_run (n : Nat) (hm : s.modem = .out) :
    ∃ as es x', reception.Run (Cycles type .dtRaw .dtHdlc) (s, d) as es x' ∧ arrivals as = [] ∧
      as.countP Act.takes = n := by
  induction n generalizing s d with
  | zero => exact ⟨[], [], _, .start, rfl, rfl⟩
  | succ n ih =>
    have hcall : reception.step (s, d) (.recv 1) = some (({ s with e := (s.e.recv 1).2 },
        d.see (.recv (s.e.recv 1).1)), [.recv (s.e.recv 1).1]) := by
      have hs : machine.step s (.recv 1) = some ({ s with e := (s.e.recv 1).2 }, [.recv (s.e.recv 1).1]) := if_pos hm
      show (machine.step s (.recv 1)).map _ = _
      rw [hs]
      rfl
    obtain ⟨as, es, x', hr, hno, hn⟩ := ih (s := { s with e := (s.e.recv 1).2 }) (d := d.see (.recv (s.e.recv 1).1)) hm
    refine ⟨_, _, x', (Machine.Run.one trivial hcall).trans hr, hno, ?_⟩
    rw [List.singleton_append, List.countP_cons_of_pos rfl, hn]

/-- A signal of frames comes to an engine that nothing waits in, in packets of any kind, and the DTE receives it as a raw
stream by `Recv` of any sizes, beginning when it will. Decoded as HDLC the stream has the frames of the signal that have
octets, in their order, each with a good check sequence just where that was good in the signal, and any other frame in it
has no octets. The DTE is told the end of the stream when the end of the signal has come, and not before, and has all the
frames then; and once that has come it is told when it has called `Recv` often enough. -/
theorem image_received
    (h₀ : machine.Run (fun _ _ => True) (start junk now) as₀ es₀ s₀) (hv : s₀.Vacant) (htr : ind.isTraining = true)
    (hf : Carries frames pkts.flatten)
    (h : reception.Run (Cycles (getModParsByInd ind).msgType .dtRaw .dtHdlc) (s₀, {}) as es x)
    (ha : arrivals as <+: signalPackets ind pkts) :
    (∀ raw, x.2.text = some raw → withData (rawFrames raw) <+: withData frames ∧
      (x.2.ended = true → Come ind pkts as ∧ withData (rawFrames raw) = withData frames)) ∧
    (∀ r ∈ x.2.records, x.2.records = [r] ∧ Come ind pkts as ∧ withData (rawFrames r.1) = withData frames) ∧
    (Come ind pkts as → ∀ raw, x.2.text = some raw → ∃ N,
      (∀ as' es' x', reception.Run (Cycles (getModParsByInd ind).msgType .dtRaw .dtHdlc) x as' es' x' →
        arrivals as' = [] → N ≤ as'.countP Act.takes → x'.2.ended = true) ∧
      ∃ as' es' x', reception.Run (Cycles (getModParsByInd ind).msgType .dtRaw .dtHdlc) x as' es' x' ∧
        arrivals as' = [] ∧ N ≤ as'.countP Act.takes) := by
  have hi := run_imaged h₀ hv h ((signalPackets_leads ind pkts).front ha)
  have hb : Brings pkts.flatten (frames.map frameRecord ++ [([], diagNoCarrier)]) := .hdlc hf
  -- what is still to come is written behind what has come
  have hall : ((incoming as).tape.closed <+: frames.map frameRecord ++ [([], diagNoCarrier)]) ∧
      (incoming as).tape.Extends { closed := frames.map frameRecord ++ [([], diagNoCarrier)] } := by
    obtain ⟨rest, hrest⟩ := ha
    have htape : (rest.foldl Incoming.arrive (incoming as)).tape =
        { closed := frames.map frameRecord ++ [([], diagNoCarrier)] } := by
      rw [incoming, incoming_arrivals, ← List.foldl_append, hrest, signalPackets_tape htr hb]
    have hclosed := Incoming.arrives_closed (l := incoming as) rest
    have hext := Incoming.arrives_extends (l := incoming as) rest
    rw [htape] at hclosed hext
    exact ⟨hclosed, hext⟩
  have whole {k : Nat} {raw : List Byte} (hw : Whole (incoming as) k raw) :
      Come ind pkts as ∧ withData (rawFrames raw) = withData frames := by
    have hcome := come_of_current htr hb ha hw.current fun hn => by simpa [hn] using hw.last
    obtain ⟨tail, hline, htail⟩ := hw.line
    rw [hcome.tape htr hb] at hline
    exact ⟨hcome, by rw [rawFrames_whole hline htail, withData_records]⟩
  refine ⟨fun raw ht => ?_, fun r hr => ?_, fun hcome raw ht => ?_⟩
  · cases hi.recoding with
    | before _ hn => exact absurd (hn.symm.trans ht) (Option.some_ne_none raw).symm
    | told _ _ _ _ _ _ hn => exact absurd (hn.symm.trans ht) (Option.some_ne_none raw).symm
    | after _ _ _ _ hn => exact absurd (hn.symm.trans ht) (Option.some_ne_none raw).symm
    | reads k got raw₁ hst hraw _ hrec hend =>
      obtain rfl : raw₁ = raw := Option.some.inj (hraw.symm.trans ht)
      have hbegun := (rawFrames_begun (hrec.begun hi.phase hst hall.1 hall.2)).filter (·.1 ≠ [])
      have hframes := withData_records frames
      unfold withData at hframes ⊢
      rw [← hframes]
      refine ⟨hbegun, fun he => ?_⟩
      rw [hframes]
      exact whole (hend he)
  · cases hi.recoding with
    | before _ _ hn =>
      rw [hn] at hr
      cases hr
    | reads _ _ _ _ _ hn =>
      rw [hn] at hr
      cases hr
    | told k got raw raw' m _ _ hd _ hw =>
      rw [hd] at hr ⊢
      rw [List.mem_singleton.mp hr]
      exact ⟨rfl, whole hw⟩
    | after k raw m _ _ hd _ hw =>
      rw [hd] at hr ⊢
      rw [List.mem_singleton.mp hr]
      exact ⟨rfl, whole hw⟩
  · have hcur : (incoming as).tape.current = none := by rw [hcome.tape htr hb]
    refine ⟨(imageLine (incoming as).tape.closed).length + 1, fun as' es' x' hr hno hn => ?_, ?_⟩
    · exact hi.ends hcur ht hr hno hn
    · obtain ⟨s, d⟩ := x
      obtain ⟨as', es', x', hr, hno, hn⟩ :=
        recv_run (d := d) ((imageLine (incoming as).tape.closed).length + 1) hi.cycling.modem
      exact ⟨as', es', x', hr, hno, hn.ge⟩

end

/-- The engine receives a DCS with error correction and sends the CFR. -/
def confirmation : List Act :=
  [[.recvWait .dtHdlc 3 1, .handlePacket (t38indicator .v21Preamble), .inn, .inn, .recvStart 2,
      .handlePacket (.data .v21 (some [⟨.hdlcData, some [0xFF, 0xC8, 0x41, 0, 0, 1, 0x20]⟩, ⟨.hdlcFcsOKSigEnd, none⟩])),
      .inn, .inn, .recv 10, .recv 10, .recvStop],
    .tick 10000 :: List.replicate 7 .out,
    [.sendStart .dtHdlc 3, .send [0xFF, 0xC8, 0x21], .modem, .sendStop false 1, .modem],
    (List.replicate 8 (.tick 10000 :: List.replicate 7 .out)).flatten].flatten

/-- An image of a good frame in two fields, an empty one and one with a bad check sequence. -/
def imagePackets : List (List DataField) :=
  [[⟨.hdlcData, some [0xFF]⟩], [⟨.hdlcData, some [0x03]⟩, ⟨.hdlcFcsOK, none⟩, ⟨.hdlcFcsOK, none⟩],
    [⟨.hdlcData, some [0x13, 0x20]⟩, ⟨.hdlcFcsBAD, none⟩], [⟨.hdlcSigEnd, none⟩]]

/-- The DTE reads while the packets are coming, and is given nothing when it is in front of them. -/
def imageRun : List Act :=
  [.recvWait .dtRaw 96 1, .handlePacket (.t30Indicator .v29_9600Training), .inn, .inn, .recvStart 2,
    .handlePacket (.data .v29_9600 (some [⟨.hdlcData, some [0xFF]⟩])), .inn, .inn, .recv 12,
    .handlePacket (.data .v29_9600 (some [⟨.hdlcData, some [0x03]⟩, ⟨.hdlcFcsOK, none⟩, ⟨.hdlcFcsOK, none⟩])), .inn, .inn,
    .recv 3, .recv 100, .handlePacket (.data .v29_9600 (some [⟨.hdlcData, some [0x13, 0x20]⟩, ⟨.hdlcFcsBAD, none⟩])),
    .inn, .inn, .recv 100, .recv 100, .handlePacket (.data .v29_9600 (some [⟨.hdlcSigEnd, none⟩])), .inn, .inn, .recv 7,
    .recv 100, .recv 100]

def imageEnded (r : (Sys × DteLog) × List Event) : Bool := r.1.2.ended && r.1.2.text.isSome

/-- The engine has no stream, and is vacant. -/
def isBare (s : Sys) : Bool :=
  decide (s.e.stateModem = .stmIdle) && decide (s.modem = .out) && decide (s.inn = .out) &&
    decide (s.e.modStreamIn = none) && decide (s.e.modStreamInSaved = none)

theorem isBare_vacant (h : isBare s = true) : s.Vacant := by
  simp only [isBare, Bool.and_eq_true, decide_eq_true_eq] at h
  obtain ⟨⟨⟨⟨hidle, hm⟩, hi⟩, hin⟩, hsaved⟩ := h
  exact ⟨hidle, hm, hi, fun m hm => absurd (hin.symm.trans hm).symm (Option.some_ne_none m), hsaved⟩

def imageGot (r : Sys × List Event) : Bool :=
  isBare r.1 && (reception.exec (Cycles .v29_9600 .dtRaw .dtHdlc) (r.1, {}) imageRun).any imageEnded

theorem two_decoded : ∃ es₀ s₀ es x raw, machine.Run (fun _ _ => True) (start default 0) confirmation es₀ s₀ ∧
    reception.Run (Cycles .v29_9600 .dtRaw .dtHdlc) (s₀, {}) imageRun es x ∧ x.2.text = some raw ∧ x.2.ended = true ∧
    withData (rawFrames raw) = [([0xFF, 0x03], true), ([0x13, 0x20], false)] := by
  obtain ⟨s₀, es₀, h₀, ht⟩ : ∃ s es, machine.Run (fun _ _ => True) (start default 0) confirmation es s ∧
      imageGot (s, es) = true := Machine.exec_passes (by decide +kernel)
  obtain ⟨hbare, hread⟩ := Bool.and_eq_true_iff.mp ht
  obtain ⟨x, es, hr, hend⟩ := Machine.exec_passes hread
  simp only [imageEnded, Bool.and_eq_true, Option.isSome_iff_exists] at hend
  obtain ⟨hend, raw, htext⟩ := hend
  have hvacant := isBare_vacant hbare
  have hlast := @Carries.frame [⟨.hdlcData, some [0x13, 0x20]⟩] ⟨.hdlcFcsBAD, none⟩ false _ _ (by simp) rfl
    (.sigEnd (f := ⟨.hdlcSigEnd, none⟩) rfl rfl)
  have hempty := @Carries.frame [] ⟨.hdlcFcsOK, none⟩ true _ _ (by simp) rfl hlast
  have hframes := @Carries.frame [⟨.hdlcData, some [0xFF]⟩, ⟨.hdlcData, some [0x03]⟩] ⟨.hdlcFcsOK, none⟩ true _ _
    (by simp) rfl hempty
  have harrivals : arrivals imageRun = signalPackets .v29_9600Training imagePackets := by decide
  have htraining : Indicator.v29_9600Training.isTraining = true := rfl
  have hcarries : Carries _ imagePackets.flatten := hframes
  obtain ⟨htold, -, -⟩ := image_received h₀ hvacant htraining hcarries hr ⟨[], by rw [List.append_nil, harrivals]⟩
  exact ⟨es₀, s₀, es, x, raw, h₀, hr, htext, hend, ((htold raw htext).2 hend).2⟩

end Sys

end T38Modem
