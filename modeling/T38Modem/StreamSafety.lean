import T38Modem.StreamSystem

namespace T38Modem

/-- Where the thread in `HandlePacket` goes on. -/
def InPc.next : InPc → Option AfterIn
  | .out => none
  | .calling _ _ _ after => some after
  | .called _ after => some after

namespace T38Engine

variable {e e' : T38Engine}

/-- The streams are tidied under the same owner of the in side. -/
structure Serves (e e' : T38Engine) : Prop where
  tidies : Tidies e e'
  hOwnerIn : e'.hOwnerIn = e.hOwnerIn

theorem Serves.refl (e : T38Engine) : Serves e e := ⟨.refl e, rfl⟩

theorem Serves.trans {e'' : T38Engine} (h : Serves e e') (h' : Serves e' e'') : Serves e e'' :=
  ⟨h.tidies.trans h'.tidies, h'.hOwnerIn.trans h.hOwnerIn⟩

theorem sendStart_hOwnerIn (t : DataType) (param : Int) : (e.sendStart t param).2.hOwnerIn = e.hOwnerIn := by
  unfold sendStart
  split
  · rfl
  · split
    · rfl
    · dsimp only
      split <;> split <;> rfl

theorem attach_serves : Serves e e.attach := by
  unfold attach
  split
  next => exact .refl e
  next => exact ⟨.of_in (.map fun _ => ModStream.deleteFirstBuf_trims) rfl rfl, rfl⟩

theorem detach_serves : Serves e e.detach := by
  unfold detach
  split
  next => exact ⟨.of_in (.map fun _ => ModStream.deleteFirstBuf_trims) rfl rfl, rfl⟩
  next => exact .refl e

theorem fakeInSilence_serves : Serves e e.fakeInSilence.1 := by
  unfold fakeInSilence
  split <;> exact ⟨.of_eq rfl, rfl⟩

theorem resumeEnableFakeIn_serves (enable : Bool) : Serves e (e.resumeEnableFakeIn enable).1 := by
  unfold resumeEnableFakeIn
  split
  next => exact .refl e
  next => exact fakeInSilence_serves

/-- The signal that was received is closed, and that which has waited is dropped. -/
theorem onChangeEnableFakeIn_serves (enable : Bool) : Serves e (e.onChangeEnableFakeIn enable).2.1 := by
  have hdel : Serves e { e with isCarrierIn := 0, modStreamInSaved := none } :=
    ⟨.of_trimmed (.refl _) .gone rfl, rfl⟩
  unfold onChangeEnableFakeIn
  split
  next => exact .refl e
  next =>
    dsimp only
    generalize (if e.countIn = 0 then 0 else diagOutOfOrder) ||| diagNoCarrier = d
    have hend : Serves { e with isCarrierIn := 0, modStreamInSaved := none }
        (updateStream { e with isCarrierIn := 0, modStreamInSaved := none } (·.putEof d) (some .modStreamIn)) :=
      ⟨updateStream_tidies fun _ => ModStream.putEof_trims, rfl⟩
    split
    next =>
      split
      next => exact hdel.trans hend
      next => exact (hdel.trans hend).trans fakeInSilence_serves
    next => exact hdel.trans fakeInSilence_serves

/-- How the received signals are kept: in each stream `lastBuf`, when there is one, is the last buffer
and the only one not closed; at most one of the two is filled; a field is stored in one buffer at most;
and the HDLC object reads the first buffer or nothing. -/
structure Represented (e : T38Engine) : Prop where
  last : ∀ q m i, e.streamAt q = some m → m.lastBuf = some i →
    ∃ b, m.bufs.getLast? = some b ∧ b.id = i ∧ b.stream.eof = false
  others : ∀ q m, e.streamAt q = some m → ∀ b ∈ m.bufs, m.lastBuf ≠ some b.id → b.stream.eof = true
  one : ∀ m m', e.modStreamIn = some m → e.modStreamInSaved = some m' → m.lastBuf = none ∨ m'.lastBuf = none
  apart : (e.bufs.map Buf.id).Nodup
  stores : ∀ ifp, ∀ c ∈ e.packetCalls ifp, c.1.Stores c.2.1 c.2.2
  resumes : ∀ after, ∀ c ∈ e.resumeCalls after, c.1.Stores c.2.1 c.2.2
  reads : ∀ m count, e.modStreamIn = some m → ∀ r ∈ m.hdlcReads count, r.1 = none ∨ r.1 = some r.2

theorem Paired.represented (h : e.Paired) : e.Represented := by
  have hformed (q : Place) (m : ModStream) (hm : e.streamAt q = some m) : m.Formed := by
    cases q with
    | modStreamIn => exact h.left m hm
    | modStreamInSaved => exact h.right m hm
  refine ⟨fun q m i hm hl => ?_, fun q m hm b hb hne => ?_, fun m m' hm hm' => ?_, h.nodup,
    fun ifp c hc => fieldData_stores (packetCalls_paired h ifp c hc) _ _,
    fun after c hc => fieldData_stores (resumeCalls_paired h after c hc) _ _,
    fun m count hm => (h.left m hm).hdlcReads⟩
  · obtain ⟨front, hc⟩ := (hformed q m hm).tail.tail i hl
    obtain ⟨bufs, last, hbufs, -, hlast⟩ := List.map_eq_append_iff.mp hc
    obtain ⟨b, rest, rfl, hb, hrest⟩ := List.map_eq_cons_iff.mp hlast
    obtain rfl := List.map_eq_nil_iff.mp hrest
    obtain ⟨hi, heof⟩ := Prod.mk.inj hb
    exact ⟨b, by simp [hbufs], hi, heof⟩
  · exact (hformed q m hm).tail.closed b.cell (List.mem_map_of_mem hb) hne
  · rcases h.one with ho | ho
    · rw [hm] at ho
      exact .inl (ModStream.isOpen_false ho)
    · rw [hm'] at ho
      exact .inr (ModStream.isOpen_false ho)

end T38Engine

namespace StreamSys

open T38Engine (Serves Tidies)

variable {s s' : StreamSys} {e : T38Engine} {h : Owner} {a : StreamAct} {es : List Event}

/-- The streams are a pair, and where the owner is going to begin a signal no other is received. -/
structure Sound (s : StreamSys) : Prop where
  paired : s.e.Paired
  owner : ∀ h t, s.e.hOwnerIn = some h → (s.inn h).next = some (.indicator t) → s.e.anyOpen = false

theorem start_sound (junk : Hdlc) (now : Int) : (start junk now).Sound := by
  refine ⟨⟨fun m hm => ?_, fun m hm => ?_, fun j hj => absurd hj List.not_mem_nil,
    fun j hj => absurd hj List.not_mem_nil, .inl rfl⟩, nofun⟩
  · exact absurd hm.symm (Option.some_ne_none m)
  · exact absurd hm.symm (Option.some_ne_none m)

/-- The engine changes under the same owner. -/
theorem Sound.serves (hs : s.Sound) (he : Serves s.e e) {isEnableFakeIn : Bool} {changing : Nat} :
    Sound { s with e, isEnableFakeIn, changing } := by
  refine ⟨he.tidies.paired hs.paired, fun h t ho hn => ?_⟩
  have hc := hs.owner h t (he.hOwnerIn ▸ ho) hn
  by_contra ha
  rw [he.tidies.closes (by simpa using ha)] at hc
  cases hc

/-- The in side is opened or closed. -/
theorem Sound.change (hs : s.Sound) (hi : e.toInSide = s.e.toInSide)
    (ho : ∀ h t, e.hOwnerIn = some h → (s.inn h).next ≠ some (.indicator t)) {isEnableFakeIn : Bool} :
    Sound { s with e, isEnableFakeIn } :=
  ⟨(Tidies.of_eq hi).paired hs.paired, fun h t hh hn => absurd hn (ho h t hh)⟩

/-- A thread comes to its next stop, having begun a signal only where it is the owner. -/
theorem Sound.stop (hs : s.Sound) {r : InOutcome} {ifp : Ifp} (hp : r.engine.Paired)
    (hw : r.engine.hOwnerIn = s.e.hOwnerIn) (ha : ∀ t, r.after = some (.indicator t) → r.engine.anyOpen = false)
    (hc : s.e.hOwnerIn = some h ∨ Tidies s.e r.engine) : (s.ofInOutcome h ifp r).1.Sound := by
  have key (pc : InPc) (hpc : ∀ t, pc.next = some (.indicator t) → r.engine.anyOpen = false) :
      Sound { s with e := r.engine, inn := Function.update s.inn h pc } := by
    refine ⟨hp, fun g t hg hn => ?_⟩
    dsimp only at hg hn ⊢
    by_cases hgh : g = h
    · subst hgh
      rw [Function.update_self] at hn
      exact hpc t hn
    · rw [Function.update_of_ne hgh] at hn
      rcases hc with hc | hc
      · exact absurd (Option.some.inj ((hg.symm.trans hw).trans hc)) hgh
      · have hold := hs.owner g t (hw ▸ hg) hn
        by_contra hopen
        rw [hc.closes (by simpa using hopen)] at hold
        cases hold
  cases r with
  | ret e => exact key .out nofun
  | call e kind extra after => exact key (.calling ifp kind extra after) fun t ht => ha t ht

theorem not_lostIn (hl : ¬s.e.lostIn h = true) : s.e.hOwnerIn = some h := by
  by_contra hne
  exact hl (decide_eq_true (.inl hne))

theorem innStep_sound (hs : s.Sound) (hr : s.innStep h = some (s', es)) : s'.Sound := by
  -- where the owner goes on is the same before and behind the callback
  have move (pc : InPc) (hpc : pc.next = (s.inn h).next ∨ pc.next = none) :
      Sound { s with inn := Function.update s.inn h pc } := by
    refine ⟨hs.paired, fun g t hg hn => ?_⟩
    dsimp only at hn
    by_cases hgh : g = h
    · subst hgh
      rw [Function.update_self] at hn
      rcases hpc with hpc | hpc
      · exact hs.owner g t hg (hpc ▸ hn)
      · rw [hpc] at hn
        cases hn
    · rw [Function.update_of_ne hgh] at hn
      exact hs.owner g t hg hn
  unfold innStep at hr
  split at hr
  next => cases hr
  next ifp kind extra after hi =>
    rw [← (Prod.mk.inj (Option.some.inj hr)).1]
    exact move _ (.inl (by rw [hi]; rfl))
  next ifp after hi =>
    split at hr
    next =>
      rw [← (Prod.mk.inj (Option.some.inj hr)).1]
      exact move _ (.inr rfl)
    next hlost =>
      have he : (s.ofInOutcome h ifp (s.e.resumePacket after)).1 = s' := congrArg Prod.fst (Option.some.inj hr)
      rw [← he]
      have hw := (s.e.resumePacket_sameOut after).hOwnerIn
      have hafter (t : Indicator) (ht : (s.e.resumePacket after).after = some (.indicator t)) :
          (s.e.resumePacket after).engine.anyOpen = false :=
        absurd ht (T38Engine.resumePacket_after after t)
      by_cases hd : after = .dropCarrier
      · subst hd
        have ht : Tidies s.e (s.e.resumePacket .dropCarrier).engine := T38Engine.dropCarrier_tidies
        exact hs.stop (ht.paired hs.paired) hw hafter (.inr ht)
      · have ho : s.e.hOwnerIn = some h := not_lostIn fun hl => hlost ⟨hd, hl⟩
        refine hs.stop (T38Engine.resumePacket_paired hs.paired fun t ht => ?_) hw hafter (.inl ho)
        exact hs.owner h t ho (by rw [hi, ht]; rfl)

theorem step_sound (hs : s.Sound) (hr : machine.step s a = some (s', es)) : s'.Sound := by
  have of_eq {r : StreamSys × List Event} (hr : some r = some (s', es)) (h : r.1.Sound) : s'.Sound := by
    have he : r.1 = s' := congrArg Prod.fst (Option.some.inj hr)
    rwa [← he]
  simp only [machine] at hr
  cases a with
  | attach => exact of_eq hr (hs.serves T38Engine.attach_serves)
  | detach => exact of_eq hr (hs.serves T38Engine.detach_serves)
  | openIn h =>
    obtain ⟨hout, hr⟩ := Option.ite_none_left_eq_some.mp hr
    split at hr
    next => exact of_eq hr hs
    next =>
      refine of_eq hr (hs.change ?_ fun g t hg => ?_)
      · unfold T38Engine.openIn
        split <;> rfl
      · unfold T38Engine.openIn at hg
        split at hg
        next =>
          rw [← Option.some.inj hg, not_not.mp hout]
          exact nofun
        next => cases hg
  | closeIn h =>
    simp only [step] at hr
    split at hr
    next => exact of_eq hr (hs.change (e := s.e.closeIn) rfl nofun)
    next => exact of_eq hr hs
  | handlePacket h ifp =>
    obtain ⟨-, hr⟩ := Option.ite_none_left_eq_some.mp hr
    split at hr
    next => exact of_eq hr hs
    next hlost =>
      obtain ⟨hp, ha⟩ := T38Engine.handlePacket_paired hs.paired ifp
      exact of_eq hr (hs.stop hp (s.e.handlePacket_sameOut ifp).hOwnerIn ha (.inl (not_lostIn hlost)))
  | inn h => exact innStep_sound hs hr
  | handlePacketLost h =>
    obtain ⟨-, hr⟩ := Option.ite_none_left_eq_some.mp hr
    split at hr
    next => exact of_eq hr hs
    next =>
      have hserve : Serves s.e s.e.handlePacketLost :=
        ⟨T38Engine.handlePacketLost_tidies, s.e.handlePacketLost_sameOut.hOwnerIn⟩
      exact of_eq hr (hs.serves hserve)
  | enableFakeIn enable =>
    simp only [step] at hr
    split at hr
    next => exact of_eq hr hs
    next => exact of_eq hr (hs.serves (T38Engine.onChangeEnableFakeIn_serves enable))
  | changed =>
    obtain ⟨-, hr⟩ := Option.ite_none_left_eq_some.mp hr
    exact of_eq hr (hs.serves (T38Engine.resumeEnableFakeIn_serves s.isEnableFakeIn))
  | sendStart t param =>
    exact of_eq hr (hs.serves ⟨T38Engine.sendStart_tidies t param, T38Engine.sendStart_hOwnerIn t param⟩)
  | resetModemState => exact of_eq hr (hs.serves ⟨T38Engine.onResetModemState_tidies, rfl⟩)
  | recvWait t param cb =>
    exact of_eq hr (hs.serves ⟨T38Engine.recvWait_tidies t param cb, (s.e.recvWait_sameOut t param cb).hOwnerIn⟩)
  | recvStart cb =>
    exact of_eq hr (hs.serves ⟨T38Engine.recvStart_tidies cb, (s.e.recvStart_sameOut cb).hOwnerIn⟩)
  | recv count => exact of_eq hr (hs.serves ⟨T38Engine.recv_tidies count, (s.e.recv_sameOut count).hOwnerIn⟩)
  | recvStop => exact of_eq hr (hs.serves ⟨T38Engine.recvStop_tidies, s.e.recvStop_sameOut.hOwnerIn⟩)
  | others out hOwnerOut isCarrierIn t30 stateModem => 
    have hserve : Serves s.e { s.e with toOutSide := out, hOwnerOut, isCarrierIn, t30, stateModem } := ⟨.of_eq rfl, rfl⟩
    exact of_eq hr (hs.serves hserve)

theorem run_sound {junk : Hdlc} {now : Int} {as : List StreamAct}
    (hr : machine.Run (fun _ _ => True) (start junk now) as es s) : s.Sound :=
  hr.state_invariant (start_sound junk now) fun _ _ _ _ hs _ h => step_sound hs h

/-- The received signals are well represented at each point where the engine's mutex is free. -/
theorem streams_represented {junk : Hdlc} {now : Int} {as : List StreamAct}
    (hr : machine.Run (fun _ _ => True) (start junk now) as es s) : s.e.Represented :=
  (run_sound hr).paired.represented

/-- A frame and the begin of the next one, while the DTE waits for V.21. -/
def frameRun : List StreamAct :=
  [.attach, .openIn 1, .recvWait .dtHdlc 3 7, .handlePacket 1 (.t30Indicator .v21Preamble), .inn 1, .inn 1,
    .handlePacket 1 (t38data .v21 .hdlcData [0xFF, 0x03]), .handlePacket 1 (t38data .v21 .hdlcFcsOK []), .recvStart 8,
    .handlePacket 1 (t38data .v21 .hdlcData [0xFF]), .inn 1]

/-- The DTE reads a stream that is being filled. -/
def halfRead (r : StreamSys × List Event) : Bool := T38Engine.isOpen r.1.e.modStreamIn && r.1.e.bufs.length == 2

theorem streams_frame : ∃ es s, machine.Run (fun _ _ => True) (start default 0) frameRun es s ∧
    halfRead (s, es) = true ∧ s.e.Represented := by
  obtain ⟨s, es, hr, ht⟩ : ∃ s es, machine.Run (fun _ _ => True) (start default 0) frameRun es s ∧
      halfRead (s, es) = true :=
    Machine.exec_passes (by decide +kernel)
  exact ⟨es, s, hr, ht, streams_represented hr⟩

end StreamSys

end T38Modem
