import T38Modem.StreamRows

namespace T38Modem

open T38Engine

/-- The packet that says that the carrier has gone. -/
def noSignal : Ifp := .t30Indicator .noSignal

/-- `HandlePacket` has not returned. -/
def Event.isHandled : Event → Bool
  | .handled .. => true
  | _ => false

namespace T38Engine

variable {e : T38Engine} {last : Option Indicator}

/-- What a `no_signal` that is not ignored comes to up to the next stop of `HandlePacket`. -/
inductive Drops : InOutcome → Prop
  | done {e' : T38Engine} (hb : Bare e') (hc : e'.isCarrierIn = 0) : Drops (.ret e')
  | finish {e' : T38Engine} (cb : Int) (hb : Bare e') (hc : e'.isCarrierIn = 0) : Drops (.call e' .paramIn cb .finish)
  | ended {e' : T38Engine} (cb : Int) (hb : Bare e') : Drops (.call e' .paramIn cb (.indicator .noSignal))

theorem finishIn_drops (hf : e.firstIn = true) (hb : Bare e) (hc : e.isCarrierIn = 0) : Drops e.finishIn := by
  unfold finishIn
  rw [if_neg (by simp [hf])]
  exact .done hb hc

theorem indicatorSwitch_drops (hf : e.firstIn = true) (hi : isOpen e.modStreamIn = false) :
    Drops (e.indicatorSwitch .noSignal) := by
  show Drops (dropCarrier { e with modStreamInSaved := none })
  unfold dropCarrier endSilence
  split
  next => exact .finish _ ⟨hi, rfl⟩ rfl
  next => exact finishIn_drops hf ⟨hi, rfl⟩ rfl

theorem not_repeated (h : e.Rows) : (repeated e.modStreamIn .noSignal || repeated e.modStreamInSaved .noSignal) = false := by
  refine Bool.or_eq_false_iff.mpr ⟨?_, ?_⟩ <;> rw [← Bool.not_eq_true, repeated_iff]
  · rintro ⟨m, hm, -, hi⟩
    exact h .modStreamIn m hm hi
  · rintro ⟨m, hm, -, hi⟩
    exact h .modStreamInSaved m hm hi

/-- While the DTE reads the signal, its end is told before anything else is done. -/
theorem handleIndicator_drops (hf : Fits last e) (hr : e.Rows) (hc : isOpen e.modStreamIn = false ∨ e.countIn ≠ 0) :
    Drops (e.handleIndicator .noSignal) ∧ (e.stateModem = .stmInRecvData → isOpen e.modStreamIn = true →
      ∃ e', e.handleIndicator .noSignal = .call e' .paramIn e.callbackParamIn (.indicator .noSignal)) := by
  unfold handleIndicator
  rw [not_repeated hr, if_neg Bool.false_ne_true]
  split
  next ho =>
    have hcount : ¬(e.firstIn ∧ e.countIn = 0 ∧ Indicator.noSignal = .noSignal) := by
      rintro ⟨-, h0, -⟩
      rcases hc with hc | hc
      · rw [ho] at hc
        cases hc
      · exact hc h0
    rw [if_neg hcount]
    have hclosed : isOpen (e.updateStream (·.putEof (diagOutOfOrder ||| diagNoCarrier)) (some .modStreamIn)).modStreamIn =
        false := by
      cases hm : e.modStreamIn <;> simp [updateStream, hm]
    dsimp only
    split
    next => exact ⟨.ended _ ⟨hclosed, hf.alone ho⟩, fun _ _ => ⟨_, rfl⟩⟩
    next hs => exact ⟨indicatorSwitch_drops hf.firstIn hclosed, fun hs' => absurd hs' hs⟩
  next ho =>
    exact ⟨indicatorSwitch_drops hf.firstIn (by simpa using ho), fun _ ho' => absurd ho' ho⟩

end T38Engine

namespace Sys

variable {s s' : Sys} {a : Act} {as : List Act} {es es' : List Event} {junk : Hdlc} {now : Int}

/-- What every run keeps of the streams. -/
structure Tidy (es : List Event) (s : Sys) : Prop where
  follows : Follows es s
  paired : s.e.Paired
  encodes : s.e.Encodes
  rows : s.e.Rows

theorem start_tidy : Tidy [] (start junk now) := by
  have hn (q : Place) (m : ModStream) : (start junk now).e.streamAt q ≠ some m := by
    cases q <;> exact (Option.some_ne_none m).symm
  exact ⟨start_follows, ⟨fun m hm => absurd hm (hn .modStreamIn m), fun m hm => absurd hm (hn .modStreamInSaved m),
    fun j hj => absurd hj List.not_mem_nil, fun j hj => absurd hj List.not_mem_nil, .inl rfl⟩,
    fun m hm => absurd hm (hn .modStreamIn m), fun q m hm => absurd hm (hn q m)⟩

theorem ofInOutcome_engine (ifp : Ifp) (r : InOutcome) : (s.ofInOutcome ifp r).1.e = r.engine := by
  cases r <;> rfl

theorem bare_anyOpen {e : T38Engine} (h : Bare e) : e.anyOpen = false := by
  unfold anyOpen
  rw [h.1, h.2]
  rfl

theorem step_tidy (h : Tidy es s) (hs : machine.step s a = some (s', es')) : Tidy (es ++ es') s' := by
  have hf := step_follows h.follows hs
  obtain ⟨hp, hc, hr⟩ : s'.e.Paired ∧ s'.e.Encodes ∧ s'.e.Rows := by
    clear hf
    cases step_hears h.follows.attached hs with
    | speaks _ hsp =>
      have hin : s'.e.modStreamIn = s.e.modStreamIn := congrArg InSide.modStreamIn hsp.inSide
      have hsaved : s'.e.modStreamInSaved = s.e.modStreamInSaved := congrArg InSide.modStreamInSaved hsp.inSide
      refine ⟨(Tidies.of_eq hsp.inSide).paired h.paired, h.encodes.of_in hin, .of (fun m' hm' => ?_) fun m' hm' => ?_⟩
      · exact h.rows .modStreamIn m' (hin.symm.trans hm')
      · exact h.rows .modStreamInSaved m' (hsaved.symm.trans hm')
    | sendStart t param =>
      exact ⟨(sendStart_tidies t param).paired h.paired, sendStart_encodes h.encodes t param,
        h.rows.retains (sendStart_retains t param) (sendStart_keeps t param)⟩
    | resetModemState =>
      exact ⟨onResetModemState_tidies.paired h.paired, deleteFirst_encodes (e := s.e) rfl,
        h.rows.retains (.deleteFirst rfl) onResetModemState_keeps⟩
    | openIn => exact ⟨h.paired, h.encodes, fun q m hm => h.rows q m (by cases q <;> exact hm)⟩
    | handlePacket ifp =>
      rw [ofInOutcome_engine]
      exact ⟨(handlePacket_paired h.paired ifp).1, h.encodes.congr (handlePacket_reader ifp), handlePacket_rows h.rows ifp⟩
    | calls => exact ⟨h.paired, h.encodes, h.rows⟩
    | @resumes ifp after hi =>
      rw [ofInOutcome_engine]
      refine ⟨resumePacket_paired h.paired fun t ht => ?_, h.encodes.congr (resumePacket_reader after),
        resumePacket_rows h.rows after⟩
      exact bare_anyOpen (h.follows.pending t (by rw [hi, ht]; rfl)).2
    | handlePacketLost =>
      exact ⟨handlePacketLost_tidies.paired h.paired, h.encodes.congr handlePacketLost_reader,
        h.rows.of_reader handlePacketLost_reader (h.rows.saved.keeps handlePacketLost_keeps)⟩
    | recvWait t param cb =>
      exact ⟨(recvWait_tidies t param cb).paired h.paired, recvWait_encodes h.encodes t param cb,
        recvWait_rows h.rows t param cb⟩
    | recvStart cb =>
      exact ⟨(recvStart_tidies cb).paired h.paired, recvStart_encodes h.encodes cb, h.rows.retains (recvStart_retains cb) (recvStart_keeps cb)⟩
    | recv count =>
      exact ⟨(recv_tidies count).paired h.paired, recv_encodes h.encodes count, h.rows.retains (recv_retains count) (recv_keeps count)⟩
    | recvDiag => exact ⟨h.paired, h.encodes, h.rows⟩
    | recvStop => exact ⟨recvStop_tidies.paired h.paired, recvStop_encodes h.encodes, h.rows.retains recvStop_retains recvStop_keeps⟩
  exact ⟨hf, hp, hc, hr⟩

theorem run_tidy {ok : Sys → Act → Prop} (h : machine.Run ok (start junk now) as es s) : Tidy es s :=
  h.invariant start_tidy fun _ _ _ _ _ hi _ hs => step_tidy hi hs

/-- A call of `HandlePacket` from the state it finds to the one it leaves, with all that is seen meanwhile. -/
inductive Call (ifp : Ifp) (s : Sys) : List Event → Sys → Prop
  | atOnce {s' : Sys} (h : machine.step s (.handlePacket ifp) = some (s', [.handled ifp true])) :
      Call ifp s [.handled ifp true] s'
  | later {s₁ s₂ s' : Sys} {as : List Act} {a : Act} {es : List Event}
      (h : machine.step s (.handlePacket ifp) = some (s₁, [])) (hr : machine.Run (fun _ _ => True) s₁ as es s₂)
      (hq : ∀ ev ∈ es, ev.isHandled = false) (hs : machine.step s₂ a = some (s', [.handled ifp true])) :
      Call ifp s (es ++ [.handled ifp true]) s'

/-- The thread is behind the point where a `no_signal` closes what is received. -/
structure Dropping (s : Sys) : Prop where
  bare : Bare s.e
  ifp : ifpOf s.inn = some noSignal
  after : afterOf s.inn = some (.indicator .noSignal) ∨ afterOf s.inn = some .finish ∧ s.e.isCarrierIn = 0

structure Dropped (s : Sys) : Prop where
  bare : Bare s.e
  carrier : s.e.isCarrierIn = 0
  inn : s.inn = .out

/-- The thread is going to tell the DTE by the parameter `cb`. -/
def Tells (s : Sys) (cb : Int) : Prop := ∃ after, s.inn = .calling noSignal .paramIn cb after

theorem ofInOutcome_drops {r : InOutcome} (h : Drops r) :
    (s.ofInOutcome noSignal r).2 = [] ∧ (s.ofInOutcome noSignal r).1.Dropping ∨
      (s.ofInOutcome noSignal r).2 = [.handled noSignal true] ∧ (s.ofInOutcome noSignal r).1.Dropped := by
  cases h with
  | done hb hc => exact .inr ⟨rfl, hb, hc, rfl⟩
  | finish cb hb hc => exact .inl ⟨rfl, hb, rfl, .inr ⟨rfl, hc⟩⟩
  | ended cb hb => exact .inl ⟨rfl, hb, rfl, .inl rfl⟩

/-- A step of somebody else, or of the thread into its callback. -/
theorem Dropping.keeps (h : s.Dropping) (hk : Keeps s.e s'.e) (hc : s.e.isCarrierIn = 0 → s'.e.isCarrierIn = 0)
    (hi : ifpOf s'.inn = ifpOf s.inn) (ha : afterOf s'.inn = afterOf s.inn) : s'.Dropping := by
  refine ⟨h.bare.keeps hk, hi.trans h.ifp, ?_⟩
  rw [ha]
  exact h.after.imp_right fun hf => ⟨hf.1, hc hf.2⟩

/-- A step while a `no_signal` is handled: the call goes on, and the DTE is told if it is to be, or it
returns. -/
theorem Dropping.step (h : s.Dropping) (hf : Follows es s) (hs : machine.step s a = some (s', es')) :
    ((∀ ev ∈ es', ev.isHandled = false) ∧ s'.Dropping ∧
      ∀ cb, s.Tells cb → s'.Tells cb ∨ .callbackIn .paramIn cb ∈ es') ∨
    es' = [.handled noSignal true] ∧ s'.Dropped ∧ ∀ cb, ¬s.Tells cb := by
  have idle (hi : s.inn = .out) : False := by
    have hifp := h.ifp
    rw [hi] at hifp
    cases hifp
  have keep (hk : Keeps s.e s'.e) (hc : s.e.isCarrierIn = 0 → s'.e.isCarrierIn = 0) (hi : s'.inn = s.inn)
      (hes : ∀ ev ∈ es', ev.isHandled = false) : (∀ ev ∈ es', ev.isHandled = false) ∧ s'.Dropping ∧
      ∀ cb, s.Tells cb → s'.Tells cb ∨ .callbackIn .paramIn cb ∈ es' := by
    refine ⟨hes, h.keeps hk hc (by rw [hi]) (by rw [hi]), fun cb ht => .inl ?_⟩
    unfold Tells at ht ⊢
    rwa [hi]
  cases step_hears hf.attached hs with
  | speaks _ hsp =>
    refine .inl (keep (.of_eq hsp.firstIn ?_ ?_) hsp.carrier hsp.inn fun ev hev => ?_)
    · exact congrArg InSide.modStreamInSaved hsp.inSide
    · rw [show s'.e.modStreamIn = s.e.modStreamIn from congrArg InSide.modStreamIn hsp.inSide]
      exact id
    · have hse := hsp.events ev hev
      cases ev <;> first | rfl | cases hse
  | sendStart t param =>
    exact .inl (keep (sendStart_keeps t param) (fun hc => (sendStart_carrier t param).trans hc) rfl
      (List.forall_mem_singleton.mpr rfl))
  | resetModemState => exact .inl (keep onResetModemState_keeps id rfl (List.forall_mem_nil _))
  | openIn hi => exact (idle hi).elim
  | handlePacket _ hi => exact (idle hi).elim
  | @calls ifp kind extra after hi =>
    have hifp := h.ifp
    rw [hi] at hifp
    obtain rfl : ifp = noSignal := Option.some.inj hifp
    refine .inl ⟨List.forall_mem_singleton.mpr rfl, h.keeps (.of_eq rfl rfl id) id (by rw [hi]; rfl) (by rw [hi]; rfl),
      fun cb ht => .inr ?_⟩
    obtain ⟨after', ht⟩ := ht
    cases hi.symm.trans ht
    exact List.mem_singleton_self _
  | @resumes ifp after hi =>
    have hifp := h.ifp
    have hafter := h.after
    rw [hi] at hifp hafter
    obtain rfl : ifp = noSignal := Option.some.inj hifp
    have hd : Drops (s.e.resumePacket after) := by
      rcases hafter with ha | ⟨ha, hc⟩
      · rw [Option.some.inj ha]
        exact indicatorSwitch_drops hf.heard.firstIn h.bare.1
      · rw [Option.some.inj ha]
        exact finishIn_drops hf.heard.firstIn h.bare hc
    have hn (cb : Int) : ¬s.Tells cb := by
      rintro ⟨after', ht⟩
      cases hi.symm.trans ht
    rcases ofInOutcome_drops (s := s) hd with ⟨hes, hd⟩ | ⟨hes, hd⟩
    · exact .inl ⟨by rw [hes]; exact List.forall_mem_nil _, hd, fun cb ht => absurd ht (hn cb)⟩
    · exact .inr ⟨hes, hd, hn⟩
  | handlePacketLost hi => exact (idle hi).elim
  | recvWait t param cb =>
    exact .inl (keep (recvWait_keeps t param cb) (fun hc => (recvWait_carrier t param cb).trans hc) rfl
      (List.forall_mem_singleton.mpr rfl))
  | recvStart cb =>
    exact .inl (keep (recvStart_keeps cb) (fun hc => (recvStart_carrier cb).trans hc) rfl
      (List.forall_mem_singleton.mpr rfl))
  | recv count =>
    exact .inl (keep (recv_keeps count) (fun hc => (recv_carrier count).trans hc) rfl (List.forall_mem_singleton.mpr rfl))
  | recvDiag => exact .inl (keep (.refl _) id rfl (List.forall_mem_singleton.mpr rfl))
  | recvStop => exact .inl (keep recvStop_keeps (fun hc => recvStop_carrier.trans hc) rfl (List.forall_mem_nil _))

/-- While a `no_signal` is handled, the DTE that is to be told is told. -/
theorem run_dropping {es₀ : List Event} (cb : Int) (hf : Follows es₀ s) (hd : s.Dropping)
    (hr : machine.Run (fun _ _ => True) s as es s') (hq : ∀ ev ∈ es, ev.isHandled = false) :
    Follows (es₀ ++ es) s' ∧ s'.Dropping ∧ (s.Tells cb → s'.Tells cb ∨ .callbackIn .paramIn cb ∈ es) := by
  induction hr with
  | start => exact ⟨by simpa using hf, hd, .inl⟩
  | @next as es s₁ a s₂ es₁ _ _ hs ih =>
    obtain ⟨hq₁, hq₂⟩ := List.forall_mem_append.mp hq
    obtain ⟨hf₁, hd₁, ht⟩ := ih hq₁
    refine ⟨?_, ?_⟩
    · rw [← List.append_assoc]
      exact step_follows hf₁ hs
    · rcases hd₁.step hf₁ hs with ⟨-, hd₂, ht₂⟩ | ⟨rfl, -, -⟩
      · refine ⟨hd₂, fun h => ?_⟩
        rcases ht h with h | h
        · exact (ht₂ cb h).imp_right (List.mem_append_right _)
        · exact .inr (List.mem_append_left _ h)
      · exact absurd (hq₂ _ (List.mem_singleton_self _)) (by simp [Event.isHandled])

end Sys

end T38Modem
