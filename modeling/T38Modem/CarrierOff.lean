import T38Modem.CarrierDrop

namespace T38Modem

open T38Engine

namespace T38Engine

variable {e : T38Engine} {type : Indicator}

theorem indicatorSwitch_calm (hb : Bare e) (ht : type.isTraining = false) : Calm e (e.indicatorSwitch type) := by
  have hk : Keeps e { e with modStreamInSaved := none } := .of_none rfl (.inr rfl) hb.1
  have hc {r : InOutcome} (h : Calm { e with modStreamInSaved := none } r) : Calm e r := ⟨hk.trans h.1, h.2⟩
  cases type with
  | noSignal => exact hc dropCarrier_calm
  | ced => exact hc (userInput_calm _)
  | cng => exact hc (userInput_calm _)
  | other n => exact hc finishIn_calm
  | _ => cases ht

/-- Between two signals only a training opens a stream. -/
theorem handlePacket_calm (hb : Bare e) {ifp : Ifp} (hq : ∀ t, ifp = .t30Indicator t → t.isTraining = false) :
    Calm e (e.handlePacket ifp) := by
  cases ifp with
  | t30Indicator type =>
    show Calm e (e.handleIndicator type)
    unfold handleIndicator
    split
    next => exact finishIn_calm
    next =>
      rw [if_neg (by rw [hb.1]; exact Bool.false_ne_true)]
      exact indicatorSwitch_calm hb (hq type rfl)
  | data type fields => exact handleData_calm type fields
  | badTag => exact finishIn_calm

end T38Engine

namespace Sys

variable {s s' : Sys} {a : Act} {as : List Act} {es es' : List Event} {junk : Hdlc} {now : Int}

/-- No signal begins. -/
def Quiet (_ : Sys) (a : Act) : Prop := ∀ t, a = .handlePacket (.t30Indicator t) → t.isTraining = false

/-- Nothing is received. -/
structure Silent (s : Sys) : Prop where
  bare : Bare s.e
  after : ∀ t, afterOf s.inn ≠ some (.indicator t)

theorem ofInOutcome_silent {r : InOutcome} {ifp : Ifp} (h : Bare s.e) (hc : Calm s.e r) : (s.ofInOutcome ifp r).1.Silent := by
  cases r with
  | ret e => exact ⟨h.keeps hc.1, nofun⟩
  | call e kind extra after => exact ⟨h.keeps hc.1, fun t ht => hc.2 t ht⟩

theorem Silent.step (h : s.Silent) (hf : Follows es s) (hq : Quiet s a) (hs : machine.step s a = some (s', es')) :
    s'.Silent := by
  have keep (hk : Keeps s.e s'.e) (hi : s'.inn = s.inn) : s'.Silent := ⟨h.bare.keeps hk, by rw [hi]; exact h.after⟩
  cases step_hears hf.attached hs with
  | speaks _ hsp =>
    refine keep (.of_eq hsp.firstIn ?_ ?_) hsp.inn
    · exact congrArg InSide.modStreamInSaved hsp.inSide
    · rw [show s'.e.modStreamIn = s.e.modStreamIn from congrArg InSide.modStreamIn hsp.inSide]
      exact id
  | sendStart t param => exact keep (sendStart_keeps t param) rfl
  | resetModemState => exact keep onResetModemState_keeps rfl
  | openIn => exact ⟨h.bare, h.after⟩
  | handlePacket ifp => exact ofInOutcome_silent h.bare (handlePacket_calm h.bare fun t ht => hq t (by rw [ht]))
  | @calls ifp kind extra after hi =>
    refine ⟨h.bare, fun t ht => h.after t ?_⟩
    rw [hi]
    exact ht
  | @resumes ifp after hi =>
    refine ofInOutcome_silent h.bare (resumePacket_calm fun t ht => h.after t ?_)
    rw [hi, ht]
    rfl
  | handlePacketLost => exact keep handlePacketLost_keeps rfl
  | recvWait t param cb => exact keep (recvWait_keeps t param cb) rfl
  | recvStart cb => exact keep (recvStart_keeps cb) rfl
  | recv count => exact keep (recv_keeps count) rfl
  | recvDiag => exact keep (.refl _) rfl
  | recvStop => exact keep recvStop_keeps rfl

theorem run_silent (hf : Tidy es s) (h : s.Silent) (hr : machine.Run Quiet s as es' s') :
    Tidy (es ++ es') s' ∧ s'.Silent := by
  induction hr with
  | start => exact ⟨by simpa using hf, h⟩
  | next _ hq hs ih =>
    obtain ⟨hf₁, h₁⟩ := ih
    refine ⟨?_, h₁.step hf₁.follows hq hs⟩
    rw [← List.append_assoc]
    exact step_tidy hf₁ hs

/-- The carrier has gone in the state `s'`: no stream is filled, the DTE that was reading the signal has been
called back, and until another signal begins it is told but once that there is nothing yet. -/
structure CarrierOff (s : Sys) (es : List Event) (s' : Sys) : Prop where
  carrier : s'.e.isCarrierIn = 0
  closed : isOpen s'.e.modStreamIn = false ∧ isOpen s'.e.modStreamInSaved = false
  told : s.e.stateModem = .stmInRecvData → isOpen s.e.modStreamIn = true →
    .callbackIn .paramIn s.e.callbackParamIn ∈ es
  ends : ∀ as es' s'', machine.Run Quiet s' as es' s'' → ∀ n, 0 < n → (s''.e.recv n).1 = some [] →
    ∀ k, ((s''.e.recv n).2.recv k).1 = none

theorem Dropped.carrierOff (hf : Tidy es s') (hd : s'.Dropped)
    (ht : s.e.stateModem = .stmInRecvData → isOpen s.e.modStreamIn = true →
      .callbackIn .paramIn s.e.callbackParamIn ∈ es') : CarrierOff s es' s' := by
  refine ⟨hd.carrier, ⟨hd.bare.1, by rw [hd.bare.2]; rfl⟩, ht, fun as es'' s'' hr n hn h0 k => ?_⟩
  have hs : s'.Silent := ⟨hd.bare, fun t h => by rw [hd.inn] at h; cases h⟩
  obtain ⟨ho, hb⟩ := run_silent hf hs hr
  exact recv_closed ho.encodes ho.paired hb.bare.1 hn h0 k

theorem step_handlePacket (ha : s.Attached) {ifp : Ifp} (h : machine.step s (.handlePacket ifp) = some (s', es)) :
    s.ofInOutcome ifp (s.e.handlePacket ifp) = (s', es) := by
  obtain ⟨-, hr⟩ := Option.ite_none_left_eq_some.mp h
  rw [ha.lostIn, if_neg Bool.false_ne_true] at hr
  exact Option.some.inj hr

theorem call_off (ho : Tidy es s) (hc : isOpen s.e.modStreamIn = false ∨ s.e.countIn ≠ 0)
    (h : Call noSignal s es' s') : CarrierOff s es' s' := by
  obtain ⟨hd, ht⟩ := handleIndicator_drops ho.follows.heard ho.rows hc
  cases h with
  | atOnce h =>
    have hstep := step_handlePacket ho.follows.attached h
    have ho' := step_tidy ho h
    have hs := ofInOutcome_drops (s := s) hd
    rw [show s.ofInOutcome noSignal (s.e.handleIndicator .noSignal) = (s', _) from hstep] at hs
    rcases hs with ⟨hes, -⟩ | ⟨-, hd⟩
    · cases hes
    · refine hd.carrierOff ho' fun hs ho => ?_
      obtain ⟨e', he⟩ := ht hs ho
      have hstep : s.ofInOutcome noSignal (s.e.handleIndicator .noSignal) = (s', _) := hstep
      rw [he] at hstep
      cases congrArg Prod.snd hstep
  | @later s₁ s₂ _ _ a es₁ h hr hq hs =>
    have hstep : s.ofInOutcome noSignal (s.e.handleIndicator .noSignal) = (s₁, []) :=
      step_handlePacket ho.follows.attached h
    have ho₁ : Tidy es s₁ := by simpa using step_tidy ho h
    have hs₁ := ofInOutcome_drops (s := s) hd
    rw [hstep] at hs₁
    rcases hs₁ with ⟨-, hd₁⟩ | ⟨hes, -⟩
    · obtain ⟨hf₂, hd₂, ht₂⟩ := run_dropping s.e.callbackParamIn ho₁.follows hd₁ hr hq
      have ho₂ : Tidy (es ++ es₁) s₂ := by
        refine hr.invariant (I := fun es₁ s => Tidy (es ++ es₁) s) (by simpa using ho₁) fun _ _ _ _ _ hi _ hs => ?_
        rw [← List.append_assoc]
        exact step_tidy hi hs
      have ho' := step_tidy ho₂ hs
      rcases hd₂.step hf₂ hs with ⟨hq', -⟩ | ⟨-, hd', hn⟩
      · exact absurd (hq' _ (List.mem_singleton_self _)) (by simp [Event.isHandled])
      · refine hd'.carrierOff ho' fun hs ho => List.mem_append_left _ ?_
        obtain ⟨e', he⟩ := ht hs ho
        rw [he] at hstep
        have htell : s₁.Tells s.e.callbackParamIn := ⟨_, (congrArg Sys.inn (Prod.mk.inj hstep).1).symm⟩
        exact (ht₂ htell).resolve_left (hn _)
    · cases hes

/-- The first packet of a signal is still to be waited for, and the engine takes a `no_signal` for the
packet that comes first of all. -/
theorem call_ignored (ho : Tidy es s) (hi : isOpen s.e.modStreamIn = true) (hc : s.e.countIn = 0)
    (h : Call noSignal s es' s') : s'.e = s.e := by
  have he : s.e.handleIndicator .noSignal = .ret s.e := by
    unfold handleIndicator
    rw [not_repeated ho.rows, if_neg Bool.false_ne_true, if_pos hi, if_pos ⟨ho.follows.heard.firstIn, hc, rfl⟩]
    exact ho.follows.heard.finishIn
  have hstep {s₁ : Sys} {es₁ : List Event} (h : machine.step s (.handlePacket noSignal) = some (s₁, es₁)) :
      ({ s with inn := .out }, [.handled noSignal true]) = (s₁, es₁) := by
    have hr : s.ofInOutcome noSignal (s.e.handleIndicator .noSignal) = (s₁, es₁) :=
      step_handlePacket ho.follows.attached h
    rwa [he] at hr
  cases h with
  | atOnce h => exact (congrArg Sys.e (Prod.mk.inj (hstep h)).1).symm
  | later h => cases (Prod.mk.inj (hstep h)).2

/-- A `no_signal` drops the carrier unless the DTE has the stream of a signal no data of which has come. -/
theorem carrier_drop (hr : machine.Run (fun _ _ => True) (start junk now) as es s) (h : Call noSignal s es' s') :
    CarrierOff s es' s' ↔ isOpen s.e.modStreamIn = false ∨ s.e.countIn ≠ 0 := by
  have ho := run_tidy hr
  refine ⟨fun hoff => ?_, fun hc => call_off ho hc h⟩
  by_contra hn
  obtain ⟨hi, hc⟩ := not_or.mp hn
  have he := call_ignored ho (by simpa using hi) (not_not.mp hc) h
  have hclosed := hoff.closed.1
  rw [he] at hclosed
  exact hi hclosed

/-- The step with which a `no_signal` is handled at once passes the test. -/
def atOnce (test : Sys → Bool) (s : Sys) : Bool :=
  (machine.step s (.handlePacket noSignal)).any fun r => r.2 == [.handled noSignal true] && test r.1

theorem call_atOnce {test : Sys → Bool} (h : s.atOnce test = true) :
    ∃ s', Call noSignal s [.handled noSignal true] s' ∧ test s' = true := by
  obtain ⟨⟨s', es⟩, hs, ht⟩ := (Option.any_eq_true _ _).mp h
  obtain ⟨he, ht⟩ := (Bool.and_eq_true _ _).mp ht
  obtain rfl : es = _ := beq_iff_eq.mp he
  exact ⟨s', .atOnce hs, ht⟩

/-- The DTE has asked for a V.21 signal, and its first octets have come. -/
def begunRun : List Act :=
  [.recvWait .dtHdlc 3 1, .handlePacket (.t30Indicator .v21Preamble), .inn, .inn,
    .handlePacket (t38data .v21 .hdlcData [0xFF, 0x03])]

def counted (r : Sys × List Event) : Bool :=
  isOpen r.1.e.modStreamIn && r.1.e.countIn == 2 && r.1.atOnce fun _ => true

theorem begun_drop : ∃ es s es' s', machine.Run (fun _ _ => True) (start default 0) begunRun es s ∧
    Call noSignal s es' s' ∧ isOpen s.e.modStreamIn = true ∧ CarrierOff s es' s' := by
  obtain ⟨s, es, hr, ht⟩ : ∃ s es, machine.Run (fun _ _ => True) (start default 0) begunRun es s ∧
      counted (s, es) = true :=
    Machine.exec_passes (by decide +kernel)
  obtain ⟨ht, hcall⟩ := (Bool.and_eq_true _ _).mp ht
  obtain ⟨ho, hn⟩ := (Bool.and_eq_true _ _).mp ht
  obtain ⟨s', hs, -⟩ := call_atOnce hcall
  have hcount : s.e.countIn = 2 := beq_iff_eq.mp hn
  exact ⟨es, s, _, s', hr, hs, ho, (carrier_drop hr hs).mpr (.inr (by rw [hcount]; decide))⟩

/-- The DTE reads a V.21 signal all of whose data packets are lost. -/
def lostRun : List Act :=
  [.recvWait .dtHdlc 3 1, .handlePacket (.t30Indicator .v21Preamble), .inn, .inn, .recvStart 2, .handlePacketLost]

def hangs (s : Sys) : Bool :=
  s.e.isCarrierIn == 1 && isOpen s.e.modStreamIn && (s.e.recv 1).1 == some [] && ((s.e.recv 1).2.recv 1).1 == some []

theorem lost_hangs : ∃ es s es' s', machine.Run (fun _ _ => True) (start default 0) lostRun es s ∧
    .handled (.t30Indicator .v21Preamble) true ∈ es ∧ Call noSignal s es' s' ∧ s'.hangs = true ∧
    ¬CarrierOff s es' s' := by
  obtain ⟨s, hr, ht⟩ : ∃ s, machine.Run (fun _ _ => True) (start default 0) lostRun
      [.recvWait true false, .callbackIn .paramIn 1, .handled (.t30Indicator .v21Preamble) true, .recvStart true] s ∧
      s.atOnce hangs = true :=
    Machine.exec_test (by decide +kernel)
  obtain ⟨s', hs, hh⟩ := call_atOnce ht
  refine ⟨_, s, _, s', hr, by simp, hs, hh, fun hoff => ?_⟩
  unfold hangs at hh
  simp only [Bool.and_eq_true] at hh
  exact absurd (hoff.closed.1.symm.trans hh.1.1.2) Bool.false_ne_true

end Sys

end T38Modem
