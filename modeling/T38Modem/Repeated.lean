import T38Modem.Hearing
import T38Modem.StreamKeeping

namespace T38Modem

/-- The indicators that begin a modulated signal. -/
def Indicator.isTraining (x : Indicator) : Bool := (mods.map (·.ind)).contains x

/-- The last indicator once a packet has come. -/
def Ifp.heard (last : Option Indicator) : Ifp → Option Indicator
  | .t30Indicator x => some x
  | _ => last

/-- The indicator that was handled last. -/
def lastIndicator (es : List Event) : Option Indicator :=
  es.foldl (fun last ev => match ev with
    | .handled ifp _ => ifp.heard last
    | _ => last) none

/-- The stream of the last signal, when the DTE has it, was asked for by the indicator `x`. -/
def T38Engine.Asked (e : T38Engine) (x : Indicator) : Prop :=
  ∀ m, e.modStreamIn = some m → m.isOpen = true → m.modPars.ind = x

/-- An indicator that comes now changes nothing at all. -/
def Sys.Harmless (s : Sys) (x : Indicator) : Prop :=
  Sys.machine.step s (.handlePacket (.t30Indicator x)) = some (s, [.handled (.t30Indicator x) true])

namespace T38Engine

variable {e e' : T38Engine} {last : Option Indicator} {type : Indicator}

/-- What the streams say of the indicator that came last. -/
structure Fits (last : Option Indicator) (e : T38Engine) : Prop where
  firstIn : e.firstIn = true
  alone : isOpen e.modStreamIn = true → e.modStreamInSaved = none
  saved : ∀ m, e.modStreamInSaved = some m → m.isOpen = true → last = some m.modPars.ind

/-- No signal is left to be filled. -/
def Bare (e : T38Engine) : Prop := isOpen e.modStreamIn = false ∧ e.modStreamInSaved = none

theorem Bare.keeps (h : Bare e) (hk : Keeps e e') : Bare e' := by
  refine ⟨?_, hk.saved_none h.2⟩
  by_contra ho
  rcases hk.moved (by simpa using ho) with ho | ⟨hs, -⟩
  · exact absurd (h.1.symm.trans ho) nofun
  · exact hs h.2

theorem Fits.keeps (h : Fits last e) (hk : Keeps e e') : Fits last e' := by
  refine ⟨hk.firstIn.trans h.firstIn, fun ho => ?_, fun m' hm ho => ?_⟩
  · rcases hk.moved ho with ho | ⟨-, hn⟩
    · exact hk.saved_none (h.alone ho)
    · exact hn
  · obtain ⟨m, hm, hc⟩ := hk.saved m' hm
    rw [hc.modPars]
    exact h.saved m hm (hc.isOpen ho)

theorem Fits.of_bare (hf : e.firstIn = true) (h : Bare e) : Fits last e :=
  ⟨hf, fun _ => h.2, fun _ hm => absurd (h.2.symm.trans hm) nofun⟩

theorem Fits.finishIn (h : Fits last e) : e.finishIn = .ret e := by
  unfold T38Engine.finishIn
  rw [if_neg (by simp [h.firstIn])]

/-- What has been handled up to the next stop after an indicator. -/
def Told (type : Indicator) (r : InOutcome) : Prop :=
  Fits (some type) r.engine ∧ ∀ t, r.after = some (.indicator t) → t = type ∧ Bare r.engine

theorem Told.of_calm {r : InOutcome} (h : Fits (some type) e) (hc : Calm e r) : Told type r :=
  ⟨h.keeps hc.1, fun t ht => absurd ht (hc.2 t)⟩

theorem endWaitData_told (h : Fits (some type) e) : Told type e.endWaitData := by
  unfold endWaitData
  split
  next =>
    refine ⟨?_, fun t ht => by simp [InOutcome.after] at ht⟩
    dsimp only [InOutcome.engine]
    split
    next s saved hs hv =>
      split
      next => exact ⟨h.firstIn, fun _ => rfl, fun _ hm => absurd hm (Option.some_ne_none _).symm⟩
      next =>
        have hend : isOpen (some ((s.pushBuf e.nextBuf).putEof diagDiffSig)) = false := by simp
        exact ⟨h.firstIn, fun ho => absurd (hend.symm.trans ho) Bool.false_ne_true, h.saved⟩
    next => exact ⟨h.firstIn, h.alone, h.saved⟩
  next => exact .of_calm h finishIn_calm

theorem training_told (hf : e.firstIn = true) (hi : isOpen e.modStreamIn = false)
    (ht : (getModParsByInd type).ind = type) : Told type (e.training type) := by
  have h : Fits (some type) { e with
      isCarrierIn := 1
      modStreamInSaved := some ((e.newStream (getModParsByInd type)).pushBuf e.nextBuf)
      nextBuf := e.nextBuf + 1
      countIn := 0 } := by
    refine ⟨hf, fun ho => absurd (hi.symm.trans ho) nofun, fun m hm _ => ?_⟩
    cases hm
    exact congrArg some ht.symm
  unfold training endSilence
  dsimp only
  split
  next => exact ⟨⟨h.firstIn, h.alone, h.saved⟩, nofun⟩
  next => exact endWaitData_told h

theorem indicatorSwitch_told (type : Indicator) (hf : e.firstIn = true)
    (hi : isOpen e.modStreamIn = false) : Told type (e.indicatorSwitch type) := by
  have hbare : Fits (some type) { e with modStreamInSaved := none } := .of_bare hf ⟨hi, rfl⟩
  unfold indicatorSwitch
  dsimp only
  split
  next => exact .of_calm hbare dropCarrier_calm
  next => exact .of_calm hbare (userInput_calm _)
  next => exact .of_calm hbare (userInput_calm _)
  next => exact .of_calm hbare finishIn_calm
  next h₁ h₂ h₃ h₄ =>
    refine training_told hf hi ?_
    cases type with
    | noSignal => exact absurd rfl h₁
    | ced => exact absurd rfl h₂
    | cng => exact absurd rfl h₃
    | other n => exact absurd rfl (h₄ n)
    | _ => rfl

theorem indicatorSwitch_training (ht : type.isTraining = true) :
    e.indicatorSwitch type = ({ e with modStreamInSaved := none } : T38Engine).training type := by
  cases type with
  | noSignal | ced | cng => simp [Indicator.isTraining, mods, ModPars.row] at ht
  | other n => simp [Indicator.isTraining, mods, ModPars.row] at ht
  | _ => rfl

theorem training_ret (h : e.training type = .ret e') : e'.modStreamInSaved ≠ none := by
  unfold training endSilence at h
  dsimp only at h
  split at h
  next => cases h
  next =>
    unfold endWaitData finishIn at h
    split at h
    next => cases h
    next =>
      split at h
      next => cases h
      next =>
        cases h
        exact Option.some_ne_none _

theorem repeated_iff (o : Option ModStream) :
    repeated o type = true ↔ ∃ m, o = some m ∧ m.isOpen = true ∧ m.modPars.ind = type := by
  cases o <;> simp [repeated]

theorem handleIndicator_told (type : Indicator) (h : Fits last e) : Told type (e.handleIndicator type) := by
  unfold handleIndicator
  split
  next hr =>
    rw [Bool.or_eq_true, repeated_iff, repeated_iff] at hr
    have h' : Fits (some type) e := by
      refine ⟨h.firstIn, h.alone, fun m hm ho => ?_⟩
      rcases hr with ⟨m', hm', ho', -⟩ | ⟨m', hm', -, rfl⟩
      · have hn := h.alone (by rw [hm']; exact ho')
        exact absurd (hn.symm.trans hm) nofun
      · cases hm.symm.trans hm'
        rfl
    exact .of_calm h' finishIn_calm
  next =>
    split
    next ho =>
      have hs := h.alone ho
      split
      next =>
        have h' : Fits (some type) e := ⟨h.firstIn, h.alone, fun m hm => absurd (hs.symm.trans hm) nofun⟩
        exact .of_calm h' finishIn_calm
      next =>
        have hbare : Bare (e.updateStream (·.putEof (diagOutOfOrder ||| diagNoCarrier)) (some .modStreamIn)) := by
          refine ⟨?_, hs⟩
          cases hm : e.modStreamIn with
          | none => simp [updateStream, hm, isOpen]
          | some m => simp [updateStream, hm, isOpen]
        dsimp only
        split
        next => exact ⟨.of_bare h.firstIn hbare, fun t ht => ⟨(AfterIn.indicator.inj (Option.some.inj ht)).symm, hbare⟩⟩
        next => exact indicatorSwitch_told type h.firstIn hbare.1
    next ho => exact indicatorSwitch_told type h.firstIn (by simpa using ho)

end T38Engine

namespace Sys

open T38Engine

variable {s s' : Sys} {a : Act} {as : List Act} {es es' : List Event} {x : Indicator} {ifp : Ifp} {junk : Hdlc} {now : Int}

/-- The indicator that came last, also when its handling is not over. -/
def heardOf (es : List Event) : InPc → Option Indicator
  | .calling ifp _ _ _ | .called ifp _ => ifp.heard (lastIndicator es)
  | .out => lastIndicator es

def afterOf : InPc → Option AfterIn
  | .calling _ _ _ after | .called _ after => some after
  | .out => none

/-- The packet that is handled. -/
def ifpOf : InPc → Option Ifp
  | .calling ifp _ _ _ | .called ifp _ => some ifp
  | .out => none

structure Follows (es : List Event) (s : Sys) : Prop where
  attached : s.Attached
  heard : Fits (heardOf es s.inn) s.e
  pending : ∀ t, afterOf s.inn = some (.indicator t) → ifpOf s.inn = some (.t30Indicator t) ∧ Bare s.e

theorem lastIndicator_append (h : ∀ ev ∈ es', ∀ ifp ok, ev ≠ .handled ifp ok) :
    lastIndicator (es ++ es') = lastIndicator es := by
  unfold lastIndicator
  rw [List.foldl_append]
  generalize es.foldl _ none = last
  induction es' generalizing last with
  | nil => rfl
  | cons ev es' ih =>
    obtain ⟨hev, hes⟩ := List.forall_mem_cons.mp h
    rw [List.foldl_cons]
    cases ev with
    | handled ifp ok => exact absurd rfl (hev ifp ok)
    | _ => exact ih hes last

theorem lastIndicator_handled (ok : Bool) :
    lastIndicator (es ++ [.handled ifp ok]) = ifp.heard (lastIndicator es) := by
  unfold lastIndicator
  rw [List.foldl_append]
  rfl

theorem heardOf_append (pc : InPc) (h : ∀ ev ∈ es', ∀ ifp ok, ev ≠ .handled ifp ok) :
    heardOf (es ++ es') pc = heardOf es pc := by
  unfold heardOf
  rw [lastIndicator_append h]

/-- A step that does not handle a packet. -/
theorem Follows.keeps (h : Follows es s) (ha : s'.Attached) (hi : s'.inn = s.inn) (hk : Keeps s.e s'.e)
    (hes : ∀ ev ∈ es', ∀ ifp ok, ev ≠ .handled ifp ok) : Follows (es ++ es') s' := by
  refine ⟨ha, ?_, fun t ht => ?_⟩
  · rw [hi, heardOf_append _ hes]
    exact h.heard.keeps hk
  · obtain ⟨hp, hb⟩ := h.pending t (hi ▸ ht)
    exact ⟨hi ▸ hp, hb.keeps hk⟩

/-- What `HandlePacket` does up to its next stop. -/
theorem Follows.outcome {r : InOutcome} (ha : (s.ofInOutcome ifp r).1.Attached)
    (hh : Fits (ifp.heard (lastIndicator es)) r.engine)
    (hp : ∀ t, r.after = some (.indicator t) → ifp = .t30Indicator t ∧ Bare r.engine) :
    Follows (es ++ (s.ofInOutcome ifp r).2) (s.ofInOutcome ifp r).1 := by
  cases r with
  | ret e =>
    refine ⟨ha, ?_, nofun⟩
    dsimp only [ofInOutcome, heardOf]
    rw [lastIndicator_handled]
    exact hh
  | call e kind extra after =>
    refine ⟨ha, ?_, fun t ht => ?_⟩
    · dsimp only [ofInOutcome, heardOf]
      rw [List.append_nil]
      exact hh
    · obtain ⟨rfl, hb⟩ := hp t ht
      exact ⟨rfl, hb⟩

theorem handlePacket_follows (h : Follows es s) (hi : s.inn = .out) (ifp : Ifp)
    (ha : (s.ofInOutcome ifp (s.e.handlePacket ifp)).1.Attached) :
    Follows (es ++ (s.ofInOutcome ifp (s.e.handlePacket ifp)).2) (s.ofInOutcome ifp (s.e.handlePacket ifp)).1 := by
  have hh := h.heard
  rw [hi] at hh
  cases ifp with
  | t30Indicator x =>
    obtain ⟨ht, hp⟩ := handleIndicator_told x hh
    refine .outcome ha ht fun t hr => ?_
    obtain ⟨rfl, hb⟩ := hp t hr
    exact ⟨rfl, hb⟩
  | data t fields =>
    obtain ⟨hk, hp⟩ := @handleData_calm s.e t fields
    exact .outcome ha (hh.keeps hk) fun t hr => absurd hr (hp t)
  | badTag =>
    obtain ⟨hk, hp⟩ := @finishIn_calm s.e
    exact .outcome ha (hh.keeps hk) fun t hr => absurd hr (hp t)

theorem resumePacket_follows (h : Follows es s) {after : AfterIn} (hi : s.inn = .called ifp after)
    (ha : (s.ofInOutcome ifp (s.e.resumePacket after)).1.Attached) :
    Follows (es ++ (s.ofInOutcome ifp (s.e.resumePacket after)).2) (s.ofInOutcome ifp (s.e.resumePacket after)).1 := by
  have hh := h.heard
  rw [hi] at hh
  have calm (hc : ∀ t, after ≠ .indicator t) : Follows (es ++ (s.ofInOutcome ifp (s.e.resumePacket after)).2)
      (s.ofInOutcome ifp (s.e.resumePacket after)).1 := by
    obtain ⟨hk, hp⟩ := resumePacket_calm (e := s.e) hc
    exact .outcome ha (hh.keeps hk) fun t hr => absurd hr (hp t)
  cases after with
  | indicator t =>
    obtain ⟨he, hb⟩ := h.pending t (by rw [hi]; rfl)
    rw [hi] at he
    obtain rfl := Option.some.inj he
    obtain ⟨ht, hp⟩ := indicatorSwitch_told t h.heard.firstIn hb.1
    refine .outcome ha ht fun t hr => ?_
    obtain ⟨rfl, hb⟩ := hp t hr
    exact ⟨rfl, hb⟩
  | _ => exact calm nofun

theorem step_follows (h : Follows es s) (hs : machine.step s a = some (s', es')) : Follows (es ++ es') s' := by
  have ha := h.attached.step (step_cases hs)
  cases step_hears h.attached hs with
  | speaks hr hsp =>
    refine h.keeps ha hsp.inn (.of_eq hsp.firstIn ?_ ?_) fun ev hev ifp ok he => ?_
    · exact congrArg InSide.modStreamInSaved hsp.inSide
    · rw [show s'.e.modStreamIn = s.e.modStreamIn from congrArg InSide.modStreamIn hsp.inSide]
      exact id
    · have hse := hsp.events ev hev
      rw [he] at hse
      cases hse
  | sendStart t param => exact h.keeps ha rfl (sendStart_keeps t param) (by simp)
  | resetModemState => exact h.keeps ha rfl onResetModemState_keeps (by simp)
  | openIn hi => exact h.keeps ha rfl (.of_eq h.heard.firstIn.symm rfl id) (by simp)
  | handlePacket ifp hi => exact handlePacket_follows h hi ifp ha
  | @calls ifp kind extra after hi =>
    have hh := h.heard
    have hp := h.pending
    rw [hi] at hh hp
    refine ⟨ha, ?_, fun t ht => ?_⟩
    · rw [heardOf_append _ (by simp)]
      exact hh
    · exact hp t ht
  | resumes hi => exact resumePacket_follows h hi ha
  | handlePacketLost hi => exact h.keeps ha rfl handlePacketLost_keeps (by simp)
  | recvWait t param cb => exact h.keeps ha rfl (recvWait_keeps t param cb) (by simp)
  | recvStart cb => exact h.keeps ha rfl (recvStart_keeps cb) (by simp)
  | recv count => exact h.keeps ha rfl (recv_keeps count) (by simp)
  | recvDiag => exact h.keeps ha rfl (.refl _) (by simp)
  | recvStop => exact h.keeps ha rfl recvStop_keeps (by simp)

theorem start_follows : Follows [] (start junk now) := by
  have hi : (start junk now).e.modStreamIn = none := rfl
  have hs : (start junk now).e.modStreamInSaved = none := rfl
  refine ⟨.start junk now, ⟨rfl, fun _ => hs, fun m hm => absurd (hs.symm.trans hm) nofun⟩, fun t ht => ?_⟩
  exact absurd ht (Option.some_ne_none _).symm

theorem run_follows {ok : Sys → Act → Prop} (h : machine.Run ok (start junk now) as es s) : Follows es s :=
  h.invariant start_follows fun _ _ _ _ _ hi _ hs => step_follows hi hs

theorem harmless_of_handle (h : s.Attached) (hi : s.inn = .out) (he : s.e.handleIndicator x = .ret s.e) :
    s.Harmless x := by
  unfold Harmless
  dsimp only [machine, step]
  rw [if_neg (by simp [hi]), h.lostIn, if_neg Bool.false_ne_true]
  dsimp only [handlePacket]
  rw [he, ofInOutcome, ← hi]

theorem ret_of_harmless (h : s.Attached) (hi : s.inn = .out) (hs : s.Harmless x) :
    s.e.handleIndicator x = .ret s.e := by
  unfold Harmless at hs
  dsimp only [machine, step] at hs
  rw [if_neg (by simp [hi]), h.lostIn, if_neg Bool.false_ne_true] at hs
  dsimp only [handlePacket] at hs
  cases hr : s.e.handleIndicator x with
  | ret e =>
    rw [hr] at hs
    have he := congrArg Sys.e (Prod.mk.inj (Option.some.inj hs)).1
    exact congrArg InOutcome.ret he
  | call e kind extra after =>
    rw [hr] at hs
    have hn := congrArg Sys.inn (Prod.mk.inj (Option.some.inj hs)).1
    rw [hi] at hn
    cases hn

/-- While a signal is filled, its indicator changes nothing, unless the DTE has asked for the same
modulation with the other training. -/
theorem run_harmless {ok : Sys → Act → Prop} (h : machine.Run ok (start junk now) as es s) (hi : s.inn = .out)
    (hx : x.isTraining = true) (hl : lastIndicator es = some x)
    (ho : isOpen s.e.modStreamIn = true ∨ isOpen s.e.modStreamInSaved = true) : s.Harmless x ↔ s.e.Asked x := by
  obtain ⟨ha, hh, -⟩ := run_follows h
  rw [hi] at hh
  constructor
  · intro hs m hm hmo
    by_contra hne
    have hopen : isOpen s.e.modStreamIn = true := by rw [hm]; exact hmo
    have hnone := hh.alone hopen
    have hr : (repeated s.e.modStreamIn x || repeated s.e.modStreamInSaved x) = false := by
      simp [repeated, hm, hmo, hnone, hne]
    have hsig : x ≠ .noSignal := by rintro rfl; cases hx
    have hret := ret_of_harmless ha hi hs
    unfold handleIndicator at hret
    rw [if_neg (by simp [hr]), if_pos hopen, if_neg (fun h => hsig h.2.2)] at hret
    dsimp only at hret
    split at hret
    next => cases hret
    next =>
      rw [indicatorSwitch_training hx] at hret
      exact training_ret hret hnone
  · intro hasked
    refine harmless_of_handle ha hi ?_
    unfold handleIndicator
    have hr : (repeated s.e.modStreamIn x || repeated s.e.modStreamInSaved x) = true := by
      rw [Bool.or_eq_true, repeated_iff, repeated_iff]
      rcases ho with ho | ho
      · cases hm : s.e.modStreamIn with
        | none => simp [hm] at ho
        | some m => exact .inl ⟨m, rfl, by simpa [hm] using ho, hasked m hm (by simpa [hm] using ho)⟩
      · cases hm : s.e.modStreamInSaved with
        | none => simp [hm] at ho
        | some m =>
          have hmo : m.isOpen = true := by simpa [hm] using ho
          have hlast := hh.saved m hm hmo
          exact .inr ⟨m, rfl, hmo, Option.some.inj (hlast.symm.trans hl)⟩
    rw [if_pos hr, hh.finishIn]

/-- The DTE waits for a V.21 signal, whose first frame has begun to come. -/
def preambleRun : List Act :=
  [.recvWait .dtHdlc 3 1, .handlePacket (.t30Indicator .v21Preamble), .inn, .inn, .recvStart 2,
    .handlePacket (t38data .v21 .hdlcData [0xFF, 0x03]), .inn, .inn, .recv 1]

theorem preamble_harmless : ∃ es s, machine.Run (fun _ _ => True) (start default 0) preambleRun es s ∧
    s.Harmless .v21Preamble := by
  obtain ⟨s, hr, ht⟩ : ∃ s, machine.Run (fun _ _ => True) (start default 0) preambleRun
      [.recvWait true false, .callbackIn .paramIn 1, .handled (.t30Indicator .v21Preamble) true, .recvStart true,
        .callbackIn .paramIn 2, .handled (t38data .v21 .hdlcData [0xFF, 0x03]) true, .recv (some [0xFF])] s ∧
      (decide (s.inn = .out) && s.e.modStreamIn.any fun m => m.isOpen && m.modPars.ind == .v21Preamble) = true :=
    Machine.exec_test (by decide +kernel)
  obtain ⟨hi, hm⟩ := (Bool.and_eq_true _ _).mp ht
  obtain ⟨m, hin, hm⟩ := (Option.any_eq_true _ _).mp hm
  obtain ⟨ho, hx⟩ := (Bool.and_eq_true _ _).mp hm
  have hopen : isOpen s.e.modStreamIn = true := by rw [hin]; exact ho
  have hasked : s.e.Asked .v21Preamble := fun m' hm' _ => by
    cases hin.symm.trans hm'
    exact beq_iff_eq.mp hx
  exact ⟨_, s, hr, (run_harmless hr (of_decide_eq_true hi) (by decide) (by decide) (.inl hopen)).mpr hasked⟩

/-- The DTE waits for a V.17 signal after the long training, and the sender has trained shortly. -/
def shortRun : List Act :=
  [.recvWait .dtRaw 145 1, .handlePacket (.t30Indicator .v17_14400ShortTraining), .inn, .inn]

theorem short_harmful : ¬∀ as es s x, machine.Run (fun _ _ => True) (start default 0) as es s → s.inn = .out →
    x.isTraining = true → lastIndicator es = some x →
    isOpen s.e.modStreamIn = true ∨ isOpen s.e.modStreamInSaved = true → s.Harmless x := by
  intro h
  obtain ⟨s, hr, ht⟩ : ∃ s, machine.Run (fun _ _ => True) (start default 0) shortRun
      [.recvWait true false, .callbackIn .paramIn 1, .handled (.t30Indicator .v17_14400ShortTraining) true] s ∧
      (decide (s.inn = .out) && (isOpen s.e.modStreamIn &&
        (machine.step s (.handlePacket (.t30Indicator .v17_14400ShortTraining))).any fun r =>
          !isOpen r.1.e.modStreamIn)) = true :=
    Machine.exec_test (by decide +kernel)
  obtain ⟨hi, ht⟩ := (Bool.and_eq_true _ _).mp ht
  obtain ⟨ho, ht⟩ := (Bool.and_eq_true _ _).mp ht
  have hs := h _ _ s .v17_14400ShortTraining hr (of_decide_eq_true hi) (by decide) (by decide) (.inl ho)
  obtain ⟨r, hstep, hclosed⟩ := (Option.any_eq_true _ _).mp ht
  cases hs.symm.trans hstep
  simp [ho] at hclosed

end Sys

end T38Modem
