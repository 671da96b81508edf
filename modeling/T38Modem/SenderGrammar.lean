import T38Modem.SenderStage

namespace T38Modem

/-- The packets of the calls of `PreparePacket` that returned 1. -/
def packets (es : List Event) : List (Option Ifp) :=
  es.filterMap fun | .packet ifp => some ifp | _ => none

theorem packets_append (es es' : List Event) : packets (es ++ es') = packets es ++ packets es' :=
  List.filterMap_append

/-- What does not belong to the sending half makes no packets. -/
theorem packets_eq_nil {es : List Event} (h : ∀ ev ∈ es, ev.sending = false) : packets es = [] := by
  refine List.filterMap_eq_nil_iff.mpr fun ev hev => ?_
  cases ev with
  | packet ifp => cases h _ hev
  | _ => rfl

namespace OutPc

/-- The thread has begun `o`, or the packet it has made and not given back yet leads there. -/
def At (o : Stage) (e : T38Engine) (pc : OutPc) : Prop :=
  match pc.pending with
  | .leave => ∃ o', Made o pc.locals o' ∧ Sends o' e
  | .data _ => pc.locals.Clean ∧ Sends o e ∧ e.stateOut = .stOutData
  | _ => pc.locals.Clean ∧ Sends o e

variable {o : Stage} {e e' : T38Engine} {now : Int} {pc : OutPc}

theorem at_idle (hi : pc.idle = true) : At o e pc ↔ pc.locals.Clean ∧ Sends o e := by
  simp only [idle, decide_eq_true_eq] at hi
  rcases hi with hi | hi <;> simp [At, hi]

theorem At.mono (h : At o e pc) (hs : e'.stateOut = e.stateOut) (hk : ∀ o, Sends o e → Sends o e') :
    At o e' pc := by
  unfold At at h ⊢
  cases hp : pc.pending with
  | leave =>
    simp only [hp] at h
    obtain ⟨o', hm, h⟩ := h
    exact ⟨o', hm, hk o' h⟩
  | data count =>
    simp only [hp] at h
    exact ⟨h.1, hk o h.2.1, hs.trans h.2.2⟩
  | _ =>
    simp only [hp] at h
    exact ⟨h.1, hk o h.2⟩

/-- The engine does not send for the modem while the modem does something else. -/
theorem At.sends (h : At o e pc) : ∃ o', Sends o' e := by
  unfold At at h
  cases hp : pc.pending with
  | leave =>
    simp only [hp] at h
    obtain ⟨o', -, h⟩ := h
    exact ⟨o', h⟩
  | data count =>
    simp only [hp] at h
    exact ⟨o, h.2.1⟩
  | _ =>
    simp only [hp] at h
    exact ⟨o, h.2⟩

/-- With octets, or their end, in its hands the thread sends a signal. -/
theorem At.busy {count : Option (List Byte)} (h : At o e pc)
    (hp : pc.pending = .data count) : e.stateModem.isOut = true := by
  simp only [At, hp] at h
  exact h.2.1.busy (by simp [h.2.2]) (by simp [h.2.2])

theorem keeps_at {r : Outcome} (h : r.Keeps o) :
    At o (ofOutcome r).1 (ofOutcome r).2.1 ∧ packets (ofOutcome r).2.2 = [] := by
  cases h with
  | exit hw h => exact ⟨(at_idle rfl).mpr ⟨⟨rfl, rfl⟩, h⟩, rfl⟩
  | wait hl h => exact ⟨(at_idle rfl).mpr ⟨hl, h⟩, rfl⟩
  | leave o' hl h => exact ⟨⟨o', hl, h⟩, rfl⟩
  | call o' hl h => exact ⟨⟨o', hl, h⟩, rfl⟩
  | @pause e l kind extra after ha hl h hd =>
    refine ⟨?_, rfl⟩
    cases after with
    | leave => exact absurd rfl ha
    | data count => exact ⟨hl, h, hd count rfl⟩
    | _ => exact ⟨hl, h⟩

/-- A step of the thread keeps to the grammar. -/
theorem Moves.grammar {r : T38Engine × OutPc × List Event} (hm : Moves e now pc r) (h : At o e pc) :
    ∃ o' ps, At o' r.1 r.2.1 ∧ packets r.2.2 = ps.map some ∧ ∀ qs, Begun o qs → Begun o' (qs ++ ps) := by
  have stay {r : T38Engine × OutPc × List Event} (ha : At o r.1 r.2.1) (hp : packets r.2.2 = []) :
      ∃ o' ps, At o' r.1 r.2.1 ∧ packets r.2.2 = ps.map some ∧ ∀ qs, Begun o qs → Begun o' (qs ++ ps) :=
    ⟨o, [], ha, hp, fun qs hq => by simpa using hq⟩
  cases hm with
  | @quiet pc pc' es f d t n hi hi' hl hes =>
    obtain ⟨hc, hs⟩ := (at_idle hi).mp h
    refine stay ((at_idle hi').mpr ⟨hl hc, hs.of_same rfl rfl rfl rfl⟩) ?_
    rcases hes with rfl | rfl <;> rfl
  | prepare l =>
    obtain ⟨hc, hs⟩ := (at_idle rfl).mp h
    obtain ⟨ha, hp⟩ := keeps_at (hs.prepare_keeps hc)
    exact stay ha hp
  | calls kind extra l after => exact stay h rfl
  | @redo l l' after ha hr hp =>
    have h' : l.Clean ∧ Sends o e := by rcases ha with rfl | rfl <;> exact h
    exact stay ⟨o, .redo hr (hp.trans h'.1.2), h'.2⟩ rfl
  | data l count =>
    obtain ⟨hc, hs, hd⟩ := h
    obtain ⟨ha, hp⟩ := keeps_at (hs.dataSwitch_keeps hc hd count)
    exact stay ha hp
  | leaves l => exact stay h rfl
  | @again l hr =>
    obtain ⟨o', hm, hs⟩ := h
    cases hm with
    | redo _ hi => exact stay ((at_idle rfl).mpr ⟨⟨rfl, hi⟩, hs.of_same rfl rfl rfl rfl⟩) rfl
    | packet _ p hr' => exact absurd (hr.symm.trans hr') (by decide)
  | @packet l hr =>
    obtain ⟨o', hm, hs⟩ := h
    cases hm with
    | redo hr' _ => exact absurd (hr'.symm.trans hr) (by decide)
    | packet _ p _ hi begun =>
      refine ⟨o', [p], (at_idle rfl).mpr ⟨⟨rfl, rfl⟩, hs.of_same rfl rfl rfl rfl⟩, ?_, begun⟩
      show [l.ifp] = _
      rw [show l.ifp = some p from hi]
      rfl

end OutPc

namespace Sends

variable {o : Stage} {e e' : T38Engine}

/-- While the modem does not send, the sender is in a state without a signal. -/
theorem quiet (h : Sends o e) (hm : e.stateModem.isOut = false) : e.stateOut = .stOutIdle ∨ e.stateOut = .stOutNoSig := by
  by_contra hne
  obtain ⟨h1, h2⟩ := not_or.mp hne
  exact Bool.false_ne_true (hm.symm.trans (h.busy h1 h2))

/-- While the modem does not send, the stage is one without a signal. -/
theorem of_start (h : Sends o e) (hm : e.stateModem.isOut = false) (hs : e'.stateOut = e.stateOut)
    (hp : e'.stateModem.isOut = true → OutPars e'.modParsOut) : Sends o e' := by
  have hi := h.quiet hm
  refine ⟨hp, fun h1 h2 => by rcases hi with hi | hi <;> simp [hs, hi] at h1 h2, ?_⟩
  have hstage := h.stage
  rcases hstage with hst | hst | hst | ⟨hst, -⟩ | hst | ⟨hst, -⟩ | ⟨m, d, -, -, hst⟩ | ⟨m, -, -, hst⟩
  · exact .start (hs.trans hst)
  · exact .ended (hs.trans hst)
  · exact .cedEnd (hs.trans hst)
  · rcases hi with hi | hi <;> simp [hi] at hst
  · exact .idle (hs.trans hst)
  · rcases hi with hi | hi <;> simp [hi] at hst
  · rcases hi with hi | hi <;> simp [hi] at hst
  · rcases hi with hi | hi <;> simp [hi] at hst

theorem pars_of_canSend (h : Sends o e) (hc : e.canSend = true) : OutPars e.modParsOut := by
  simp only [T38Engine.canSend, decide_eq_true_eq] at hc
  exact h.pars (by rw [hc.2]; rfl)

theorem sendStart (h : Sends o e) (dataType : DataType) (param : Int) :
    Sends o (e.sendStart dataType param).2 ∧ (e.sendStart dataType param).2.stateOut = e.stateOut := by
  unfold T38Engine.sendStart
  split
  · exact ⟨h, rfl⟩
  · split
    · exact ⟨h, rfl⟩
    next hidle =>
      have hm : e.stateModem.isOut = false := by rw [not_not.mp hidle]; rfl
      dsimp only
      split
      next =>
        split
        next hok => exact ⟨h.of_start hm rfl fun _ => outPars_valid hok, rfl⟩
        next => exact ⟨h.of_start hm rfl fun hout => absurd hout (by simp [hm]), rfl⟩
      next =>
        split
        next hok => exact ⟨h.of_start hm rfl fun _ => outPars_valid hok, rfl⟩
        next => exact ⟨h.of_start hm rfl fun hout => absurd hout (by simp [hm]), rfl⟩

/-- The modem stops sending, be it that the sender has gone on to the end of the signal before. -/
theorem sendStop (h : Sends o e) (hp : OutPars e.modParsOut) (moreFrames : Bool) (callbackParam : Int) :
    Sends o (e.sendStop moreFrames callbackParam) := by
  cases hm : e.stateModem.isOut with
  | true => exact h.of_same rfl rfl rfl (by rw [hm]; rfl)
  | false => exact h.of_start hm rfl fun _ => hp

theorem onResetModemState (h : Sends o e) : Sends o e.onResetModemState := by
  refine h.of_same rfl rfl rfl ?_
  unfold T38Engine.onResetModemState
  dsimp only
  split
  · rfl
  next hm => simp at hm; rw [hm]; rfl

end Sends

namespace Sys

/-- The packets given back so far and what the sender does now go together. -/
structure Grammatical (s : Sys) (ps : List Ifp) : Prop where
  attached : s.Attached
  begun : ∃ o, Begun o ps ∧ s.out.At o s.e
  pars : s.modem ≠ .out → OutPars s.e.modParsOut

theorem Grammatical.step {s s' : Sys} {a : Act} {es : List Event} {ps : List Ifp} (h : s.Grammatical ps)
    (hs : Steps s a s' es) : ∃ ps', packets es = ps'.map some ∧ s'.Grammatical (ps ++ ps') := by
  have att := h.attached.step hs
  obtain ⟨o, hb, ha⟩ := h.begun
  have stay {s' : Sys} {es : List Event} (att : s'.Attached) (hp : packets es = []) (ha' : s'.out.At o s'.e)
      (hp' : s'.modem ≠ .out → OutPars s'.e.modParsOut) :
      ∃ ps', packets es = ps'.map some ∧ s'.Grammatical (ps ++ ps') :=
    ⟨[], hp, att, ⟨o, by simpa using hb, ha'⟩, hp'⟩
  cases hs with
  | tick ms => exact stay att rfl ha h.pars
  | @out r hr =>
    have hm := hr ▸ h.attached.moves
    obtain ⟨o', ps', ha', hp, hg⟩ := hm.grammar ha
    exact ⟨ps', hp, att, ⟨o', hg ps hb, ha'⟩, fun hne => hm.sameIn.modParsOut ▸ h.pars hne⟩
  | setPreparePacketTimeout timeout period =>
    unfold T38Engine.setPreparePacketTimeout
    split
    · exact stay h.attached rfl ha h.pars
    · exact stay ⟨h.attached.1, h.attached.2, h.attached.3⟩ rfl
        (ha.mono rfl fun _ hs => hs.of_same rfl rfl rfl rfl) h.pars
  | receives _ hr =>
    have heng := hr.engine
    refine stay att (packets_eq_nil hr.events) ?_ fun hne => heng.modParsOut ▸ h.pars (hr.modem ▸ hne)
    rw [hr.out]
    exact ha.mono heng.stateOut fun _ hs => hs.of_same heng.stateOut heng.modParsOut heng.countOut heng.isOut
  | sendOnIdle dataType hm => exact stay att rfl (ha.mono rfl fun _ hs => hs.of_same rfl rfl rfl rfl) h.pars
  | sendStart dataType param hm =>
    obtain ⟨_, hs⟩ := ha.sends
    exact stay att rfl (ha.mono (hs.sendStart dataType param).2 fun _ hs => (hs.sendStart dataType param).1)
      fun hne => absurd hm hne
  | checkSend bs hm hc =>
    obtain ⟨_, hs⟩ := ha.sends
    exact stay att rfl ha fun _ => hs.pars_of_canSend hc
  | refuseSend bs hm hc => exact stay att rfl ha h.pars
  | checkSendStop moreFrames callbackParam hm hc =>
    obtain ⟨_, hs⟩ := ha.sends
    exact stay att rfl ha fun _ => hs.pars_of_canSend hc
  | refuseSendStop moreFrames callbackParam hm hc => exact stay att rfl ha h.pars
  | send bs hm =>
    exact stay att rfl (ha.mono rfl fun _ hs => hs.of_same rfl rfl rfl rfl) fun hne => absurd rfl hne
  | sendStop moreFrames callbackParam hm =>
    have hp : OutPars s.e.modParsOut := h.pars (by simp [hm])
    exact stay att rfl (ha.mono rfl fun _ hs => hs.sendStop hp moreFrames callbackParam) fun hne => absurd rfl hne
  | resetModemState hm =>
    exact stay att rfl (ha.mono rfl fun _ hs => hs.onResetModemState) fun hne => absurd hm hne

theorem Grammatical.start (junk : Hdlc) (now : Int) : (Sys.start junk now).Grammatical [] where
  attached := .start junk now
  begun := ⟨.start, .start, ⟨rfl, rfl⟩, ⟨(fun h => by cases h), fun _ h => absurd rfl h, .start rfl⟩⟩
  pars := fun h => absurd rfl h

/-- The packets of every run are the beginning of a sentence of the grammar. -/
theorem run_sentence {junk : Hdlc} {now : Int} {as : List Act} {es : List Event} {s : Sys}
    (h : machine.Run (fun _ _ => True) (Sys.start junk now) as es s) :
    ∃ w, Sentence w ∧ packets es <+: w.map some := by
  have hinv : ∃ ps, packets es = ps.map some ∧ s.Grammatical ps := by
    refine h.invariant (I := fun es s => ∃ ps, packets es = ps.map some ∧ s.Grammatical ps)
      ⟨[], rfl, .start junk now⟩ fun es s a s' es' hi _ hs => ?_
    obtain ⟨ps, hp, hg⟩ := hi
    obtain ⟨ps', hp', hg'⟩ := hg.step (step_cases hs)
    exact ⟨ps ++ ps', by rw [packets_append, hp, hp', List.map_append], hg'⟩
  obtain ⟨ps, hp, hg⟩ := hinv
  obtain ⟨o, hb, -⟩ := hg.begun
  obtain ⟨w, hw, hpre⟩ := hb.prefix_sentence
  exact ⟨w, hw, hp ▸ hpre.map some⟩

/-- A new engine that has sent its first packet. -/
def first : Sys := { start default 0 with
  e := { (start default 0).e with
    firstOut := false, stateOut := .stOutIdle, delaySignalOut := true, timeBeginOut := 75, timeDelayEndOut := 30 } }

theorem run_first : machine.Run (fun _ _ => True) (start default 0) (List.replicate 7 .out)
    [.callbackOut .updateState cbpUpdateState, .packet (some (t38indicator .noSignal))] first :=
  Machine.run_of_exec rfl

/-- The modem gets two frames of one octet in. -/
def pairIn : List Act :=
  [[.tick 75], List.replicate 5 .out, [.tick 900, .send [7], .modem, .sendStop true 1, .modem], List.replicate 4 .out,
    [.tick 200], List.replicate 12 .out, [.send [8], .modem, .sendStop false 1, .modem]].flatten

def pairRun : List Act :=
  pairIn ++ [[.tick 30], List.replicate 12 .out, [.tick 30], List.replicate 12 .out, [.tick 200],
    List.replicate 7 .out].flatten

def pairPackets : List Ifp :=
  [t38indicator .v21Preamble, t38data .v21 .hdlcData [7], t38data .v21 .hdlcFcsOK [], t38data .v21 .hdlcData [8],
    t38data .v21 .hdlcFcsOK [], t38data .v21 .hdlcSigEnd []]

/-- The signal that `pairRun` sends, with the silence behind it. -/
theorem pair_sentence : ∃ es s, machine.Run (fun _ _ => True) (start default 0)
      (List.replicate 7 .out ++ .sendStart .dtHdlc 3 :: pairRun ++ .tick 200 :: List.replicate 20 .out) es s ∧
    packets es = (t38indicator .noSignal :: pairPackets ++ [t38indicator .noSignal]).map some ∧
    ∃ w, Sentence w ∧ packets es <+: w.map some := by
  obtain ⟨s, es, h, hp⟩ : ∃ s es, machine.Run (fun _ _ => True) (start default 0)
      (List.replicate 7 .out ++ .sendStart .dtHdlc 3 :: pairRun ++ .tick 200 :: List.replicate 20 .out) es s ∧
      (fun es => decide (packets es = (t38indicator .noSignal :: pairPackets ++ [t38indicator .noSignal]).map some)) es =
        true := Machine.exec_seen (by decide +kernel)
  exact ⟨es, s, h, of_decide_eq_true hp, run_sentence h⟩

end Sys

end T38Modem
