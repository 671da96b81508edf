import T38Modem.SenderSafety
import T38Modem.SenderProgress

namespace T38Modem

/-- The exits of `PreparePacket` are taken by a lost owner alone. -/
def noExit (es : List Event) : Prop := ∀ why, .exit why ∈ es → why = .owner

theorem T38Engine.sendStart_busy {e : T38Engine} {dataType : DataType} {param : Int} (hm : e.stateModem.isOut = true) :
    e.sendStart dataType param = (false, e) := by
  unfold sendStart
  split
  · rfl
  · rw [if_pos (by rintro hs; simp [hs, StateModem.isOut] at hm)]

namespace Sound

variable {e e' : T38Engine} {o : Stage}

theorem of_sameOut (h : Sound e) (hs : SameOut e e') : Sound e' := by
  have hm (m : StateModem) (hm : m.isOut = true) : e'.stateModem = m ↔ e.stateModem = m := by
    rcases hs.stateModem with he | ⟨h1, h2⟩
    · rw [he]
    · refine iff_of_false (fun he => ?_) (fun he => ?_)
      · simp [he, hm] at h2
      · simp [he, hm] at h1
  have hmore := hm .stmOutMoreData rfl
  have hno := hm .stmOutNoMoreData rfl
  refine ⟨⟨?_, ?_, ?_, ?_, ?_⟩, ?_⟩
  · rw [hs.modParsOut]
    exact h.like
  · rw [hs.bufOut, hs.modParsOut, hmore]
    exact h.eof
  · rw [hs.stateOut, hs.modParsOut, hs.hdlcOut]
    exact h.kind
  · rw [hs.stateOut, hs.modParsOut, hno]
    exact h.fcs
  · rw [hs.stateOut, hno]
    exact h.noSig
  · rw [hs.stateOut, hs.modParsOut, hs.hdlcOut]
    exact h.attached

/-- A signal that the engine can send is started. -/
theorem sendStart (h : Sound e) (hk : Sends o e) {dataType : DataType} {param : Int}
    (hd : e.stateModem = .stmIdle → dataType = .dtHdlc → (getModPars param).isModValid = true →
      hdlcT38 (getModPars param) e.t30.hdlcOnly = .dtHdlc) : Sound (e.sendStart dataType param).2 := by
  unfold T38Engine.sendStart
  split
  · exact h
  · split
    · exact h
    next hidle =>
      have hidle := not_not.mp hidle
      have hquiet := hk.quiet (by rw [hidle]; rfl)
      have like : (e.outPars dataType param).1.isModValid = true → ¬(e.outPars dataType param).1.hdlcLikeRaw := by
        unfold T38Engine.outPars
        rintro hv ⟨data, t38⟩
        cases dataType with
        | dtHdlc => exact absurd ((hd hidle rfl hv).symm.trans t38) (by decide)
        | _ => cases data
      have eof (hm : e.stateModem = .stmOutMoreData) : False := by simp [hidle] at hm
      dsimp only
      split
      · split
        · exact of_quiet like (fun h => by cases h) hquiet
        · exact of_quiet like (fun _ hm => eof hm) hquiet
      · split
        · exact of_quiet like (fun h => by cases h) hquiet
        · exact of_quiet like (fun _ hm => eof hm) hquiet

end Sound

namespace Sys

/-- The steps that do not lead to an internal error: a command that is aborted has ended its data, a
signal of frames has frames in T.38, and the DTE's HDLC has no short gap between two frames. -/
def Orderly (s : Sys) : Act → Prop
  | .resetModemState =>
    s.e.stateModem = .stmOutMoreData → s.e.modParsOut.dataType ≠ .dtHdlc ∧ s.e.modParsOut.dataType ≠ .dtRaw
  | .sendStart dataType param =>
    s.e.stateModem = .stmIdle → dataType = .dtHdlc → (getModPars param).isModValid = true →
      hdlcT38 (getModPars param) s.e.t30.hdlcOnly = .dtHdlc
  | .out => s.out.isBody = true → ¬s.e.endsEarly
  | _ => True

instance (s : Sys) (a : Act) : Decidable (s.Orderly a) := by
  cases a <;> unfold Orderly <;> infer_instance

/-- Nothing that would end the transmission is ahead of the thread in `PreparePacket`. -/
structure Steadfast (s : Sys) : Prop where
  sound : Sound s.e
  ahead : s.out.pending = .data none → s.e.modParsOut.rawOverHdlc

theorem moves_steadfast {s : Sys} {o : Stage} {r : T38Engine × OutPc × List Event} (h : s.Steadfast)
    (ha : s.out.At o s.e) (he : s.out.isBody = true → ¬s.e.endsEarly) (hm : OutPc.Moves s.e s.now s.out r) :
    Steadfast { s with e := r.1, out := r.2.1 } ∧ noExit r.2.2 := by
  obtain ⟨e, now, pc, inn, modem⟩ := s
  obtain ⟨hs, hahead⟩ := h
  dsimp only at hs hahead ha he hm ⊢
  have of_outcome {x : Outcome} (hsafe : x.Safe) (hk : x.Keeps o) :
      Steadfast ⟨(OutPc.ofOutcome x).1, now, (OutPc.ofOutcome x).2.1, inn, modem⟩ ∧
        noExit (OutPc.ofOutcome x).2.2 := by
    cases hsafe with
    | exit hw =>
      cases hk with
      | exit hnot => exact absurd hw (by simp [hnot])
    | @done e l waitData h =>
      refine ⟨⟨h, ?_⟩, by simp [noExit, OutPc.ofOutcome]⟩
      cases waitData <;> exact fun h => by cases h
    | call h hd => exact ⟨⟨h, hd⟩, by simp [noExit, OutPc.ofOutcome]⟩
  cases hm with
  | @quiet pc pc' es f d t n hi hi' hl hes =>
    refine ⟨⟨⟨⟨hs.like, hs.eof, hs.kind, hs.fcs, hs.noSig⟩, hs.attached⟩, fun hp => ?_⟩, ?_⟩
    · simp only [OutPc.idle, decide_eq_true_eq] at hi'
      dsimp only at hp
      rcases hi' with hi' | hi' <;> cases hp.symm.trans hi'
    · rcases hes with rfl | rfl <;> simp [noExit]
  | prepare l =>
    obtain ⟨hc, hk⟩ := (OutPc.at_idle rfl).mp ha
    exact of_outcome (hs.prepare_safe hk (he rfl)) (hk.prepare_keeps hc)
  | calls kind extra l after => exact ⟨⟨hs, hahead⟩, by simp [noExit]⟩
  | redo _ _ _ => exact ⟨⟨hs, fun h => by cases h⟩, by simp [noExit]⟩
  | data l count =>
    obtain ⟨hc, hk, hd⟩ := ha
    have hcount : count = none → e.modParsOut.rawOverHdlc := fun hn => hahead (by rw [hn]; rfl)
    exact of_outcome (Sound.dataSwitch_safe hs.toSteady hd (fun _ => hs.attached hd)
      fun hn hr => absurd (hcount hn) hr) (hk.dataSwitch_keeps hc hd count)
  | leaves l => exact ⟨⟨hs, fun h => by cases h⟩, by simp [noExit]⟩
  | again hr => exact ⟨⟨⟨⟨hs.like, hs.eof, hs.kind, hs.fcs, hs.noSig⟩, hs.attached⟩, fun h => by cases h⟩, by simp [noExit]⟩
  | packet hr => exact ⟨⟨⟨⟨hs.like, hs.eof, hs.kind, hs.fcs, hs.noSig⟩, hs.attached⟩, fun h => by cases h⟩, by simp [noExit]⟩

theorem Steadfast.step {s s' : Sys} {a : Act} {es : List Event} {ps : List Ifp} (h : s.Steadfast)
    (hg : s.Grammatical ps) (hok : s.Orderly a) (hs : Steps s a s' es) : s'.Steadfast ∧ noExit es := by
  obtain ⟨o, -, ha⟩ := hg.begun
  obtain ⟨_, hk⟩ := ha.sends
  obtain ⟨hsnd, hahead⟩ := h
  have quiet {es : List Event} (h : ∀ ev ∈ es, ev.sending = false) : noExit es := fun why hw => by
    cases h _ hw
  cases hs with
  | tick ms => exact ⟨⟨hsnd, hahead⟩, nofun⟩
  | @out r hr => exact moves_steadfast ⟨hsnd, hahead⟩ ha hok (hr ▸ hg.attached.moves)
  | setPreparePacketTimeout timeout period =>
    unfold T38Engine.setPreparePacketTimeout
    split
    · exact ⟨⟨hsnd, hahead⟩, nofun⟩
    · exact ⟨⟨⟨⟨hsnd.like, hsnd.eof, hsnd.kind, hsnd.fcs, hsnd.noSig⟩, hsnd.attached⟩, hahead⟩, nofun⟩
  | receives _ hr =>
    refine ⟨⟨hsnd.of_sameOut hr.engine, fun hp => ?_⟩, quiet hr.events⟩
    rw [hr.engine.modParsOut]
    exact hahead (hr.out ▸ hp)
  | sendOnIdle dataType hm =>
    exact ⟨⟨⟨⟨hsnd.like, hsnd.eof, hsnd.kind, hsnd.fcs, hsnd.noSig⟩, hsnd.attached⟩, hahead⟩, nofun⟩
  | sendStart dataType param hm =>
    refine ⟨⟨hsnd.sendStart hk hok, fun hp => ?_⟩, by simp [noExit]⟩
    have hbusy := ha.busy hp
    rw [T38Engine.sendStart_busy hbusy]
    exact hahead hp
  | checkSend bs hm hc => exact ⟨⟨hsnd, hahead⟩, nofun⟩
  | refuseSend bs hm hc => exact ⟨⟨hsnd, hahead⟩, by simp [noExit]⟩
  | checkSendStop moreFrames callbackParam hm hc => exact ⟨⟨hsnd, hahead⟩, nofun⟩
  | refuseSendStop moreFrames callbackParam hm hc => exact ⟨⟨hsnd, hahead⟩, by simp [noExit]⟩
  | send bs hm =>
    refine ⟨⟨⟨⟨hsnd.like, fun he => hsnd.eof (DataStream.putData_eof ▸ he), hsnd.kind, hsnd.fcs, hsnd.noSig⟩,
      hsnd.attached⟩, hahead⟩, by simp [noExit]⟩
  | sendStop moreFrames callbackParam hm =>
    exact ⟨⟨⟨⟨hsnd.like, nofun, hsnd.kind, fun _ _ => rfl, fun _ => rfl⟩, hsnd.attached⟩, hahead⟩, by simp [noExit]⟩
  | resetModemState hm =>
    have hmodem (m : StateModem) (hm : m.isOut = true) :
        s.e.onResetModemState.stateModem = m ↔ s.e.stateModem = m := by
      unfold T38Engine.onResetModemState
      dsimp only
      split
      · exact .rfl
      next hn => exact ⟨fun h => by simp [← h, StateModem.isOut] at hm, fun h => by simp [h, hm] at hn⟩
    exact ⟨⟨⟨⟨hsnd.like, fun _ hm => hok ((hmodem _ rfl).mp hm), hsnd.kind,
      fun hf hd => (hmodem _ rfl).mpr (hsnd.fcs hf hd), fun hd => (hmodem _ rfl).mpr (hsnd.noSig hd)⟩,
      hsnd.attached⟩, hahead⟩, nofun⟩

theorem Steadfast.start (junk : Hdlc) (now : Int) : (Sys.start junk now).Steadfast where
  sound := .of_quiet nofun (fun _ => nofun) (.inr rfl)
  ahead := nofun

/-- No run of orderly steps takes an exit that must not happen. -/
theorem run_noExit {junk : Hdlc} {now : Int} {as : List Act} {es : List Event} {s : Sys}
    (h : machine.Run Orderly (Sys.start junk now) as es s) : noExit es := by
  have hinv : (∃ ps, s.Grammatical ps) ∧ s.Steadfast ∧ noExit es := by
    refine h.invariant (I := fun es s => (∃ ps, s.Grammatical ps) ∧ s.Steadfast ∧ noExit es)
      ⟨⟨[], .start junk now⟩, .start junk now, nofun⟩ fun es s a s' es' hi hok hs => ?_
    obtain ⟨⟨ps, hg⟩, hst, hne⟩ := hi
    obtain ⟨ps', -, hg'⟩ := hg.step (step_cases hs)
    obtain ⟨hst', hne'⟩ := hst.step hg hok (step_cases hs)
    exact ⟨⟨_, hg'⟩, hst', fun why hw => (List.mem_append.mp hw).elim (hne why) (hne' why)⟩
  exact hinv.2.2

/-- A signal is started and brought to the place where its data is sent. -/
def startRaw : List Act :=
  [List.replicate 7 .out, [.sendStart .dtRaw 96, .tick 75], List.replicate 5 .out, [.tick 300],
    List.replicate 5 .out].flatten

/-- The command is aborted as soon as the DTE may send, and `PreparePacket` ends the transmission. -/
theorem aborted_exit :
    ¬∀ (junk : Hdlc) (now : Int) (as : List Act) (es : List Event) (s : Sys),
      machine.Run (fun _ _ => True) (Sys.start junk now) as es s → noExit es := by
  intro h
  have hx : (machine.exec (fun _ _ => True) (Sys.start default 0)
      [startRaw, [.resetModemState, .tick 30, .out, .out, .out, .tick 30, .out, .out]].flatten).map Prod.snd =
      some [.callbackOut .updateState cbpUpdateState, .packet (some (t38indicator .noSignal)),
        .sendStart .dtRaw true, .packet (some (t38indicator .v29_9600Training)), .exit .dataNoSigStateModem] := by decide +kernel
  obtain ⟨s, hr⟩ := Machine.exec_run hx
  have := h _ _ _ _ _ hr .dataNoSigStateModem (by simp)
  cases this

theorem stopped_noExit : noExit [.callbackOut .updateState cbpUpdateState, .packet (some (t38indicator .noSignal)),
    .sendStart .dtRaw true, .packet (some (t38indicator .v29_9600Training)), .sendStop false 1 true] := by
  have hx : (machine.exec Orderly (Sys.start default 0) [startRaw, [.sendStop false 1, .modem, .resetModemState,
      .tick 30, .out, .out, .out, .tick 30, .out, .out]].flatten).map Prod.snd =
      some [.callbackOut .updateState cbpUpdateState, .packet (some (t38indicator .noSignal)),
        .sendStart .dtRaw true, .packet (some (t38indicator .v29_9600Training)), .sendStop false 1 true] := by decide +kernel
  obtain ⟨s, hr⟩ := Machine.exec_run hx
  exact run_noExit hr

end Sys

end T38Modem
