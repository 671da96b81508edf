import T38Modem.Hearing
import T38Modem.SenderExits
import T38Modem.V21Send

namespace T38Modem

/-- What is seen of a step, `v21In` telling whether the DTE was receiving a V.21 frame before it. -/
def Watch.event (w : Watch) (v21In : Bool) : Event → Watch
  | .packet ifp => w.packet ifp
  | .recvStart true => { w with got := [], ended := false }
  | .recv (some bs) => if v21In then { w with got := w.got ++ bs, ended := w.ended && bs.isEmpty } else w
  | .recv none =>
    if v21In && !w.ended then { w with ended := true, passed := w.passed ++ [w.got] } else w
  | _ => w

/-- The engine and what is seen of its V.21 frames. -/
def Sys.watched : Machine (Sys × Watch) Act Event := Sys.machine.watched fun s w ev => w.event s.e.v21In ev

/-- The packet that the thread has made and not given back yet is counted as sent. -/
structure Keeping (s : Sys) (w : Watch) : Prop where
  grammatical : ∃ ps, s.Grammatical ps
  shares : Shares (w.packet s.out.locals.ifp) s.e.frameSide
  settled : s.e.stateModem.isOut = false → ∀ w : Watch, w.packet s.out.locals.ifp = w
  ahead : s.out.pending = .data none → s.e.modParsOut.dataType = .dtHdlc → s.e.modParsOut.dataTypeT38 = .dtHdlc →
    s.e.stateModem = .stmOutNoMoreData

namespace OutPc

theorem ofOutcome_locals (r : Outcome) : (ofOutcome r).2.1.locals = r.locals := by
  cases r with
  | done e l waitData => cases waitData <;> rfl
  | _ => rfl

theorem ofOutcome_quiet (r : Outcome) {w : Watch} {v : Bool} : (ofOutcome r).2.2.foldl (fun w ev => w.event v ev) w = w := by
  cases r <;> rfl

theorem idle_pending {pc : OutPc} (hi : pc.idle = true) {count : Option (List Byte)} : pc.pending ≠ .data count := by
  intro hp
  simp [idle, hp] at hi

variable {o : Stage} {e : T38Engine} {now : Int} {pc : OutPc} {r : T38Engine × OutPc × List Event} {w : Watch}

/-- What a step of the thread keeps. -/
structure Kept (w : Watch) (r : T38Engine × OutPc × List Event) (v : Bool) : Prop where
  shares : Shares ((r.2.2.foldl (fun w ev => w.event v ev) w).packet r.2.1.locals.ifp) r.1.frameSide
  settled : r.1.stateModem.isOut = false → ∀ w : Watch, w.packet r.2.1.locals.ifp = w
  ahead : r.2.1.pending = .data none → r.1.modParsOut.dataType = .dtHdlc → r.1.modParsOut.dataTypeT38 = .dtHdlc →
    r.1.stateModem = .stmOutNoMoreData

theorem kept_outcome {r : Outcome} {v : Bool} (h : r.Shares w) : Kept w (ofOutcome r) v := by
  refine ⟨?_, ?_, ?_⟩
  · rw [ofOutcome_quiet, ofOutcome_locals, ofOutcome_engine]
    exact h.shares
  · rw [ofOutcome_locals, ofOutcome_engine]
    exact h.settled
  · rw [ofOutcome_engine]
    exact h.ahead

theorem Moves.kept {v : Bool} (hm : Moves e now pc r) (ha : At o e pc) (h : Shares (w.packet pc.locals.ifp) e.frameSide)
    (hset : e.stateModem.isOut = false → ∀ w : Watch, w.packet pc.locals.ifp = w)
    (hah : pc.pending = .data none → e.modParsOut.dataType = .dtHdlc → e.modParsOut.dataTypeT38 = .dtHdlc →
      e.stateModem = .stmOutNoMoreData) : Kept w r v := by
  cases hm with
  | @quiet pc pc' es f d t n hi hi' hl hes =>
    obtain ⟨hc, -⟩ := (at_idle hi).mp ha
    have hnone : pc.locals.ifp = none := hc.2
    have hnone' : pc'.locals.ifp = none := (hl hc).2
    refine ⟨?_, ?_, fun hp => absurd hp (idle_pending hi')⟩
    · rw [hnone] at h
      rw [hnone']
      rcases hes with rfl | rfl <;> exact h
    · rw [hnone']
      exact fun _ _ => rfl
  | prepare l =>
    obtain ⟨hc, hs⟩ := (at_idle rfl).mp ha
    have hnone : l.ifp = none := hc.2
    have h : Shares (w.packet l.ifp) e.frameSide := h
    rw [hnone] at h
    exact kept_outcome (h.prepare_shares hs hnone)
  | calls kind extra l after => exact ⟨h, hset, hah⟩
  | @redo l l' after hafter hr hp =>
    refine ⟨?_, ?_, nofun⟩
    · show Shares (w.packet l'.ifp) _
      rw [hp]
      exact h
    · show _ → ∀ w : Watch, w.packet l'.ifp = w
      rw [hp]
      exact hset
  | data l count =>
    obtain ⟨hc, hs, hd⟩ := ha
    have hnone : l.ifp = none := hc.2
    have h : Shares (w.packet l.ifp) e.frameSide := h
    rw [hnone] at h
    exact kept_outcome (h.dataSwitch_shares hs hnone hd fun hn => hah (by rw [hn]; rfl))
  | leaves l => exact ⟨h, hset, nofun⟩
  | @again l hr => exact ⟨h, hset, nofun⟩
  | @packet l hr => exact ⟨h, fun _ _ => rfl, nofun⟩

end OutPc

namespace Shares

variable {e e' : T38Engine} {w : Watch}

/-- The receiving half leaves what is sent alone, and learns nothing. -/
theorem of_deaf (h : Shares w e.frameSide) (ho : SameOut e e') (hd : T38Engine.Deaf e e') : Shares w e'.frameSide := by
  have hs : e'.stateOut = e.stateOut := ho.stateOut
  have hm : e'.modParsOut = e.modParsOut := ho.modParsOut
  have hb : e'.bufOut = e.bufOut := ho.bufOut
  have hh : e'.hdlcOut = e.hdlcOut := ho.hdlcOut
  have hx : e'.frameSide.v21Out ↔ e.frameSide.v21Out := by
    unfold FrameSide.v21Out
    rw [show e'.frameSide.stateOut = e.frameSide.stateOut from hs,
      show e'.frameSide.modParsOut = e.frameSide.modParsOut from hm]
  have hst : e'.stateModem.isOut = true → e'.stateModem = e.stateModem := fun hout =>
    ho.stateModem.resolve_right fun hn => Bool.false_ne_true (hn.2.symm.trans hout)
  refine ⟨?_, fun hv => ?_, fun hv => h.apart (hv ∘ hx.mpr), fun hv => ?_, fun he hm' => ?_, ?_, fun h1 h2 => ?_⟩
  · show e'.t30.Agrees w.passed
    rw [hd.t30]
    exact h.agrees
  · obtain ⟨h1, h2⟩ := h.sending (hx.mp hv)
    exact ⟨(congrArg T30.v21frame hd.t30).trans h1, ho.countOut.trans h2⟩
  · show e'.t30.v21frame = w.got ∧ (w.ended = true → e'.t30.v21End = e'.t30)
    rw [hd.t30]
    exact h.receiving (hd.v21In hv)
  · have hm' : e'.stateModem = .stmOutMoreData := hm'
    exact h.eof ((congrArg DataStream.eof hb).symm.trans he) ((hst (by rw [hm']; rfl)).symm.trans hm')
  · show e'.stateOut = .stOutData → e'.modParsOut.dataType = .dtHdlc → e'.modParsOut.dataTypeT38 = .dtHdlc →
      e'.hdlcOut.inDataType = .dtHdlc ∧ e'.hdlcOut.outDataType = .dtHdlc ∧ (e'.hdlcOut.inData = none → e'.bufOut.eof = true)
    rw [hs, hm, hh, hb]
    exact h.direct
  · have hn : e.stateModem = .stmOutNoMoreData := h.fcs (hs.symm.trans h1) ((congrArg ModPars.dataType hm).symm.trans h2)
    show e'.stateModem = _
    rcases ho.stateModem with hm' | ⟨hm', -⟩
    · exact hm'.trans hn
    · rw [hn] at hm'
      cases hm'

end Shares

namespace Keeping

variable {s s' : Sys} {a : Act} {es : List Event} {w : Watch}

theorem at_out (h : Keeping s w) : ∃ o, s.out.At o s.e := by
  obtain ⟨ps, hg⟩ := h.grammatical
  obtain ⟨o, -, ha⟩ := hg.begun
  exact ⟨o, ha⟩

/-- No frame is sent while the modem does not send. -/
theorem not_v21Out (h : Keeping s w) (hm : s.e.stateModem.isOut = false) : ¬s.e.frameSide.v21Out := by
  obtain ⟨o, ha⟩ := h.at_out
  obtain ⟨o', hs⟩ := ha.sends
  have hb := hs.busy
  rintro ⟨hx | hx, -⟩
  · have hx : s.e.stateOut = .stOutData := hx
    exact Bool.false_ne_true (hm.symm.trans (hb (by simp [hx]) (by simp [hx])))
  · have hx : s.e.stateOut = .stOutHdlcFcs := hx
    exact Bool.false_ne_true (hm.symm.trans (hb (by simp [hx]) (by simp [hx])))

/-- A step that the thread of `PreparePacket` does not take and that is not seen. -/
theorem of_same (h : Keeping s w) (hg : ∃ ps, s'.Grammatical ps) (ho : s'.out = s.out)
    (hs : Shares (w.packet s.out.locals.ifp) s'.e.frameSide)
    (hm : s'.e.stateModem.isOut = false → s.e.stateModem.isOut = false)
    (ha : s.out.pending = .data none → s'.e.modParsOut.dataType = .dtHdlc → s'.e.modParsOut.dataTypeT38 = .dtHdlc →
      s'.e.stateModem = .stmOutNoMoreData) : Keeping s' w := by
  refine ⟨hg, ho ▸ hs, fun hf => ?_, ho ▸ ha⟩
  rw [ho]
  exact h.settled (hm hf)

/-- A step of the receiving half that learns nothing. -/
theorem of_deaf (h : Keeping s w) (hg : ∃ ps, s'.Grammatical ps) (hr : Receives s s' es) (hd : T38Engine.Deaf s.e s'.e) :
    Keeping s' w := by
  refine h.of_same hg hr.out (h.shares.of_deaf hr.engine hd) (fun hf => hr.engine.isOut ▸ hf) fun hp h1 h2 => ?_
  have hn := h.ahead hp (hr.engine.modParsOut ▸ h1) (hr.engine.modParsOut ▸ h2)
  rcases hr.engine.stateModem with hm | ⟨hm, -⟩
  · exact hm.trans hn
  · rw [hn] at hm
    cases hm

/-- A step of the receiving half that learns something is made while the modem does not send, and the
packet that is under way is no part of a frame. -/
theorem of_learn {w' : Watch} (h : Keeping s w) (hg : ∃ ps, s'.Grammatical ps) (hr : Receives s s' es)
    (hm : s.e.stateModem.isOut = false) (hsent : w'.sent = w.sent) (hagrees : s'.e.t30.Agrees w'.passed)
    (hin : s'.e.v21In = true → s'.e.t30.v21frame = w'.got ∧ (w'.ended = true → s'.e.t30.v21End = s'.e.t30)) :
    Keeping s' w' := by
  have hset := h.settled hm
  have hsh : Shares w s.e.frameSide := hset w ▸ h.shares
  have hm' : s'.e.stateModem.isOut = false := hr.engine.isOut.trans hm
  have hout := h.not_v21Out hm
  obtain ⟨o, hat⟩ := h.at_out
  obtain ⟨o', hsends⟩ := hat.sends
  have hs : s.e.stateOut ≠ .stOutData ∧ s.e.stateOut ≠ .stOutHdlcFcs := by
    constructor <;> intro hx <;> exact Bool.false_ne_true (hm.symm.trans (hsends.busy (by simp [hx]) (by simp [hx])))
  have hs' : s'.e.stateOut ≠ .stOutData ∧ s'.e.stateOut ≠ .stOutHdlcFcs := hr.engine.stateOut.symm ▸ hs
  have hout' : ¬s'.e.frameSide.v21Out := Shares.not_v21Out hs'.1 hs'.2
  refine ⟨hg, ?_, fun _ => hr.out ▸ hset, fun hp => absurd (hat.busy (hr.out ▸ hp)) (by simp [hm])⟩
  rw [hr.out, hset]
  refine ⟨hagrees, fun hx => absurd hx hout', fun _ => hsent.trans (hsh.apart hout), hin, fun _ hx => ?_,
    fun hx => absurd hx hs'.1, fun hx => absurd hx hs'.2⟩
  have hx : s'.e.stateModem = .stmOutMoreData := hx
  rw [hx] at hm'
  cases hm'

theorem ofInOutcome_engine (s : Sys) (ifp : Ifp) (r : InOutcome) : (s.ofInOutcome ifp r).1.e = r.engine := by
  cases r <;> rfl

theorem ofInOutcome_quiet (s : Sys) (ifp : Ifp) (r : InOutcome) {v : Bool} :
    (s.ofInOutcome ifp r).2.foldl (fun w ev => w.event v ev) w = w := by
  cases r <;> rfl

theorem v21In_isOut {e : T38Engine} (h : e.v21In = true) : e.stateModem.isOut = false := by
  by_contra hn
  have hout : e.stateModem.isOut = true := by simpa using hn
  exact Bool.false_ne_true ((Shares.not_v21In hout).symm.trans h)

theorem recvStart_step (h : Keeping s w) (cb : Int) (hg : ∃ ps, s'.Grammatical ps) (hr : Receives s s' es)
    (hs : s' = { s with e := (s.e.recvStart cb).2 }) : Keeping s' (w.event s.e.v21In (.recvStart (s.e.recvStart cb).1)) := by
  rcases s.e.recvStart_v21 cb with ⟨e', he, hd⟩ | ⟨e', he, hm, ht⟩
  · rw [he] at hs ⊢
    subst hs
    exact h.of_deaf hg hr hd
  · rw [he] at hs ⊢
    subst hs
    have hm : s.e.stateModem.isOut = false := by rw [hm]; rfl
    have hagrees : s.e.t30.Agrees w.passed := by
      have := h.shares.agrees
      rwa [h.settled hm] at this
    refine h.of_learn hg hr hm rfl ?_ fun hv => ?_
    · show e'.t30.Agrees w.passed
      rw [ht]
      split
      · exact hagrees.congr rfl rfl
      · exact hagrees
    · have ht : e'.t30 = s.e.t30.v21Begin := ht.trans (if_pos hv)
      refine ⟨?_, nofun⟩
      show e'.t30.v21frame = []
      rw [ht]
      rfl

theorem recv_step (h : Keeping s w) (count : Nat) (hg : ∃ ps, s'.Grammatical ps) (hr : Receives s s' es)
    (hs : s' = { s with e := (s.e.recv count).2 }) (ho : s.e.modemOpen = true) :
    Keeping s' (w.event s.e.v21In (.recv (s.e.recv count).1)) := by
  obtain ⟨res, e', he, hv, ht⟩ := s.e.recv_v21 count ho
  rw [he] at hs ⊢
  subst hs
  by_cases hin : s.e.v21In = true
  · have hm := v21In_isOut hin
    rw [if_pos hin] at ht
    have hsh : Shares w s.e.frameSide := h.settled hm w ▸ h.shares
    obtain ⟨hf, hover⟩ := hsh.receiving hin
    have hf : s.e.t30.v21frame = w.got := hf
    have hagrees : s.e.t30.Agrees w.passed := hsh.agrees
    cases res with
    | none =>
      have ht : e'.t30 = s.e.t30.v21End := ht
      have hstable : s.e.t30.v21End.v21End = s.e.t30.v21End := T30.v21End_v21End
      cases hov : w.ended with
      | true =>
        have hq : w.event s.e.v21In (.recv none) = w := by simp [Watch.event, hov]
        have ht : e'.t30 = s.e.t30 := ht.trans (hover hov)
        rw [hq]
        exact h.of_deaf hg hr ⟨ht, fun _ => hin⟩
      | false =>
        have hq : w.event s.e.v21In (.recv none) = { w with ended := true, passed := w.passed ++ [w.got] } := by
          simp [Watch.event, hin, hov]
        rw [hq]
        refine h.of_learn hg hr hm rfl ?_ fun _ => ?_
        · show e'.t30.Agrees (w.passed ++ [w.got])
          rw [ht, ← hf]
          exact hagrees.v21End
        · show e'.t30.v21frame = w.got ∧ (true = true → e'.t30.v21End = e'.t30)
          rw [ht, T30.v21End_frame, hstable]
          exact ⟨hf, fun _ => rfl⟩
    | some bs =>
      have ht : e'.t30 = s.e.t30.v21Data bs := ht
      have hq : w.event s.e.v21In (.recv (some bs)) = { w with got := w.got ++ bs, ended := w.ended && bs.isEmpty } := by
        simp [Watch.event, hin]
      rw [hq]
      refine h.of_learn hg hr hm rfl ?_ fun _ => ⟨?_, fun hx => ?_⟩
      · show e'.t30.Agrees w.passed
        rw [ht]
        exact hagrees.congr rfl rfl
      · show e'.t30.v21frame = w.got ++ bs
        rw [ht, ← hf]
        rfl
      · obtain ⟨hov, hb⟩ := (Bool.and_eq_true _ _).mp hx
        obtain rfl : bs = [] := List.isEmpty_iff.mp hb
        have ht : e'.t30 = s.e.t30 := by simpa [T30.v21Data] using ht
        show e'.t30.v21End = e'.t30
        rw [ht]
        exact hover hov
  · rw [if_neg hin] at ht
    have hq : w.event s.e.v21In (.recv res) = w := by cases res <;> simp [Watch.event, hin]
    rw [hq]
    exact h.of_deaf hg hr ⟨ht, fun hx => hv ▸ hx⟩

/-- The receiving half keeps the frames apart. -/
theorem receives (h : Keeping s w) (hg : ∃ ps, s'.Grammatical ps) (hr : Receives s s' es) (ho : s.e.modemOpen = true)
    (hh : Sys.Hears s a s' es) (ha : a.receiving = true) : Keeping s' (es.foldl (fun w ev => w.event s.e.v21In ev) w) := by
  cases hh with
  | speaks hf => exact absurd (ha.symm.trans hf) (by decide)
  | sendStart | resetModemState => cases ha
  | openIn hi => exact h.of_deaf hg hr (.of_eq rfl rfl rfl)
  | handlePacket ifp hi =>
    rw [ofInOutcome_quiet]
    refine h.of_deaf hg hr ?_
    rw [ofInOutcome_engine]
    exact T38Engine.handlePacket_deaf ifp
  | calls hi => exact h.of_deaf hg hr (.refl _)
  | @resumes ifp after hi =>
    rw [ofInOutcome_quiet]
    refine h.of_deaf hg hr ?_
    rw [ofInOutcome_engine]
    exact T38Engine.resumePacket_deaf after
  | handlePacketLost hi => exact h.of_deaf hg hr T38Engine.handlePacketLost_deaf
  | recvWait t param cb => exact h.of_deaf hg hr (T38Engine.recvWait_deaf t param cb)
  | recvStart cb => exact h.recvStart_step cb hg hr rfl
  | recv count => exact h.recv_step count hg hr rfl ho
  | recvDiag => exact h.of_deaf hg hr (.refl _)
  | recvStop => exact h.of_deaf hg hr T38Engine.recvStop_deaf

theorem sendStart_frames {e : T38Engine} (dataType : DataType) (param : Int) (hm : e.stateModem.isOut = false) :
    (e.sendStart dataType param).2.t30 = e.t30 ∧ ((e.sendStart dataType param).2.v21In = true → e.v21In = true) ∧
      ((e.sendStart dataType param).2.bufOut.eof = true → (e.sendStart dataType param).2.stateModem ≠ .stmOutMoreData) := by
  have hmore : e.stateModem ≠ .stmOutMoreData := by
    intro hx
    rw [hx] at hm
    cases hm
  unfold T38Engine.sendStart
  split
  · exact ⟨rfl, id, fun _ => hmore⟩
  · split
    · exact ⟨rfl, id, fun _ => hmore⟩
    · dsimp only
      split
      · split
        · exact ⟨rfl, fun h => (by cases h), fun h => by cases h⟩
        · exact ⟨rfl, by simp [T38Engine.v21In], fun _ => hmore⟩
      · split
        · exact ⟨rfl, fun h => (by cases h), fun h => by cases h⟩
        · exact ⟨rfl, by simp [T38Engine.v21In], fun _ => hmore⟩

theorem sendStart_step (h : Keeping s w) (dataType : DataType) (param : Int)
    (hg : ∃ ps, Sys.Grammatical { s with e := (s.e.sendStart dataType param).2 } ps) :
    Keeping { s with e := (s.e.sendStart dataType param).2 } w := by
  cases hm : s.e.stateModem.isOut with
  | true =>
    rw [T38Engine.sendStart_busy hm]
    exact h
  | false =>
    have hset := h.settled hm
    have hsh : Shares w s.e.frameSide := hset w ▸ h.shares
    have hout := h.not_v21Out hm
    obtain ⟨o, hat⟩ := h.at_out
    obtain ⟨o', hsends⟩ := hat.sends
    have hs : s.e.stateOut ≠ .stOutData ∧ s.e.stateOut ≠ .stOutHdlcFcs := by
      constructor <;> intro hx <;> exact Bool.false_ne_true (hm.symm.trans (hsends.busy (by simp [hx]) (by simp [hx])))
    obtain ⟨ht, hin, heof⟩ := sendStart_frames dataType param hm
    have hso : (s.e.sendStart dataType param).2.frameSide.stateOut = s.e.stateOut := (hsends.sendStart dataType param).2
    have hsh' : Shares w (s.e.sendStart dataType param).2.frameSide :=
      hsh.of_quiet ht hout ⟨fun hx => hs.1 (hso.symm.trans hx), fun hx => hs.2 (hso.symm.trans hx)⟩ hin heof
    refine h.of_same hg rfl ?_ (fun _ => hm) fun hp => ?_
    · show Shares (w.packet s.out.locals.ifp) _
      rw [hset]
      exact hsh'
    · exact absurd (hat.busy hp) (by simp [hm])

/-- The frames are kept apart in every step but a reset. -/
theorem step (h : Keeping s w) (ha : a ≠ .resetModemState) (hs : Sys.machine.step s a = some (s', es)) :
    Keeping s' (es.foldl (fun w ev => w.event s.e.v21In ev) w) := by
  obtain ⟨ps, hgr⟩ := h.grammatical
  have hst := Sys.step_cases hs
  obtain ⟨ps', -, hgr'⟩ := hgr.step hst
  have hg : ∃ ps, s'.Grammatical ps := ⟨_, hgr'⟩
  have hatt := hgr.attached
  cases hst with
  | tick ms => exact h.of_same hg rfl h.shares id h.ahead
  | @out r hr =>
    obtain ⟨o, hat⟩ := h.at_out
    have hk := (hr ▸ hatt.moves).kept (v := s.e.v21In) hat h.shares h.settled h.ahead
    exact ⟨hg, hk.shares, hk.settled, hk.ahead⟩
  | setPreparePacketTimeout timeout period =>
    have hq : (s.e.setPreparePacketTimeout Sys.hOwnerOut timeout period).frameSide = s.e.frameSide := by
      unfold T38Engine.setPreparePacketTimeout
      split <;> rfl
    have hm : (s.e.setPreparePacketTimeout Sys.hOwnerOut timeout period).stateModem = s.e.stateModem :=
      congrArg FrameSide.stateModem hq
    have hp : (s.e.setPreparePacketTimeout Sys.hOwnerOut timeout period).modParsOut = s.e.modParsOut :=
      congrArg FrameSide.modParsOut hq
    refine h.of_same hg rfl (hq ▸ h.shares) (fun hf => hm ▸ hf) fun hpend => ?_
    show (s.e.setPreparePacketTimeout Sys.hOwnerOut timeout period).modParsOut.dataType = _ →
      (s.e.setPreparePacketTimeout Sys.hOwnerOut timeout period).modParsOut.dataTypeT38 = _ →
      (s.e.setPreparePacketTimeout Sys.hOwnerOut timeout period).stateModem = _
    rw [hm, hp]
    exact h.ahead hpend
  | receives hrec hr => exact h.receives hg hr hatt.modemOpen (Sys.step_hears hatt hs) hrec
  | sendOnIdle dataType hm => exact h.of_same hg rfl h.shares id h.ahead
  | sendStart dataType param hm => exact h.sendStart_step dataType param hg
  | checkSend bs hm hc => exact h.of_same hg rfl h.shares id h.ahead
  | refuseSend bs hm hc => exact h
  | checkSendStop moreFrames cb hm hc => exact h.of_same hg rfl h.shares id h.ahead
  | refuseSendStop moreFrames cb hm hc => exact h
  | send bs hm =>
    have heof : (s.e.bufOut.putData bs).2.eof = s.e.bufOut.eof := DataStream.putData_eof
    refine h.of_same hg rfl ?_ id h.ahead
    obtain ⟨h1, h2, h3, h4, h5, h6, h7⟩ := h.shares
    exact ⟨h1, h2, h3, h4, fun he => h5 (heof.symm.trans he), fun a b c => ⟨(h6 a b c).1, (h6 a b c).2.1, fun hn => heof.trans ((h6 a b c).2.2 hn)⟩, h7⟩
  | sendStop moreFrames cb hm =>
    refine h.of_same hg rfl ?_ nofun fun _ _ _ => rfl
    obtain ⟨h1, h2, h3, h4, h5, h6, h7⟩ := h.shares
    exact ⟨h1, h2, h3, nofun, fun _ => nofun, fun a b c => ⟨(h6 a b c).1, (h6 a b c).2.1, fun _ => rfl⟩, fun _ _ => rfl⟩
  | resetModemState => exact absurd rfl ha

theorem start (junk : Hdlc) (now : Int) : Keeping (Sys.start junk now) {} where
  grammatical := ⟨[], .start junk now⟩
  shares := ⟨T30.agrees_start, fun hx => absurd hx (by simp [FrameSide.v21Out, T38Engine.frameSide, Sys.start, T38Engine.new, T38Engine.onResetModemState]), fun _ => rfl, nofun, fun _ => nofun, nofun, nofun⟩
  settled := fun _ _ => rfl
  ahead := nofun

end Keeping

namespace Sys

/-- In every run without a reset the frames of the two directions are never mixed, and where the engine
chooses the data format of a signal it does as the frames that have passed have agreed. -/
theorem run_ecm {junk : Hdlc} {now : Int} {as : List Act} {es : List Event} {s : Sys} {w : Watch}
    (h : watched.Run (fun _ a => a ≠ .resetModemState) (start junk now, {}) as es (s, w)) :
    (s.e.frameSide.v21Out → s.e.v21In = false ∧ s.e.t30.v21frame = (w.packet s.out.locals.ifp).sent) ∧
    (s.e.v21In = true → ¬s.e.frameSide.v21Out ∧ s.e.t30.v21frame = w.got) ∧
    (s.e.stateModem = .stmIdle → (s.e.t30.hdlcOnly = true ↔ EcmAgreed w.passed)) ∧
    (s.e.stateModem ≠ .stmIdle → ∀ t param cb,
      s.e.sendStart t param = (false, s.e) ∧ s.e.recvWait t param cb = (false, false, s.e)) := by
  have hk : Keeping s w := by
    refine h.state_invariant (I := fun x => Keeping x.1 x.2) (.start junk now) fun x a x' es' hx ha hs => ?_
    obtain ⟨hs, hw⟩ := Machine.watched_step hs
    rw [hw]
    exact hx.step ha hs
  have hout (hm : s.e.stateModem.isOut = false) : Shares w s.e.frameSide := hk.settled hm w ▸ hk.shares
  refine ⟨fun hx => ⟨?_, (hk.shares.sending hx).1⟩, fun hx => ?_, fun hm => ?_, fun hm t param cb => ⟨?_, ?_⟩⟩
  · by_contra hv
    exact hk.not_v21Out (Keeping.v21In_isOut (by simpa using hv)) hx
  · have hm := Keeping.v21In_isOut hx
    exact ⟨hk.not_v21Out hm, ((hout hm).receiving hx).1⟩
  · exact (hout (by rw [hm]; rfl)).agrees.hdlcOnly
  · unfold T38Engine.sendStart
    split <;> rfl
  · exact T38Engine.recvWait_busy t param cb hm

/-- The engine sends a DCS with error correction, and receives the CFR. -/
def agreement : List Act :=
  [.tick 10000 :: List.replicate 7 .out,
    [.sendStart .dtHdlc 3, .send [0xFF, 0xC8, 0x41, 0, 0, 1, 0x20], .modem, .sendStop false 1, .modem],
    (List.replicate 10 (.tick 10000 :: List.replicate 7 .out)).flatten,
    [.recvWait .dtHdlc 3 5, .handlePacket (t38indicator .v21Preamble), .inn, .inn,
      .handlePacket (t38data .v21 .hdlcData [0xFF, 0xC8, 0x21]), .handlePacket (t38data .v21 .hdlcFcsOK []),
      .recvStart 6, .recv 10, .recv 10, .recvStop]].flatten

theorem agreement_ecm : ∃ x : Sys × Watch,
    x.1.e.stateModem = .stmIdle ∧ (x.1.e.t30.hdlcOnly = true ↔ EcmAgreed x.2.passed) ∧ x.1.e.t30.hdlcOnly = true := by
  have hx : (watched.exec (fun _ a => a ≠ .resetModemState) (start default 0, {}) agreement).any
      (fun r => decide (r.1.1.e.stateModem = .stmIdle) && r.1.1.e.t30.hdlcOnly) = true := by decide +kernel
  obtain ⟨⟨s, w⟩, es, hr, ht⟩ := Machine.exec_passes hx
  simp only [Bool.and_eq_true, decide_eq_true_eq] at ht
  exact ⟨(s, w), ht.1, (run_ecm hr).2.2.1 ht.1, ht.2⟩

end Sys

end T38Modem
