import T38Modem.Completion
import T38Modem.FrameTurns
import T38Modem.SendFidelity

namespace T38Modem

/-- The calls with which the modem sends, as the modem sees them. -/
def Event.call : Event → Option ModemOut
  | .send bs _ => some (.send bs)
  | .sendStop moreFrames _ _ => some (.sendStop moreFrames)
  | _ => none

def sendCalls (es : List Event) : List ModemOut := es.filterMap Event.call

theorem sendCalls_append {es es' : List Event} : sendCalls (es ++ es') = sendCalls es ++ sendCalls es' :=
  List.filterMap_append

/-- A call that the engine has taken whole. -/
def Event.Taken : Event → Prop
  | .send bs res => res = some bs.length
  | .sendStop _ _ ok => ok = true
  | _ => True

/-- What the modem has got in with a call. -/
def Accepted.call (a : Accepted) : ModemOut → Accepted
  | .send bs => { a with data := a.data ++ bs }
  | .sendStop moreFrames => { a with frames := a.frames ++ [(a.data, moreFrames)], data := [] }
  | _ => a

/-- When all calls are taken the modem has got in what it has called for. -/
theorem accepted_calls {es : List Event} (h : ∀ ev ∈ es, ev.Taken) : accepted es = (sendCalls es).foldl Accepted.call {} := by
  induction es using List.reverseRecOn with
  | nil => rfl
  | append_singleton es ev ih =>
    have htaken : ev.Taken := h ev (List.mem_append_right _ (List.mem_singleton.mpr rfl))
    rw [accepted_append, sendCalls_append, List.foldl_append, ih fun ev' hev => h ev' (List.mem_append_left _ hev)]
    cases ev with
    | send bs res =>
      cases (show res = some bs.length from htaken)
      show Accepted.event _ (.send bs (some bs.length)) = Accepted.call _ (.send bs)
      simp only [Accepted.event, Accepted.call, List.take_length]
    | sendStop moreFrames callbackParam ok =>
      cases (show ok = true from htaken)
      rfl
    | _ => rfl

/-- A stop that is among what the modem has got in is one of its calls. -/
theorem stopped_call {es : List Event} {f : List Byte × Bool} (h : f ∈ (accepted es).frames) :
    .sendStop f.2 ∈ sendCalls es := by
  induction es using List.reverseRecOn with
  | nil => cases h
  | append_singleton es ev ih =>
    rw [sendCalls_append]
    rw [accepted_append] at h
    by_cases hold : f ∈ (accepted es).frames
    · exact List.mem_append_left _ (ih hold)
    · refine List.mem_append_right _ ?_
      cases ev with
      | send bs res => cases res <;> exact absurd h hold
      | sendStop moreFrames callbackParam ok =>
        cases ok with
        | false => exact absurd h hold
        | true =>
          rcases List.mem_append.mp h with h | h
          · exact absurd h hold
          · obtain rfl := List.mem_singleton.mp h
            exact List.mem_singleton.mpr rfl
      | _ => exact absurd h hold

/-- Behind the stop of the last frame there is no call. -/
def Proper (cs : List ModemOut) : Prop := ∀ front rest, cs = front ++ .sendStop false :: rest → rest = []

theorem Proper.of_append {cs cs' : List ModemOut} (h : Proper (cs ++ cs')) : Proper cs := fun front rest he =>
  (List.append_eq_nil_iff.mp (h front (rest ++ cs') (by rw [he]; simp))).1

theorem Proper.not_mem {cs : List ModemOut} {c : ModemOut} (h : Proper (cs ++ [c])) : .sendStop false ∉ cs := fun hm => by
  obtain ⟨front, rest, rfl⟩ := List.append_of_mem hm
  have hnil := h front (rest ++ [c]) (by simp)
  simp at hnil

theorem Proper.concat {cs : List ModemOut} (h : .sendStop false ∉ cs) (c : ModemOut) : Proper (cs ++ [c]) := by
  intro front rest he
  cases rest using List.reverseRecOn with
  | nil => rfl
  | append_singleton rest c' =>
    have hsplit : cs ++ [c] = (front ++ .sendStop false :: rest) ++ [c'] := by simpa using he
    obtain ⟨rfl, -⟩ := List.append_inj' hsplit rfl
    exact absurd (List.mem_append_right front List.mem_cons_self) h

namespace Modem

open ModemEngineBody Escape

variable {a : Answers} {b : ModemEngineBody} {m : Modem} {frame : List Byte} {frames : List (List Byte)}
  {segs : List (List ModemAct × List ModemSeen)}

/-- What the engine gets in for a frame. -/
theorem SentAs.accepted {cs : List ModemOut} (h : SentAs frame cs) {acc : Accepted} (hd : acc.data = []) :
    cs.foldl Accepted.call acc = ⟨acc.frames ++ [(frame.map bitRevTable, moreToCome (frame.map bitRevTable))], []⟩ := by
  obtain ⟨chunks, hflat, rfl⟩ := h
  have hsends (chunks : List (List Byte)) (acc : Accepted) :
      (chunks.map ModemOut.send).foldl Accepted.call acc = { acc with data := acc.data ++ chunks.flatten } := by
    induction chunks generalizing acc with
    | nil => simp
    | cons c chunks ih =>
      rw [List.map_cons, List.foldl_cons, ih]
      simp [Accepted.call]
  rw [List.foldl_append, hsends, hd, List.nil_append, hflat]
  rfl

/-- The DTE gives a frame in, and what it gives behind its end is not of the frame. -/
def Gives (frame : List Byte) (seg : List ModemAct × List ModemSeen) : Prop :=
  ∃ junk, seg.1.flatMap dteInput = stuff DLE frame ++ DLE :: ETX :: junk

theorem given (h : List.Forall₂ Gives frames segs) {seg : List ModemAct × List ModemSeen} (hs : seg ∈ segs) :
    ∃ frame, Gives frame seg := by
  induction h with
  | nil => cases hs
  | @cons frame seg' _ _ hgive _ ih =>
    rcases List.mem_cons.mp hs with rfl | hs
    · exact ⟨frame, hgive⟩
    · exact ih hs

/-- The calls of the engine for the frames of a signal. -/
theorem Signal.calls (h : Signal ⟨(b.sendStart a .dtHdlc).2, .idle⟩ segs m) (hm : b.modemClass = .mcFax)
    (hc : (b.sendStart a .dtHdlc).1 = true) (hpc : m.pc = .idle) (hin : List.Forall₂ Gives frames segs) :
    Proper (segs.flatMap fun seg => engineCalls seg.2) ∧
      (segs.flatMap fun seg => engineCalls seg.2).foldl Accepted.call {} =
        ⟨frames.map fun f => (f.map bitRevTable, moreToCome (f.map bitRevTable)), []⟩ := by
  have hfresh := sendStart_fresh hm hc
  have hsent : ∀ seg ∈ segs, ∀ frame, Gives frame seg → SentAs frame (engineCalls seg.2) := by
    obtain ⟨before, as, es, rfl, hframe, hbefore⟩ := h.framing hfresh rfl
    rintro seg hseg frame ⟨junk, hgive⟩
    rcases List.mem_append.mp hseg with hseg | hseg
    · exact hbefore seg hseg frame junk hgive
    · obtain rfl := List.mem_singleton.mp hseg
      exact hframe.sentAs (.inr hpc) hgive
  constructor
  · obtain ⟨before, as, es, rfl, -, -, hmore⟩ := h.marked hfresh rfl
    obtain ⟨frame, hgive⟩ := given hin (List.mem_append_right before (List.mem_singleton.mpr rfl))
    obtain ⟨chunks, -, hcalls⟩ := hsent (as, es) (by simp) frame hgive
    rw [List.flatMap_append, List.flatMap_singleton, hcalls, ← List.append_assoc]
    refine Proper.concat (fun hstop => ?_) _
    rcases List.mem_append.mp hstop with hstop | hstop
    · obtain ⟨seg, hseg, hmem⟩ := List.mem_flatMap.mp hstop
      exact Bool.false_ne_true (hmore seg hseg false hmem)
    · obtain ⟨c, -, hc⟩ := List.mem_map.mp hstop
      cases hc
  · have hfold (acc : Accepted) (hd : acc.data = []) :
        (segs.flatMap fun seg => engineCalls seg.2).foldl Accepted.call acc =
          ⟨acc.frames ++ frames.map fun f => (f.map bitRevTable, moreToCome (f.map bitRevTable)), []⟩ := by
      clear h
      induction hin generalizing acc with
      | nil =>
        obtain ⟨fs, data⟩ := acc
        cases hd
        simp
      | @cons frame seg frames segs hgive _ ih =>
        have hfirst := (hsent seg List.mem_cons_self frame hgive).accepted hd
        rw [List.flatMap_cons, List.foldl_append, hfirst,
          ih (fun seg' hseg' => hsent seg' (List.mem_cons_of_mem _ hseg')) _ rfl]
        simp
    exact hfold {} rfl

end Modem

namespace OutPc

theorem dataSwitch_calm (e : T38Engine) (now : Int) (l : Locals) (count : Option (List Byte)) :
    (ofOutcome (e.dataSwitch now l count)).1.stateModem = e.stateModem ∧
      (ofOutcome (e.dataSwitch now l count)).2.1.callback ≠ some .paramOut := by
  refine ⟨by rw [ofOutcome_engine, T38Engine.dataSwitch_stateModem], ?_⟩
  unfold T38Engine.dataSwitch
  split
  · dsimp only
    split <;> nofun
  · split
    · nofun
    · split
      · nofun
      · split <;> nofun
  · dsimp only
    split <;> nofun

/-- The body of `PreparePacket` tells of the end of an operation when it leaves the state in which the modem has
stopped. -/
theorem prepare_tells {e : T38Engine} (now : Int) (hs : e.stateOut ≠ .stOutCedWait ∧ e.stateOut ≠ .stOutSilenceWait) (l : Locals) :
    ((ofOutcome (e.prepare now l)).1.stateModem = e.stateModem ∧
        (ofOutcome (e.prepare now l)).2.1.callback ≠ some .paramOut) ∨
      (e.stateModem = .stmOutNoMoreData ∧ (ofOutcome (e.prepare now l)).1.stateModem ≠ .stmOutNoMoreData) := by
  unfold T38Engine.prepare
  split
  · cases h : e.stateOut with
    | stOutIdle =>
      refine .inl ?_
      have hw := Sends.waitCarrier_same { e with delaySignalOut := false } now
      dsimp only [T38Engine.outIdle]
      split
      · exact ⟨rfl, nofun⟩
      · split
        next e' he =>
          rw [he] at hw
          exact ⟨hw.2.2.2.1, nofun⟩
        next e' he =>
          rw [he] at hw
          split <;> exact ⟨hw.2.2.2.1, nofun⟩
    | stOutCedWait => exact absurd h hs.1
    | stOutSilenceWait => exact absurd h hs.2
    | stOutIndWait =>
      refine .inl ?_
      dsimp only [T38Engine.outIndWait]
      split
      · exact ⟨rfl, nofun⟩
      · split
        · exact ⟨rfl, nofun⟩
        · split <;> exact ⟨rfl, nofun⟩
        · exact ⟨rfl, nofun⟩
    | stOutData =>
      refine .inl ?_
      dsimp only [T38Engine.outData]
      obtain ⟨count, hdlcOut, bufOut⟩ := e.hdlcOut.getData e.bufOut (T38Engine.dataLen e.modParsOut.br)
      split
      · exact ⟨rfl, nofun⟩
      · exact dataSwitch_calm { e with hdlcOut, bufOut } now l count
    | stOutHdlcFcs =>
      dsimp only [T38Engine.outHdlcFcs]
      split
      · refine .inl ?_
        split <;> exact ⟨rfl, nofun⟩
      · split
        · exact .inl ⟨rfl, nofun⟩
        next hm =>
          split
          · exact .inr ⟨not_not.mp hm, nofun⟩
          · exact .inl ⟨rfl, nofun⟩
    | stOutDataNoSig =>
      dsimp only [T38Engine.outDataNoSig]
      split
      · exact .inl ⟨rfl, nofun⟩
      next hm =>
        split
        · exact .inr ⟨not_not.mp hm, nofun⟩
        · exact .inr ⟨not_not.mp hm, nofun⟩
        · exact .inl ⟨rfl, nofun⟩
    | stOutNoSig => exact .inl ⟨rfl, nofun⟩
  · unfold T38Engine.onIdle
    split <;> exact .inl ⟨rfl, nofun⟩

/-- The thread calls for nothing that is to be sent. -/
theorem Moves.taken {e : T38Engine} {now : Int} {pc : OutPc} {r : T38Engine × OutPc × List Event} (hm : Moves e now pc r) : ∀ ev ∈ r.2.2, ev.Taken := by
  have outcome (x : Outcome) : ∀ ev ∈ (ofOutcome x).2.2, ev.Taken := by
    cases x <;> simp [ofOutcome, Event.Taken]
  cases hm with
  | quiet f d b n hi hi' hl hes => rcases hes with rfl | rfl <;> simp [Event.Taken]
  | prepare l => exact outcome _
  | data l count => exact outcome _
  | _ => simp [Event.Taken]

end OutPc

/-- The parameter of the stop behind which the modem waits. -/
def awaited (w : Option Int) : Event → Option Int
  | .sendStop _ callbackParam true => some callbackParam
  | .callbackOut .paramOut _ => none
  | _ => w

namespace Sys

/-- The engine with what the modem waits for. -/
def turns : Machine (Sys × Option Int) Act Event := machine.watched fun _ => awaited

/-- The modem lets its operation be, and goes on with it when it has been told that the frame before is sent. -/
def Courteous (x : Sys × Option Int) (a : Act) : Prop :=
  a.command = false ∧ (x.2 ≠ none → match a with | .send _ | .sendStop .. => False | _ => True)

instance (x : Sys × Option Int) : ∀ a, Decidable (Courteous x a)
  | .send _ | .sendStop .. => inferInstanceAs (Decidable (_ ∧ (_ → False)))
  | .tick _ | .out | .setPreparePacketTimeout .. | .openIn | .handlePacket _ | .inn | .handlePacketLost | .sendOnIdle _
  | .sendStart .. | .modem | .resetModemState | .recvWait .. | .recvStart _ | .recv _ | .recvDiag | .recvStop =>
    inferInstanceAs (Decidable (_ ∧ (_ → True)))

/-- What the turns say of the engine. -/
structure Turn (w : Option Int) (s : Sys) : Prop where
  free : w = none → s.e.stateModem ≠ .stmOutNoMoreData ∧ s.out.callback ≠ some .paramOut
  held : w ≠ none → s.modem = .out ∧ (s.out.callback = some .paramOut → s.e.stateModem ≠ .stmOutNoMoreData)

variable {s s' : Sys} {a : Act} {es es' : List Event} {w : Option Int} {ind : Indicator} {t : DataType}

theorem awaited_quiet (h : ∀ ev ∈ es, ev.sending = false) : es.foldl awaited w = w := by
  induction es with
  | nil => rfl
  | cons ev es ih =>
    have hev := h ev List.mem_cons_self
    rw [List.foldl_cons, show awaited w ev = w by cases ev <;> first | rfl | cases hev]
    exact ih fun ev' hm => h ev' (List.mem_cons_of_mem ev hm)

/-- A step that does not touch the turns. -/
theorem Turn.of_same (h : Turn w s) (hm : s'.e.stateModem = .stmOutNoMoreData → s.e.stateModem = .stmOutNoMoreData)
    (ho : s'.out = s.out) (hmodem : w ≠ none → s.modem = .out → s'.modem = .out) : Turn w s' := by
  refine ⟨fun hw => ?_, fun hw => ?_⟩
  · obtain ⟨hstop, hcall⟩ := h.free hw
    exact ⟨fun he => hstop (hm he), by rwa [ho]⟩
  · obtain ⟨hout, hcall⟩ := h.held hw
    exact ⟨hmodem hw hout, fun hc he => hcall (ho ▸ hc) (hm he)⟩

theorem Turn.out_step (h : Turn w s) (hs : s.e.stateOut ≠ .stOutCedWait ∧ s.e.stateOut ≠ .stOutSilenceWait)
    {r : T38Engine × OutPc × List Event} (hm : OutPc.Moves s.e s.now s.out r) :
    Turn (r.2.2.foldl awaited w) { s with e := r.1, out := r.2.1 } := by
  -- what is not a callback of the end of an operation leaves the turns alone
  have same (hst : r.1.stateModem = s.e.stateModem) (hc : r.2.1.callback ≠ some .paramOut)
      (hw : r.2.2.foldl awaited w = w) : Turn (r.2.2.foldl awaited w) { s with e := r.1, out := r.2.1 } := by
    rw [hw]
    refine ⟨fun hn => ⟨?_, hc⟩, fun hn => ⟨(h.held hn).1, fun hc' => absurd hc' hc⟩⟩
    dsimp only
    rw [hst]
    exact (h.free hn).1
  have outcome (x : Outcome) : (OutPc.ofOutcome x).2.2.foldl awaited w = w := by
    cases x <;> rfl
  generalize hpc : s.out = pc at hm
  cases hm with
  | quiet firstOut outDataReady timeBeginOut rawCount hi hi' hl hes ht hc =>
    refine same rfl ?_ (by rcases hes with rfl | rfl <;> rfl)
    rcases hc with hc | hc <;> rw [hc] <;> nofun
  | prepare l =>
    rcases OutPc.prepare_tells s.now hs l with ⟨hst, hc⟩ | ⟨hbefore, hafter⟩
    · exact same hst hc (outcome _)
    · rw [outcome]
      exact ⟨fun hn => absurd hbefore (h.free hn).1, fun hn => ⟨(h.held hn).1, fun _ => hafter⟩⟩
  | calls kind extra l after =>
    by_cases hk : kind = .paramOut
    · subst hk
      have hcall : s.out.callback = some .paramOut := by rw [hpc]; rfl
      refine ⟨fun _ => ⟨?_, nofun⟩, fun hn => absurd rfl hn⟩
      cases w with
      | none => exact (h.free rfl).1
      | some cb => exact (h.held nofun).2 hcall
    · refine same rfl nofun ?_
      cases kind <;> first | rfl | exact absurd rfl hk
  | data l count =>
    obtain ⟨hst, hc⟩ := OutPc.dataSwitch_calm s.e s.now l count
    exact same hst hc (outcome _)
  | _ => exact same rfl nofun rfl

/-- What the engine has taken, when the modem makes no call behind its last stop. -/
structure Served (ind : Indicator) (es : List Event) (x : Sys × Option Int) : Prop where
  conveys : x.1.Conveys ind .dtHdlc es
  turn : Turn x.2 x.1
  taken : Proper (sendCalls es) → ∀ ev ∈ es, ev.Taken

namespace Served

variable {x x' : Sys × Option Int}

theorem untimed (h : Served ind es x) : x.1.e.stateOut ≠ .stOutCedWait ∧ x.1.e.stateOut ≠ .stOutSilenceWait := by
  cases hout : x.1.e.stateModem.isOut with
  | true => exact h.conveys.joined.link.untimed hout
  | false =>
    obtain ⟨ps, hg⟩ := h.conveys.grammatical
    obtain ⟨o, -, hat⟩ := hg.begun
    obtain ⟨_, hsend⟩ := hat.sends
    rcases hsend.quiet hout with hq | hq <;> rw [hq] <;> exact ⟨nofun, nofun⟩

/-- When it is the modem's turn a call is not refused. -/
theorem accepts (h : Served ind es x) (hw : x.2 = none) (hc : x.1.e.canSend = false) : .sendStop false ∈ sendCalls es := by
  obtain ⟨ps, hg⟩ := h.conveys.grammatical
  have hstop := (h.turn.free hw).1
  have hmore : x.1.e.stateModem ≠ .stmOutMoreData := fun hm => by
    simp [T38Engine.canSend, T38Engine.isModemOpen, hg.attached.modemOpen, hm] at hc
  cases h.conveys.joined.link with
  | more hm => exact absurd hm hmore
  | last _ _ hm => exact absurd hm hstop
  | fcs _ hm => exact absurd hm hstop
  | sent hm => exact absurd hm hstop
  | past _ _ _ hd =>
    cases hd with
    | hdlc done last ha =>
      refine stopped_call (f := (last, false)) ?_
      rw [ha]
      exact List.mem_append_right _ (List.mem_singleton.mpr rfl)

theorem step (h : Served ind es x) (hok : Courteous x a) (hs : turns.step x a = some (x', es')) :
    Served ind (es ++ es') x' := by
  obtain ⟨s, w⟩ := x
  obtain ⟨s', w'⟩ := x'
  obtain ⟨hstep, rfl⟩ := Machine.watched_step hs
  have hcases := step_cases hstep
  have hconv := h.conveys.step hok.1 hcases
  have hturn := h.turn
  have old (hp : Proper (sendCalls (es ++ es'))) : ∀ ev ∈ es, ev.Taken := h.taken (by
    rw [sendCalls_append] at hp
    exact hp.of_append)
  -- the turns and the calls of the step are left
  suffices hnew : Turn (es'.foldl awaited w) s' ∧ (Proper (sendCalls (es ++ es')) → ∀ ev ∈ es', ev.Taken) by
    refine ⟨hconv, hnew.1, fun hp ev hev => ?_⟩
    rcases List.mem_append.mp hev with hev | hev
    · exact old hp ev hev
    · exact hnew.2 hp ev hev
  -- the modem calls in its turn
  have free (h : w ≠ none → False) : w = none := by
    by_contra hw
    exact h hw
  cases hcases with
  | tick ms => exact ⟨hturn.of_same id rfl fun _ hm => hm, fun _ _ hev => by cases hev⟩
  | @out r hr =>
    obtain ⟨ps, hg⟩ := h.conveys.grammatical
    have hmv := hr ▸ hg.attached.moves
    exact ⟨hturn.out_step h.untimed hmv, fun _ => hmv.taken⟩
  | setPreparePacketTimeout timeout period =>
    refine ⟨hturn.of_same (fun hm => ?_) rfl fun _ hm => hm, fun _ _ hev => by cases hev⟩
    dsimp only at hm
    unfold T38Engine.setPreparePacketTimeout at hm
    split at hm <;> exact hm
  | receives _ hr =>
    refine ⟨?_, fun _ ev hev => ?_⟩
    · rw [awaited_quiet hr.events]
      refine hturn.of_same (fun hm => ?_) hr.out fun _ hm => hr.modem.trans hm
      rcases hr.engine.stateModem with he | ⟨-, he⟩
      · exact he.symm.trans hm
      · rw [hm] at he
        cases he
    · have hquiet := hr.events ev hev
      cases ev <;> first | exact trivial | cases hquiet
  | sendOnIdle dataType hm => exact ⟨hturn.of_same id rfl fun _ hm => hm, fun _ _ hev => by cases hev⟩
  | sendStart dataType param hm => cases hok.1
  | checkSend bs hm hc =>
    exact ⟨hturn.of_same id rfl fun hw _ => (hok.2 hw).elim, fun _ _ hev => by cases hev⟩
  | refuseSend bs hm hc =>
    have hw : w = none := free fun hw => hok.2 hw
    refine ⟨hturn, fun hp => ?_⟩
    rw [sendCalls_append] at hp
    exact absurd (h.accepts hw hc) hp.not_mem
  | checkSendStop moreFrames callbackParam hm hc =>
    exact ⟨hturn.of_same id rfl fun hw _ => (hok.2 hw).elim, fun _ _ hev => by cases hev⟩
  | refuseSendStop moreFrames callbackParam hm hc =>
    have hw : w = none := free fun hw => hok.2 hw
    refine ⟨hturn, fun hp => ?_⟩
    rw [sendCalls_append] at hp
    exact absurd (h.accepts hw hc) hp.not_mem
  | send bs hm =>
    have hbusy : s.modem ≠ .out := fun he => by cases he.symm.trans hm
    obtain ⟨hres, -⟩ := h.conveys.joined.link.send (h.conveys.modem hbusy) bs
    refine ⟨hturn.of_same id rfl fun _ _ => rfl, fun _ ev hev => ?_⟩
    obtain rfl := List.mem_singleton.mp hev
    exact hres
  | sendStop moreFrames callbackParam hm =>
    have hw : w = none := free fun hw => by cases ((hturn.held hw).1).symm.trans hm
    refine ⟨⟨fun hn => (by cases hn), fun _ => ⟨rfl, fun hc => absurd hc (hturn.free hw).2⟩⟩, fun _ ev hev => ?_⟩
    obtain rfl := List.mem_singleton.mp hev
    exact rfl
  | resetModemState hm => cases hok.1

end Served

/-- A signal that is begun when nothing is still to be told of the one before: the engine takes all calls of a modem
that waits for its stops and makes none behind the last. -/
theorem run_taken {junk : Hdlc} {now : Int} {as₀ as : List Act} {es₀ : List Event} {s₀ s₁ : Sys} {x : Sys × Option Int}
    {param : Int} (h₀ : machine.Run (fun _ _ => True) (start junk now) as₀ es₀ s₀) (hcalm : s₀.out.callback ≠ some .paramOut)
    (hstart : machine.step s₀ (.sendStart .dtHdlc param) = some (s₁, [.sendStart .dtHdlc true]))
    (ht38 : s₁.e.modParsOut.dataTypeT38 = .dtHdlc) (h : turns.Run Courteous (s₁, none) as es x) :
    machine.Run Patient s₁ as es x.1 ∧
      (Proper (sendCalls es) → accepted es = (sendCalls es).foldl Accepted.call {}) := by
  have hg : ∃ ps, s₀.Grammatical ps := by
    refine h₀.state_invariant (I := fun s => ∃ ps, s.Grammatical ps) ⟨[], .start junk now⟩ fun s a s' es' hi _ hs => ?_
    obtain ⟨ps, hgr⟩ := hi
    obtain ⟨ps', -, hgr'⟩ := hgr.step (step_cases hs)
    exact ⟨_, hgr'⟩
  have hconv := Conveys.of_sendStart hg (.inl rfl) (step_cases hstart) ht38
  have hfirst : Served s₁.e.modParsOut.ind [] (s₁, none) := by
    refine ⟨hconv, ⟨fun _ => ?_, fun hn => absurd rfl hn⟩, fun _ ev hev => by cases hev⟩
    have hs := step_cases hstart
    generalize hes : [Event.sendStart .dtHdlc true] = es at hs
    cases hs with
    | receives ha => cases ha
    | sendStart _ _ hm =>
      have hok : (s₀.e.sendStart .dtHdlc param).1 = true := by simpa using hes.symm
      obtain ⟨-, hmore, -⟩ := Conveys.sendStart_accepted (.inl rfl) hok
      dsimp only
      rw [hmore]
      exact ⟨nofun, hcalm⟩
  have hserved : Served s₁.e.modParsOut.ind es x :=
    h.invariant (I := fun es x => Served s₁.e.modParsOut.ind es x) hfirst fun es x a x' es' hi hok hs => hi.step hok hs
  refine ⟨?_, fun hp => accepted_calls (hserved.taken hp)⟩
  clear hserved hfirst hconv
  induction h with
  | start => exact .start
  | next _ hok hs ih => exact .next ih hok.1 (Machine.watched_step hs).1

end Sys

end T38Modem
