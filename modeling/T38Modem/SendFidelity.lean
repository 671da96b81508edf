import T38Modem.SendLink

namespace T38Modem

namespace Link

variable {t : DataType} {h : Heard} {a : Accepted} {limbo : List Byte} {e e' : T38Engine}

/-- The link depends on the sender's part of the engine alone. -/
theorem of_same (hk : Link t h a limbo e) (hs : e'.stateOut = e.stateOut) (hb : e'.bufOut = e.bufOut)
    (hc : e'.countOut = e.countOut) (hmore : e'.moreFramesOut = e.moreFramesOut)
    (hd : e.hdlcOut.Direct → e'.hdlcOut.Direct)
    (hm : e'.stateModem = e.stateModem ∨ e.stateModem.isOut = false ∧ e'.stateModem.isOut = false) :
    Link t h a limbo e' := by
  have modem {m : StateModem} (hm' : e.stateModem = m) (ho : m.isOut = true) : e'.stateModem = m := by
    rcases hm with hm | ⟨hm, -⟩
    · exact hm.trans hm'
    · rw [hm', ho] at hm
      cases hm
  have phase (hp : Phase h limbo e) : Phase h limbo e' := by
    cases hp with
    | before h' hb hd hl => exact .before (hs ▸ h') hb hd hl
    | indWait h' hb hd hl => exact .indWait (hs.trans h') hb hd hl
    | data h' hb hc' hd' => exact .data (hs.trans h') hb (hc ▸ hc') (hd hd')
  cases hk with
  | more hm' hp he eof hg hf hd raw => exact .more (modem hm' rfl) (phase hp) he (hb ▸ eof) hg hf (hb ▸ hd) raw
  | last done sec hm' hp he eof ha hg hf hd raw =>
    exact .last done sec (modem hm' rfl) (phase hp) he (hb ▸ eof) (hmore ▸ ha) hg hf (hb ▸ hd) raw
  | fcs done hm' hs' he hb' hc' hl ha hg hf ht =>
    exact .fcs done (modem hm' rfl) (hs.trans hs') he hb' (hc ▸ hc') hl (hmore ▸ ha) hg hf ht
  | sent hm' hs' he hb' hl hd' => exact .sent (modem hm' rfl) (hs.trans hs') he hb' hl hd'
  | past hm' he hb' hd' =>
    refine .past ?_ he hb' hd'
    rcases hm with hm | ⟨-, hm⟩
    · rw [hm]
      exact hm'
    · exact hm

/-- A signal goes through no state of a tone or a silence. -/
theorem untimed (hk : Link t h a limbo e) (hout : e.stateModem.isOut = true) :
    e.stateOut ≠ .stOutCedWait ∧ e.stateOut ≠ .stOutSilenceWait := by
  have of_phase (hp : Phase h limbo e) : e.stateOut ≠ .stOutCedWait ∧ e.stateOut ≠ .stOutSilenceWait := by
    cases hp with
    | before h' => rcases h' with h' | h' <;> simp [h']
    | indWait h' => simp [h']
    | data h' => simp [h']
  cases hk with
  | more _ hp => exact of_phase hp
  | last _ _ _ hp => exact of_phase hp
  | fcs _ _ h' => simp [h']
  | sent _ h' => simp [h']
  | past hm => exact absurd (hm.symm.trans hout) nofun

theorem of_sameOut (hk : Link t h a limbo e) (hs : SameOut e e') : Link t h a limbo e' :=
  hk.of_same hs.stateOut hs.bufOut hs.countOut hs.moreFramesOut (fun hd => hs.hdlcOut ▸ hd) hs.stateModem

theorem delivered (hk : Link t h a limbo e) (he : h.ended = true) :
    Delivered h a t ∧ e.stateModem.isOut = false := by
  cases hk with
  | more _ _ he' => exact absurd (he'.symm.trans he) nofun
  | last _ _ _ _ he' => exact absurd (he'.symm.trans he) nofun
  | fcs _ _ _ he' => exact absurd (he'.symm.trans he) nofun
  | sent _ _ he' => exact absurd (he'.symm.trans he) nofun
  | past hm _ _ hd => exact ⟨hd, hm⟩

theorem of_more (hk : Link t h a limbo e) (hm : e.stateModem = .stmOutMoreData) :
    Phase h limbo e ∧ h.ended = false ∧ e.bufOut.eof = false ∧ (∀ f ∈ a.frames, f.2 = true) ∧
      h.frames = closed a.frames ∧ h.data ++ limbo ++ e.bufOut.data = a.data ∧ (t = .dtRaw → a.frames = []) := by
  cases hk with
  | more _ hp he eof hg hf hd raw => exact ⟨hp, he, eof, hg, hf, hd, raw⟩
  | last _ _ hm' => exact absurd (hm.symm.trans hm') nofun
  | fcs _ hm' => exact absurd (hm.symm.trans hm') nofun
  | sent hm' => exact absurd (hm.symm.trans hm') nofun
  | past hm' =>
    rw [hm] at hm'
    cases hm'

theorem send (hk : Link t h a limbo e) (hm : e.stateModem = .stmOutMoreData) (bs : List Byte) :
    (e.send bs).1 = some bs.length ∧ Link t h { a with data := a.data ++ bs } limbo (e.send bs).2 := by
  obtain ⟨hp, he, eof, hg, hf, hd, raw⟩ := hk.of_more hm
  have hput : e.bufOut.putData bs = (some bs.length, { e.bufOut with data := e.bufOut.data ++ bs }) :=
    DataStream.putData_open eof
  have phase : Phase h limbo (e.send bs).2 := by
    cases hp with
    | before h' hb hd hl => exact .before h' hb hd hl
    | indWait h' hb hd hl => exact .indWait h' hb hd hl
    | data h' hb hc hd => exact .data h' hb hc hd
  simp only [T38Engine.send, hput] at phase ⊢
  refine ⟨trivial, .more hm phase he eof hg hf ?_ raw⟩
  rw [← hd]
  simp only [T38Engine.signalOutDataReady, List.append_assoc]

theorem sendStop (hk : Link t h a limbo e) (hm : e.stateModem = .stmOutMoreData) (moreFrames : Bool)
    (callbackParam : Int) :
    Link t h ⟨a.frames ++ [(a.data, moreFrames)], []⟩ limbo (e.sendStop moreFrames callbackParam) := by
  obtain ⟨hp, he, -, hg, hf, hd, raw⟩ := hk.of_more hm
  have phase : Phase h limbo (e.sendStop moreFrames callbackParam) := by
    cases hp with
    | before h' hb hd hl => exact .before h' hb hd hl
    | indWait h' hb hd hl => exact .indWait h' hb hd hl
    | data h' hb hc hd => exact .data h' hb hc hd
  exact .last a.frames a.data rfl phase he rfl rfl hg hf hd raw

/-- What is heard is the beginning of what the modem has got in. -/
theorem conveyed (hk : Link t h a limbo e) : Conveyed t h a := by
  have begins {a : Accepted} {rest : List Byte} (hf : h.frames = closed a.frames) (hd : h.data ++ rest = a.data) :
      Begins h a := by
    by_cases hnil : h.data = []
    · refine .frame hnil ?_
      rw [hf, closed_append]
      exact List.prefix_append _ _
    · have he : closed (a.frames ++ [(a.data, true)]) = h.frames ++ [(h.data ++ rest, true)] := by
        rw [hf, closed_append, hd, closed_one (by simp [← hd, hnil])]
      exact .data rest (he ▸ List.prefix_refl _)
  have begins_last {done : List (List Byte × Bool)} {sec rest : List Byte} {more : Bool} (hf : h.frames = closed done)
      (hd : h.data ++ rest = sec) : Begins h ⟨done ++ [(sec, more)], []⟩ := by
    have hclosed : closed (done ++ [(sec, more)] ++ [([], true)]) = closed (done ++ [(sec, true)]) := by
      have hsame : closed [(sec, more)] = closed [(sec, true)] := rfl
      rw [closed_append _ [([], true)], closed_nil, List.append_nil, closed_append, closed_append, hsame]
    rcases begins (a := ⟨done, sec⟩) hf hd with ⟨hd', hp⟩ | ⟨r, hp⟩
    · exact .frame hd' (hclosed ▸ hp)
    · exact .data r (hclosed ▸ hp)
  refine ⟨fun ht => ?_, fun ht => ?_, fun he => (hk.delivered he).1⟩
  · cases hk with
    | more _ _ _ _ _ hf hd => exact begins hf (by simpa using hd)
    | last done sec _ _ _ _ ha _ hf hd =>
      rw [ha]
      exact begins_last hf (by simpa using hd)
    | fcs done _ _ _ _ _ _ ha _ hf =>
      rw [ha]
      exact begins_last hf (List.append_nil _)
    | sent _ _ _ _ _ hd =>
      cases hd with
      | hdlc done last ha _ hf hd =>
        refine .frame hd ?_
        rw [hf, closed_append]
        exact List.prefix_append _ _
      | raw => cases ht
    | past _ _ _ hd =>
      cases hd with
      | hdlc done last ha _ hf hd =>
        refine .frame hd ?_
        rw [hf, closed_append]
        exact List.prefix_append _ _
      | raw => cases ht
  · cases hk with
    | more _ _ _ _ _ hf hd raw =>
      rw [raw ht] at hf
      refine ⟨hf, ?_⟩
      simp only [Accepted.bytes, raw ht, ← hd, List.append_assoc, List.map_nil, List.flatten_nil, List.nil_append]
      exact List.prefix_append _ _
    | last done sec _ _ _ _ ha _ hf hd raw =>
      rw [raw ht] at hf ha
      refine ⟨hf, ?_⟩
      simp only [Accepted.bytes, ha, ← hd, List.nil_append, List.map_cons, List.map_nil, List.flatten_cons,
        List.flatten_nil, List.append_nil, List.append_assoc]
      exact List.prefix_append _ _
    | fcs _ _ _ _ _ _ _ _ _ _ ht' => exact absurd (ht.symm.trans ht') nofun
    | sent _ _ _ _ _ hd =>
      cases hd with
      | hdlc => cases ht
      | raw last more ha hf hd =>
        refine ⟨hf, ?_⟩
        simp [Accepted.bytes, ha, hd]
    | past _ _ _ hd =>
      cases hd with
      | hdlc => cases ht
      | raw last more ha hf hd =>
        refine ⟨hf, ?_⟩
        simp [Accepted.bytes, ha, hd]

end Link

namespace OutPc

/-- The link as it is when the thread is at `pc`: what it has made counts as heard. -/
structure Joined (ind : Indicator) (t : DataType) (h : Heard) (a : Accepted) (e : T38Engine) (pc : OutPc) : Prop where
  pending : pc.pending ≠ .data none
  link : Link t (h.packet ind pc.locals.ifp) a pc.pending.limbo e

variable {ind : Indicator} {t : DataType} {h : Heard} {a : Accepted} {e : T38Engine} {now : Int} {pc : OutPc} {o : Stage}

theorem links_joined {r : Outcome} (hl : r.Links ind t h a) :
    Joined ind t h a (ofOutcome r).1 (ofOutcome r).2.1 ∧ packets (ofOutcome r).2.2 = [] := by
  cases r with
  | exit why e => exact hl.elim
  | done e l waitData =>
    cases waitData with
    | true => exact ⟨⟨nofun, hl⟩, rfl⟩
    | false => exact ⟨⟨nofun, hl⟩, rfl⟩
  | call e l kind extra after => exact ⟨⟨hl.1, hl.2⟩, rfl⟩

theorem limbo_idle (hi : pc.idle = true) : pc.pending ≠ .data none ∧ pc.pending.limbo = [] := by
  simp only [idle, decide_eq_true_eq] at hi
  rcases hi with hi | hi <;> rw [hi] <;> exact ⟨fun h => (by cases h), rfl⟩

/-- A step of the thread keeps the link. Where it gives a packet back, it has nothing more in its hands. -/
theorem Moves.joined {r : T38Engine × OutPc × List Event} (hm : Moves e now pc r) (hj : Joined ind t h a e pc)
    (ha : At o e pc) (hsig : e.Signals ind t) :
    Joined ind t ((packets r.2.2).foldl (Heard.packet ind) h) a r.1 r.2.1 ∧
      (packets r.2.2 = [] ∨ r.2.1.locals.ifp = none) := by
  have of_links {x : Outcome} (hl : x.Links ind t h a) :
      Joined ind t ((packets (ofOutcome x).2.2).foldl (Heard.packet ind) h) a (ofOutcome x).1 (ofOutcome x).2.1 ∧
        (packets (ofOutcome x).2.2 = [] ∨ (ofOutcome x).2.1.locals.ifp = none) := by
    obtain ⟨hj', hp⟩ := links_joined hl
    rw [hp]
    exact ⟨hj', .inl rfl⟩
  cases hm with
  | @quiet pc pc' es f d b n hi hi' hl hes ht hc =>
    obtain ⟨hclean, -⟩ := (at_idle hi).mp ha
    have hp : packets es = [] := by rcases hes with rfl | rfl <;> rfl
    have hlink := hj.link
    rw [(limbo_idle hi).2, hclean.2] at hlink
    dsimp only
    rw [hp]
    refine ⟨⟨(limbo_idle hi').1, ?_⟩, .inl rfl⟩
    rw [(limbo_idle hi').2, (hl hclean).2]
    exact hlink.of_same rfl rfl rfl rfl (fun hd => ⟨hd.types, hd.attached⟩) (.inl rfl)
  | prepare l =>
    obtain ⟨hclean, hs⟩ := (at_idle rfl).mp ha
    have hlink := hj.link
    rw [show (OutPc.body l).locals.ifp = none from hclean.2] at hlink
    exact of_links (T38Engine.prepare_links hlink hsig hs hclean)
  | calls kind extra l after => exact ⟨⟨hj.pending, hj.link⟩, .inl rfl⟩
  | @redo l l' after hafter hr hp =>
    have hlink := hj.link
    refine ⟨⟨nofun, ?_⟩, .inl rfl⟩
    rw [show (OutPc.leave l').locals.ifp = l.ifp from hp]
    rcases hafter with rfl | rfl <;> exact hlink
  | data l count =>
    obtain ⟨hclean, hsend, hd⟩ := ha
    have hout := hsend.busy (by simp [hd]) (by simp [hd])
    have hlink := hj.link
    rw [show (OutPc.called l (.data count)).locals.ifp = none from hclean.2] at hlink
    cases count with
    | none => exact absurd rfl hj.pending
    | some bs => exact of_links (T38Engine.dataSwitch_links hlink hsig hclean hd hout)
  | leaves l => exact ⟨⟨nofun, hj.link⟩, .inl rfl⟩
  | again hr => exact ⟨⟨nofun, hj.link.of_same rfl rfl rfl rfl id (.inl rfl)⟩, .inl rfl⟩
  | packet hr => exact ⟨⟨nofun, hj.link.of_same rfl rfl rfl rfl id (.inl rfl)⟩, .inr rfl⟩

/-- The thread gets no data in. -/
theorem Moves.unaccepted {r : T38Engine × OutPc × List Event} (hm : Moves e now pc r) :
    ∀ ev ∈ r.2.2, ∀ a : Accepted, a.event ev = a := by
  have outcome (x : Outcome) : ∀ ev ∈ (ofOutcome x).2.2, ∀ a : Accepted, a.event ev = a := by
    cases x <;> simp [ofOutcome, Accepted.event]
  cases hm with
  | quiet f d b n hi hi' hl hes => rcases hes with rfl | rfl <;> simp [Accepted.event]
  | prepare l => exact outcome _
  | data l count => exact outcome _
  | _ => simp [Accepted.event]

theorem Moves.more {r : T38Engine × OutPc × List Event} (hm : Moves e now pc r)
    (hs : e.stateOut ≠ .stOutCedWait ∧ e.stateOut ≠ .stOutSilenceWait) (hmore : e.stateModem = .stmOutMoreData) :
    r.1.stateModem = .stmOutMoreData := by
  cases hm with
  | prepare l =>
    rw [ofOutcome_engine]
    exact e.prepare_more now l hmore hs
  | data l count =>
    rw [ofOutcome_engine, T38Engine.dataSwitch_stateModem]
    exact hmore
  | _ => exact hmore

end OutPc

/-- The indicators of signals are none of those sent between them. -/
theorem mods_training {m : ModPars} (h : m ∈ mods) : m.ind ≠ .noSignal ∧ m.ind ≠ .cng ∧ m.ind ≠ .ced := by
  simp only [mods, List.mem_cons, List.not_mem_nil, or_false] at h
  rcases h with rfl | rfl | rfl | rfl | rfl | rfl | rfl | rfl | rfl | rfl | rfl | rfl | rfl <;>
    exact ⟨fun h => (by cases h), fun h => (by cases h), fun h => by cases h⟩

/-- Behind the indicator of a signal the signal is begun. -/
theorem Begun.of_training {m : ModPars} (hm : m ∈ mods) {o : Stage} {ps : List Ifp}
    (h : Begun o (ps ++ [t38indicator m.ind])) : (∃ m' d, o = .hdlc m' d) ∨ ∃ m', o = .raw m' := by
  obtain ⟨h1, h2, h3⟩ := mods_training hm
  generalize hw : ps ++ [t38indicator m.ind] = w at h
  have last {qs : List Ifp} {p : Ifp} (hq : ps ++ [t38indicator m.ind] = qs ++ [p]) : t38indicator m.ind = p := by
    simpa using (List.append_inj' hq rfl).2
  cases h with
  | start => simp at hw
  | noSignal => exact absurd (last hw) (by simpa [t38indicator] using h1)
  | cng => exact absurd (last hw) (by simpa [t38indicator] using h2)
  | ced => exact absurd (last hw) (by simpa [t38indicator] using h3)
  | hdlc => exact .inl ⟨_, _, rfl⟩
  | hdlcData => exact .inl ⟨_, _, rfl⟩
  | hdlcFcs => exact .inl ⟨_, _, rfl⟩
  | hdlcSigEnd => cases last hw
  | raw => exact .inr ⟨_, rfl⟩
  | rawData => exact .inr ⟨_, rfl⟩
  | rawSigEnd => cases last hw

namespace Sys

variable {s s' : Sys} {a : Act} {es es' : List Event} {ind : Indicator} {t : DataType}

/-- What has been heard of the signal since it was started goes with what the modem has got in. -/
structure Conveys (ind : Indicator) (t : DataType) (es : List Event) (s : Sys) : Prop where
  grammatical : ∃ ps, s.Grammatical ps
  signals : s.e.Signals ind t
  modem : s.modem ≠ .out → s.e.stateModem = .stmOutMoreData
  joined : s.out.Joined ind t (heard ind (packets es)) (accepted es) s.e
  ended : (heard ind (packets es)).ended = true → Delivered (heard ind (packets es)) (accepted es) t

namespace Conveys

theorem conveyed (h : s.Conveys ind t es) : Conveyed t (heard ind (packets es)) (accepted es) := by
  have hk := h.joined.link.conveyed
  exact ⟨fun ht => (hk.frames ht).of_packet, fun ht => bytes_of_packet (hk.bytes ht), h.ended⟩

theorem not_ended (h : s.Conveys ind t es) (hmore : s.e.stateModem = .stmOutMoreData) :
    (heard ind (packets es)).ended ≠ true := fun he => by
  have hout := (h.joined.link.delivered (ended_packet he)).2
  rw [hmore] at hout
  cases hout

/-- A step that gives no packet back and gets no data in. -/
theorem of_same (h : s.Conveys ind t es) (hg : ∃ ps, s'.Grammatical ps) (hp : packets es' = [])
    (ha : accepted (es ++ es') = accepted es) (hpars : s'.e.modParsOut = s.e.modParsOut) (ho : s'.out = s.out)
    (hmodem : s'.modem ≠ .out → s'.e.stateModem = .stmOutMoreData)
    (hk : ∀ h a limbo, Link t h a limbo s.e → Link t h a limbo s'.e) : s'.Conveys ind t (es ++ es') := by
  have hp' : packets (es ++ es') = packets es := by rw [packets_append, hp, List.append_nil]
  have hsig := h.signals
  refine ⟨hg, ⟨hpars ▸ hsig.row, hsig.training, hpars ▸ hsig.data, hpars ▸ hsig.t38, hsig.kind⟩, hmodem, ?_, ?_⟩
  · rw [hp', ha, ho]
    exact ⟨h.joined.pending, hk _ _ _ h.joined.link⟩
  · rw [hp', ha]
    exact h.ended

/-- The modem's thread gets data in, or ends it. -/
theorem of_modem (h : s.Conveys ind t es) (hg : ∃ ps, s'.Grammatical ps) (hmore : s.e.stateModem = .stmOutMoreData)
    (hp : packets es' = []) (hpars : s'.e.modParsOut = s.e.modParsOut) (ho : s'.out = s.out) (hmodem : s'.modem = .out)
    (hk : Link t ((heard ind (packets es)).packet ind s.out.locals.ifp) (accepted (es ++ es')) s.out.pending.limbo s'.e) :
    s'.Conveys ind t (es ++ es') := by
  have hp' : packets (es ++ es') = packets es := by rw [packets_append, hp, List.append_nil]
  have hsig := h.signals
  refine ⟨hg, ⟨hpars ▸ hsig.row, hsig.training, hpars ▸ hsig.data, hpars ▸ hsig.t38, hsig.kind⟩,
    fun hne => absurd hmodem hne, ?_, fun he => ?_⟩
  · rw [hp', ho]
    exact ⟨h.joined.pending, hk⟩
  · rw [hp'] at he
    exact absurd he (h.not_ended hmore)

theorem accepted_quiet (h : ∀ ev ∈ es', ev.sending = false) : accepted (es ++ es') = accepted es := by
  refine accepted_same fun ev hev a => ?_
  have hs := h ev hev
  cases ev <;> first | rfl | cases hs

theorem step (h : s.Conveys ind t es) (hok : s.Patient a) (hs : Steps s a s' es') : s'.Conveys ind t (es ++ es') := by
  obtain ⟨ps, hgr⟩ := h.grammatical
  have hg : ∃ ps, s'.Grammatical ps := by
    obtain ⟨ps', -, hg'⟩ := hgr.step hs
    exact ⟨_, hg'⟩
  have unused : accepted (es ++ []) = accepted es := by rw [List.append_nil]
  cases hs with
  | tick ms => exact h.of_same hg rfl unused rfl rfl h.modem fun _ _ _ hk => hk
  | @out r hr =>
    obtain ⟨o, -, hat⟩ := hgr.begun
    have hmv := hr ▸ hgr.attached.moves
    obtain ⟨hj, hend⟩ := hmv.joined h.joined hat h.signals
    have hacc : accepted (es ++ r.2.2) = accepted es := accepted_same hmv.unaccepted
    have hmodem : s.modem ≠ .out → r.1.stateModem = .stmOutMoreData := fun hne => by
      have hmore := h.modem hne
      exact hmv.more (h.joined.link.untimed (by rw [hmore]; rfl)) hmore
    have hpars := hmv.sameIn.modParsOut
    have hsig := h.signals
    rw [← heard_append, ← packets_append] at hj
    refine ⟨hg, ⟨hpars ▸ hsig.row, hsig.training, hpars ▸ hsig.data, hpars ▸ hsig.t38, hsig.kind⟩, hmodem, hacc ▸ hj, ?_⟩
    intro he
    rw [hacc]
    rcases hend with hnone | hnone
    · rw [packets_append, hnone, List.append_nil] at he ⊢
      exact h.ended he
    · have hlink := hj.link
      rw [hnone] at hlink
      exact (hlink.delivered he).1
  | setPreparePacketTimeout timeout period =>
    generalize he : s.e.setPreparePacketTimeout hOwnerOut timeout period = e' at hg ⊢
    unfold T38Engine.setPreparePacketTimeout at he
    split at he <;> subst he
    · exact h.of_same hg rfl unused rfl rfl h.modem fun _ _ _ hk => hk
    · exact h.of_same hg rfl unused rfl rfl h.modem fun _ _ _ hk => hk.of_same rfl rfl rfl rfl id (.inl rfl)
  | receives _ hr =>
    refine h.of_same hg (packets_eq_nil hr.events) (accepted_quiet hr.events) hr.engine.modParsOut hr.out (fun hne => ?_)
      fun _ _ _ hk => hk.of_sameOut hr.engine
    have hm := h.modem (hr.modem ▸ hne)
    rcases hr.engine.stateModem with he | ⟨he, -⟩
    · exact he.trans hm
    · rw [hm] at he
      cases he
  | sendOnIdle dataType hm =>
    exact h.of_same hg rfl unused rfl rfl (fun hne => absurd hm hne) fun _ _ _ hk =>
      hk.of_same rfl rfl rfl rfl id (.inl rfl)
  | sendStart dataType param hm => cases hok
  | checkSend bs hm hc =>
    refine h.of_same hg rfl unused rfl rfl (fun _ => ?_) fun _ _ _ hk => hk
    simp only [T38Engine.canSend, decide_eq_true_eq] at hc
    exact hc.2
  | refuseSend bs hm hc =>
    exact h.of_same hg rfl (by rw [accepted_append]; rfl) rfl rfl h.modem fun _ _ _ hk => hk
  | checkSendStop moreFrames callbackParam hm hc =>
    refine h.of_same hg rfl unused rfl rfl (fun _ => ?_) fun _ _ _ hk => hk
    simp only [T38Engine.canSend, decide_eq_true_eq] at hc
    exact hc.2
  | refuseSendStop moreFrames callbackParam hm hc =>
    exact h.of_same hg rfl (by rw [accepted_append]; rfl) rfl rfl h.modem fun _ _ _ hk => hk
  | send bs hm =>
    obtain ⟨hres, hlink⟩ := h.joined.link.send (h.modem (by simp [hm])) bs
    refine h.of_modem hg (h.modem (by simp [hm])) rfl rfl rfl rfl ?_
    rw [accepted_append, hres]
    simpa [Accepted.event] using hlink
  | sendStop moreFrames callbackParam hm =>
    refine h.of_modem hg (h.modem (by simp [hm])) rfl rfl rfl rfl ?_
    rw [accepted_append]
    exact h.joined.link.sendStop (h.modem (by simp [hm])) moreFrames callbackParam
  | resetModemState hm => cases hok

/-- An accepted start of a signal. -/
theorem sendStart_accepted {e : T38Engine} {param : Int} (ht : t = .dtHdlc ∨ t = .dtRaw)
    (h : (e.sendStart t param).1 = true) :
    e.stateModem = .stmIdle ∧ (e.sendStart t param).2.stateModem = .stmOutMoreData ∧
      (e.sendStart t param).2.bufOut = e.bufOut.clean ∧ (e.sendStart t param).2.stateOut = e.stateOut ∧
      (e.sendStart t param).2.modParsOut.dataType = t ∧
      ∃ m ∈ mods, (e.sendStart t param).2.modParsOut.ind = m.ind := by
  have hpars : (e.outPars t param).1.dataType = t ∧
      ((e.outPars t param).2 = true → ∃ m ∈ mods, (e.outPars t param).1.ind = m.ind) := by
    rcases ht with rfl | rfl
    · exact ⟨rfl, fun hv => ⟨_, getModPars_mem hv, rfl⟩⟩
    · exact ⟨rfl, fun hv => ⟨_, getModPars_mem hv, rfl⟩⟩
  have hsil : t ≠ .dtSilence := by rcases ht with rfl | rfl <;> simp
  generalize hr : e.sendStart t param = r at h ⊢
  unfold T38Engine.sendStart at hr
  split at hr
  · subst hr
    cases h
  · split at hr
    · subst hr
      cases h
    next hidle =>
      dsimp only at hr
      split at hr
      next hok =>
        subst hr
        exact ⟨not_not.mp hidle, rfl, rfl, rfl, hpars.1, hpars.2 hok⟩
      next =>
        subst hr
        cases h

theorem of_sendStart {s₀ s₁ : Sys} {param : Int} (hg : ∃ ps, s₀.Grammatical ps) (ht : t = .dtHdlc ∨ t = .dtRaw)
    (hs : Steps s₀ (.sendStart t param) s₁ [.sendStart t true]) (ht38 : s₁.e.modParsOut.dataTypeT38 = t) :
    s₁.Conveys s₁.e.modParsOut.ind t [] := by
  obtain ⟨ps, hgr⟩ := hg
  obtain ⟨ps', -, hg'⟩ := hgr.step hs
  generalize hes : [Event.sendStart t true] = es at hs
  cases hs with
  | receives ha => cases ha
  | sendStart _ _ hm =>
    obtain ⟨o, hb, hat⟩ := hgr.begun
    obtain ⟨_, hsend⟩ := hat.sends
    have hok : (s₀.e.sendStart t param).1 = true := by simpa using hes.symm
    obtain ⟨hidle, hmore, hbuf, hstate, hdata, m, hm', hind⟩ := sendStart_accepted ht hok
    have hquiet := hsend.quiet (by rw [hidle]; rfl)
    -- what the thread may still have in its hands is of an earlier signal
    have hold : ({} : Heard).packet m.ind s₀.out.locals.ifp = {} ∧ s₀.out.pending ≠ .data none ∧
        s₀.out.pending.limbo = [] := by
      have of_clean (hc : s₀.out.locals.Clean) : ({} : Heard).packet m.ind s₀.out.locals.ifp = {} := by
        rw [hc.2]
        rfl
      unfold OutPc.At at hat
      cases hp : s₀.out.pending with
      | leave =>
        simp only [hp] at hat
        obtain ⟨o', hmade, hs'⟩ := hat
        refine ⟨?_, nofun, rfl⟩
        cases hmade with
        | redo _ hi =>
          rw [hi]
          rfl
        | packet _ p _ hi begun =>
          rw [hi]
          refine Heard.packet_other rfl fun hp => ?_
          subst hp
          have hstage := hs'.stage
          rcases Begun.of_training hm' (begun _ hb) with ⟨m', d, rfl⟩ | ⟨m', rfl⟩
          · cases hstage with
            | hdlc _ _ _ _ h => rcases hquiet with hq | hq <;> simp [hq] at h
          · cases hstage with
            | raw _ _ _ h => rcases hquiet with hq | hq <;> simp [hq] at h
      | data count =>
        simp only [hp] at hat
        rcases hquiet with hq | hq <;> exact absurd (hq.symm.trans hat.2.2) nofun
      | _ =>
        simp only [hp] at hat
        exact ⟨of_clean hat.1, nofun, rfl⟩
    refine ⟨⟨_, hg'⟩, ⟨rfl, ?_, hdata, ht38, ht⟩, fun hne => absurd hm hne, ⟨hold.2.1, ?_⟩, nofun⟩
    · rw [hind]
      exact (mods_training hm').1
    · dsimp only
      rw [hind]
      show Link t (({} : Heard).packet m.ind s₀.out.locals.ifp) {} s₀.out.pending.limbo _
      rw [hold.1, hold.2.2]
      exact .more hmore (.before (hstate ▸ hquiet) rfl rfl rfl) rfl (by rw [hbuf]; rfl) nofun rfl (by rw [hbuf]; rfl)
        fun _ => rfl

end Conveys

end Sys

end T38Modem
