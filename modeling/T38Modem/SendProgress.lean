import T38Modem.Completion
import T38Modem.Hearing
import T38Modem.SendFidelity

namespace T38Modem

theorem dataLen_pos {m p : ModPars} (h : IsRow m p) : 0 < T38Engine.dataLen p.br := by
  have hall : ∀ m ∈ mods, 0 < T38Engine.dataLen m.br := by decide
  rw [h.br]
  exact hall m h.row

theorem closed_mono {fs gs : List (List Byte × Bool)} (h : fs <+: gs) : closed fs <+: closed gs := by
  obtain ⟨rest, rfl⟩ := h
  rw [closed_append]
  exact List.prefix_append _ _

namespace Accepted

variable {es es' : List Event} {t : DataType} {a : Accepted}

/-- The modem has stopped the signal. -/
def Stopped (t : DataType) (a : Accepted) : Prop := ∃ f ∈ a.frames, t = .dtRaw ∨ f.2 = false

theorem event_frames (a : Accepted) (ev : Event) : a.frames <+: (a.event ev).frames := by
  unfold event
  split
  · exact List.prefix_refl _
  · exact List.prefix_append _ _
  · exact List.prefix_refl _

theorem frames_prefix (es es' : List Event) : (accepted es).frames <+: (accepted (es ++ es')).frames := by
  rw [accepted_append]
  generalize accepted es = a
  induction es' generalizing a with
  | nil => exact List.prefix_refl _
  | cons ev es' ih => exact (event_frames a ev).trans (ih _)

end Accepted

/-- All that the modem has closed is heard with its end. -/
structure Caught (t : DataType) (h : Heard) (a : Accepted) : Prop where
  frames : t = .dtHdlc → closed a.frames <+: h.frames
  ended : a.Stopped t → h.ended = true

namespace Caught

variable {t : DataType} {h : Heard} {a b : Accepted} {done : List (List Byte × Bool)}

theorem not_stopped (hpre : a.frames <+: done) (hg : ∀ f ∈ done, f.2 = true) (raw : t = .dtRaw → done = []) :
    ¬a.Stopped t := by
  rintro ⟨f, hmem, hstop⟩
  have hdone := hpre.subset hmem
  rcases hstop with ht | hlast
  · rw [raw ht] at hdone
    cases hdone
  · exact absurd (hlast.symm.trans (hg f hdone)) (fun h => by cases h)

theorem of_done (hpre : a.frames <+: done) (hg : ∀ f ∈ done, f.2 = true) (raw : t = .dtRaw → done = [])
    (hf : t = .dtHdlc → closed done <+: h.frames) : Caught t h a :=
  ⟨fun ht => (closed_mono hpre).trans (hf ht), fun hs => absurd hs (not_stopped hpre hg raw)⟩

theorem of_last {last : List Byte × Bool} (hpre : a.frames <+: done ++ [last])
    (hlt : a.frames.length < (done ++ [last]).length) (hg : ∀ f ∈ done, f.2 = true) (raw : t = .dtRaw → done = [])
    (hf : t = .dtHdlc → closed done <+: h.frames) : Caught t h a := by
  refine of_done (List.prefix_of_prefix_length_le hpre (List.prefix_append _ _) ?_) hg raw hf
  rw [List.length_append, List.length_singleton] at hlt
  omega

end Caught

namespace Heard

variable {ind : Indicator} {h : Heard}

/-- What is heard stays heard. -/
theorem frames_packet (h : Heard) (p : Option Ifp) : h.frames <+: (h.packet ind p).frames := by
  have field (h : Heard) (f : DataField) : h.frames <+: (h.field f).frames := by
    unfold Heard.field
    split <;> first | exact List.prefix_refl _ | exact List.prefix_append _ _
  have fields (fs : List DataField) (h : Heard) : h.frames <+: (fs.foldl Heard.field h).frames := by
    induction fs generalizing h with
    | nil => exact List.prefix_refl _
    | cons f fs ih => exact (field h f).trans (ih _)
  unfold Heard.packet
  split
  · exact List.prefix_refl _
  · split
    · exact List.prefix_refl _
    · split
      · exact fields _ h
      · exact List.prefix_refl _

end Heard

theorem Caught.packets {ind : Indicator} {t : DataType} {h : Heard} {a : Accepted} (hc : Caught t h a)
    (ps : List (Option Ifp)) : Caught t (ps.foldl (Heard.packet ind) h) a := by
  induction ps generalizing h with
  | nil => exact hc
  | cons p ps ih =>
    exact ih ⟨fun ht => (hc.frames ht).trans (h.frames_packet p), fun hs => ended_packet (hc.ended hs)⟩

/-- A signal that is stopped has been given a part that ends. -/
theorem Link.stopped {t : DataType} {h : Heard} {a : Accepted} {limbo : List Byte} {e : T38Engine}
    (hk : Link t h a limbo e) (hm : e.stateModem = .stmOutNoMoreData) : a.frames ≠ [] := by
  cases hk with
  | more hm' => exact absurd (hm.symm.trans hm') (fun h => by cases h)
  | last _ _ _ _ _ _ ha => simp [ha]
  | fcs _ _ _ _ _ _ _ ha => simp [ha]
  | sent _ _ _ _ _ hd =>
    cases hd with
    | hdlc _ _ ha => simp [ha]
    | raw _ _ ha => simp [ha]
  | past hm' => exact absurd (hm ▸ hm') (fun h => by cases h)

/-- While a signal is stopped but not over, what was accepted before the last stop is heard; in all other
states what is accepted is. -/
theorem Link.caught {t : DataType} {h : Heard} {a b : Accepted} {limbo : List Byte} {e : T38Engine}
    (hk : Link t h b limbo e) (hpre : a.frames <+: b.frames)
    (hlt : e.stateModem = .stmOutNoMoreData → a.frames.length < b.frames.length) : Caught t h a := by
  cases hk with
  | more _ _ _ _ hg hf _ raw => exact .of_done hpre hg raw fun _ => hf ▸ List.prefix_refl _
  | last done sec hm _ _ _ ha hg hf _ raw =>
    have hlt := hlt hm
    subst ha
    exact .of_last hpre hlt hg raw fun _ => hf ▸ List.prefix_refl _
  | fcs done hm _ _ _ _ _ ha hg hf ht =>
    have hlt := hlt hm
    subst ha
    exact .of_last hpre hlt hg (fun hr => by cases ht.symm.trans hr) fun _ => hf ▸ List.prefix_refl _
  | sent hm _ _ _ _ hd =>
    have hlt := hlt hm
    cases hd with
    | hdlc done last ha hg hf _ =>
      subst ha
      refine .of_last hpre hlt hg (fun h => by cases h) fun _ => ?_
      rw [hf, closed_append]
      exact List.prefix_append _ _
    | raw last more ha _ _ =>
      subst ha
      exact .of_last (show a.frames <+: [] ++ [(last, more)] from hpre) hlt (fun _ hf => by cases hf) (fun _ => rfl)
        (fun h => by cases h)
  | past _ he _ hd =>
    refine ⟨fun ht => ?_, fun _ => he⟩
    cases hd with
    | hdlc done last ha _ hf _ => exact hf ▸ closed_mono hpre
    | raw => cases ht

/-- How much of a signal that is stopped is still to be sent, once it is begun. -/
def T38Engine.closeRank (e : T38Engine) : Nat :=
  match e.stateOut with
  | .stOutIndWait => e.bufOut.data.length + 3
  | .stOutData => e.bufOut.data.length + 2
  | .stOutHdlcFcs => 1
  | _ => 0

/-- The indicator of the signal has been sent. -/
def StateOut.isBegun (s : StateOut) : Bool :=
  s = .stOutIndWait ∨ s = .stOutData ∨ s = .stOutHdlcFcs ∨ s = .stOutDataNoSig

/-- What the body of `PreparePacket` does for a signal that the modem has stopped. -/
inductive Nears (e : T38Engine) (now : Int) (e' : T38Engine) : Prop
  | noSig (hs : e.stateOut = .stOutNoSig) (hs' : e'.stateOut = .stOutIdle)
  | early (hs : e.stateOut = .stOutIdle) (ht : now < e.timeBeginOut) (hs' : e'.stateOut = .stOutIdle)
      (hb : e'.timeBeginOut = e.timeBeginOut)
  | carrier (hs : e.stateOut = .stOutIdle) (hc : e.isCarrierIn = 1) (hs' : e'.stateOut = .stOutIdle)
      (hc' : e'.isCarrierIn = 2)
  | begins (hs : e.stateOut = .stOutIdle) (hs' : e'.stateOut.isBegun = true)
  | lowers (hs : e.stateOut.isBegun = true) (hs' : e'.stateOut.isBegun = true) (hr : e'.closeRank < e.closeRank)
  | leaves (hm : e'.stateModem ≠ .stmOutNoMoreData)

/-- The signal comes no further. -/
structure Still (e e' : T38Engine) : Prop where
  stateModem : e'.stateModem = e.stateModem
  stateOut : e'.stateOut = e.stateOut
  bufOut : e'.bufOut = e.bufOut
  timeBeginOut : e.stateOut ≠ .stOutData → e'.timeBeginOut = e.timeBeginOut

theorem Still.closeRank {e e' : T38Engine} (h : Still e e') : e'.closeRank = e.closeRank := by
  rw [T38Engine.closeRank, T38Engine.closeRank, h.stateOut, h.bufOut]

namespace OutPc

/-- The thread has nothing to wait for: where it is about to wait it has been woken. -/
def Alert (e : T38Engine) (pc : OutPc) : Prop :=
  7 ≤ pc.bodyRank ∨ pc.pending = .data (some []) → e.outDataReady = true

variable {ind : Indicator} {t : DataType} {h : Heard} {a : Accepted} {o : Stage} {e : T38Engine} {now : Int} {l : Locals}
  {pc : OutPc}

theorem Alert.awake (h : Alert e pc) : Awake e pc := fun h7 => h (.inl h7)

/-- The thread is at a place where it goes on by itself. -/
def Free (pc : OutPc) : Prop := pc.bodyRank < 7 ∧ pc.pending ≠ .data (some [])

theorem Free.out : OutPc.out.Free := ⟨Nat.lt_succ_self 6, fun h => by cases h⟩

theorem Free.leave (l : Locals) : (OutPc.leave l).Free := ⟨Nat.succ_pos 6, fun h => by cases h⟩

theorem Free.calling (kind : Callback) (extra : Int) (l : Locals) : (OutPc.calling kind extra l .leave).Free :=
  ⟨Nat.succ_pos 6, fun h => by cases h⟩

theorem Free.alert (h : pc.Free) (e : T38Engine) : Alert e pc := by
  rintro (h7 | hp)
  · exact absurd h.1 (by omega)
  · exact absurd hp h.2

theorem outIdle_nears (hsig : e.Signals ind t) (hs : e.stateOut = .stOutIdle) :
    Nears e now (ofOutcome (e.outIdle now l)).1 ∧ (ofOutcome (e.outIdle now l)).2.1.Free := by
  unfold T38Engine.outIdle
  split
  next hearly => exact ⟨.early hs hearly.2.2 hs rfl, .leave _⟩
  next =>
    unfold T38Engine.waitCarrier
    dsimp only
    by_cases h0 : e.isCarrierIn = 0 ∨ T38Engine.waitms e.modParsOut = 0
    · rw [if_pos h0]
      rcases hsig.kind with rfl | rfl
      · simp only [hsig.t38]
        exact ⟨.begins hs rfl, .leave _⟩
      · simp only [hsig.t38]
        exact ⟨.begins hs rfl, .leave _⟩
    · rw [if_neg h0]
      by_cases h1 : e.isCarrierIn = 1
      · rw [if_pos h1]
        exact ⟨.carrier hs h1 hs rfl, .leave _⟩
      · rw [if_neg h1]
        by_cases h2 : e.timeBeginOut > now
        · rw [if_pos h2]
          exact ⟨.early hs h2 hs rfl, .leave _⟩
        · rw [if_neg h2]
          rcases hsig.kind with rfl | rfl
          · simp only [hsig.t38]
            exact ⟨.begins hs rfl, .leave _⟩
          · simp only [hsig.t38]
            exact ⟨.begins hs rfl, .leave _⟩

theorem outIndWait_nears (hsig : e.Signals ind t) (hs : e.stateOut = .stOutIndWait) :
    Nears e now (ofOutcome (e.outIndWait now l)).1 ∧ (ofOutcome (e.outIndWait now l)).2.1.Free := by
  have hrank : e.closeRank = e.bufOut.data.length + 3 := by rw [T38Engine.closeRank, hs]
  have next {e' : T38Engine} (hs' : e'.stateOut = .stOutData) (hb : e'.bufOut = e.bufOut) : Nears e now e' := by
    refine .lowers (by rw [hs]; rfl) (by rw [hs']; rfl) ?_
    rw [hrank, T38Engine.closeRank, hs', hb]
    exact Nat.lt_succ_self _
  unfold T38Engine.outIndWait
  rcases hsig.kind with rfl | rfl
  · simp only [hsig.data, hsig.t38]
    exact ⟨next rfl rfl, .leave _⟩
  · simp only [hsig.data, hsig.t38]
    exact ⟨next rfl rfl, .leave _⟩

/-- The closed data is read piece by piece, and at its end the signal leaves it. -/
theorem outData_nears (hk : Link t h a [] e) (hsig : e.Signals ind t) (hsend : Sends o e) (hs : e.stateOut = .stOutData)
    (hm : e.stateModem = .stmOutNoMoreData) :
    Nears e now (ofOutcome (e.outData now l)).1 ∧ (ofOutcome (e.outData now l)).2.1.Free := by
  have hopen : e.hdlcOut.Direct ∧ e.bufOut.eof = true := by
    cases hk with
    | more hm' => exact absurd (hm.symm.trans hm') (fun h => by cases h)
    | last _ _ _ hp _ eof =>
      cases hp with
      | before h' => rcases h' with h' | h' <;> exact absurd (hs.symm.trans h') (fun h => by cases h)
      | indWait h' => exact absurd (hs.symm.trans h') (fun h => by cases h)
      | data _ _ _ hd => exact ⟨hd, eof⟩
    | fcs _ _ h' => exact absurd (hs.symm.trans h') (fun h => by cases h)
    | sent _ h' => exact absurd (hs.symm.trans h') (fun h => by cases h)
    | past hm' => exact absurd (hm ▸ hm') (fun h => by cases h)
  obtain ⟨direct, heof⟩ := hopen
  have hlen : 0 < T38Engine.dataLen e.modParsOut.br := by
    obtain ⟨-, -, ⟨m, d, -, row, -⟩ | ⟨m, -, row, -⟩⟩ := hsend.signal (.inr (.inl hs))
    · exact dataLen_pos row
    · exact dataLen_pos row
  have hrank : e.closeRank = e.bufOut.data.length + 2 := by rw [T38Engine.closeRank, hs]
  have hbegun : e.stateOut.isBegun = true := by rw [hs]; rfl
  obtain ⟨g, hget, -, -⟩ := direct.getData e.bufOut (T38Engine.dataLen e.modParsOut.br)
  unfold T38Engine.outData
  rw [hget]
  cases hr : e.bufOut.getData (T38Engine.dataLen e.modParsOut.br) with
  | mk res bufOut =>
    dsimp only
    cases res with
    | none =>
      obtain rfl : bufOut = e.bufOut := by
        have := DataStream.getData_none_state (s := e.bufOut) (n := T38Engine.dataLen e.modParsOut.br) (by rw [hr])
        rwa [hr] at this
      have next {e' : T38Engine} (hs' : e'.stateOut = .stOutHdlcFcs ∨ e'.stateOut = .stOutDataNoSig) : Nears e now e' := by
        refine .lowers hbegun (by rcases hs' with hs' | hs' <;> rw [hs'] <;> rfl) ?_
        rw [hrank, T38Engine.closeRank]
        rcases hs' with hs' | hs' <;> rw [hs'] <;> dsimp only <;> omega
      rw [if_neg (by simp)]
      unfold T38Engine.dataSwitch
      dsimp only
      rcases hsig.kind with rfl | rfl
      · simp only [hsig.t38]
        exact ⟨next (.inl rfl), .leave _⟩
      · simp only [hsig.t38]
        exact ⟨next (.inr rfl), .leave _⟩
    | some bs =>
      have hread : bs ++ bufOut.data = e.bufOut.data := by
        have := (DataStream.getData_some (s := e.bufOut) (n := T38Engine.dataLen e.modParsOut.br) (by rw [hr])).1
        rwa [hr] at this
      have hne : bs ≠ [] := by
        rintro rfl
        have hopen := (DataStream.getData_some_nil (s := e.bufOut) hlen (by rw [hr])).2
        exact absurd (heof.symm.trans hopen) (fun h => by cases h)
      have next {e' : T38Engine} (hs' : e'.stateOut = .stOutData) (hb : e'.bufOut = bufOut) : Nears e now e' := by
        refine .lowers hbegun (by rw [hs']; rfl) ?_
        have hpos := List.length_pos_iff.mpr hne
        have hl := congrArg List.length hread
        rw [List.length_append] at hl
        rw [hrank, T38Engine.closeRank, hs', hb]
        dsimp only
        omega
      split
      · exact ⟨next hs rfl, by simp [ofOutcome, bodyRank], fun h => by simp [ofOutcome, pending] at h; exact hne h⟩
      · cases bs with
        | nil => exact absurd rfl hne
        | cons b bs =>
          unfold T38Engine.dataSwitch
          rcases hsig.kind with rfl | rfl
          · simp only [hsig.t38]
            exact ⟨next hs rfl, .leave _⟩
          · simp only [hsig.t38]
            exact ⟨next hs rfl, .leave _⟩

theorem outHdlcFcs_nears (hk : Link t h a [] e) (hsig : e.Signals ind t) (hs : e.stateOut = .stOutHdlcFcs)
    (hm : e.stateModem = .stmOutNoMoreData) :
    Nears e now (ofOutcome (e.outHdlcFcs l)).1 ∧ (ofOutcome (e.outHdlcFcs l)).2.1.Free := by
  have ht : t = .dtHdlc := by
    have of_phase (hp : Phase h [] e) : t = .dtHdlc := by
      cases hp with
      | before h' => rcases h' with h' | h' <;> exact absurd (hs.symm.trans h') (fun h => by cases h)
      | indWait h' => exact absurd (hs.symm.trans h') (fun h => by cases h)
      | data h' => exact absurd (hs.symm.trans h') (fun h => by cases h)
    cases hk with
    | more _ hp => exact of_phase hp
    | last _ _ _ hp => exact of_phase hp
    | fcs _ _ _ _ _ _ _ _ _ _ ht => exact ht
    | sent _ h' => exact absurd (hs.symm.trans h') (fun h => by cases h)
    | past hm' => exact absurd (hm ▸ hm') (fun h => by cases h)
  unfold T38Engine.outHdlcFcs
  dsimp only
  rw [if_neg (by simp [hsig.data, ht]), if_neg (by simp [hm])]
  split
  · exact ⟨.leaves (fun h => by cases h), .calling _ _ _⟩
  · refine ⟨.lowers (by rw [hs]; rfl) rfl ?_, .leave _⟩
    rw [T38Engine.closeRank, T38Engine.closeRank, hs]
    exact Nat.one_pos

theorem outDataNoSig_nears (hsig : e.Signals ind t) (hm : e.stateModem = .stmOutNoMoreData) :
    Nears e now (ofOutcome (e.outDataNoSig l)).1 ∧ (ofOutcome (e.outDataNoSig l)).2.1.Free := by
  unfold T38Engine.outDataNoSig
  rw [if_neg (by simp [hm])]
  dsimp only
  rcases hsig.kind with rfl | rfl
  · simp only [hsig.t38]
    exact ⟨.leaves (fun h => by cases h), .calling _ _ _⟩
  · simp only [hsig.t38]
    exact ⟨.leaves (fun h => by cases h), .calling _ _ _⟩

theorem prepare_nears (now : Int) (l : Locals) (hk : Link t h a [] e) (hsig : e.Signals ind t) (hsend : Sends o e)
    (hm : e.stateModem = .stmOutNoMoreData) :
    Nears e now (ofOutcome (e.prepare now l)).1 ∧ (ofOutcome (e.prepare now l)).2.1.Free := by
  have hout : e.stateModem.isOut = true := by rw [hm]; rfl
  obtain ⟨hced, hsilence⟩ := hk.untimed hout
  unfold T38Engine.prepare
  rw [if_pos (.inl hout)]
  cases hs : e.stateOut with
  | stOutIdle => exact outIdle_nears hsig hs
  | stOutCedWait => exact absurd hs hced
  | stOutSilenceWait => exact absurd hs hsilence
  | stOutIndWait => exact outIndWait_nears hsig hs
  | stOutData => exact outData_nears hk hsig hsend hs hm
  | stOutHdlcFcs => exact outHdlcFcs_nears hk hsig hs hm
  | stOutDataNoSig => exact outDataNoSig_nears hsig hm
  | stOutNoSig => exact ⟨.noSig hs rfl, .leave _⟩

theorem dataSwitch_still (count : List Byte) : Still e (e.dataSwitch now l (some count)).engine := by
  unfold T38Engine.dataSwitch
  cases count with
  | nil =>
    dsimp only
    split
    · exact ⟨rfl, rfl, rfl, fun _ => rfl⟩
    · split
      · exact ⟨rfl, rfl, rfl, fun _ => rfl⟩
      · split <;> exact ⟨rfl, rfl, rfl, fun _ => rfl⟩
  | cons b bs =>
    dsimp only
    split <;> exact ⟨rfl, rfl, rfl, fun _ => rfl⟩

/-- Outside the body the thread does nothing for the signal. -/
theorem Moves.still {r : T38Engine × OutPc × List Event} (hm : Moves e now pc r) (hb : pc.isBody = false)
    (hd : pc.pending ≠ .data none) : Still e r.1 := by
  cases hm with
  | quiet f d b n hi hi' hl hes ht hc => exact ⟨rfl, rfl, rfl, ht⟩
  | prepare l => cases hb
  | data l count =>
    cases count with
    | none => exact absurd rfl hd
    | some bs =>
      rw [ofOutcome_engine]
      exact dataSwitch_still bs
  | _ => exact ⟨rfl, rfl, rfl, fun _ => rfl⟩

theorem Moves.undecided {r : T38Engine × OutPc × List Event} (hm : Moves e now pc r) (hb : pc.isBody = false)
    (hd : ∀ c, pc.pending ≠ .data c) : ∀ c, r.2.1.pending ≠ .data c := by
  cases hm with
  | quiet f d b n hi hi' hl hes ht hc =>
    intro c hp
    simp only [idle, decide_eq_true_eq, hp] at hi'
    exact hi'.elim (fun h => by cases h) (fun h => by cases h)
  | prepare l => cases hb
  | calls kind extra l after => exact hd
  | data l count => exact absurd rfl (hd count)
  | _ => exact fun c h => by cases h

theorem dataSwitch_alert (count : List Byte) (hw : count = [] → e.outDataReady = true) :
    Alert (ofOutcome (e.dataSwitch now l (some count))).1 (ofOutcome (e.dataSwitch now l (some count))).2.1 := by
  cases count with
  | nil =>
    have hready := hw rfl
    unfold T38Engine.dataSwitch
    dsimp only
    split
    · exact fun _ => hready
    · split
      · exact fun _ => hready
      · split <;> exact fun _ => hready
  | cons b bs =>
    unfold T38Engine.dataSwitch
    dsimp only
    split
    · exact (Free.leave _).alert _
    · exact (Free.leave _).alert _
    · exact Free.out.alert _

/-- Once it is awake, the thread does not come to wait for anything outside the body. -/
theorem step_alert {hOwner : Owner} (ho : e.lostOut hOwner = false) (hw : Alert e pc) (hb : pc.isBody = false)
    (hd : pc.pending ≠ .data none) : Alert (pc.step hOwner e now).1 (pc.step hOwner e now).2.1 := by
  by_cases hdata : ∀ c, pc.pending ≠ .data c
  · have hawake := step_awake now ho hw.awake hb hdata
    have hpend := (step_moves ho now pc).undecided hb hdata
    exact fun h => h.elim hawake fun hp => absurd hp (hpend _)
  · -- the thread has read data before, and calls the modem
    obtain ⟨c, hc⟩ := not_forall_not.mp hdata
    cases pc with
    | calling kind extra l after =>
      rintro (h7 | hp)
      · obtain rfl : after = .data c := hc
        simp [step, bodyRank] at h7
      · exact hw (.inr hp)
    | called l after =>
      obtain rfl : after = .data c := hc
      cases c with
      | none => exact absurd rfl hd
      | some bs =>
        simp only [step, ho, Bool.false_eq_true, if_false, resume]
        exact dataSwitch_alert bs fun hnil => hw (.inr (by rw [hnil]; rfl))
    | _ => cases hc

end OutPc

namespace Sys

variable {s s' : Sys} {a : Act} {es es' : List Event} {ind : Indicator} {t : DataType}

/-- The thread in `PreparePacket` sleeps no signal out that the modem has stopped. -/
def Woken (s : Sys) : Prop := s.e.stateModem = .stmOutNoMoreData → s.out.Alert s.e

/-- While the modem hands data in, nobody else ends that. -/
theorem Steps.more (hs : Steps s a s' es) (ha : a ≠ .out) (hok : s.Patient a) (hm : s.e.stateModem = .stmOutMoreData) :
    s'.e.stateModem = .stmOutMoreData ∨
      s'.e.outDataReady = true ∧ ∃ moreFrames cb, es = [.sendStop moreFrames cb true] := by
  cases hs with
  | out => exact absurd rfl ha
  | setPreparePacketTimeout timeout period =>
    unfold T38Engine.setPreparePacketTimeout
    split <;> exact .inl hm
  | receives _ hr =>
    rcases hr.engine.stateModem with h | ⟨h, -⟩
    · exact .inl (h.trans hm)
    · rw [hm] at h
      cases h
  | sendStart dataType param hm => cases hok
  | sendStop moreFrames callbackParam hm => exact .inr ⟨rfl, _, _, rfl⟩
  | resetModemState hm => cases hok
  | _ => exact .inl hm

theorem Steps.bufOut (hs : Steps s a s' es) (ha : a ≠ .out) (hok : s.Patient a) (hm : s.modem = .out) :
    s'.e.bufOut = s.e.bufOut := by
  cases hs with
  | out => exact absurd rfl ha
  | setPreparePacketTimeout timeout period =>
    unfold T38Engine.setPreparePacketTimeout
    split <;> rfl
  | receives _ hr => exact hr.engine.bufOut
  | sendStart dataType param hm => cases hok
  | send bs hs => cases hm.symm.trans hs
  | sendStop moreFrames callbackParam hs => cases hm.symm.trans hs
  | resetModemState hm => cases hok
  | _ => rfl

namespace Conveys

theorem attached (h : s.Conveys ind t es) : s.Attached := h.grammatical.elim fun _ hg => hg.attached

theorem modem_out (h : s.Conveys ind t es) (hm : s.e.stateModem ≠ .stmOutMoreData) : s.modem = .out := by
  by_contra hne
  exact hm (h.modem hne)

/-- What the thread in `PreparePacket` stands before is the work of a stage. -/
theorem sends (h : s.Conveys ind t es) : ∃ o, s.out.At o s.e ∧ ∃ o', Sends o' s.e := by
  obtain ⟨ps, hg⟩ := h.grammatical
  obtain ⟨o, -, hat⟩ := hg.begun
  exact ⟨o, hat, hat.sends⟩

/-- The body works on what has been heard, and nothing is on its way. -/
theorem body_link (h : s.Conveys ind t es) (hi : s.out.idle = true) :
    Link t (heard ind (packets es)) (accepted es) [] s.e := by
  obtain ⟨o, hat, -⟩ := h.sends
  obtain ⟨hclean, -⟩ := (OutPc.at_idle hi).mp hat
  have hk := h.joined.link
  rw [(OutPc.limbo_idle hi).2, hclean.2] at hk
  exact hk

/-- A step of the thread is the body of `PreparePacket`, or nothing for the signal. -/
theorem out_cases (h : s.Conveys ind t es) (hs : Steps s .out s' es') :
    (s.out.isBody = true ∧ ∃ l, s'.e = (OutPc.ofOutcome (s.e.prepare s.now l)).1 ∧
      s'.out = (OutPc.ofOutcome (s.e.prepare s.now l)).2.1) ∨
    s.out.isBody = false ∧ Still s.e s'.e ∧ (s.out.Alert s.e → s'.out.Alert s'.e) := by
  have hpend := h.joined.pending
  cases hs with
  | receives ha => cases ha
  | @out r hr =>
    cases hb : s.out.isBody with
    | true =>
      cases hpc : s.out with
      | body l =>
        refine .inl ⟨rfl, l, ?_⟩
        rw [← hr, hpc]
        simp [OutPc.step, h.attached.lostOut]
      | _ => simp [hpc, OutPc.isBody] at hb
    | false =>
      refine .inr ⟨rfl, ?_⟩
      rw [← hr]
      exact ⟨h.attached.moves.still hb hpend, fun hw => OutPc.step_alert h.attached.lostOut hw hb hpend⟩

/-- A signal that is over stays so. -/
theorem rests (h : s.Conveys ind t es) (hok : s.Patient a) (hs : Steps s a s' es')
    (hidle : s.e.stateModem.isOut = false) : s'.e.stateModem.isOut = false := by
  by_cases ha : a = .out
  · subst ha
    obtain ⟨o, -, o', hsend⟩ := h.sends
    rcases h.out_cases hs with ⟨-, l, he, -⟩ | ⟨-, hstill, -⟩
    · rw [he, (OutPc.prepare_rests s.now hsend hidle l).1]
      exact hidle
    · rw [hstill.stateModem]
      exact hidle
  · have hb := hs.beside_patient ha hok (h.modem_out (not_more hidle)) (not_more hidle)
    exact hb.isOut.trans hidle

/-- While a signal is stopped, only the body of `PreparePacket` works on it. -/
theorem stopped_step (h : s.Conveys ind t es) (hw : s.Woken) (hok : s.Patient a) (hs : Steps s a s' es')
    (hm : s.e.stateModem = .stmOutNoMoreData) :
    (a = .out ∧ s.out.isBody = true ∧ Nears s.e s.now s'.e ∧ s'.Woken) ∨
      ¬(a = .out ∧ s.out.isBody = true) ∧ Still s.e s'.e ∧ s'.Woken := by
  have hno : s.e.stateModem ≠ .stmOutMoreData := by simp [hm]
  by_cases ha : a = .out
  · subst ha
    rcases h.out_cases hs with ⟨hb, l, he, ho⟩ | ⟨hb, hstill, hawake⟩
    · obtain ⟨o, -, o', hsend⟩ := h.sends
      have hi : s.out.idle = true := by
        cases hpc : s.out with
        | body l => rfl
        | _ => simp [hpc, OutPc.isBody] at hb
      obtain ⟨hn, hfree⟩ := OutPc.prepare_nears s.now l (h.body_link hi) h.signals hsend hm
      refine .inl ⟨rfl, hb, he ▸ hn, fun _ => ?_⟩
      rw [ho]
      exact hfree.alert _
    · exact .inr ⟨by simp [hb], hstill, fun _ => hawake (hw hm)⟩
  · have hmodem := h.modem_out hno
    have hb := hs.beside_patient ha hok hmodem hno
    refine .inr ⟨fun hx => ha hx.1, ⟨hb.stateModem (by rw [hm]; rfl), hb.stateOut, hs.bufOut ha hok hmodem,
      fun _ => hb.timeBeginOut⟩, fun _ => ?_⟩
    rw [hb.out]
    exact fun hx => hb.ready (hw hm hx)

/-- A signal is stopped by the modem alone, which wakes the thread. -/
theorem stopped_by (h : s.Conveys ind t es) (hok : s.Patient a) (hs : Steps s a s' es')
    (hm' : s'.e.stateModem = .stmOutNoMoreData) : s.e.stateModem = .stmOutNoMoreData ∨
      s'.e.outDataReady = true ∧ ∃ moreFrames cb, es' = [.sendStop moreFrames cb true] := by
  cases hm : s.e.stateModem with
  | stmOutNoMoreData => exact .inl rfl
  | stmOutMoreData =>
    by_cases ha : a = .out
    · subst ha
      have hmore : s'.e.stateModem = .stmOutMoreData := by
        have hmv := h.attached.moves
        have hu := h.joined.link.untimed (by rw [hm]; rfl)
        cases hs with
        | receives ha => cases ha
        | out hr => exact hr ▸ hmv.more hu hm
      exact absurd (hm'.symm.trans hmore) (fun h => by cases h)
    · exact .inr ((hs.more ha hok hm).resolve_left fun hmore => absurd (hm'.symm.trans hmore) (fun h => by cases h))
  | _ =>
    have hidle := h.rests hok hs (by rw [hm]; rfl)
    rw [hm'] at hidle
    cases hidle

theorem woken_step (h : s.Conveys ind t es) (hw : s.Woken) (hok : s.Patient a) (hs : Steps s a s' es') : s'.Woken := by
  intro hm'
  rcases h.stopped_by hok hs hm' with hm | ⟨hready, -⟩
  · exact (h.stopped_step hw hok hs hm).elim (fun hx => hx.2.2.2 hm') fun hx => hx.2.2 hm'
  · exact fun _ => hready

/-- Whenever a signal is stopped, a part of it has been accepted. -/
theorem frames_step (h : s.Conveys ind t es) (hok : s.Patient a) (hs : Steps s a s' es') {k : Nat}
    (hk : k ≤ (accepted es).frames.length)
    (hlt : s.e.stateModem = .stmOutNoMoreData → k < (accepted es).frames.length)
    (hm' : s'.e.stateModem = .stmOutNoMoreData) : k < (accepted (es ++ es')).frames.length := by
  rcases h.stopped_by hok hs hm' with hm | ⟨-, moreFrames, cb, rfl⟩
  · exact Nat.lt_of_lt_of_le (hlt hm) (Accepted.frames_prefix es es').length_le
  · rw [accepted_append, List.foldl_cons, List.foldl_nil, Accepted.event, List.length_append, List.length_singleton]
    exact Nat.lt_succ_of_le hk

end Conveys

/-- From some time on no carrier of the other side begins. -/
def Hushed {ok : Sys → Act → Prop} (p : Machine.Path machine ok) : Prop :=
  ∃ k, ∀ n, k ≤ n → (p.state (n + 1)).e.isCarrierIn = 1 → (p.state n).e.isCarrierIn = 1

section

variable {p : Machine.Path machine Patient} {n : Nat}

/-- An endless run in which a signal is handed through. -/
structure HandedThrough (ind : Indicator) (t : DataType) (es : List Event) (p : Machine.Path machine Patient) : Prop where
  conveys : ∀ n, (p.state n).Conveys ind t (es ++ p.events n)
  woken : ∀ n, (p.state n).Woken

namespace HandedThrough

theorem of_start (h : (p.state 0).Conveys ind t es) (hw : (p.state 0).Woken) : HandedThrough ind t es p := by
  have both (n : Nat) : (p.state n).Conveys ind t (es ++ p.events n) ∧ (p.state n).Woken := by
    induction n with
    | zero => exact ⟨by rwa [show p.events 0 = [] from rfl, List.append_nil], hw⟩
    | succ n ih =>
      rw [p.events_succ, ← List.append_assoc]
      exact ⟨ih.1.step (p.allowed n) (Lively.steps p n), ih.1.woken_step ih.2 (p.allowed n) (Lively.steps p n)⟩
  exact ⟨fun n => (both n).1, fun n => (both n).2⟩

theorem step (hp : HandedThrough ind t es p) (hm : (p.state n).e.stateModem = .stmOutNoMoreData) :
    (p.act n = .out ∧ (p.state n).out.isBody = true ∧ Nears (p.state n).e (p.state n).now (p.state (n + 1)).e) ∨
      ¬(p.act n = .out ∧ (p.state n).out.isBody = true) ∧ Still (p.state n).e (p.state (n + 1)).e := by
  rcases (hp.conveys n).stopped_step (hp.woken n) (p.allowed n) (Lively.steps p n) hm with ⟨ha, hb, hn, -⟩ | ⟨hb, hs, -⟩
  · exact .inl ⟨ha, hb, hn⟩
  · exact .inr ⟨hb, hs⟩

/-- While the signal is stopped, the body of `PreparePacket` works on it again and again. -/
theorem body_again (hp : HandedThrough ind t es p) (fair : Lively p) (hstop : ∀ n, (p.state n).e.stateModem = .stmOutNoMoreData)
    (n : Nat) (time : Int) :
    ∃ m, n ≤ m ∧ time ≤ (p.state m).now ∧ Nears (p.state m).e (p.state m).now (p.state (m + 1)).e := by
  obtain ⟨m, hm, ht, ha, hb⟩ := fair.body_again (n := n) (fun m _ => (hp.conveys m).attached)
    (fun m _ => (hp.woken m (hstop m)).awake) time
  rcases hp.step (hstop m) with ⟨-, -, hn⟩ | ⟨hne, -⟩
  · exact ⟨m, hm, ht, hn⟩
  · exact absurd ⟨ha, hb⟩ hne

theorem caught_of_moved (hp : HandedThrough ind t es p) (fair : Lively p) (hm : (p.state n).e.stateModem ≠ .stmOutNoMoreData) :
    ∃ m, Caught t (heard ind (packets (es ++ p.events m))) (accepted es) := by
  have stops : ∀ m, n ≤ m → (p.state m).e.stateModem = .stmOutNoMoreData →
      (accepted es).frames.length < (accepted (es ++ p.events m)).frames.length := by
    intro m hnm
    induction hnm with
    | refl => exact fun hm' => absurd hm' hm
    | @step m hnm ih =>
      rw [p.events_succ, ← List.append_assoc]
      exact (hp.conveys m).frames_step (p.allowed m) (Lively.steps p m) (Accepted.frames_prefix ..).length_le ih
  obtain ⟨m, hnm, hi⟩ := fair.idle_again (n := n) fun m _ => (hp.conveys m).attached
  exact ⟨m, ((hp.conveys m).body_link hi).caught (Accepted.frames_prefix ..) (stops m hnm)⟩

/-- Once the indicator has been sent, the end of the signal comes. -/
theorem not_begun (hp : HandedThrough ind t es p) (fair : Lively p)
    (hstop : ∀ n, (p.state n).e.stateModem = .stmOutNoMoreData) : (p.state n).e.stateOut.isBegun = false := by
  by_contra hne
  have lower {m : Nat} (hm : (p.state m).e.stateOut.isBegun = true)
      (hn : Nears (p.state m).e (p.state m).now (p.state (m + 1)).e) :
      (p.state (m + 1)).e.stateOut.isBegun = true ∧ (p.state (m + 1)).e.closeRank < (p.state m).e.closeRank := by
    cases hn with
    | lowers _ hs hr => exact ⟨hs, hr⟩
    | leaves ho => exact absurd (hstop (m + 1)) ho
    | noSig hs => rw [hs] at hm; cases hm
    | early hs => rw [hs] at hm; cases hm
    | carrier hs => rw [hs] at hm; cases hm
    | begins hs => rw [hs] at hm; cases hm
  have begun : ∀ m, n ≤ m → (p.state m).e.stateOut.isBegun = true := by
    intro m hm
    induction hm with
    | refl => simpa using hne
    | @step m hm ih =>
      rcases hp.step (hstop m) with ⟨-, -, hn⟩ | ⟨-, hs⟩
      · exact (lower ih hn).1
      · rwa [hs.stateOut]
  refine p.not_lowered_often (f := fun s => s.e.closeRank) (n := n) (fun m hm => ?_) fun k hk => ?_
  · rcases hp.step (hstop m) with ⟨-, -, hn⟩ | ⟨-, hs⟩
    · exact Nat.le_of_lt (lower (begun m hm) hn).2
    · exact Nat.le_of_eq hs.closeRank
  · obtain ⟨m, hm, -, hn⟩ := hp.body_again fair hstop k 0
    exact ⟨m, hm, (lower (begun m (by omega)) hn).2⟩

/-- A sender that only waits for the time has waited long enough some day. -/
theorem not_early (hp : HandedThrough ind t es p) (fair : Lively p) (hstop : ∀ n, (p.state n).e.stateModem = .stmOutNoMoreData)
    (hidle : ∀ m, n ≤ m → (p.state m).e.stateOut = .stOutIdle)
    (early : ∀ m, n ≤ m → Nears (p.state m).e (p.state m).now (p.state (m + 1)).e →
      (p.state m).now < (p.state m).e.timeBeginOut ∧ (p.state (m + 1)).e.timeBeginOut = (p.state m).e.timeBeginOut) :
    False := by
  have same : ∀ m, n ≤ m → (p.state m).e.timeBeginOut = (p.state n).e.timeBeginOut := by
    intro m hm
    induction hm with
    | refl => rfl
    | @step m hm ih =>
      rcases hp.step (hstop m) with ⟨-, -, hn⟩ | ⟨-, hs⟩
      · exact (early m hm hn).2.trans ih
      · exact (hs.timeBeginOut (by simp [hidle m hm])).trans ih
  obtain ⟨m, hm, ht, hn⟩ := hp.body_again fair hstop n (p.state n).e.timeBeginOut
  have hlt := (early m hm hn).1
  rw [same m hm] at hlt
  omega

/-- A signal that waits for nothing but the time is begun. -/
theorem begins (hp : HandedThrough ind t es p) (fair : Lively p) (hush : Hushed p)
    (hstop : ∀ n, (p.state n).e.stateModem = .stmOutNoMoreData) : ∃ m, (p.state m).e.stateOut.isBegun = true := by
  by_contra hne
  have never (m : Nat) : (p.state m).e.stateOut.isBegun = false := by
    by_contra hm
    exact hne ⟨m, by simpa using hm⟩
  have waits {m : Nat} (hn : Nears (p.state m).e (p.state m).now (p.state (m + 1)).e) :
      (p.state (m + 1)).e.stateOut = .stOutIdle ∧ ((p.state m).e.stateOut = .stOutNoSig ∨
        ((p.state m).now < (p.state m).e.timeBeginOut ∧
          (p.state (m + 1)).e.timeBeginOut = (p.state m).e.timeBeginOut) ∨
        (p.state m).e.isCarrierIn = 1 ∧ (p.state (m + 1)).e.isCarrierIn = 2) := by
    cases hn with
    | noSig hs hs' => exact ⟨hs', .inl hs⟩
    | early hs ht hs' hb => exact ⟨hs', .inr (.inl ⟨ht, hb⟩)⟩
    | carrier hs hc hs' hc' => exact ⟨hs', .inr (.inr ⟨hc, hc'⟩)⟩
    | begins _ hs' => exact absurd (hs'.symm.trans (never (m + 1))) (fun h => by cases h)
    | lowers hs => exact absurd (hs.symm.trans (never m)) (fun h => by cases h)
    | leaves ho => exact absurd (hstop (m + 1)) ho
  -- the first run of the body brings the sender to its idle state, where it stays
  obtain ⟨m₀, -, -, hn₀⟩ := hp.body_again fair hstop 0 0
  have idle : ∀ m, m₀ + 1 ≤ m → (p.state m).e.stateOut = .stOutIdle := by
    intro m hm
    induction hm with
    | refl => exact (waits hn₀).1
    | @step m hm ih =>
      rcases hp.step (hstop m) with ⟨-, -, hn⟩ | ⟨-, hs⟩
      · exact (waits hn).1
      · exact hs.stateOut.trans ih
  obtain ⟨k, hk⟩ := hush
  -- from some time on there is always a carrier that has just begun, or none ever
  have early {n : Nat} (hn : m₀ + 1 ≤ n)
      (hc : (∀ m, n ≤ m → (p.state m).e.isCarrierIn ≠ 1) ∨ ∀ m, n ≤ m → (p.state m).e.isCarrierIn = 1) : False := by
    refine hp.not_early (n := n) fair hstop (fun m hm => idle m (by omega)) fun m hm hn' => ?_
    rcases (waits hn').2 with hs | hearly | ⟨hc1, hc2⟩
    · rw [idle m (by omega)] at hs
      cases hs
    · exact hearly
    · rcases hc with hc | hc
      · exact absurd hc1 (hc m hm)
      · have hc' := hc (m + 1) (by omega)
        omega
  by_cases hever : ∃ m, max (m₀ + 1) k ≤ m ∧ (p.state m).e.isCarrierIn ≠ 1
  · obtain ⟨m, hm, hc⟩ := hever
    refine early (n := m) (by omega) (.inl fun i hi => ?_)
    induction hi with
    | refl => exact hc
    | @step i hi ih =>
      have hi : m ≤ i := hi
      exact fun h1 => ih (hk i (by omega) h1)
  · exact early (n := max (m₀ + 1) k) (by omega) (.inr fun m hm => not_not.mp fun hc => hever ⟨m, hm, hc⟩)

/-- In the end all that is accepted at the start is heard. -/
theorem caught (hp : HandedThrough ind t es p) (fair : Lively p) (hush : Hushed p) :
    ∃ m, ∀ n, m ≤ n → Caught t (heard ind (packets (es ++ p.events n))) (accepted es) := by
  have once : ∃ m, Caught t (heard ind (packets (es ++ p.events m))) (accepted es) := by
    by_cases hmoved : ∃ n, (p.state n).e.stateModem ≠ .stmOutNoMoreData
    · obtain ⟨n, hn⟩ := hmoved
      exact hp.caught_of_moved fair hn
    · have hstop : ∀ n, (p.state n).e.stateModem = .stmOutNoMoreData := fun n => not_not.mp fun hn => hmoved ⟨n, hn⟩
      obtain ⟨m, hm⟩ := hp.begins fair hush hstop
      exact absurd (hm.symm.trans (hp.not_begun fair hstop)) (fun h => by cases h)
  obtain ⟨m, hm⟩ := once
  refine ⟨m, fun n hn => ?_⟩
  induction hn with
  | refl => exact hm
  | step _ ih =>
    rw [p.events_succ, ← List.append_assoc, packets_append, heard_append]
    exact ih.packets _

end HandedThrough

end

/-- In every run from the start of a signal that hands through what the modem sends, its packets say what the
modem has got in. What the modem has closed they say in full after every run that is long enough. -/
theorem run_transmits {junk : Hdlc} {now : Int} {as₀ : List Act} {es₀ : List Event} {s₀ s₁ : Sys} {param : Int}
    (h₀ : machine.Run (fun _ _ => True) (Sys.start junk now) as₀ es₀ s₀) (ht : t = .dtHdlc ∨ t = .dtRaw)
    (hstart : machine.step s₀ (.sendStart t param) = some (s₁, [.sendStart t true]))
    (ht38 : s₁.e.modParsOut.dataTypeT38 = t) {as : List Act} (h : machine.Run Patient s₁ as es s) :
    Conveyed t (heard s₁.e.modParsOut.ind (packets es)) (accepted es) ∧
      ∀ p : Machine.Path machine Patient, p.state 0 = s → Lively p → Hushed p →
        ∃ m, ∀ n, m ≤ n → Caught t (heard s₁.e.modParsOut.ind (packets (es ++ p.events n))) (accepted es) := by
  have hg : ∃ ps, s₀.Grammatical ps :=
    h₀.state_invariant (I := fun s => ∃ ps, s.Grammatical ps) ⟨[], .start junk now⟩
      fun s a s' es' hi _ hs => grammatical_step hi (step_cases hs)
  have hfirst : s₁.Conveys s₁.e.modParsOut.ind t [] := .of_sendStart hg ht (step_cases hstart) ht38
  have hinv : s.Conveys s₁.e.modParsOut.ind t es ∧ s.Woken := by
    exact h.invariant (I := fun es s => s.Conveys s₁.e.modParsOut.ind t es ∧ s.Woken)
      ⟨hfirst, fun hm => absurd rfl (hfirst.joined.link.stopped hm)⟩ fun es s a s' es' hi hok hs =>
        ⟨hi.1.step hok (step_cases hs), hi.1.woken_step hi.2 hok (step_cases hs)⟩
  refine ⟨hinv.1.conveyed, fun p hp fair hush => ?_⟩
  subst hp
  exact (HandedThrough.of_start hinv.1 hinv.2).caught fair hush

/-- The thread in `PreparePacket` and the clock by turns. -/
def alone (n : Nat) : Act := if n % 2 = 0 then .tick 30 else .out

theorem alone_some (s : Sys) (n : Nat) : s.Patient (alone n) ∧ (machine.step s (alone n)).isSome = true := by
  unfold alone
  split <;> exact ⟨rfl, rfl⟩

/-- What the progress of a signal rests on can be had where no carrier of the other side is on. -/
theorem exists_lively (att : s.Attached) (hc : s.e.isCarrierIn = 0) :
    ∃ p : Machine.Path machine Patient, p.state 0 = s ∧ Lively p ∧ Hushed p := by
  obtain ⟨p, hp, hact⟩ : ∃ p : Machine.Path machine Patient, p.state 0 = s ∧ p.act = alone :=
    ⟨.follow alone alone_some s, rfl, rfl⟩
  have calm (n : Nat) : (p.state n).Attached ∧ (p.state n).e.isCarrierIn = 0 := by
    induction n with
    | zero => exact hp ▸ ⟨att, hc⟩
    | succ n ih =>
      have hs := Lively.steps p n
      refine ⟨ih.1.step hs, ?_⟩
      rw [hact] at hs
      unfold alone at hs
      split at hs
      · generalize p.state (n + 1) = s' at hs ⊢
        generalize p.seen n = es at hs
        cases hs with
        | tick ms => exact ih.2
        | receives ha => cases ha
      next hodd =>
        obtain ⟨r, hmv, -, hr, -⟩ := Lively.out_moves ih.1 (show p.act n = .out by rw [hact, alone, if_neg hodd])
        rw [hr]
        exact hmv.carrier ih.2
  have clock (n : Nat) : (p.state 0).now + 30 * n ≤ (p.state (2 * n)).now := by
    induction n with
    | zero => simp
    | succ n ih =>
      have htick : p.act (2 * n) = .tick 30 := by rw [hact, alone, if_pos (by omega)]
      have hnext := p.next (2 * n)
      rw [htick] at hnext
      have hnow : (p.state (2 * n + 1)).now = (p.state (2 * n)).now + 30 :=
        congrArg (fun r => r.1.now) (Option.some.inj hnext).symm
      have hmono : (p.state (2 * n + 1)).now ≤ (p.state (2 * (n + 1))).now := Lively.clock_mono p (by omega)
      push_cast
      omega
  refine ⟨p, hp, ⟨fun n => ⟨2 * n + 1, by omega, ?_⟩, fun time => ?_⟩, 0, fun n _ h => ?_⟩
  · rw [hact, alone, if_neg (by omega)]
  · refine ⟨2 * (time - (p.state 0).now).toNat, ?_⟩
    have h := clock (time - (p.state 0).now).toNat
    omega
  · rw [(calm (n + 1)).2] at h
    cases h

/-- Two frames of one octet. Behind the last stop only the first octet has been sent. -/
theorem pair_transmits : ∃ es s, machine.Run Patient { first with e := (first.e.sendStart .dtHdlc 3).2 } pairIn es s ∧
    accepted es = ⟨[([7], true), ([8], false)], []⟩ ∧ heard .v21Preamble (packets es) = ⟨true, [], [7], false⟩ ∧
    ∃ p : Machine.Path machine Patient, p.state 0 = s ∧ Lively p ∧ Hushed p ∧
      ∃ m, (heard .v21Preamble (packets (es ++ p.events m))).frames = [([7], true), ([8], true)] ∧
        (heard .v21Preamble (packets (es ++ p.events m))).ended = true := by
  have hx : (machine.exec Patient { first with e := (first.e.sendStart .dtHdlc 3).2 } pairIn).any (fun x =>
      decide (accepted x.2 = ⟨[([7], true), ([8], false)], []⟩ ∧
        heard .v21Preamble (packets x.2) = ⟨true, [], [7], false⟩ ∧ x.1.e.isCarrierIn = 0)) = true := by decide +kernel
  obtain ⟨s, es, h, ht⟩ := Machine.exec_passes hx
  obtain ⟨hacc, hheard, hc⟩ := of_decide_eq_true ht
  have hstart : machine.step first (.sendStart .dtHdlc 3) = some (_, [.sendStart .dtHdlc true]) := rfl
  have att : s.Attached :=
    h.state_invariant (I := Attached) ⟨rfl, rfl, rfl⟩ fun s a s' es' hi _ hs => hi.step (step_cases hs)
  obtain ⟨p, hp, fair, hush⟩ := exists_lively att hc
  obtain ⟨m, hm⟩ := (run_transmits run_first (.inl rfl) hstart rfl h).2 p hp fair hush
  have hcaught := hm m (Nat.le_refl m)
  have hconveyed : Conveyed .dtHdlc (heard .v21Preamble (packets (es ++ p.events m))) (accepted (es ++ p.events m)) :=
    (run_transmits run_first (.inl rfl) hstart rfl (h.trans (hp ▸ p.run m))).1
  have hend : (heard .v21Preamble (packets (es ++ p.events m))).ended = true := by
    refine hcaught.ended ⟨([8], false), ?_, .inr rfl⟩
    rw [hacc]
    simp
  refine ⟨es, s, h, hacc, hheard, p, hp, fair, hush, m, ?_, hend⟩
  · have hpre := Accepted.frames_prefix es (p.events m)
    rw [hacc] at hpre
    cases hconveyed.ended hend with
    | hdlc done last ha more hf _ =>
      obtain ⟨rest, hrest⟩ := hpre
      rw [ha] at hrest
      -- the last stop is the only one behind which no frames follow
      match done, hrest with
      | [d], hrest =>
        simp only [List.cons_append, List.nil_append, List.cons.injEq] at hrest
        obtain ⟨rfl, hlast, -⟩ := hrest
        cases hlast
        rw [hf, ha]
        rfl
      | d :: d' :: done, hrest =>
        simp only [List.cons_append, List.nil_append, List.cons.injEq] at hrest
        obtain ⟨-, rfl, -⟩ := hrest
        exact absurd (more ([8], false) (by simp)) (fun h => by cases h)

end Sys

end T38Modem
