import T38Modem.FrameSignal

namespace T38Modem

namespace Modem

open ModemEngineBody Escape

variable {m m' : Modem} {x : ModemAct} {es es' : List ModemSeen} {fed sent : List Byte} {b b' : ModemEngineBody}
  {a : Answers} {calls : List ModemOut} {more : Bool}

/-- The modem remembers what it has told the engine with the stop of the frame. -/
def Marked (calls : List ModemOut) (m : Modem) : Prop :=
  Stopped m → m.body.state ≠ .stCommand → ∀ more, .sendStop more ∈ calls → m.body.moreFrames = more

/-- The stop of a frame says what the modem remembers. -/
theorem sendRound_marks (rest : List Byte) (h : Feeding (scan DLE ETX false fed) sent b) (hd : b.dleData.data = [])
    (hr : (scan DLE ETX false fed).stopped = true) : (b.sendRound a rest).1.moreFrames = moreToCome sent := by
  have hget : b.dleData.getData 1024 = (none, b.dleData.toDataStream) := by
    rw [DataStream.getData, if_pos hd, if_pos (h.eof.trans hr)]
  unfold sendRound stopSending
  rw [hget]
  dsimp only
  split <;> exact h.moreFrames

theorem resume_marks {reply : Option String} (h : Fed fed sent m) (hs : m.step (.resume a reply) = some (m', es'))
    (hcall : .sendStop more ∈ engineCalls es') : m'.body.moreFrames = more := by
  cases h with
  | idle h hd ho => cases hs
  | @handling b done rest hf h hd ho hl =>
    have hs : some (ofNext (b.handleData a rest)) = some (m', es') := hs
    cases rest with
    | nil =>
      obtain ⟨rfl, rfl⟩ := Prod.mk.inj (Option.some.inj hs)
      cases hcall
    | cons c cs =>
      obtain ⟨b', he, -⟩ := handleData_feeding (a := a) h ho hl
      rw [he] at hs
      obtain ⟨rfl, rfl⟩ := Prod.mk.inj (Option.some.inj hs)
      cases hcall
  | @sending b h =>
    have hs : some (ofNext (b.sendRound a (scan DLE ETX false fed).rest)) = some (m', es') := hs
    by_cases hd : b.dleData.data = []
    · cases hr : (scan DLE ETX false fed).stopped with
      | true =>
        have hmarks := sendRound_marks (a := a) (scan DLE ETX false fed).rest h hd hr
        obtain ⟨b', he, -⟩ := sendRound_end (a := a) (scan DLE ETX false fed).rest h hd hr
        rw [he] at hs hmarks
        obtain ⟨rfl, rfl⟩ := Prod.mk.inj (Option.some.inj hs)
        obtain hmore : ModemOut.sendStop more = .sendStop (moreToCome sent) := List.mem_singleton.mp hcall
        cases hmore
        exact hmarks
      | false =>
        rw [sendRound_none _ h hd hr] at hs
        obtain ⟨rfl, rfl⟩ := Prod.mk.inj (Option.some.inj hs)
        cases hcall
    · obtain ⟨bs, b', he, -, -⟩ := sendRound_more (a := a) (scan DLE ETX false fed).rest h hd
      rw [he] at hs
      obtain ⟨rfl, rfl⟩ := Prod.mk.inj (Option.some.inj hs)
      obtain hsend : ModemOut.sendStop more = .send bs := List.mem_singleton.mp hcall
      cases hsend

/-- While a frame is taken only the thread that takes it calls the engine. -/
theorem step_calls (h : Fed fed sent m) (hok : InSignal m x) (hs : m.step x = some (m', es'))
    (hcall : .sendStop more ∈ engineCalls es') : m'.body.moreFrames = more := by
  obtain ⟨hf, hst⟩ := h.sending_body
  have hu : m.body.state.untimed = true := by
    rw [hst]
    rfl
  by_cases hx : foreign x = true
  · obtain ⟨-, -, hc, -⟩ := step_foreign hf hu hx hs
    rw [hc] at hcall
    cases hcall
  cases x with
  | command a c => exact hok.elim
  | onOutBufEmpty => exact hok.elim
  | request a r => exact absurd rfl hx
  | newPtrEngine a mce => exact absurd rfl hx
  | onTimeout timer => exact absurd rfl hx
  | resume a reply => exact resume_marks h hs hcall
  | onSeq =>
    obtain ⟨rfl, rfl⟩ := Prod.mk.inj (Option.some.inj hs)
    cases hcall
  | handleData bs =>
    obtain ⟨-, he⟩ := Option.ite_none_right_eq_some.mp hs
    obtain ⟨rfl, rfl⟩ := Prod.mk.inj (Option.some.inj he)
    cases hcall
  | checkState a =>
    obtain ⟨b', resp, hpc, hb, hsw, hresp⟩ := checkState_step hf hu hok hs
    have hst' : b'.state = .stSend := (congrArg SendSide.state hb).trans hst
    have hdone : b'.switchState a resp = done resp b' := by
      rw [switchState, hst']
    rw [hdone] at hsw
    obtain ⟨hc, -⟩ := done_seen (b := b') hresp
    rw [hsw] at hc
    rw [hc] at hcall
    cases hcall

/-- What a step behind the end of a frame leaves of it. -/
structure Leaves (m m' : Modem) (es' : List ModemSeen) : Prop where
  kept : Stopped m' → m'.body.state ≠ .stCommand →
    m.body.state ≠ .stCommand ∧ m'.body.moreFrames = m.body.moreFrames
  more : .out (.result .connect) ∈ es' → m.body.state ≠ .stCommand ∧ m.body.moreFrames = true

theorem Leaves.of_same (hb : m'.body.sendSide = m.body.sendSide) (hn : .out (.result .connect) ∉ es') :
    Leaves m m' es' := by
  have hs : m'.body.state = m.body.state := congrArg SendSide.state hb
  exact ⟨fun _ h => ⟨hs ▸ h, congrArg SendSide.moreFrames hb⟩, fun hc => absurd hc hn⟩

/-- The modem is ready for another command. -/
theorem Leaves.of_command (hs : m'.body.state = .stCommand) (hn : .out (.result .connect) ∉ es') : Leaves m m' es' :=
  ⟨fun _ h => absurd hs h, fun hc => absurd hc hn⟩

theorem resume_leaves {reply : Option String} (h : Stopped m) (hs : m.step (.resume a reply) = some (m', es')) :
    Leaves m m' es' := by
  obtain ⟨b, pc⟩ := m
  rcases h.pc with hpc | ⟨rest, hpc⟩ <;> dsimp only at hpc <;> subst hpc
  · cases hs
  · have hs : some (ofNext (b.handleData a rest)) = some (m', es') := hs
    cases rest with
    | nil =>
      obtain ⟨rfl, rfl⟩ := Prod.mk.inj (Option.some.inj hs)
      exact .of_same rfl (by simp [handleData])
    | cons c cs =>
      rcases h.state with hst | hst | hst <;> dsimp only at hst <;> rw [handleData, hst] at hs <;> dsimp only at hs
      · obtain ⟨rfl, rfl⟩ := Prod.mk.inj (Option.some.inj hs)
        exact .of_command rfl List.not_mem_nil
      · have habort : b.abort a cs =
            ({ b.setState .stCommand with timeout := .stopped }, .handling cs, [.result .ok]) := by
          unfold abort
          dsimp only
          rw [if_neg (by simp [hst]), if_pos (.inl h.engine)]
          rfl
        rw [habort] at hs
        obtain ⟨rfl, rfl⟩ := Prod.mk.inj (Option.some.inj hs)
        exact .of_command rfl (by simp)
      · obtain ⟨rfl, rfl⟩ := Prod.mk.inj (Option.some.inj hs)
        exact .of_command hst List.not_mem_nil

theorem checkState_leaves (h : Stopped m) (hok : InSignal m (.checkState a))
    (hs : m.step (.checkState a) = some (m', es')) : Leaves m m' es' := by
  obtain ⟨b', resp, hpc, hb, hsw, hresp⟩ := checkState_step h.toFaxSending h.untimed hok hs
  have hstate : b'.state = m.body.state := congrArg SendSide.state hb
  have hmore : b'.moreFrames = m.body.moreFrames := congrArg SendSide.moreFrames hb
  have hdone : b'.switchState a resp = done resp b' → Leaves m m' es' := by
    intro hd
    rw [hd] at hsw
    obtain ⟨-, hn⟩ := done_seen (b := b') hresp
    rw [hsw] at hn
    obtain ⟨rfl, -⟩ := Prod.mk.inj hsw
    exact .of_same hb hn
  rcases h.state with hst | hst | hst
  · exact hdone (by rw [switchState, hstate, hst])
  · rw [switchState, hstate, hst] at hsw
    dsimp only [sendAck] at hsw
    rw [show b'.dataType = .dtHdlc from (h.body hb).dataType] at hsw
    dsimp only at hsw
    split at hsw
    next hm =>
      obtain ⟨rfl, rfl⟩ := Prod.mk.inj hsw
      refine ⟨fun hstop => ?_, fun _ => ⟨by rw [hst]; decide, hmore ▸ hm⟩⟩
      rcases hstop.state with hst' | hst' | hst' <;> cases hst'
    next =>
      obtain ⟨rfl, rfl⟩ := Prod.mk.inj hsw
      exact .of_command rfl (by simp [done])
  · exact hdone (by rw [switchState, hstate, hst])

theorem step_leaves (h : Stopped m) (hok : InSignal m x) (hs : m.step x = some (m', es')) : Leaves m m' es' := by
  by_cases hx : foreign x = true
  · obtain ⟨-, hb, -, hn, -⟩ := step_foreign h.toFaxSending h.untimed hx hs
    exact .of_same hb hn
  cases x with
  | command a c => exact hok.elim
  | onOutBufEmpty => exact hok.elim
  | request a r => exact absurd rfl hx
  | newPtrEngine a mce => exact absurd rfl hx
  | onTimeout timer => exact absurd rfl hx
  | resume a reply => exact resume_leaves h hs
  | checkState a => exact checkState_leaves h hok hs
  | handleData bs =>
    obtain ⟨-, he⟩ := Option.ite_none_right_eq_some.mp hs
    obtain ⟨rfl, rfl⟩ := Prod.mk.inj (Option.some.inj he)
    exact .of_same rfl List.not_mem_nil
  | onSeq =>
    obtain ⟨rfl, rfl⟩ := Prod.mk.inj (Option.some.inj hs)
    refine ⟨fun _ hne => ?_, fun hc => (by cases hc)⟩
    rcases h.state with hst | hst | hst <;> unfold onSeq at hne ⊢ <;> rw [hst] at hne ⊢
    · exact ⟨fun h => (by cases h), rfl⟩
    · exact ⟨fun h => (by cases h), rfl⟩
    · exact absurd hst hne

/-- What the modem remembers of a frame is kept by every step until the CONNECT for the next one. -/
theorem step_marked (h : Framing fed calls m) (hk : Marked calls m) (hok : InSignal m x)
    (hs : m.step x = some (m', es')) : Marked (calls ++ engineCalls es') m' := by
  obtain ⟨chunks, ⟨rfl, h⟩ | ⟨rfl, -, -, h⟩⟩ := h
  · intro _ _ more hmem
    rcases List.mem_append.mp hmem with hmem | hmem
    · obtain ⟨c, -, hc⟩ := List.mem_map.mp hmem
      cases hc
    · exact step_calls h hok hs hmem
  · intro hstop hst more hmem
    have hl := step_leaves h hok hs
    obtain ⟨hst', hmore⟩ := hl.kept hstop hst
    rw [(step_stopped h hok hs).1, List.append_nil] at hmem
    rw [hmore]
    exact hk h hst' more hmem

theorem run_marked {as : List ModemAct} (h : machine.Run InSignal m as es m') (hf : Unfed m.body) (hpc : m.pc = .idle)
    (hn : .out (.result .connect) ∉ es) : Marked (engineCalls es) m' := by
  induction h with
  | start =>
    intro hstop
    rcases hstop.state with hst | hst | hst <;> cases hf.state.symm.trans hst
  | @next as es m₁ x m₂ es₂ hrun hok hs ih =>
    have hbefore : .out (.result .connect) ∉ es := fun hm => hn (List.mem_append_left _ hm)
    rw [engineCalls, List.filterMap_append]
    exact step_marked (run_framing hrun hf hpc hbefore) (ih hbefore) hok hs

/-- The last frame of a signal is in progress, and what the modem remembers is of it; behind the stop of each frame
before there were more to come. -/
theorem Signal.marked {m₀ : Modem} {segs : List (List ModemAct × List ModemSeen)} (h : Signal m₀ segs m)
    (hf : Unfed m₀.body) (hpc : m₀.pc = .idle) :
    ∃ before as es, segs = before ++ [(as, es)] ∧ Framing (as.flatMap dteInput) (engineCalls es) m ∧
      Marked (engineCalls es) m ∧ ∀ seg ∈ before, ∀ more, .sendStop more ∈ engineCalls seg.2 → more = true := by
  induction h with
  | @first as es m h hn =>
    exact ⟨[], as, es, rfl, run_framing h hf hpc hn, run_marked h hf hpc hn, fun seg hseg => by cases hseg⟩
  | @next segs m x m₁ es₁ as es m₂ _ hok hs hc hr hn ih =>
    obtain ⟨before, as', es', rfl, hframe, hmarked, hbefore⟩ := ih
    rcases step_framing hframe hok hs with ⟨hno, -⟩ | ⟨-, hstop, hfresh, hidle⟩
    · exact absurd hc hno
    · refine ⟨_, as, es, rfl, run_framing hr hfresh hidle hn, run_marked hr hfresh hidle hn, ?_⟩
      intro seg hseg more hmem
      rcases List.mem_append.mp hseg with hseg | hseg
      · exact hbefore seg hseg more hmem
      · obtain rfl := List.mem_singleton.mp hseg
        obtain ⟨hst, hmore⟩ := (step_leaves hstop hok hs).more hc
        rw [← hmarked hstop hst more hmem, hmore]

end Modem

end T38Modem
