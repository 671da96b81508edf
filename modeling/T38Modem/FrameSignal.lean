import T38Modem.FrameSending

namespace T38Modem

open Escape

namespace Modem

open ModemEngineBody

/-- The calls of the engine. -/
def engineCall : ModemSeen → Option ModemOut
  | .out (.send bs) => some (.send bs)
  | .out (.sendStop more) => some (.sendStop more)
  | _ => none

def engineCalls (es : List ModemSeen) : List ModemOut := es.filterMap engineCall

/-- The octets that the DTE gives to the modem. -/
def dteInput : ModemAct → List Byte
  | .handleData bs => bs
  | _ => []

/-- The DTE gives up to 1024 octets at once and no command, the engine reports no empty buffer, and
no call is answered by itself. -/
def InSignal (m : Modem) : ModemAct → Prop
  | .command _ _ | .onOutBufEmpty => False
  | .handleData bs => bs.length ≤ 1024
  | .checkState a => ¬(a.autoAnswer = true ∧ m.body.off_hook = false ∧ m.body.callState = .cstCalled)
  | _ => True

/-- Where the thread is with a frame, of whose octets `fed` is given to the modem and `sent` is sent. -/
inductive Fed (fed sent : List Byte) : Modem → Prop
  | idle {b} (h : Feeding (scan DLE ETX false fed) sent b) (hd : b.dleData.data = [])
      (ho : (scan DLE ETX false fed).stopped = false) : Fed fed sent ⟨b, .idle⟩
  | handling {b} (done rest) (hf : fed = done ++ rest) (h : Feeding (scan DLE ETX false done) sent b)
      (hd : b.dleData.data = []) (ho : (scan DLE ETX false done).stopped = false) (hl : rest.length ≤ 1024) :
      Fed fed sent ⟨b, .handling rest⟩
  | sending {b} (h : Feeding (scan DLE ETX false fed) sent b) :
      Fed fed sent ⟨b, .sending (scan DLE ETX false fed).rest⟩

/-- A frame in progress, and what the engine has been called for. -/
def Framing (fed : List Byte) (calls : List ModemOut) (m : Modem) : Prop :=
  ∃ chunks : List (List Byte),
    (calls = chunks.map .send ∧ Fed fed chunks.flatten m) ∨
    (calls = chunks.map .send ++ [.sendStop (moreToCome chunks.flatten)] ∧ (scan DLE ETX false fed).stopped = true ∧
      chunks.flatten = (scan DLE ETX false fed).data.map bitRevTable ∧ Stopped m)

variable {m m' : Modem} {x : ModemAct} {es es' : List ModemSeen} {fed sent : List Byte} {b b' : ModemEngineBody}

/-- The actions of the others that have nothing to do with what the modem sends. -/
def foreign : ModemAct → Bool
  | .request _ _ | .newPtrEngine _ _ | .onTimeout _ => true
  | _ => false

theorem step_foreign (h : FaxSending m.body) (hu : m.body.state.untimed = true) (hx : foreign x = true)
    (hs : m.step x = some (m', es')) :
    m'.pc = m.pc ∧ m'.body.sendSide = m.body.sendSide ∧ engineCalls es' = [] ∧
      .out (.result .connect) ∉ es' ∧ dteInput x = [] := by
  cases x with
  | request a r =>
    obtain ⟨rfl, rfl⟩ := Prod.mk.inj (Option.some.inj hs)
    exact ⟨rfl, request_sendSide r h hu, rfl, by simp, rfl⟩
  | newPtrEngine a mce =>
    obtain ⟨rfl, rfl⟩ := Prod.mk.inj (Option.some.inj hs)
    exact ⟨rfl, attachEngine_sendSide h hu, rfl, by simp, rfl⟩
  | onTimeout timer =>
    cases timer <;>
    · obtain ⟨rfl, rfl⟩ := Prod.mk.inj (Option.some.inj hs)
      exact ⟨rfl, rfl, rfl, by simp, rfl⟩
  | _ => cases hx

theorem Fed.body (h : Fed fed sent m) (hb : b'.sendSide = m.body.sendSide) (hpc : m'.pc = m.pc) (hm : m'.body = b') :
    Fed fed sent m' := by
  obtain ⟨b, pc⟩ := m'
  subst hm
  dsimp only at hpc hb
  cases h with
  | idle h hd ho =>
    subst hpc
    exact .idle (h.congr hb) ((congrArg (·.dleData.data) hb).trans hd) ho
  | handling done rest hf h hd ho hl =>
    subst hpc
    exact .handling done rest hf (h.congr hb) ((congrArg (·.dleData.data) hb).trans hd) ho hl
  | sending h =>
    subst hpc
    exact .sending (h.congr hb)

theorem Fed.sending_body (h : Fed fed sent m) : FaxSending m.body ∧ m.body.state = .stSend := by
  cases h with
  | idle h _ _ => exact ⟨h.toFaxSending, h.state⟩
  | handling _ _ _ h _ _ _ => exact ⟨h.toFaxSending, h.state⟩
  | sending h => exact ⟨h.toFaxSending, h.state⟩

/-- What a step may do while the frame is taken: go on with it, or stop it at its end. -/
def Taken (fed sent : List Byte) (x : ModemAct) (m' : Modem) (es' : List ModemSeen) : Prop :=
  (∃ chunks : List (List Byte), engineCalls es' = chunks.map .send ∧
    Fed (fed ++ dteInput x) (sent ++ chunks.flatten) m') ∨
  (engineCalls es' = [.sendStop (moreToCome sent)] ∧ dteInput x = [] ∧
    (scan DLE ETX false fed).stopped = true ∧ sent = (scan DLE ETX false fed).data.map bitRevTable ∧ Stopped m')

theorem Taken.none (hi : dteInput x = []) (hc : engineCalls es' = []) (h : Fed fed sent m') :
    Taken fed sent x m' es' :=
  .inl ⟨[], hc, by simpa [hi] using h⟩

/-- The thread of the modem goes on with the frame. -/
theorem resume_fed {a : Answers} {reply : Option String} (h : Fed fed sent m)
    (hs : m.step (.resume a reply) = some (m', es')) :
    Taken fed sent (.resume a reply) m' es' ∧ .out (.result .connect) ∉ es' := by
  cases h with
  | idle h hd ho => cases hs
  | @handling b done rest hf h hd ho hl =>
    have hs : some (ofNext (b.handleData a rest)) = some (m', es') := hs
    cases rest with
    | nil =>
      obtain ⟨rfl, rfl⟩ := Prod.mk.inj (Option.some.inj hs)
      have hfed : fed = done := by simpa using hf
      subst hfed
      exact ⟨.none rfl rfl (.idle h hd ho), by simp [handleData]⟩
    | cons c cs =>
      obtain ⟨b', he, h'⟩ := handleData_feeding (a := a) h ho hl
      rw [he] at hs
      obtain ⟨rfl, rfl⟩ := Prod.mk.inj (Option.some.inj hs)
      rw [← hf] at h' ⊢
      exact ⟨.none rfl rfl (.sending h'), List.not_mem_nil⟩
  | @sending b h =>
    have hs : some (ofNext (b.sendRound a (scan DLE ETX false fed).rest)) = some (m', es') := hs
    by_cases hd : b.dleData.data = []
    · have hsent : sent = (scan DLE ETX false fed).data.map bitRevTable := by simpa [hd] using h.data
      cases hr : (scan DLE ETX false fed).stopped with
      | true =>
        obtain ⟨b', he, h'⟩ := sendRound_end (a := a) (scan DLE ETX false fed).rest h hd hr
        rw [he] at hs
        obtain ⟨rfl, rfl⟩ := Prod.mk.inj (Option.some.inj hs)
        exact ⟨.inr ⟨rfl, rfl, hr, hsent, h'⟩, by simp⟩
      | false =>
        rw [sendRound_none _ h hd hr] at hs
        obtain ⟨rfl, rfl⟩ := Prod.mk.inj (Option.some.inj hs)
        have hrest : (scan DLE ETX false fed).rest = [] := scan_rest_nil hr
        refine ⟨.none rfl rfl (.handling fed _ ?_ h hd hr ?_), List.not_mem_nil⟩
        · rw [hrest, List.append_nil]
        · rw [hrest]
          simp
    · obtain ⟨bs, b', he, h', -⟩ := sendRound_more (a := a) (scan DLE ETX false fed).rest h hd
      rw [he] at hs
      obtain ⟨rfl, rfl⟩ := Prod.mk.inj (Option.some.inj hs)
      refine ⟨.inl ⟨[bs], rfl, ?_⟩, by simp⟩
      simpa [dteInput] using Fed.sending h'

theorem checkState_step {a : Answers} (h : FaxSending m.body) (hu : m.body.state.untimed = true)
    (hok : InSignal m (.checkState a)) (hs : m.step (.checkState a) = some (m', es')) :
    ∃ b' : ModemEngineBody, ∃ resp, m.pc = .idle ∧ b'.sendSide = m.body.sendSide ∧
      ofNext (b'.switchState a resp) = (m', es') ∧ (resp = none ∨ resp = some .ring) := by
  obtain ⟨hpc, he⟩ := Option.ite_none_right_eq_some.mp hs
  obtain ⟨b', resp, hb, hsw, hresp⟩ := checkState_sending h hu hok
  exact ⟨b', resp, hpc, hb, by rw [← hsw]; exact Option.some.inj he, hresp⟩

theorem done_seen {resp : Option ResultCode} (hr : resp = none ∨ resp = some .ring) :
    engineCalls (ofNext (done resp b)).2 = [] ∧ .out (.result .connect) ∉ (ofNext (done resp b)).2 := by
  rcases hr with rfl | rfl <;> exact ⟨rfl, by simp [ofNext, done]⟩

theorem step_fed (h : Fed fed sent m) (hok : InSignal m x) (hs : m.step x = some (m', es')) :
    Taken fed sent x m' es' ∧ .out (.result .connect) ∉ es' := by
  obtain ⟨hf, hst⟩ := h.sending_body
  have hu : m.body.state.untimed = true := by
    rw [hst]
    rfl
  by_cases hx : foreign x = true
  · obtain ⟨hpc, hb, hc, hn, hi⟩ := step_foreign hf hu hx hs
    exact ⟨.none hi hc (h.body hb hpc rfl), hn⟩
  cases x with
  | command a c => exact hok.elim
  | onOutBufEmpty => exact hok.elim
  | request a r => exact absurd rfl hx
  | newPtrEngine a mce => exact absurd rfl hx
  | onTimeout timer => exact absurd rfl hx
  | resume a reply => exact resume_fed h hs
  | onSeq =>
    obtain ⟨rfl, rfl⟩ := Prod.mk.inj (Option.some.inj hs)
    have hsame : m.body.onSeq = m.body := by
      unfold onSeq
      rw [hst]
    exact ⟨.none rfl rfl (h.body (show m.body.onSeq.sendSide = m.body.sendSide by rw [hsame]) rfl rfl), List.not_mem_nil⟩
  | handleData bs =>
    obtain ⟨hpc, he⟩ := Option.ite_none_right_eq_some.mp hs
    obtain ⟨rfl, rfl⟩ := Prod.mk.inj (Option.some.inj he)
    cases h with
    | idle h hd ho =>
      refine ⟨.inl ⟨[], rfl, ?_⟩, List.not_mem_nil⟩
      simpa [dteInput] using Fed.handling fed bs rfl h hd ho hok
    | handling => cases hpc
    | sending => cases hpc
  | checkState a =>
    obtain ⟨b', resp, hpc, hb, hsw, hresp⟩ := checkState_step hf hu hok hs
    have hst' : b'.state = .stSend := (congrArg SendSide.state hb).trans hst
    have hdone : b'.switchState a resp = done resp b' := by
      rw [switchState, hst']
    rw [hdone] at hsw
    obtain ⟨hc, hn⟩ := done_seen (b := b') hresp
    rw [hsw] at hc hn
    obtain ⟨rfl, -⟩ := Prod.mk.inj hsw
    exact ⟨.none rfl hc (h.body hb (by simp [done, hpc]) rfl), hn⟩

/-- What a step may do behind the end of a frame: nothing, or CONNECT for the next one. -/
def Waits (x : ModemAct) (m' : Modem) (es' : List ModemSeen) : Prop :=
  engineCalls es' = [] ∧
    ((.out (.result .connect) ∉ es' ∧ Stopped m') ∨
      (.out (.result .connect) ∈ es' ∧ dteInput x = [] ∧ Unfed m'.body ∧ m'.pc = .idle))

/-- The turn of `HandleData` behind the end of a frame: what the DTE gives there makes the modem ready
for another command. -/
theorem handleData_stopped {a : Answers} {rest : List Byte} (h : Stopped ⟨b, .handling rest⟩) :
    ∃ b' pc out, b.handleData a rest = (b', pc, out) ∧ Stopped ⟨b', pc⟩ ∧ (out = [] ∨ out = [.result .ok]) ∧
      (pc = .idle ∨ b'.state = .stCommand ∧ b.state ≠ .stCommand) := by
  have hf : FaxSending b := h.toFaxSending
  cases rest with
  | nil => exact ⟨b, .idle, [], rfl, ⟨hf, h.state, .inl rfl⟩, .inl rfl, .inl rfl⟩
  | cons c cs =>
    rcases h.state with hst | hst | hst <;> dsimp only at hst <;> rw [handleData, hst] <;> dsimp only
    · exact ⟨_, _, _, rfl, ⟨⟨hf.modemClass, hf.engine, hf.dataType, hf.bitRev⟩, .inr (.inr rfl), .inr ⟨_, rfl⟩⟩,
        .inl rfl, .inr ⟨rfl, by decide⟩⟩
    · -- the engine is there, so nothing is hung up
      have habort : b.abort a cs =
          ({ b.setState .stCommand with timeout := .stopped }, .handling cs, [.result .ok]) := by
        unfold abort
        dsimp only
        rw [if_neg (by simp [hst]), if_pos (.inl hf.engine)]
        rfl
      rw [habort]
      exact ⟨_, _, _, rfl, ⟨⟨hf.modemClass, hf.engine, hf.dataType, hf.bitRev⟩, .inr (.inr rfl), .inr ⟨_, rfl⟩⟩,
        .inr rfl, .inr ⟨rfl, by decide⟩⟩
    · exact ⟨_, _, _, rfl, ⟨hf, .inr (.inr hst), .inl rfl⟩, .inl rfl, .inl rfl⟩

theorem resume_stopped {a : Answers} {reply : Option String} (h : Stopped m)
    (hs : m.step (.resume a reply) = some (m', es')) : Waits (.resume a reply) m' es' := by
  obtain ⟨b, pc⟩ := m
  rcases h.pc with hpc | ⟨rest, hpc⟩ <;> dsimp only at hpc <;> subst hpc
  · cases hs
  · obtain ⟨b', pc', out, he, h', hout, -⟩ := handleData_stopped (a := a) h
    have hs : some (ofNext (b.handleData a rest)) = some (m', es') := hs
    rw [he] at hs
    obtain ⟨rfl, rfl⟩ := Prod.mk.inj (Option.some.inj hs)
    rcases hout with rfl | rfl
    · exact ⟨rfl, .inl ⟨List.not_mem_nil, h'⟩⟩
    · exact ⟨rfl, .inl ⟨by simp, h'⟩⟩

theorem checkState_stopped {a : Answers} (h : Stopped m) (hok : InSignal m (.checkState a))
    (hs : m.step (.checkState a) = some (m', es')) : Waits (.checkState a) m' es' := by
  obtain ⟨b', resp, hpc, hb, hsw, hresp⟩ := checkState_step h.toFaxSending h.untimed hok hs
  have h' : Stopped ⟨b', m.pc⟩ := h.body hb
  have hdone : b'.switchState a resp = done resp b' → Waits (.checkState a) m' es' := by
    intro hd
    rw [hd] at hsw
    obtain ⟨hc, hn⟩ := done_seen (b := b') hresp
    rw [hsw] at hc hn
    obtain ⟨rfl, -⟩ := Prod.mk.inj hsw
    exact ⟨hc, .inl ⟨hn, h'.toFaxSending, h'.state, .inl rfl⟩⟩
  rcases h'.state with hst | hst | hst <;> dsimp only at hst
  · exact hdone (by rw [switchState, hst])
  · rw [switchState, hst] at hsw
    dsimp only [sendAck] at hsw
    rw [show b'.dataType = .dtHdlc from h'.dataType] at hsw
    dsimp only at hsw
    have hf : FaxSending b' := h'.toFaxSending
    split at hsw
    next =>
      obtain ⟨rfl, rfl⟩ := Prod.mk.inj hsw
      exact ⟨rfl, .inr ⟨by simp [done], rfl, ⟨⟨hf.modemClass, hf.engine, hf.dataType, hf.bitRev⟩,
        rfl, rfl, rfl, rfl, rfl, rfl⟩, rfl⟩⟩
    next =>
      obtain ⟨rfl, rfl⟩ := Prod.mk.inj hsw
      exact ⟨rfl, .inl ⟨by simp [done], ⟨hf.modemClass, hf.engine, hf.dataType, hf.bitRev⟩, .inr (.inr rfl), .inl rfl⟩⟩
  · exact hdone (by rw [switchState, hst])

theorem step_stopped (h : Stopped m) (hok : InSignal m x) (hs : m.step x = some (m', es')) : Waits x m' es' := by
  by_cases hx : foreign x = true
  · obtain ⟨hpc, hb, hc, hn, -⟩ := step_foreign h.toFaxSending h.untimed hx hs
    obtain ⟨b', pc'⟩ := m'
    dsimp only at hpc hb
    subst hpc
    exact ⟨hc, .inl ⟨hn, h.body hb⟩⟩
  cases x with
  | command a c => exact hok.elim
  | onOutBufEmpty => exact hok.elim
  | request a r => exact absurd rfl hx
  | newPtrEngine a mce => exact absurd rfl hx
  | onTimeout timer => exact absurd rfl hx
  | resume a reply => exact resume_stopped h hs
  | checkState a => exact checkState_stopped h hok hs
  | handleData bs =>
    obtain ⟨hpc, he⟩ := Option.ite_none_right_eq_some.mp hs
    obtain ⟨rfl, rfl⟩ := Prod.mk.inj (Option.some.inj he)
    exact ⟨rfl, .inl ⟨List.not_mem_nil, h.toFaxSending, h.state, .inr ⟨bs, rfl⟩⟩⟩
  | onSeq =>
    obtain ⟨rfl, rfl⟩ := Prod.mk.inj (Option.some.inj hs)
    refine ⟨rfl, .inl ⟨List.not_mem_nil, ?_⟩⟩
    have hf : FaxSending m.body := h.toFaxSending
    rcases h.state with hst | hst | hst <;> unfold onSeq <;> rw [hst] <;> dsimp only
    · exact ⟨⟨hf.modemClass, hf.engine, hf.dataType, hf.bitRev⟩, .inr (.inl rfl), h.pc⟩
    · exact h
    · exact h

/-- A step in a frame goes on with it, or it is the CONNECT for the next one. -/
theorem step_framing {calls : List ModemOut} (h : Framing fed calls m) (hok : InSignal m x)
    (hs : m.step x = some (m', es')) :
    (.out (.result .connect) ∉ es' ∧ Framing (fed ++ dteInput x) (calls ++ engineCalls es') m') ∨
      (.out (.result .connect) ∈ es' ∧ Stopped m ∧ Unfed m'.body ∧ m'.pc = .idle) := by
  obtain ⟨chunks, ⟨rfl, h⟩ | ⟨rfl, hstop, hsent, h⟩⟩ := h
  · obtain ⟨htaken, hn⟩ := step_fed h hok hs
    refine .inl ⟨hn, ?_⟩
    rcases htaken with ⟨chunks', hc, h'⟩ | ⟨hc, hi, hstop, hsent, h'⟩
    · refine ⟨chunks ++ chunks', .inl ⟨by rw [hc, List.map_append], ?_⟩⟩
      rwa [List.flatten_append]
    · rw [hi, List.append_nil, hc]
      exact ⟨chunks, .inr ⟨rfl, hstop, hsent, h'⟩⟩
  · obtain ⟨hc, ⟨hn, h'⟩ | ⟨hn, -, hfresh, hpc⟩⟩ := step_stopped h hok hs
    · refine .inl ⟨hn, chunks, .inr ⟨by rw [hc, List.append_nil], ?_, ?_, h'⟩⟩
      · rw [scan_append_stopped hstop]
        exact hstop
      · rw [scan_append_stopped hstop]
        exact hsent
    · exact .inr ⟨hn, h, hfresh, hpc⟩

theorem run_framing {as : List ModemAct} (h : machine.Run InSignal m as es m') (hf : Unfed m.body) (hpc : m.pc = .idle)
    (hn : .out (.result .connect) ∉ es) : Framing (as.flatMap dteInput) (engineCalls es) m' := by
  induction h with
  | start =>
    obtain ⟨b, pc⟩ := m
    dsimp only at hf hpc
    subst hpc
    exact ⟨[], .inl ⟨rfl, .idle hf (by simpa using hf.data) rfl⟩⟩
  | @next as es m₁ x m₂ es₂ _ hok hs ih =>
    have ih' := ih fun hm => hn (List.mem_append_left _ hm)
    rcases step_framing ih' hok hs with ⟨-, h'⟩ | ⟨hc, -⟩
    · simpa [List.flatMap_append, engineCalls, List.filterMap_append] using h'
    · exact absurd (List.mem_append_right _ hc) hn

/-- The frames of a signal: from one CONNECT to the next what is done and what is seen. -/
inductive Signal (m₀ : Modem) : List (List ModemAct × List ModemSeen) → Modem → Prop
  | first {as es m} (h : machine.Run InSignal m₀ as es m) (hn : .out (.result .connect) ∉ es) :
      Signal m₀ [(as, es)] m
  | next {segs m x m₁ es₁ as es m₂} (h : Signal m₀ segs m) (hok : InSignal m x)
      (hs : m.step x = some (m₁, es₁)) (hc : .out (.result .connect) ∈ es₁)
      (hr : machine.Run InSignal m₁ as es m₂) (hn : .out (.result .connect) ∉ es) :
      Signal m₀ (segs ++ [(as, es)]) m₂

/-- The calls of the engine for a frame: its octets in some pieces, and its end. -/
def SentAs (frame : List Byte) (calls : List ModemOut) : Prop :=
  ∃ chunks : List (List Byte), chunks.flatten = frame.map bitRevTable ∧
    calls = chunks.map .send ++ [.sendStop (moreToCome (frame.map bitRevTable))]

theorem Framing.sentAs {calls : List ModemOut} {frame junk : List Byte} (h : Framing fed calls m)
    (hw : Stopped m ∨ m.pc = .idle) (hfed : fed = stuff DLE frame ++ DLE :: ETX :: junk) : SentAs frame calls := by
  have hscan : scan DLE ETX false fed = ⟨frame, false, true, junk⟩ := by
    rw [hfed]
    exact scan_stuff_stop (by decide)
  obtain ⟨chunks, ⟨rfl, h⟩ | ⟨rfl, -, hsent, -⟩⟩ := h
  · -- the end has been read, so the thread is not done with the frame
    cases h with
    | idle h hd ho =>
      rw [hscan] at ho
      cases ho
    | handling done rest hf h hd ho hl =>
      rcases hw with hw | hw
      · rcases hw.state with hst | hst | hst <;> cases h.state.symm.trans hst
      · cases hw
    | sending h =>
      rcases hw with hw | hw
      · rcases hw.state with hst | hst | hst <;> cases h.state.symm.trans hst
      · cases hw
  · rw [hscan] at hsent
    exact ⟨chunks, hsent, by rw [hsent]⟩

/-- At the end of a signal the last frame is in progress, and those before are sent. -/
theorem Signal.framing {m₀ : Modem} {segs : List (List ModemAct × List ModemSeen)} (h : Signal m₀ segs m)
    (hf : Unfed m₀.body) (hpc : m₀.pc = .idle) :
    ∃ before as es, segs = before ++ [(as, es)] ∧ Framing (as.flatMap dteInput) (engineCalls es) m ∧
      ∀ seg ∈ before, ∀ frame junk, seg.1.flatMap dteInput = stuff DLE frame ++ DLE :: ETX :: junk →
        SentAs frame (engineCalls seg.2) := by
  induction h with
  | @first as es m h hn => exact ⟨[], as, es, rfl, run_framing h hf hpc hn, by simp⟩
  | @next segs m x m₁ es₁ as es m₂ _ hok hs hc hr hn ih =>
    obtain ⟨before, as', es', rfl, hframe, hbefore⟩ := ih
    rcases step_framing hframe hok hs with ⟨hno, -⟩ | ⟨-, hstop, hfresh, hidle⟩
    · exact absurd hc hno
    · refine ⟨_, as, es, rfl, run_framing hr hfresh hidle hn, ?_⟩
      intro seg hseg frame junk hin
      rcases List.mem_append.mp hseg with hseg | hseg
      · exact hbefore seg hseg frame junk hin
      · obtain rfl := List.mem_singleton.mp hseg
        exact Framing.sentAs hframe (.inl hstop) hin

theorem sendStart_fresh {a : Answers} (hm : b.modemClass = .mcFax) (hc : (b.sendStart a .dtHdlc).1 = true) :
    Unfed (b.sendStart a .dtHdlc).2 := by
  have hbit : ({ b with dataType := .dtHdlc } : ModemEngineBody).resetDleData.setBitRevDleData =
      { b with dataType := .dtHdlc, dleData := { b.dleData.clean with bitRev := true }, dataCount := 0,
               moreFrames := false } := by
    simp [setBitRevDleData, resetDleData, hm]
  unfold sendStart at hc ⊢
  rw [hbit] at hc ⊢
  dsimp only at hc ⊢
  split at hc
  next => cases hc
  next he =>
    rw [if_neg he]
    have hsome : b.currentClassEngine.isSome = true := by
      by_contra hn
      exact he (.inl (by simpa [setState] using hn))
    exact ⟨⟨hm, hsome, rfl, rfl⟩, rfl, rfl, rfl, rfl, rfl, rfl⟩

/-- The thread of the modem alone comes to its end. -/
def Settles (m : Modem) : Prop :=
  ∃ n es m', machine.Run InSignal m (List.replicate n (.resume {} none)) es m' ∧ m'.pc = .idle ∧
    .out (.result .connect) ∉ es

theorem Settles.of_idle (h : m.pc = .idle) : Settles m := ⟨0, [], m, .start, h, List.not_mem_nil⟩

theorem resume_step {pc pc' : BodyPc} {out : List ModemOut} (h : b.resume {} none pc = some (b', pc', out)) :
    (⟨b, pc⟩ : Modem).step (.resume {} none) = some (⟨b', pc'⟩, out.map .out) := by
  simp only [step]
  rw [h]
  rfl

theorem Settles.of_resume (hs : m.step (.resume {} none) = some (m', es')) (hn : .out (.result .connect) ∉ es')
    (h : Settles m') : Settles m := by
  obtain ⟨n, es, m'', hr, hpc, hno⟩ := h
  have hok : InSignal m (.resume {} none) := trivial
  have hone : machine.Run InSignal m [.resume {} none] es' m' := .one hok hs
  exact ⟨n + 1, es' ++ es, m'', hone.trans hr, hpc, by simp [hn, hno]⟩

theorem stopped_settles (h : Stopped m) : Settles m := by
  obtain ⟨b, pc⟩ := m
  rcases h.pc with hpc | ⟨rest, hpc⟩ <;> dsimp only at hpc <;> subst hpc
  · exact .of_idle rfl
  · have hnext : ∀ b rest, Stopped ⟨b, .handling rest⟩ → (∀ b' rest', b'.state = .stCommand →
        b.state ≠ .stCommand → Stopped ⟨b', .handling rest'⟩ → Settles ⟨b', .handling rest'⟩) →
        Settles ⟨b, .handling rest⟩ := by
      intro b rest h hlater
      obtain ⟨b', pc', out, he, h', hout, hpc'⟩ := handleData_stopped (a := {}) h
      refine .of_resume (resume_step (congrArg some he)) (by rcases hout with rfl | rfl <;> simp) ?_
      rcases hpc' with rfl | ⟨hcom, hst⟩
      · exact .of_idle rfl
      · rcases h'.pc with hpc | ⟨rest', hpc⟩ <;> dsimp only at hpc <;> subst hpc
        · exact .of_idle rfl
        · exact hlater b' rest' hcom hst h'
    exact hnext b rest h fun b' rest' hcom _ h' => hnext b' rest' h' fun _ _ _ hst => absurd hcom hst

theorem Fed.settles (h : Fed fed sent m) : Settles m := by
  -- the frame that has been read goes out in rounds
  have hsending : ∀ n, ∀ b sent, b.dleData.data.length = n → Feeding (scan DLE ETX false fed) sent b →
      Settles ⟨b, .sending (scan DLE ETX false fed).rest⟩ := by
    intro n
    induction n using Nat.strong_induction_on with
    | _ n ih =>
      intro b sent hlen h
      by_cases hd : b.dleData.data = []
      · cases hr : (scan DLE ETX false fed).stopped with
        | true =>
          obtain ⟨b', he, h'⟩ := sendRound_end (a := {}) (scan DLE ETX false fed).rest h hd hr
          exact .of_resume (resume_step (congrArg some he)) (by simp) (stopped_settles h')
        | false =>
          have he := sendRound_none (a := {}) (scan DLE ETX false fed).rest h hd hr
          refine .of_resume (resume_step (congrArg some he)) List.not_mem_nil ?_
          rw [scan_rest_nil hr]
          exact .of_resume rfl List.not_mem_nil (.of_idle rfl)
      · obtain ⟨bs, b', he, h', hless⟩ := sendRound_more (a := {}) (scan DLE ETX false fed).rest h hd
        exact .of_resume (resume_step (congrArg some he)) (by simp) (ih _ (by omega) b' (sent ++ bs) rfl h')
  cases h with
  | idle h hd ho => exact .of_idle rfl
  | sending h => exact hsending _ _ _ rfl h
  | @handling b done rest hf h hd ho hl =>
    cases rest with
    | nil => exact .of_resume rfl List.not_mem_nil (.of_idle rfl)
    | cons c cs =>
      obtain ⟨b', he, h'⟩ := handleData_feeding (a := {}) h ho hl
      rw [← hf] at he h'
      exact .of_resume (resume_step (congrArg some he)) List.not_mem_nil (hsending _ _ _ rfl h')

/-- The frames of a signal of any content, in any buffers: each is sent, and stopped once, and its own
control field tells whether another one is to come. -/
theorem signal_sent {a : Answers} {segs : List (List ModemAct × List ModemSeen)} (hm : b.modemClass = .mcFax)
    (hc : (b.sendStart a .dtHdlc).1 = true) (h : Signal ⟨(b.sendStart a .dtHdlc).2, .idle⟩ segs m) :
    Settles m ∧
      (m.pc = .idle → ∀ seg ∈ segs, ∀ frame junk,
        seg.1.flatMap dteInput = stuff DLE frame ++ DLE :: ETX :: junk → SentAs frame (engineCalls seg.2)) := by
  obtain ⟨before, as, es, rfl, hframe, hbefore⟩ := h.framing (sendStart_fresh hm hc) rfl
  constructor
  · obtain ⟨chunks, ⟨-, h⟩ | ⟨-, -, -, h⟩⟩ := hframe
    · exact h.settles
    · exact stopped_settles h
  · intro hpc seg hseg frame junk hin
    rcases List.mem_append.mp hseg with hseg | hseg
    · exact hbefore seg hseg frame junk hin
    · obtain rfl := List.mem_singleton.mp hseg
      exact hframe.sentAs (.inr hpc) hin

instance : ∀ x, Decidable (InSignal m x)
  | .command _ _ | .onOutBufEmpty => inferInstanceAs (Decidable False)
  | .handleData _ | .checkState _ => by unfold InSignal; infer_instance
  | .resume _ _ | .request _ _ | .newPtrEngine _ _ | .onSeq | .onTimeout _ => inferInstanceAs (Decidable True)

/-- The modem behind `AT+FTH` in a call. -/
def sendBegun : ModemEngineBody :=
  (ModemEngineBody.sendStart {}
    { off_hook := true, callState := .cstEstablished, t38Engine := true, currentClassEngine := some .mceT38 } .dtHdlc).2

/-- A frame of two octets in two buffers, and the callback of the engine. -/
def inTwo (control : Byte) : List ModemAct :=
  [.handleData [0xFF] :: List.replicate 4 (.resume {} none),
    .handleData [control, DLE, ETX] :: List.replicate 4 (.resume {} none), [.onSeq]].flatten

def sentTwo (control : Byte) (more : Bool) : List ModemSeen :=
  [.out (.send [0xFF]), .out (.send [bitRevTable control]), .out (.sendStop more)]

def ackTwo (more : Bool) : Modem :=
  ⟨{ sendBegun with
      state := .stSendAckHandle, dleData := { sendBegun.dleData with eof := true }, dataCount := 2, moreFrames := more }, .idle⟩

theorem inTwo_run : (machine.Run InSignal ⟨sendBegun, .idle⟩ (inTwo 0x03) (sentTwo 0x03 true) (ackTwo true)) ∧
    machine.Run InSignal ⟨sendBegun, .idle⟩ (inTwo 0x13) (sentTwo 0x13 false) (ackTwo false) :=
  ⟨Machine.run_of_exec (by decide +kernel), Machine.run_of_exec (by decide +kernel)⟩

theorem signal_sent_two : SentAs [0xFF, 0x03] (engineCalls (sentTwo 0x03 true)) ∧
    SentAs [0xFF, 0x13] (engineCalls (sentTwo 0x13 false)) := by
  have hfirst : Signal ⟨sendBegun, .idle⟩ [(inTwo 0x03, sentTwo 0x03 true)] (ackTwo true) :=
    .first inTwo_run.1 (by decide +kernel)
  have hconnect : (ackTwo true).step (.checkState {}) = some (⟨sendBegun, .idle⟩, [.out (.result .connect)]) := by
    decide +kernel
  have hboth := hfirst.next (x := .checkState {}) (by decide +kernel) hconnect (by simp) inTwo_run.2 (by decide +kernel)
  have hsent := (signal_sent rfl (by decide +kernel) hboth).2 rfl
  exact ⟨hsent (inTwo 0x03, sentTwo 0x03 true) (by simp) [0xFF, 0x03] [] (by decide +kernel),
    hsent (inTwo 0x13, sentTwo 0x13 false) (by simp) [0xFF, 0x13] [] (by decide +kernel)⟩

/-- A modem that is on-hook answers a call in the middle of a frame. -/
def answering : List ModemAct :=
  [[.newPtrEngine {} .mceT38, .command {} (.sendStart .dtHdlc), .handleData [0xFF]], List.replicate 4 (.resume {} none),
    [.request {} (.call "T"), .onTimeout .ring, .checkState { autoAnswer := true }, .resume {} (some "T"),
      .handleData [0x03, DLE, ETX], .resume {} none, .resume {} none]].flatten

/-- The rest of the frame is not sent, and the frame is not stopped. -/
theorem answering_not_sent :
    answering.flatMap dteInput = stuff DLE [0xFF, 0x03] ++ [DLE, ETX] ∧
    ∃ m, machine.Run (fun _ _ => True) {} answering
      [.out (.send [0xFF]), .response (.call "T") true, .out (.callback (.answer "T")), .out (.result .ring),
        .out (.result .ok)] m ∧ decide (m.pc = .idle) = true :=
  ⟨by decide +kernel, Machine.exec_test (by decide +kernel)⟩

end Modem

end T38Modem
