import T38Modem.StreamCalls

namespace T38Modem

open ModStream (Trims)

namespace T38Engine

variable {e : T38Engine} {p : Option Place}

theorem finishIn_tidies : Tidies e e.finishIn.engine := by
  unfold finishIn
  split <;> exact .of_eq rfl

theorem dropCarrier_tidies : Tidies e e.dropCarrier.engine := by
  have h : Tidies e { e with isCarrierIn := 0 } := .of_eq rfl
  unfold dropCarrier endSilence
  split
  next => exact .of_eq rfl
  next => exact h.trans finishIn_tidies

theorem userInput_tidies (tone : Byte) : Tidies e (e.userInput tone).engine := by
  unfold userInput
  split
  next => exact dropCarrier_tidies
  next =>
    split
    next => exact dropCarrier_tidies
    next => exact .of_eq rfl

theorem endWaitData_paired (h : e.Paired) (hc : isOpen e.modStreamIn = false) : e.endWaitData.engine.Paired := by
  unfold endWaitData
  split
  next =>
    dsimp only
    split
    next s saved hs hsaved =>
      have hp : Pair (some s) (some saved) e.nextBuf := hs ▸ hsaved ▸ h
      have hm : s.isOpen = false := by rwa [hs] at hc
      split
      next => exact hp.move hm
      next =>
        show Pair (some ((s.pushBuf e.nextBuf).putEof diagDiffSig)) e.modStreamInSaved (e.nextBuf + 1)
        rw [hsaved]
        exact hp.putClosed hm diagDiffSig
    next => exact h
  next => exact finishIn_tidies.paired h

/-- A signal is begun when no other is being received. -/
theorem training_paired (h : e.Paired) (hc : isOpen e.modStreamIn = false) (type : Indicator) :
    (e.training type).engine.Paired := by
  have hnew : Pair e.modStreamIn (some ((e.newStream (getModParsByInd type)).pushBuf e.nextBuf)) (e.nextBuf + 1) :=
    ((Pair.new h.swap e.junk _).put rfl (.refl _) (.inr hc)).swap
  unfold training
  dsimp only
  unfold endSilence
  split
  next => exact hnew
  next => exact endWaitData_paired hnew hc

theorem indicatorSwitch_paired (h : e.Paired) (hc : isOpen e.modStreamIn = false) (type : Indicator) :
    (e.indicatorSwitch type).engine.Paired := by
  have hdel : Paired { e with modStreamInSaved := none } := Pair.trim h (.refl _) .gone
  unfold indicatorSwitch
  dsimp only
  split
  · exact dropCarrier_tidies.paired hdel
  · exact (userInput_tidies _).paired hdel
  · exact (userInput_tidies _).paired hdel
  · exact finishIn_tidies.paired hdel
  · exact training_paired hdel hc type

theorem indicatorSwitch_after (type t : Indicator) : (e.indicatorSwitch type).after ≠ some (.indicator t) := by
  have hdrop (e : T38Engine) : e.dropCarrier.after ≠ some (.indicator t) := dropCarrier_calm.2 t
  have hfinish (e : T38Engine) : e.finishIn.after ≠ some (.indicator t) := finishIn_calm.2 t
  have hwait (e : T38Engine) : e.endWaitData.after ≠ some (.indicator t) := by
    unfold endWaitData
    split
    · exact nofun
    · exact hfinish e
  unfold indicatorSwitch
  split
  · exact hdrop _
  · exact (userInput_calm _).2 t
  · exact (userInput_calm _).2 t
  · exact hfinish _
  · unfold training endSilence
    dsimp only
    split
    · exact nofun
    · exact hwait _

/-- The end of a signal that another one follows, and what is done before it is begun. -/
theorem handleIndicator_paired (h : e.Paired) (type : Indicator) :
    (e.handleIndicator type).engine.Paired ∧
      ∀ t, (e.handleIndicator type).after = some (.indicator t) → (e.handleIndicator type).engine.anyOpen = false := by
  unfold handleIndicator
  split
  next => exact ⟨finishIn_tidies.paired h, fun t ht => absurd ht (finishIn_calm.2 t)⟩
  next =>
    split
    next ho =>
      split
      next => exact ⟨finishIn_tidies.paired h, fun t ht => absurd ht (finishIn_calm.2 t)⟩
      next =>
        have hsaved : isOpen e.modStreamInSaved = false := h.one.resolve_left (by simp [ho])
        have hend : Tidies e (e.updateStream (·.putEof (diagOutOfOrder ||| diagNoCarrier)) (some .modStreamIn)) :=
          updateStream_tidies fun _ => ModStream.putEof_trims
        have hc : isOpen (e.updateStream (·.putEof (diagOutOfOrder ||| diagNoCarrier)) (some .modStreamIn)).modStreamIn =
            false := by
          cases hm : e.modStreamIn <;> simp [updateStream, hm]
        dsimp only
        split
        next => exact ⟨hend.paired h, fun _ _ => (Bool.or_eq_false_iff).mpr ⟨hc, hsaved⟩⟩
        next => exact ⟨indicatorSwitch_paired (hend.paired h) hc type, fun t ht => absurd ht (indicatorSwitch_after type t)⟩
    next ho =>
      have hc : isOpen e.modStreamIn = false := by simpa using ho
      exact ⟨indicatorSwitch_paired h hc type, fun t ht => absurd ht (indicatorSwitch_after type t)⟩

/-- The frame that ends and the one that follows it are in the stream that is filled. -/
theorem closeBuf_paired (h : e.Paired) (hp : ∀ q, p = some q → isOpen (e.streamAt q) = true) :
    (e.closeBuf p).Paired := by
  match p with
  | none => exact h
  | some .modStreamIn =>
    have ho : isOpen e.modStreamIn = true := hp _ rfl
    have hsaved : isOpen e.modStreamInSaved = false := h.one.resolve_left (by simp [ho])
    cases hm : e.modStreamIn with
    | none => simp [hm] at ho
    | some m =>
      have ht : Pair (some (m.putEof 0)) e.modStreamInSaved e.nextBuf :=
        Pair.trim h (hm ▸ .kept ModStream.putEof_trims) (.refl _)
      have hput := ht.put ModStream.putEof_isOpen (.refl _) (.inr hsaved)
      simpa [Paired, closeBuf, pushBufAt, updateStream, hm] using hput
  | some .modStreamInSaved =>
    have ho : isOpen e.modStreamInSaved = true := hp _ rfl
    have hin : isOpen e.modStreamIn = false := h.one.resolve_right (by simp [ho])
    cases hm : e.modStreamInSaved with
    | none => simp [hm] at ho
    | some m =>
      have ht : Pair (some (m.putEof 0)) e.modStreamIn e.nextBuf :=
        Pair.trim h.swap (hm ▸ .kept ModStream.putEof_trims) (.refl _)
      have hput := (ht.put ModStream.putEof_isOpen (.refl _) (.inr hin)).swap
      simpa [Paired, closeBuf, pushBufAt, updateStream, hm] using hput

theorem fieldData_tidies (fd : DataField) : Tidies e (e.fieldData p fd) := by
  unfold fieldData
  split
  · exact .refl e
  · exact .refl e
  · exact (updateStream_tidies fun _ => ModStream.putData_trims).trans (.of_in (.refl _) rfl rfl)

theorem fieldFcs_paired (h : e.Paired) (fd : DataField) (hp : ∀ q, p = some q → isOpen (e.streamAt q) = true) :
    (e.fieldFcs p fd).Paired := by
  have bad : ((e.updateStream (·.setDiag diagBadFcs) p).closeBuf p).Paired := by
    have ht : Tidies e (e.updateStream (·.setDiag diagBadFcs) p) := updateStream_tidies fun _ => ModStream.setDiag_trims
    exact closeBuf_paired (ht.paired h) (updateStream_open (fun _ => ModStream.setDiag_isOpen) hp)
  unfold fieldFcs
  split
  · exact bad
  · exact bad
  · exact closeBuf_paired h hp
  · exact closeBuf_paired h hp
  · exact h

theorem afterFields_tidies : Tidies e e.afterFields.engine := by
  unfold afterFields
  split
  next => exact .refl e
  next => exact finishIn_tidies

theorem handleFields_paired (h : e.Paired) (fs : List DataField)
    (hp : ∀ q, p = some q → isOpen (e.streamAt q) = true) : (e.handleFields p fs).engine.Paired := by
  induction fs generalizing e p with
  | nil => exact afterFields_tidies.paired h
  | cons fd rest ih =>
    have hopen := fieldData_open fd hp
    have hd : (e.fieldData p fd).Paired := (fieldData_tidies fd).paired h
    have hf : ((e.fieldData p fd).fieldFcs p fd).Paired := fieldFcs_paired hd fd hopen
    unfold handleFields
    dsimp only
    split
    next =>
      have hend : Paired { ((e.fieldData p fd).fieldFcs p fd).updateStream (·.putEof diagNoCarrier) p with isCarrierIn := 0 } :=
        ((updateStream_tidies fun _ => ModStream.putEof_trims).trans (.of_eq rfl)).paired hf
      split
      next => exact hend
      next => exact ih hend fun q h => by cases h
    next => exact ih hf (fieldFcs_keeps fd hopen).2

theorem handleData_paired (h : e.Paired) (t : MsgType) (fields : Option (List DataField)) :
    (e.handleData t fields).engine.Paired := by
  unfold handleData
  dsimp only
  split
  next =>
    have ht : Tidies e (e.updateStream (·.putEof (diagOutOfOrder ||| diagNoCarrier)) e.openPlace) :=
      updateStream_tidies fun _ => ModStream.putEof_trims
    exact handleFields_paired (ht.paired h) _ nofun
  next => exact handleFields_paired h _ openPlace_open

/-- A call of `HandlePacket` up to its next stop. Where it is going to begin a signal, no other is received. -/
theorem handlePacket_paired (h : e.Paired) (ifp : Ifp) :
    (e.handlePacket ifp).engine.Paired ∧
      ∀ t, (e.handlePacket ifp).after = some (.indicator t) → (e.handlePacket ifp).engine.anyOpen = false := by
  cases ifp with
  | t30Indicator type => exact handleIndicator_paired h type
  | data type fields =>
    exact ⟨handleData_paired h type fields, fun t ht => absurd ht ((handleData_calm type fields).2 t)⟩
  | badTag => exact ⟨finishIn_tidies.paired h, fun t ht => absurd ht (finishIn_calm.2 t)⟩

theorem resumePacket_paired (h : e.Paired) {after : AfterIn} (hc : ∀ t, after = .indicator t → e.anyOpen = false) :
    (e.resumePacket after).engine.Paired := by
  cases after with
  | indicator t => exact indicatorSwitch_paired h (anyOpen_false (hc t rfl)).1 t
  | dropCarrier => exact dropCarrier_tidies.paired h
  | fields rest => exact handleFields_paired h rest nofun
  | finish => exact finishIn_tidies.paired h
  | ret => exact h

theorem resumePacket_after (after : AfterIn) (t : Indicator) : (e.resumePacket after).after ≠ some (.indicator t) := by
  cases after with
  | indicator t' => exact indicatorSwitch_after t' t
  | _ =>
    refine (resumePacket_calm (e := e) ?_).2 t
    nofun

end T38Engine

end T38Modem
