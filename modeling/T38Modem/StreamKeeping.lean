import T38Modem.ReceiveFrame

namespace T38Modem

/-- Where `HandlePacket` goes on after its next stop. -/
def InOutcome.after : InOutcome → Option AfterIn
  | .ret _ => none
  | .call _ _ _ after => some after

namespace ModStream

variable {m other : ModStream} {i : BufId} {f : DataStream → DataStream} {bs : List Byte} {d : Diag} {junk : Hdlc}
  {count : Nat}

/-- The signal is the same, and is open only if it was. -/
structure Closes (m m' : ModStream) : Prop where
  modPars : m'.modPars = m.modPars
  isOpen : m'.isOpen = true → m.isOpen = true

theorem Closes.refl (m : ModStream) : Closes m m := ⟨rfl, id⟩

theorem Closes.trans {m m' m'' : ModStream} (h : Closes m m') (h' : Closes m' m'') : Closes m m'' :=
  ⟨h'.modPars.trans h.modPars, h.isOpen ∘ h'.isOpen⟩

theorem putData_isOpen : (m.putData bs).isOpen = m.isOpen := by
  unfold putData
  split <;> rfl

theorem putData_closes : Closes m (m.putData bs) := by
  refine ⟨?_, fun h => putData_isOpen ▸ h⟩
  unfold putData
  split <;> rfl

theorem setDiag_isOpen : (m.setDiag d).isOpen = m.isOpen := by
  unfold setDiag
  split <;> rfl

theorem setDiag_closes : Closes m (m.setDiag d) := by
  refine ⟨?_, fun h => setDiag_isOpen ▸ h⟩
  unfold setDiag
  split <;> rfl

@[simp] theorem putEof_isOpen : (m.putEof d).isOpen = false := by
  unfold putEof
  split
  next h => simp [isOpen, h]
  next => rfl

theorem putEof_closes : Closes m (m.putEof d) := by
  refine ⟨?_, fun h => by simp at h⟩
  unfold putEof
  split <;> rfl

theorem deleteFirstBuf_closes : Closes m m.deleteFirstBuf := by
  unfold deleteFirstBuf
  split
  next => exact .refl m
  next b hb =>
    refine ⟨rfl, fun h => ?_⟩
    dsimp only [isOpen] at h ⊢
    split at h
    next => cases h
    next => exact h

theorem popBuf_closes : Closes m (m.popBuf junk).2 := by
  have h : Closes m m.deleteFirstBuf := deleteFirstBuf_closes
  unfold popBuf
  dsimp only
  split
  next => exact h
  next => split <;> exact ⟨h.modPars, h.isOpen⟩

theorem getRawLoop_closes (b : Buf) (bufQ : List Buf) : Closes m (m.getRawLoop b count bufQ).2 := by
  induction bufQ generalizing m b with
  | nil =>
    unfold getRawLoop
    split
    next => exact ⟨rfl, id⟩
    next hdlc stream _ =>
      dsimp only
      have h := @deleteFirstBuf_closes { m with hdlc, firstBuf := some { b with stream }, bufQ := [] }
      split
      next => exact ⟨h.modPars, h.isOpen⟩
      next => exact ⟨rfl, id⟩
  | cons c bufQ ih =>
    unfold getRawLoop
    split
    next => exact ⟨rfl, id⟩
    next hdlc stream _ =>
      have h := @deleteFirstBuf_closes { m with hdlc, firstBuf := some { b with stream }, bufQ }
      generalize ({ m with hdlc, firstBuf := some { b with stream }, bufQ } : ModStream).deleteFirstBuf = d at h
      have hd : Closes m { d with firstBuf := some c, hdlc := (d.hdlc.putHdlcData c.id).getRawStart 0 } :=
        ⟨h.modPars, h.isOpen⟩
      exact hd.trans (ih c)

theorem getData_closes : Closes m (m.getData count).2 := by
  unfold getData
  split
  next => exact .refl m
  next b hb =>
    split
    next => exact getRawLoop_closes b m.bufQ
    next =>
      split
      next => exact .refl m
      next => exact ⟨rfl, id⟩

end ModStream

namespace T38Engine

open ModStream (Closes)

variable {e e' e'' : T38Engine} {f : ModStream → ModStream} {p : Option Place}

/-- No stream is opened, but for that of the waiting signal, which may be moved to the DTE. -/
structure Keeps (e e' : T38Engine) : Prop where
  firstIn : e'.firstIn = e.firstIn
  saved : ∀ m', e'.modStreamInSaved = some m' → ∃ m, e.modStreamInSaved = some m ∧ Closes m m'
  moved : isOpen e'.modStreamIn = true →
    isOpen e.modStreamIn = true ∨ e.modStreamInSaved ≠ none ∧ e'.modStreamInSaved = none

theorem Keeps.of_eq (hf : e'.firstIn = e.firstIn) (hs : e'.modStreamInSaved = e.modStreamInSaved)
    (hi : isOpen e'.modStreamIn = true → isOpen e.modStreamIn = true) : Keeps e e' :=
  ⟨hf, fun m' hm => ⟨m', hs ▸ hm, .refl m'⟩, fun h => .inl (hi h)⟩

/-- The DTE is left without a stream that could be open. -/
theorem Keeps.of_none (hf : e'.firstIn = e.firstIn)
    (hs : e'.modStreamInSaved = e.modStreamInSaved ∨ e'.modStreamInSaved = none)
    (hi : isOpen e'.modStreamIn = false) : Keeps e e' := by
  refine ⟨hf, fun m' hm => ?_, fun ho => absurd (hi.symm.trans ho) nofun⟩
  rcases hs with hs | hs
  · exact ⟨m', hs ▸ hm, .refl m'⟩
  · exact absurd (hs.symm.trans hm) nofun

/-- The waiting signal goes to the DTE. -/
theorem Keeps.of_moved (hf : e'.firstIn = e.firstIn) (hs : e.modStreamInSaved ≠ none)
    (hn : e'.modStreamInSaved = none) : Keeps e e' :=
  ⟨hf, fun _ hm => absurd (hn.symm.trans hm) nofun, fun _ => .inr ⟨hs, hn⟩⟩

theorem Keeps.refl (e : T38Engine) : Keeps e e := .of_eq rfl rfl id

theorem Keeps.trans (h : Keeps e e') (h' : Keeps e' e'') : Keeps e e'' := by
  have hnone : e'.modStreamInSaved = none → e''.modStreamInSaved = none := fun hn => by
    cases hs : e''.modStreamInSaved with
    | none => rfl
    | some m' =>
      obtain ⟨m, hm, -⟩ := h'.saved m' hs
      exact absurd (hn.symm.trans hm) nofun
  refine ⟨h'.firstIn.trans h.firstIn, fun m'' hm => ?_, fun ho => ?_⟩
  · obtain ⟨m', hm', hc'⟩ := h'.saved m'' hm
    obtain ⟨m, hm, hc⟩ := h.saved m' hm'
    exact ⟨m, hm, hc.trans hc'⟩
  · rcases h'.moved ho with ho | ⟨hs, hn⟩
    · rcases h.moved ho with ho | ⟨hs, hn⟩
      · exact .inl ho
      · exact .inr ⟨hs, hnone hn⟩
    · obtain ⟨m', hm'⟩ := Option.ne_none_iff_exists'.mp hs
      obtain ⟨m, hm, -⟩ := h.saved m' hm'
      exact .inr ⟨by simp [hm], hn⟩

@[simp] theorem isOpen_none : isOpen none = false := rfl

@[simp] theorem isOpen_some (m : ModStream) : isOpen (some m) = m.isOpen := rfl

theorem isOpen_map (hf : ∀ m : ModStream, Closes m (f m)) (o : Option ModStream) (h : isOpen (o.map f) = true) :
    isOpen o = true := by
  cases o with
  | none => exact h
  | some m => exact (hf m).isOpen h

theorem updateStream_keeps (hf : ∀ m : ModStream, Closes m (f m)) : Keeps e (e.updateStream f p) := by
  match p with
  | none => exact .refl e
  | some .modStreamIn => exact .of_eq rfl rfl (isOpen_map hf e.modStreamIn)
  | some .modStreamInSaved =>
    refine ⟨rfl, fun m' hm' => ?_, .inl⟩
    obtain ⟨m, hm, rfl⟩ := Option.map_eq_some_iff.mp hm'
    exact ⟨m, hm, hf m⟩

/-- The end of a frame in a signal that is being filled. -/
theorem closeBuf_keeps (hp : ∀ q, p = some q → isOpen (e.streamAt q) = true) : Keeps e (e.closeBuf p) := by
  match p with
  | none => exact .refl e
  | some .modStreamIn => exact .of_eq rfl rfl fun _ => hp _ rfl
  | some .modStreamInSaved =>
    refine ⟨rfl, fun m' hm' => ?_, .inl⟩
    obtain ⟨m₁, hm₁, rfl⟩ := Option.map_eq_some_iff.mp hm'
    obtain ⟨m, hm, rfl⟩ := Option.map_eq_some_iff.mp hm₁
    refine ⟨m, hm, ⟨(ModStream.putEof_closes (m := m) (d := 0)).modPars, fun _ => ?_⟩⟩
    have ho : isOpen e.modStreamInSaved = true := hp _ rfl
    rwa [hm] at ho

theorem closeBuf_open (hp : ∀ q, p = some q → isOpen (e.streamAt q) = true) :
    ∀ q, p = some q → isOpen ((e.closeBuf p).streamAt q) = true := by
  rintro q rfl
  have ho := hp q rfl
  cases q with
  | modStreamIn =>
    obtain ⟨m, hm⟩ := Option.ne_none_iff_exists'.mp (show e.modStreamIn ≠ none from fun hn => by
      simp [streamAt, isOpen, hn] at ho)
    simp [closeBuf, pushBufAt, updateStream, streamAt, hm, isOpen, ModStream.isOpen, ModStream.pushBuf]
  | modStreamInSaved =>
    obtain ⟨m, hm⟩ := Option.ne_none_iff_exists'.mp (show e.modStreamInSaved ≠ none from fun hn => by
      simp [streamAt, isOpen, hn] at ho)
    simp [closeBuf, pushBufAt, updateStream, streamAt, hm, isOpen, ModStream.isOpen, ModStream.pushBuf]

theorem updateStream_open (hf : ∀ m : ModStream, (f m).isOpen = m.isOpen)
    (hp : ∀ q, p = some q → isOpen (e.streamAt q) = true) :
    ∀ q, p = some q → isOpen ((e.updateStream f p).streamAt q) = true := by
  rintro q rfl
  have ho := hp q rfl
  cases q with
  | modStreamIn =>
    cases hm : e.modStreamIn with
    | none => simp [streamAt, isOpen, hm] at ho
    | some m => simpa [updateStream, streamAt, isOpen, hm, hf] using ho
  | modStreamInSaved =>
    cases hm : e.modStreamInSaved with
    | none => simp [streamAt, isOpen, hm] at ho
    | some m => simpa [updateStream, streamAt, isOpen, hm, hf] using ho

theorem fieldData_keeps (fd : DataField) : Keeps e (e.fieldData p fd) := by
  unfold fieldData
  split
  · exact .refl e
  · exact .refl e
  · exact (updateStream_keeps fun _ => ModStream.putData_closes).trans (.of_eq rfl rfl id)

theorem fieldData_open (fd : DataField) (hp : ∀ q, p = some q → isOpen (e.streamAt q) = true) :
    ∀ q, p = some q → isOpen ((e.fieldData p fd).streamAt q) = true := by
  unfold fieldData
  split
  · exact hp
  · exact hp
  · intro q hq
    have ho := updateStream_open (f := (·.putData ‹List Byte›)) (fun _ => ModStream.putData_isOpen) hp q hq
    cases q <;> exact ho

theorem fieldFcs_keeps (fd : DataField) (hp : ∀ q, p = some q → isOpen (e.streamAt q) = true) :
    Keeps e (e.fieldFcs p fd) ∧ ∀ q, p = some q → isOpen ((e.fieldFcs p fd).streamAt q) = true := by
  have bad : Keeps e ((e.updateStream (·.setDiag diagBadFcs) p).closeBuf p) ∧
      ∀ q, p = some q → isOpen (((e.updateStream (·.setDiag diagBadFcs) p).closeBuf p).streamAt q) = true := by
    have ho := updateStream_open (e := e) (f := (·.setDiag diagBadFcs)) (fun _ => ModStream.setDiag_isOpen) hp
    exact ⟨(updateStream_keeps fun _ => ModStream.setDiag_closes).trans (closeBuf_keeps ho), closeBuf_open ho⟩
  unfold fieldFcs
  split
  · exact bad
  · exact bad
  · exact ⟨closeBuf_keeps hp, closeBuf_open hp⟩
  · exact ⟨closeBuf_keeps hp, closeBuf_open hp⟩
  · exact ⟨.refl e, hp⟩

/-- Nothing is opened up to the next stop of `HandlePacket`, where no signal waits to be begun. -/
def Calm (e : T38Engine) (r : InOutcome) : Prop :=
  Keeps e r.engine ∧ ∀ t, r.after ≠ some (.indicator t)

theorem finishIn_calm : Calm e e.finishIn := by
  unfold finishIn
  split
  next hf => exact ⟨.of_eq hf.symm rfl id, nofun⟩
  next => exact ⟨.refl e, nofun⟩

theorem dropCarrier_calm : Calm e e.dropCarrier := by
  have h : Keeps e { e with isCarrierIn := 0 } := .of_eq rfl rfl id
  unfold dropCarrier endSilence
  split
  next => exact ⟨h.trans (.of_eq rfl rfl id), nofun⟩
  next =>
    obtain ⟨hk, ha⟩ := @finishIn_calm { e with isCarrierIn := 0 }
    exact ⟨h.trans hk, ha⟩

theorem userInput_calm (tone : Byte) : Calm e (e.userInput tone) := by
  unfold userInput
  split
  next => exact dropCarrier_calm
  next =>
    split
    next => exact dropCarrier_calm
    next => exact ⟨.of_eq rfl rfl id, nofun⟩

theorem afterFields_calm : Calm e e.afterFields := by
  unfold afterFields
  split
  next => exact ⟨.refl e, nofun⟩
  next => exact finishIn_calm

theorem handleFields_calm (fs : List DataField) (hp : ∀ q, p = some q → isOpen (e.streamAt q) = true) :
    Calm e (e.handleFields p fs) := by
  induction fs generalizing e p with
  | nil => exact afterFields_calm
  | cons fd rest ih =>
    have hd := fieldData_keeps (e := e) (p := p) fd
    obtain ⟨hk, ho⟩ := fieldFcs_keeps (e := e.fieldData p fd) fd (fieldData_open fd hp)
    have hkeep := hd.trans hk
    unfold handleFields
    dsimp only
    split
    next =>
      have hend : Keeps e
          { ((e.fieldData p fd).fieldFcs p fd).updateStream (·.putEof diagNoCarrier) p with isCarrierIn := 0 } :=
        (hkeep.trans (updateStream_keeps fun _ => ModStream.putEof_closes)).trans (.of_eq rfl rfl id)
      split
      next => exact ⟨hend.trans (.of_eq rfl rfl id), fun t h => by cases h⟩
      next =>
        obtain ⟨hr, ha⟩ := @ih
          { ((e.fieldData p fd).fieldFcs p fd).updateStream (·.putEof diagNoCarrier) p with isCarrierIn := 0 }
          none (fun q h => by cases h)
        exact ⟨hend.trans hr, ha⟩
    next =>
      obtain ⟨hr, ha⟩ := ih ho
      exact ⟨hkeep.trans hr, ha⟩

theorem openPlace_open : ∀ q, e.openPlace = some q → isOpen (e.streamAt q) = true := by
  intro q hq
  unfold openPlace at hq
  split at hq
  next ho =>
    cases hq
    exact ho
  next =>
    split at hq
    next ho =>
      cases hq
      exact ho
    next => cases hq

theorem handleData_calm (t : MsgType) (fields : Option (List DataField)) : Calm e (e.handleData t fields) := by
  unfold handleData
  dsimp only
  split
  next =>
    have h : Keeps e (e.updateStream (·.putEof (diagOutOfOrder ||| diagNoCarrier)) e.openPlace) :=
      updateStream_keeps fun _ => ModStream.putEof_closes
    obtain ⟨hk, ha⟩ := @handleFields_calm
      (e.updateStream (·.putEof (diagOutOfOrder ||| diagNoCarrier)) e.openPlace) none (fields.getD []) nofun
    exact ⟨h.trans hk, ha⟩
  next => exact handleFields_calm _ openPlace_open

theorem handlePacketLost_keeps : Keeps e e.handlePacketLost :=
  updateStream_keeps fun m => by
    split
    · exact ModStream.setDiag_closes
    · exact .refl m

theorem resumePacket_calm {after : AfterIn} (ha : ∀ t, after ≠ .indicator t) : Calm e (e.resumePacket after) := by
  cases after with
  | indicator t => exact absurd rfl (ha t)
  | dropCarrier => exact dropCarrier_calm
  | fields rest => exact handleFields_calm rest nofun
  | finish => exact finishIn_calm
  | ret => exact ⟨.refl e, nofun⟩

theorem openStream_keeps (m : ModPars) (t : DataType) : Keeps e (e.openStream m t).1 := by
  unfold openStream
  dsimp only
  split
  next hs => exact .of_none rfl (.inl rfl) rfl
  next saved hs =>
    split
    next => exact .of_moved rfl (by simp [hs]) rfl
    next =>
      refine .of_none rfl (.inl rfl) ?_
      dsimp only
      rw [isOpen_some, ModStream.putEof_isOpen]

theorem recvWait_keeps (t : DataType) (param cb : Int) : Keeps e (e.recvWait t param cb).2.2 := by
  have hcb : Keeps e { e with callbackParamIn := cb } := .of_eq rfl rfl id
  unfold recvWait
  split
  · exact .refl e
  · split
    · exact .refl e
    · cases t with
      | dtSilence =>
        dsimp only
        split
        next => exact .refl e
        next => split <;> exact .of_none rfl (.inl rfl) rfl
      | dtHdlc | dtRaw =>
        dsimp only
        split
        next => exact .refl e
        next =>
          split
          next => exact hcb.trans (openStream_keeps _ _)
          next s hs =>
            split
            next =>
              refine .of_eq rfl rfl fun ho => ?_
              obtain ⟨s₀, hs₀, rfl⟩ := Option.map_eq_some_iff.mp hs
              rw [hs₀]
              exact ModStream.deleteFirstBuf_closes.isOpen ho
            next => exact hcb.trans (openStream_keeps _ _)
      | _ => exact .refl e

theorem recvStart_keeps (cb : Int) : Keeps e (e.recvStart cb).2 := by
  unfold recvStart
  split
  · exact .refl e
  · split
    · exact .refl e
    · dsimp only
      split
      next hm => exact .of_eq rfl rfl id
      next m hm =>
        have hc := @ModStream.popBuf_closes m e.junk
        split
        next m' hp =>
          rw [hp] at hc
          exact .of_eq rfl rfl fun ho => by rw [hm]; exact hc.isOpen ho
        next => exact .of_none rfl (.inl rfl) rfl

theorem recv_keeps (count : Nat) : Keeps e (e.recv count).2 := by
  unfold recv
  split
  · exact .refl e
  · split
    · exact .refl e
    · split
      next => exact .refl e
      next m hm =>
        have hc := @ModStream.getData_closes m count
        exact .of_eq rfl rfl fun ho => by rw [hm]; exact hc.isOpen ho

theorem recvStop_keeps : Keeps e e.recvStop := by
  unfold recvStop
  split
  · exact .refl e
  · split
    · exact .refl e
    · exact .of_eq rfl rfl (isOpen_map (fun _ => ModStream.deleteFirstBuf_closes) _)

theorem onResetModemState_keeps : Keeps e e.onResetModemState :=
  .of_eq rfl rfl (isOpen_map (fun _ => ModStream.deleteFirstBuf_closes) _)

theorem sendStart_keeps (t : DataType) (param : Int) : Keeps e (e.sendStart t param).2 := by
  unfold sendStart
  split
  · exact .refl e
  · split
    · exact .refl e
    · have h : Keeps e (if t = .dtSilence then { e with modStreamIn := none }
          else { e with modStreamIn := none, modStreamInSaved := none }) := by
        split
        · exact .of_none rfl (.inl rfl) rfl
        · exact .of_none rfl (.inr rfl) rfl
      dsimp only
      generalize (if t = .dtSilence then { e with modStreamIn := none }
          else { e with modStreamIn := none, modStreamInSaved := none } : T38Engine) = e₁ at h ⊢
      obtain ⟨m, ok⟩ := e₁.outPars t param
      cases ok with
      | true => exact h.trans (.of_eq rfl rfl id)
      | false => exact h.trans (.of_eq rfl rfl id)

theorem Keeps.saved_none (h : Keeps e e') (hn : e.modStreamInSaved = none) : e'.modStreamInSaved = none := by
  cases hs : e'.modStreamInSaved with
  | none => rfl
  | some m' =>
    obtain ⟨m, hm, -⟩ := h.saved m' hs
    exact absurd (hn.symm.trans hm) nofun

end T38Engine

end T38Modem
