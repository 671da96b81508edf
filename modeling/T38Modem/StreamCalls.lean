import T38Modem.StreamPair

namespace T38Modem

open ModStream (Trims)

namespace T38Engine

variable {e e' e'' : T38Engine} {f : ModStream → ModStream} {p : Option Place}

def Paired (e : T38Engine) : Prop := Pair e.modStreamIn e.modStreamInSaved e.nextBuf

/-- A signal is being received. -/
def anyOpen (e : T38Engine) : Bool := isOpen e.modStreamIn || isOpen e.modStreamInSaved

/-- The streams stay a pair, and no signal is begun. -/
structure Tidies (e e' : T38Engine) : Prop where
  paired : e.Paired → e'.Paired
  closes : e'.anyOpen = true → e.anyOpen = true

theorem Tidies.refl (e : T38Engine) : Tidies e e := ⟨id, id⟩

theorem Tidies.trans (h : Tidies e e') (h' : Tidies e' e'') : Tidies e e'' := ⟨h'.paired ∘ h.paired, h.closes ∘ h'.closes⟩

theorem Tidies.of_trimmed (hi : Trimmed e.modStreamIn e'.modStreamIn)
    (ho : Trimmed e.modStreamInSaved e'.modStreamInSaved) (hn : e'.nextBuf = e.nextBuf) : Tidies e e' := by
  refine ⟨fun h => ?_, fun ha => ?_⟩
  · have ht := Pair.trim h hi ho
    rwa [← hn] at ht
  · rcases (Bool.or_eq_true _ _).mp ha with ha | ha
    · exact (Bool.or_eq_true _ _).mpr (.inl (hi.isOpen ha))
    · exact (Bool.or_eq_true _ _).mpr (.inr (ho.isOpen ha))

theorem Tidies.of_eq (h : e'.toInSide = e.toInSide) : Tidies e e' := by
  refine ⟨fun hp => ?_, fun ha => ?_⟩
  · unfold Paired at hp ⊢
    rwa [h]
  · unfold anyOpen at ha ⊢
    rwa [← h]

/-- The DTE is given another stream, or none. -/
theorem Tidies.of_in (hi : Trimmed e.modStreamIn e'.modStreamIn) (ho : e'.modStreamInSaved = e.modStreamInSaved)
    (hn : e'.nextBuf = e.nextBuf) : Tidies e e' :=
  .of_trimmed hi (ho ▸ .refl _) hn

theorem anyOpen_false (h : e.anyOpen = false) : isOpen e.modStreamIn = false ∧ isOpen e.modStreamInSaved = false :=
  (Bool.or_eq_false_iff).mp h

theorem updateStream_tidies (hf : ∀ m, Trims m (f m)) : Tidies e (e.updateStream f p) := by
  match p with
  | none => exact .refl e
  | some .modStreamIn => exact .of_trimmed (.map hf) (.refl _) rfl
  | some .modStreamInSaved => exact .of_trimmed (.refl _) (.map hf) rfl

theorem handlePacketLost_tidies : Tidies e e.handlePacketLost :=
  updateStream_tidies fun m => by
    split
    · exact ModStream.setDiag_trims
    · exact .refl m

theorem openStream_tidies (m : ModPars) (t : DataType) : Tidies e (e.openStream m t).1 := by
  unfold openStream newStream
  dsimp only
  split
  next hs =>
    refine ⟨fun h => Pair.new h e.junk _, fun ha => ?_⟩
    simp [anyOpen, hs, ModStream.isOpen, ModStream.new] at ha
  next saved hs =>
    split
    next =>
      refine ⟨fun h => ?_, fun ha => ?_⟩
      · have hnew := Pair.new h e.junk { m with dataType := t, dataTypeT38 := hdlcT38 m e.t30.hdlcOnly }
        rw [hs] at hnew
        exact hnew.move rfl
      · have ho : saved.isOpen = true := by simpa [anyOpen, ModStream.isOpen, ModStream.move] using ha
        simp [anyOpen, hs, ho]
    next =>
      refine ⟨fun h => (Pair.new h e.junk _).putClosed rfl diagDiffSig, fun ha => ?_⟩
      have ho : isOpen e.modStreamInSaved = true := by simpa [anyOpen] using ha
      simp [anyOpen, ho]

theorem recvWait_tidies (t : DataType) (param cb : Int) : Tidies e (e.recvWait t param cb).2.2 := by
  have hcb : Tidies e { e with callbackParamIn := cb } := .of_in (.refl _) rfl rfl
  unfold recvWait
  split
  · exact .refl e
  · split
    · exact .refl e
    · cases t with
      | dtSilence =>
        dsimp only
        split
        next => exact .refl e
        next => split <;> exact .of_in .gone rfl rfl
      | dtHdlc | dtRaw =>
        dsimp only
        split
        next => exact .refl e
        next =>
          split
          next => exact hcb.trans (openStream_tidies _ _)
          next s hs =>
            split
            next =>
              refine .of_in (fun m' hm' => ?_) rfl rfl
              obtain ⟨m, hm, rfl⟩ := Option.map_eq_some_iff.mp hs
              rw [← Option.some.inj hm']
              exact ⟨m, hm, ModStream.deleteFirstBuf_trims.trans (ModStream.setPars_trims ModStream.deleteFirstBuf_none)⟩
            next => exact hcb.trans (openStream_tidies _ _)
      | _ => exact .refl e

theorem recvStart_tidies (cb : Int) : Tidies e (e.recvStart cb).2 := by
  unfold recvStart
  split
  · exact .refl e
  · split
    · exact .refl e
    · dsimp only
      split
      next hm => exact .of_in (hm ▸ .refl _) rfl rfl
      next m hm =>
        have ht := @ModStream.popBuf_trims m e.junk
        split
        next m' hp =>
          rw [hp] at ht
          exact .of_in (hm ▸ .kept ht) rfl rfl
        next => exact .of_in .gone rfl rfl

theorem recv_tidies (count : Nat) : Tidies e (e.recv count).2 := by
  unfold recv
  split
  · exact .refl e
  · split
    · exact .refl e
    · split
      next => exact .refl e
      next m hm => exact .of_in (hm ▸ .kept ModStream.getData_trims) rfl rfl

theorem recvStop_tidies : Tidies e e.recvStop := by
  unfold recvStop
  split
  · exact .refl e
  · split
    · exact .refl e
    · exact .of_in (.map fun _ => ModStream.deleteFirstBuf_trims) rfl rfl

theorem onResetModemState_tidies : Tidies e e.onResetModemState :=
  .of_in (.map fun _ => ModStream.deleteFirstBuf_trims) rfl rfl

theorem sendStart_tidies (t : DataType) (param : Int) : Tidies e (e.sendStart t param).2 := by
  unfold sendStart
  split
  · exact .refl e
  · split
    · exact .refl e
    · have h : Tidies e (if t = .dtSilence then { e with modStreamIn := none }
          else { e with modStreamIn := none, modStreamInSaved := none }) := by
        split
        · exact .of_in .gone rfl rfl
        · exact .of_trimmed .gone .gone rfl
      dsimp only
      generalize (if t = .dtSilence then { e with modStreamIn := none }
          else { e with modStreamIn := none, modStreamInSaved := none } : T38Engine) = e₁ at h ⊢
      obtain ⟨m, ok⟩ := e₁.outPars t param
      cases ok with
      | true => exact h.trans (.of_eq rfl)
      | false => exact h.trans (.of_eq rfl)

end T38Engine

end T38Modem
