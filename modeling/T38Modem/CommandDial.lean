import T38Modem.CommandOutcomes

namespace T38Modem

namespace Dialing

variable {online : Bool} {d : Dialing} {ch : Char}

@[simp] theorem add_cmdRest : (d.add ch).cmdRest = d.cmdRest := by
  unfold add
  split <;> rfl

/-- The text behind the semicolon is not written before. -/
@[simp] theorem dialChar_cmdRest : (dialChar online d ch).cmdRest = d.cmdRest := by
  unfold dialChar
  split
  next => split <;> (try split) <;> simp
  next => split <;> (try split) <;> simp

end Dialing

namespace CmdLine

/-- What a modem with a call makes of the dial string in front of it. -/
def dialing (s : CmdLine) : Dialing := Dialing.dialLoop true { addNumTone := true } s.rest

/-- A dial string in front of a modem whose call is not established. -/
def EndsBusy (s : CmdLine) : Prop :=
  s.body.callToken ≠ "" ∧ s.body.connectionEstablished = false ∧ s.dialing.err = false

instance (s : CmdLine) : Decidable s.EndsBusy := inferInstanceAs (Decidable (_ ∧ _ ∧ _))

/-- BUSY is added to the response, and the line is read on behind the dial string. -/
structure Busy (s s' : CmdLine) : Prop where
  read : Reads s s'
  rest : s'.rest = s.dialing.cmdRest
  resp : ∃ t, Adds s s' [.result .busy t]
  err : s'.err = false
  ok : s'.ok = false
  crlf : s'.crlf = false
  state : s'.body.state = .stCommand

end CmdLine

namespace Cmd

open CmdLine

variable {l : List Char} {n : Nat} {w : World}

/-- The loop of `ATD` reads the dial string and stands behind its semicolon, or at the end of the line. -/
theorem dialLoop_some (online : Bool) {k : Nat} {d : Dialing} {s : CmdLine} (hin : s.Inside)
    (hk : s.line.length + 1 ≤ k + s.pos) (hd : d.cmdRest = []) (he : d.err = false) :
    ∃ c r, Cmd.dialLoop online k d s = some (Dialing.dialLoop online d s.rest, { s with toCursor := c, cmdRest := r }) ∧
      c.line = s.line ∧ s.pos ≤ c.pos ∧ c.Inside ∧
      ((Dialing.dialLoop online d s.rest).err = false → c.rest = (Dialing.dialLoop online d s.rest).cmdRest) := by
  induction k generalizing d s with
  | zero =>
    unfold Cursor.Inside at hin
    omega
  | succ k ih =>
    have hread := Cursor.read_inside hin
    unfold Cmd.dialLoop
    rw [hread]
    dsimp only
    split
    next hnul =>
      have hrest : s.rest = [] := (Cursor.read_nul hin).mp (hread.trans (congrArg some hnul))
      refine ⟨s.toCursor, s.cmdRest, ?_, rfl, Nat.le_refl _, hin, fun _ => ?_⟩
      · rw [hrest]
        rfl
      · rw [hrest, Dialing.dialLoop]
        exact hd.symm
    next hnul =>
      have hrest := Cursor.rest_cons hread hnul
      have hnext := Cursor.skip_inside hread hnul
      rw [hrest, Dialing.dialLoop]
      split
      next => exact ⟨s.skip 1, _, rfl, rfl, Nat.le_succ _, hnext, fun _ => rfl⟩
      next =>
        split
        next herr =>
          refine ⟨s.skip 1, s.cmdRest, ?_, rfl, Nat.le_succ _, hnext, fun h => ?_⟩
          · rw [if_pos herr]
          · rw [if_pos herr, herr] at h
            cases h
        next herr =>
          have hk' : (s.skip 1).line.length + 1 ≤ k + (s.skip 1).pos := by
            simp only [Cursor.skip_line, Cursor.skip_pos]
            omega
          obtain ⟨c, r, hloop, hl, hp, hc, hr⟩ := ih (d := Dialing.dialChar online d (s.line.getD s.pos Cursor.nul))
            (s := { s with toCursor := s.skip 1 }) hnext hk' (Dialing.dialChar_cmdRest.trans hd) (by simpa using herr)
          rw [if_neg herr]
          exact ⟨c, r, hloop, hl, (Nat.le_succ _).trans hp, hc, hr⟩

/-- A dial command ends the line, but for one of a modem with a call that is not established. -/
theorem dial_some {s : CmdLine} (hs : Ready l n s) :
    ∃ s', Cmd.dial w s = some s' ∧ (s.EndsBusy ∧ Busy s s' ∨ ¬s.EndsBusy ∧ Leaves s s') := by
  have hin := hs.inside
  unfold Cmd.dial
  dsimp only
  generalize hon : decide (s.body.callToken ≠ "") = online
  generalize hb : (if online = true then s.body.offHook else { s.body.offHook with pPlayTone := false }) = b
  obtain ⟨c, r, hloop, hl, hp, hc, hr⟩ := dialLoop_some online (k := s.line.length + 1) (d := { addNumTone := online })
    (s := { s with ok := false, body := b }) hin (Nat.le_add_right _ _) rfl rfl
  rw [hloop]
  refine ⟨_, rfl, ?_⟩
  generalize hD : Dialing.dialLoop online { addNumTone := online } s.rest = D at hr
  have hstate : b.state = .stCommand := by
    rw [← hb]
    split <;> exact hs.state
  have hest : b.connectionEstablished = s.body.connectionEstablished := by
    rw [← hb]
    split <;> rfl
  unfold dialled
  dsimp only
  split
  next herr =>
    refine .inr ⟨fun h => ?_, .fails ⟨hl, hp, .inl rfl⟩ (.none rfl) rfl⟩
    have honline : online = true := hon ▸ decide_eq_true h.1
    subst honline
    rw [EndsBusy, dialing, hD, herr] at h
    cases h.2.2
  next herr =>
    have herr : D.err = false := by simpa using herr
    cases online with
    | false =>
      have htoken : s.body.callToken = "" := by simpa using hon
      exact .inr ⟨fun h => h.1 htoken, .ends ⟨hl, hp, .inr hc⟩ (.none rfl) hs.err rfl nofun⟩
    | true =>
      rw [if_pos rfl]
      split
      next hconn =>
        refine .inr ⟨fun h => ?_, .ends ⟨hl, hp, .inr hc⟩ (.none rfl) hs.err rfl nofun⟩
        rw [hest, h.2.1] at hconn
        cases hconn
      next hconn =>
        have hconn : s.body.connectionEstablished = false := by simpa [hest] using hconn
        refine .inl ⟨⟨of_decide_eq_true hon, hconn, (congrArg Dialing.err hD).trans herr⟩, ?_⟩
        generalize hu : ({ s with toCursor := c, ok := false, cmdRest := r, body := b.hookOn w } : CmdLine) = u
        obtain ⟨t, ht⟩ := u.beginResult_eq
        have hresp := u.beginResult_adds (u.rc .busy)
        rw [ht] at hresp ⊢
        subst hu
        exact ⟨⟨hl, hp, .inr hc⟩, (hr herr).trans (congrArg Dialing.cmdRest hD).symm, ⟨_, hresp⟩, hs.err, rfl, rfl,
          ModemEngineBody.hookOn_command hstate⟩

end Cmd

end T38Modem
