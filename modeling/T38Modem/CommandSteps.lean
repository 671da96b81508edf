import T38Modem.CommandTable

namespace T38Modem

namespace ModemEngineBody

variable {b : ModemEngineBody} {a : Answers} {w : World}

@[simp] theorem setCallState_state (c : CallState) : (b.setCallState c).state = b.state := rfl

theorem attachEngine_command (mce : ModemClassEngine) :
    (b.attachEngine a mce).state = .stCommand ↔ b.state = .stCommand := by
  unfold attachEngine
  split
  next => exact Iff.rfl
  next =>
    cases mce with
    | mceT38 =>
      by_cases hs : b.state = .stReqModeAckWait
      · by_cases hm : b.modemClass = classOf .mceT38 <;> simp [setActiveEngine, setState, hm, hs]
      · by_cases hm : b.modemClass = classOf .mceT38 <;> simp [setActiveEngine, hm, hs]
    | mceAudio =>
      dsimp only [setActiveEngine]
      split <;> split <;> exact Iff.rfl

theorem needAudio_command : (b.needAudio a).state = .stCommand ↔ b.state = .stCommand := by
  unfold needAudio
  split
  · exact Iff.rfl
  · exact attachEngine_command _

theorem beginClear_command : (b.beginClear a).state = .stCommand ↔ b.state = .stCommand := by
  unfold beginClear
  dsimp only
  split
  · split
    · exact needAudio_command
    · exact Iff.rfl
  · exact Iff.rfl

theorem endClear_state : b.endClear.state = b.state := by
  unfold endClear
  dsimp only
  split <;> rfl

/-- A request neither begins nor ends the state in which the modem takes commands. -/
theorem request_command (r : Request) : (b.request a r).1.state = .stCommand ↔ b.state = .stCommand := by
  cases r with
  | call token =>
    unfold request
    dsimp only
    split <;> exact Iff.rfl
  | alerting token =>
    unfold request
    dsimp only
    split
    · exact Iff.rfl
    · split
      · split
        next h => exact (needAudio_command).trans (iff_of_false nofun (by rw [show b.state = _ from h.1]; nofun))
        next => exact Iff.rfl
      · exact Iff.rfl
  | established token =>
    unfold request
    dsimp only
    split
    · exact Iff.rfl
    · split
      · split
        next h => exact iff_of_false nofun (by rw [show b.state = _ from h]; nofun)
        next => exact Iff.rfl
      · exact Iff.rfl
  | clearcall token trynextcommand =>
    unfold request
    dsimp only
    split
    · exact Iff.rfl
    · split
      · split
        next h => exact iff_of_false nofun (by rw [show b.state = _ from h.2.1]; nofun)
        next => exact (iff_of_eq (congrArg (· = ModemState.stCommand) endClear_state)).trans beginClear_command
      · exact Iff.rfl

theorem other_command (act : ModemAct) : (b.other act).state = .stCommand ↔ b.state = .stCommand := by
  cases act with
  | request a r => exact request_command r
  | newPtrEngine a mce => exact attachEngine_command mce
  | onOutBufEmpty =>
    show b.onOutBufEmpty.state = _ ↔ _
    unfold onOutBufEmpty
    split
    next h => exact iff_of_false nofun (by simp [h])
    next => exact Iff.rfl
  | onSeq =>
    show b.onSeq.state = _ ↔ _
    unfold onSeq
    split
    next h => exact iff_of_false nofun (by simp [h])
    next h => exact iff_of_false nofun (by simp [h])
    next h => split <;> exact Iff.rfl
    next => exact Iff.rfl
  | onTimeout timer => cases timer <;> exact Iff.rfl
  | _ => exact Iff.rfl

/-- The other threads neither begin nor end it. -/
theorem others_command (as : List ModemAct) : (b.others as).state = .stCommand ↔ b.state = .stCommand := by
  induction as generalizing b with
  | nil => exact Iff.rfl
  | cons act as ih => exact ih.trans (other_command act)

theorem takeDown_command (mce : ModemClassEngine) (as : List ModemAct) (h : b.state = .stCommand) :
    (b.takeDown mce as).state = .stCommand := by
  have ho := (others_command (b := b) as).mpr h
  unfold takeDown
  split
  · exact h
  · dsimp only
    split
    · exact ho
    · unfold detached
      dsimp only
      split <;> cases mce <;> exact ho

theorem clear_command (h : b.state = .stCommand) : (b.clear w).state = .stCommand := by
  have hb := beginClear_command (b := b) (a := w.answers).mpr h
  unfold clear
  split
  · exact h
  · dsimp only
    split
    · rw [endClear_state]
      exact (others_command _).mpr hb
    · rw [endClear_state]
      exact hb

/-- `OnHook` leaves the modem in the state in which it takes commands. -/
theorem hookOn_command (h : b.state = .stCommand) : (b.hookOn w).state = .stCommand := by
  unfold hookOn
  split
  · exact clear_command (takeDown_command _ _ (takeDown_command _ _ rfl))
  · exact clear_command h

theorem pickUp_command (h : (b.pickUp w).1 = true) : (b.pickUp w).2.state ≠ .stCommand := by
  unfold pickUp at h ⊢
  dsimp only at h ⊢
  split at h
  next hc =>
    rw [if_pos hc]
    split at h
    next hs =>
      rw [if_pos hs]
      split at h
      next hw =>
        rw [if_pos hw]
        exact fun hx => absurd ((others_command _).mp hx) nofun
      next => cases h
    next => cases h
  next hc =>
    rw [if_neg hc]
    exact nofun

theorem sendSilence_command (h : (b.sendSilence a).1 = true) : (b.sendSilence a).2.state ≠ .stCommand := by
  unfold sendSilence at h ⊢
  dsimp only at h ⊢
  split at h
  next h1 =>
    rw [if_pos h1]
    split at h
    next h2 =>
      rw [if_pos h2]
      split at h
      next h3 =>
        rw [if_pos h3]
        exact nofun
      next => cases h
    next => cases h
  next => cases h

theorem sendStart_command (dt : DataType) (h : (b.sendStart a dt).1 = true) : (b.sendStart a dt).2.state ≠ .stCommand := by
  unfold sendStart at h ⊢
  dsimp only at h ⊢
  split at h
  next => cases h
  next hc =>
    rw [if_neg hc]
    exact nofun

theorem recvStart_command (dt : DataType) (h : (b.recvStart a dt).1 = true) : (b.recvStart a dt).2.state ≠ .stCommand := by
  unfold recvStart at h ⊢
  dsimp only at h ⊢
  split at h
  next => cases h
  next hc =>
    rw [if_neg hc]
    split
    · exact nofun
    · exact nofun

theorem recvSilence_command (h : (b.recvSilence a).1 = true) : (b.recvSilence a).2.state ≠ .stCommand := by
  unfold recvSilence at h ⊢
  dsimp only at h ⊢
  split at h
  next hc =>
    rw [if_pos hc]
    split at h
    next hd =>
      rw [if_pos hd]
      exact sendSilence_command h
    next hd =>
      rw [if_neg hd]
      exact nofun
  next => cases h

theorem sendTones_command (h : (b.sendTones a).1 = true) : (b.sendTones a).2.state ≠ .stCommand := by
  unfold sendTones at h ⊢
  dsimp only at h ⊢
  split at h
  next hc =>
    rw [if_pos hc]
    split at h
    next hd =>
      rw [if_pos hd]
      exact nofun
    next => cases h
  next => cases h

end ModemEngineBody

def Piece.isText : Piece → Bool
  | .text _ => true
  | .result _ _ => false

namespace CmdLine

/-- The place of a command of the line `l`, or of a part of one: the pointer stands in the line, and so do
the `n` characters in front of it. -/
structure Ready (l : List Char) (n : Nat) (s : CmdLine) : Prop where
  line : s.line = l
  inside : s.Inside
  before : n ≤ s.pos
  err : s.err = false
  state : s.body.state = .stCommand

/-- The pointer goes on, and stands in the line where no error is raised. -/
structure Reads (s s' : CmdLine) : Prop where
  line : s'.line = s.line
  pos : s.pos ≤ s'.pos
  inside : s'.err = true ∨ s'.Inside

/-- Texts are added to the response, and `ps` behind them. -/
def Adds (s s' : CmdLine) (ps : List Piece) : Prop :=
  ∃ ts, s'.resp = s.resp ++ ts ++ ps ∧ ∀ p ∈ ts, p.isText = true

/-- The ends of a command that does not go on to the next one. -/
inductive Leaves (s s' : CmdLine) : Prop
  | fails (read : Reads s s') (resp : Adds s s' []) (err : s'.err = true)
  | ends (read : Reads s s') (resp : Adds s s' []) (err : s'.err = false) (ok : s'.ok = false)
      (state : s'.body.state ≠ .stCommand)
  | connects (read : Reads s s') {t : String} (resp : Adds s s' [.result .connect t]) (err : s'.err = false)
      (ok : s'.ok = false) (crlf : s'.crlf = false) (state : s'.body.state ≠ .stCommand)

/-- A command goes on to the next one, or it does not. -/
inductive Done (s s' : CmdLine) : Prop
  | stays (read : Reads s s') (resp : Adds s s' []) (ok : s'.ok = s.ok) (state : s'.body.state = .stCommand)
  | leaves (h : Leaves s s')

theorem Reads.move {s s' : CmdLine} {c : Cursor} (hl : c.line = s.line) (hp : s.pos ≤ c.pos)
    (h : Reads { s with toCursor := c } s') : Reads s s' :=
  ⟨h.line.trans hl, hp.trans h.pos, h.inside⟩

theorem Adds.none {s s' : CmdLine} (h : s'.resp = s.resp) : Adds s s' [] := ⟨[], by simp [h], nofun⟩

end CmdLine

namespace Cmd

open CmdLine

/-- A relation between the states before and behind a part of a command that does not depend on how far
the pointer has come, and holds of an error. -/
structure Closed (R : CmdLine → CmdLine → Prop) : Prop where
  fail {s : CmdLine} {c : Cursor} (hl : c.line = s.line) (hp : s.pos ≤ c.pos) :
    R s { s with toCursor := c, err := true }
  move {s s' : CmdLine} {c : Cursor} (hl : c.line = s.line) (hp : s.pos ≤ c.pos)
    (h : R { s with toCursor := c } s') : R s s'

theorem closed_leaves : Closed Leaves where
  fail hl hp := .fails ⟨hl, hp, .inl rfl⟩ (.none rfl) rfl
  move hl hp h := by
    cases h with
    | fails read resp err => exact .fails (read.move hl hp) resp err
    | ends read resp err ok state => exact .ends (read.move hl hp) resp err ok state
    | connects read resp err ok crlf state => exact .connects (read.move hl hp) resp err ok crlf state

theorem closed_done : Closed Done where
  fail hl hp := .leaves (closed_leaves.fail hl hp)
  move hl hp h := by
    cases h with
    | stays read resp ok state => exact .stays (read.move hl hp) resp ok state
    | leaves h => exact .leaves (closed_leaves.move hl hp h)

/-- The part `x` of a command reads nothing behind the NUL, and does what `R` says. -/
def Meets (l : List Char) (R : CmdLine → CmdLine → Prop) (n : Nat) (x : Cmd) : Prop :=
  ∀ s, Ready l n s → ∃ s', x s = some s' ∧ R s s'

variable {l : List Char} {R : CmdLine → CmdLine → Prop} {n m : Nat} {x y : Cmd} {cases : List (Char × Cmd)}

namespace Meets

theorem mono (h : Meets l R n x) (hm : n ≤ m) : Meets l R m x :=
  fun s hs => h s ⟨hs.line, hs.inside, hm.trans hs.before, hs.err, hs.state⟩

theorem imp {R' : CmdLine → CmdLine → Prop} (h : Meets l R n x) (hr : ∀ s s', R s s' → R' s s') : Meets l R' n x :=
  fun s hs => (h s hs).imp fun _ hx => ⟨hx.1, hr _ _ hx.2⟩

/-- What is done behind some characters is done from their place on. -/
theorem skip (hR : Closed R) (h : Meets l R m x) {s : CmdLine} {c : Cursor} (hs : Ready l n s) (hl : c.line = s.line)
    (hp : s.pos ≤ c.pos) (hm : m ≤ c.pos) (hc : c.Inside) : ∃ s', x { s with toCursor := c } = some s' ∧ R s s' := by
  obtain ⟨s', hx, hr⟩ := h { s with toCursor := c } ⟨hl.trans hs.line, hc, hm, hs.err, hs.state⟩
  exact ⟨s', hx, hR.move hl hp hr⟩

theorem fail (hR : Closed R) : Meets l R n Cmd.fail :=
  fun s _ => ⟨_, rfl, hR.fail (s := s) (c := s.toCursor) rfl (Nat.le_refl _)⟩

theorem edit {f : CmdLine → CmdLine} (h : ∀ s, Ready l n s → R s (f s)) : Meets l R n (Cmd.edit f) :=
  fun s hs => ⟨f s, rfl, h s hs⟩

theorem ite {p : Prop} [Decidable p] (hx : Meets l R n x) (hy : Meets l R n y) : Meets l R n (if p then x else y) := by
  split
  · exact hx
  · exact hy

end Meets

/-- The branches of a `switch` on the character that is read. -/
inductive Branches (P : Char → Cmd → Prop) : List (Char × Cmd) → Prop
  | nil : Branches P []
  | cons {ch : Char} {x : Cmd} {cases : List (Char × Cmd)} (hx : P ch x) (h : Branches P cases) :
      Branches P ((ch, x) :: cases)

theorem Branches.lookup {P : Char → Cmd → Prop} (h : Branches P cases) {ch : Char} (hx : cases.lookup ch = some x) :
    P ch x := by
  induction h with
  | nil => cases hx
  | cons hy _ ih =>
    rw [List.lookup_cons] at hx
    split at hx
    next he =>
      cases hx
      have he := beq_iff_eq.mp he
      exact he ▸ hy
    next => exact ih hx

namespace Meets

/-- The character that ends the line is in no branch, so that the pointer gets behind it only with an
error. -/
theorem switch (hR : Closed R) (hn : cases.lookup Cursor.nul = none) (h : Branches (fun _ => Meets l R (n + 1)) cases) :
    Meets l R n (Cmd.switch cases) := by
  intro s hs
  have hread := Cursor.read_inside hs.inside
  unfold Cmd.switch
  rw [hread]
  dsimp only
  cases hx : cases.lookup (s.line.getD s.pos Cursor.nul) with
  | none => exact ⟨_, rfl, hR.fail (s := s) (c := s.skip 1) rfl (Nat.le_succ _)⟩
  | some x =>
    have hch : s.line.getD s.pos Cursor.nul ≠ Cursor.nul := fun he => by
      rw [he, hn] at hx
      cases hx
    exact (h.lookup hx).skip hR hs rfl (Nat.le_succ _) (Nat.succ_le_succ hs.before) (Cursor.skip_inside hread hch)

theorem ifNext {ch : Char} (hR : Closed R) (hch : (ch == Cursor.nul) = false) (hx : Meets l R (n + 1) x)
    (hy : Meets l R n y) : Meets l R n (Cmd.ifNext ch x y) := by
  intro s hs
  have hread := Cursor.read_inside hs.inside
  unfold Cmd.ifNext
  rw [hread]
  dsimp only
  split
  next hc =>
    exact hx.skip hR hs rfl (Nat.le_succ _) (Nat.succ_le_succ hs.before)
      (Cursor.skip_inside hread (hc ▸ beq_eq_false_iff_ne.mp hch))
  next => exact hy s hs

theorem ifWord {word : List Char} (hR : Closed R) (hx : Meets l R n x) (hy : Meets l R n y) :
    Meets l R n (Cmd.ifWord word x y) := by
  intro s hs
  unfold Cmd.ifWord
  rw [Cursor.read_inside hs.inside]
  dsimp only
  split
  next hw =>
    have hword := Cursor.word_inside (List.isPrefixOf_iff_prefix.mp hw) hs.inside
    exact hx.skip hR hs rfl (Nat.le_add_right _ _) (hs.before.trans (Nat.le_add_right _ _)) hword
  next => exact hy s hs

end Meets

/-- `ParseNum` goes on to the end of the digits. -/
theorem parseNum_some {c : Cursor} (hc : c.Inside) (minDigits maxDigits : Nat) (maxNum defNum : Int) :
    ∃ v, parseNum c minDigits maxDigits maxNum defNum = some (v, c.skip (digits c.rest).length) := by
  unfold parseNum
  rw [Cursor.read_inside hc]
  dsimp only
  split
  · exact ⟨_, rfl⟩
  · split <;> exact ⟨_, rfl⟩

namespace Meets

variable {minDigits maxDigits : Nat} {maxNum : Int} {defNum : CmdLine → Int} {f : Int → Cmd}

theorem num (hR : Closed R) (h : ∀ val, Meets l R n (f val)) : Meets l R n (Cmd.num minDigits maxDigits maxNum defNum f) := by
  intro s hs
  obtain ⟨v, hv⟩ := parseNum_some hs.inside minDigits maxDigits maxNum (defNum s)
  unfold Cmd.num
  rw [hv]
  exact (h v).skip hR hs rfl (Nat.le_add_right _ _) (hs.before.trans (Nat.le_add_right _ _))
    (Cursor.takeWhile_inside _ hs.inside)

end Meets

end Cmd

end T38Modem
