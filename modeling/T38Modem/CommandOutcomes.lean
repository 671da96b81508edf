import T38Modem.CommandKeeps

namespace T38Modem

namespace Cmd

open CmdLine

variable {l : List Char} {R : CmdLine → CmdLine → Prop} {n m : Nat} {x y : Cmd} {w : World}

theorem back_some {s : CmdLine} (hs : Ready l n s) (hm : m ≤ n) : ∃ c, back s m = some c := by
  have hin : ({ s.toCursor with pos := s.pos - m } : Cursor).Inside := (Nat.sub_le _ _).trans hs.inside
  exact ⟨_, by rw [back, if_pos (hm.trans hs.before), Cursor.read_inside hin]⟩

namespace Meets

/-- `SendStart` sends the modem out of the state in which it takes commands, with a result, or fails
without one. -/
theorem sendStart (dt : DataType) : Meets l Leaves n (Cmd.sendStart w dt) := by
  intro s hs
  have hbody := ModemEngineBody.sendStart_command (b := s.body) (a := w.answers) dt
  unfold Cmd.sendStart
  cases hr : s.body.sendStart w.answers dt with
  | mk res body =>
    rw [hr] at hbody
    dsimp only
    split
    next hres =>
      refine ⟨_, rfl, ?_⟩
      obtain ⟨t, ht⟩ := beginResult_eq { s with ok := false, body }
      have hresp := beginResult_adds { s with ok := false, body } (rc { s with ok := false, body } .connect)
      rw [ht] at hresp ⊢
      exact .connects ⟨rfl, Nat.le_refl _, .inr hs.inside⟩ hresp hs.err rfl rfl (hbody hres)
    next => exact ⟨_, rfl, .fails ⟨rfl, Nat.le_refl _, .inl rfl⟩ (.none rfl) rfl⟩

/-! The loop of `AT+VTS`. -/

theorem frequency (hR : Closed R) (h : Meets l R n x) : Meets l R n (Cmd.frequency w x) :=
  .num hR fun _ => .ite (.fail hR) h

theorem duration {f : Int → Cmd} (hR : Closed R) (h : ∀ dms, Meets l R n (f dms)) : Meets l R n (Cmd.duration f) :=
  .num hR fun dms => .ite (.fail hR) (h dms)

theorem withVtd {f : Int → Cmd} (h : ∀ dms, Meets l R n (f dms)) : Meets l R n (Cmd.withVtd f) :=
  fun s hs => h _ s hs

theorem closeTone {ch : Char} (hR : Closed R) (hch : (ch == Cursor.nul) = false) (g : Bool) (dms : Int) (h : Meets l R n x) :
    Meets l R n (Cmd.closeTone w ch g dms x) := by
  intro s hs
  have hread := Cursor.read_inside hs.inside
  unfold Cmd.closeTone
  rw [hread]
  dsimp only
  split
  next => exact Meets.fail hR s hs
  next hc =>
    split
    next => exact Meets.fail hR s hs
    next =>
      exact h.skip hR hs rfl (Nat.le_succ _) (hs.before.trans (Nat.le_succ _))
        (Cursor.skip_inside hread ((not_not.mp hc) ▸ beq_eq_false_iff_ne.mp hch))

end Meets

theorem isDtmf_nul : isDtmf Cursor.nul = false := by decide

namespace Meets

theorem tone (hR : Closed R) (h : Meets l R n x) : Meets l R n (Cmd.tone w x) := by
  intro s hs
  have hread := Cursor.read_inside hs.inside
  -- behind a character that is not the NUL
  have hnext {y : Cmd} (hy : Meets l R n y) (hch : s.line.getD s.pos Cursor.nul ≠ Cursor.nul) :
      ∃ s', y { s with toCursor := s.skip 1 } = some s' ∧ R s s' :=
    hy.skip hR hs rfl (Nat.le_succ _) (hs.before.trans (Nat.le_succ _)) (Cursor.skip_inside hread hch)
  have hbracket (dms : Int) : Meets l R n (Cmd.closeTone w closeBracket true dms x) := closeTone hR rfl true dms h
  unfold Cmd.tone
  rw [hread]
  dsimp only
  split
  next hc =>
    refine hnext ?_ (hc ▸ by decide)
    refine frequency hR (.ifNext hR rfl (mono ?_ (Nat.le_succ n)) (withVtd hbracket))
    exact frequency hR (.ifNext hR rfl (mono (duration hR hbracket) (Nat.le_succ n)) (withVtd hbracket))
  next =>
    split
    next hc =>
      have hin := Cursor.skip_inside hread (hc ▸ by decide)
      rw [Cursor.read_inside hin]
      dsimp only
      generalize hd : isDtmf ((s.skip 1).line.getD (s.skip 1).pos Cursor.nul) = named
      have hbrace : Meets l R n (Cmd.ifNext ',' (Cmd.duration fun dms => Cmd.closeTone w closeBrace (!named) dms x)
          (Cmd.withVtd fun dms => Cmd.closeTone w closeBrace (!named) dms x)) :=
        .ifNext hR rfl (mono (duration hR fun dms => closeTone hR rfl _ dms h) (Nat.le_succ n)) (withVtd fun dms => closeTone hR rfl _ dms h)
      cases named with
      | false => exact hnext hbrace (hc ▸ by decide)
      | true =>
        have hne : (s.skip 1).line.getD (s.skip 1).pos Cursor.nul ≠ Cursor.nul := by
          intro he
          rw [he, isDtmf_nul] at hd
          cases hd
        exact hbrace.skip hR hs rfl (Nat.le_add_right s.pos 2) (hs.before.trans (Nat.le_add_right _ 2))
          (Cursor.skip_inside (Cursor.read_inside hin) hne)
    next =>
      split
      next hc =>
        refine hnext h ?_
        intro he
        rw [he, isDtmf_nul] at hc
        exact absurd hc (by decide)
      next =>
        split
        · split
          · exact h s hs
          · exact Meets.fail hR s hs
        · exact h s hs

/-- The rounds that the rest of the line allows are enough. -/
theorem tones (hR : Closed R) (h : Meets l R n x) (k : Nat) (hk : l.length + 1 ≤ k + n) : Meets l R n (Cmd.tones w x k) := by
  induction k generalizing n with
  | zero =>
    intro s hs
    have hin := hs.inside
    have hb := hs.before
    rw [Cursor.Inside, hs.line] at hin
    omega
  | succ k ih => exact tone hR (.ifNext hR rfl (ih (h.mono (Nat.le_succ n)) (by omega)) h)

end Meets

/-! The commands. -/

namespace Meets

theorem toSBit (funk : Bool → ProfileOp) : Meets l Done n (Cmd.toSBit funk) :=
  number fun _ => .ite (.setP _) (.ite (.setP _) .failed)

theorem unused (minDigits maxDigits : Nat) (maxNum : Int) : Meets l Done n (Cmd.unused minDigits maxDigits maxNum) :=
  number fun _ => .ite .pass .failed

theorem param {range : String} {set : Cmd} {get : CmdLine → String} (h : Meets l Done (n + 1) set) :
    Meets l Done n (Cmd.param range set get) :=
  cases rfl (.cons (next rfl (.reply _) h) (.cons (.reply _) .nil))

theorem byteParam (range : String) (op : Byte → ProfileOp) (get : Profile → Byte) :
    Meets l Done n (Cmd.byteParam range op get) :=
  param (number3 fun _ => .ite (.setP _) .failed)

theorem bitParam (range : String) (op : Byte → ProfileOp) (get : Profile → Byte) :
    Meets l Done n (Cmd.bitParam range op get) :=
  param (number3 fun _ => .ite (.setP _) .failed)

theorem zeroParam (range : String) (set : Int → Bool) : Meets l Done n (Cmd.zeroParam range set) :=
  param (number3 fun _ => .ite .pass .failed)

theorem readOnly (get : CmdLine → String) : Meets l Done n (Cmd.readOnly get) := cases rfl (.cons (.reply _) .nil)

/-- The characters in front of the pointer are read, too. -/
theorem handleClass1Cmd : Meets l Done (n + 2) (Cmd.handleClass1Cmd w) := by
  intro s hs
  obtain ⟨t, ht⟩ := back_some (m := 2) hs (Nat.le_add_left 2 n)
  obtain ⟨d, hd⟩ := back_some (m := 1) hs (Nat.le_add_left 1 (n + 1))
  unfold Cmd.handleClass1Cmd
  rw [ht, hd]
  dsimp only
  split
  next =>
    split
    next =>
      refine Meets.cases (n := n + 2) rfl (.cons (next rfl (.reply _) ?_) .nil) s hs
      refine inClass closed_done _ (number3 fun dms => .ite (.ite ?_ ?_) .failed)
      · exact of_leaves (operate fun _ => ModemEngineBody.sendSilence_command)
      · exact of_leaves (operate fun _ => ModemEngineBody.recvSilence_command)
    next =>
      split
      next =>
        refine Meets.cases (n := n + 2) rfl (.cons (next rfl (.reply _) ?_) .nil) s hs
        refine inClass closed_done _ (number3 fun br => .ite .failed (.ite (.ite (of_leaves (sendStart _)) ?_) .failed))
        exact of_leaves (operate fun _ => ModemEngineBody.recvStart_command _)
      next => exact Meets.failed s hs
  next => exact Meets.failed s hs

theorem handleClass8Cmd : Meets l Done (n + 2) (Cmd.handleClass8Cmd w) := by
  intro s hs
  obtain ⟨t, ht⟩ := back_some (m := 2) hs (Nat.le_add_left 2 n)
  obtain ⟨d, hd⟩ := back_some (m := 1) hs (Nat.le_add_left 1 (n + 1))
  unfold Cmd.handleClass8Cmd
  rw [ht, hd]
  dsimp only
  split
  next =>
    split
    next =>
      refine Meets.cases (n := n + 2) rfl (.cons (next rfl (.reply _) (inClass closed_done _ (of_leaves ?_))) .nil) s hs
      -- `ok` is put down in front of the tones
      intro t ht
      have hx : Meets l Leaves (n + 2 + 1) (Cmd.operate (ModemEngineBody.sendTones w.answers)) :=
        operate fun _ => ModemEngineBody.sendTones_command
      have hlen : l.length + 1 ≤ t.line.length + 1 + (n + 2 + 1) := by
        rw [ht.line]
        omega
      obtain ⟨s', hs', hr⟩ := tones (w := w) closed_leaves hx _ hlen { t with ok := false }
        ⟨ht.line, ht.inside, ht.before, ht.err, ht.state⟩
      refine ⟨s', hs', ?_⟩
      cases hr with
      | fails read resp err => exact .fails ⟨read.line, read.pos, read.inside⟩ resp err
      | ends read resp err ok state => exact .ends ⟨read.line, read.pos, read.inside⟩ resp err ok state
      | connects read resp err ok crlf state => exact .connects ⟨read.line, read.pos, read.inside⟩ resp err ok crlf state
    next =>
      split
      next =>
        refine inClass closed_done _ ?_ s hs
        split
        · exact of_leaves (sendStart _)
        · exact of_leaves (operate fun _ => ModemEngineBody.recvStart_command _)
      next => exact Meets.failed s hs
  next => exact Meets.failed s hs

/-! The commands. -/

theorem loadProfile : Meets l Done n (Cmd.loadProfile w) := thenHook _ (fun _ => rfl) fun _ => rfl

theorem register : Meets l Done n Cmd.register := by
  refine number3 fun r => .ite (cases rfl (.cons (number3 fun val => ?_) (.cons ?_ (.cons ?_ .nil)))) .failed
  · intro s hs
    dsimp only
    split
    · exact ⟨_, rfl, hs.stays rfl rfl rfl hs.state⟩
    · exact Meets.failed s hs
  · intro s hs
    dsimp only
    split
    · exact Meets.reply _ s hs
    · exact Meets.failed s hs
  · refine number fun b => .ite (cases rfl (.cons (number fun val => ?_) (.cons ?_ .nil))) .failed
    · intro s hs
      dsimp only
      split
      · exact ⟨_, rfl, hs.stays rfl rfl rfl hs.state⟩
      · exact Meets.failed s hs
    · intro s hs
      dsimp only
      split
      · exact Meets.reply _ s hs
      · exact Meets.failed s hs

theorem information : Meets l Done n Cmd.information :=
  number fun _ => .ite (.reply _) (.ite (.reply _) (.ite (.reply _) (.ite (.reply _) (.ite .failed .pass))))

theorem fclass : Meets l Done n Cmd.fclass :=
  param (number3 fun _ => .ite (.setClass _) (.ite (.setClass _) (.ite (.setClass _) .failed)))

theorem flo : Meets l Done n Cmd.flo := param (number3 fun _ => .ite (.editP _) .failed)

theorem ifc : Meets l Done n Cmd.ifc :=
  param (number fun _ => .ite .failed (next rfl (number3 fun _ => .ite .failed (.editP _)) (.editP _)))

theorem vip : Meets l Done n Cmd.vip :=
  next rfl (next rfl (.reply _) (number3 fun _ => .ite .failed (.editP _))) (.editP _)

theorem vls : Meets l Done n (Cmd.vls w) :=
  param (number3 fun _ => .ite (.hookIf _) (.ite (of_leaves (.answer _)) .failed))

theorem vsd : Meets l Done n Cmd.vsd :=
  param (number3 fun _ => .ite .failed (next rfl (number3 fun _ => .ite .failed (.editP _)) .failed))

theorem vsm : Meets l Done n Cmd.vsm := by
  refine param (number3 fun cml => .ite (next rfl (number fun vsr => .ite .failed ?_) (.setP _)) .failed)
  refine next rfl (number3 fun scs => .ite .failed ?_) (.setP _)
  exact next rfl (number3 fun sel => .ite .failed (.setP _)) (.setP _)

theorem cid : Meets l Done n Cmd.cid := by
  refine cases rfl (.cons (next rfl (.reply _) ?_) (.cons (.reply _) (.cons (word ?_ .failed) .nil)))
  · exact number3 fun _ => .ite (.editP _) (.ite (.editP _) (.ite (.editP _) (.ite (.editP _) .failed)))
  · refine cases rfl (.cons (number fun name => .ite .failed ?_) (.cons (.reply _) .nil))
    exact next rfl (number fun _ => .ite .failed (.editP _)) (.editP _)

theorem fax : Meets l Done (n + 1) (Cmd.fax w) := by
  refine cases rfl (.cons ?_ (.cons ?_ (.cons ?_ (.cons ?_ (.cons ?_ (.cons ?_ .nil))))))
  · exact next rfl (.zeroParam _ _) .failed
  · exact word .fclass .failed
  · exact cases rfl (.cons .flo .nil)
  · refine cases rfl (.cons ?_ (.cons ?_ (.cons (.readOnly _) (.cons (.readOnly _) (.cons (.readOnly _) .nil)))))
    · exact cases rfl (.cons (.readOnly _) .nil)
    · exact cases rfl (.cons (.readOnly _) .nil)
  · refine next rfl .handleClass1Cmd (next rfl .handleClass1Cmd (next rfl .handleClass1Cmd ?_))
    exact word (.readOnly _) .failed
  · exact next rfl .handleClass1Cmd (next rfl .handleClass1Cmd (next rfl .handleClass1Cmd .failed))

theorem voice : Meets l Done (n + 1) (Cmd.voice w) := by
  refine cases rfl (.cons ?_ (.cons ?_ (.cons ?_ (.cons ?_ (.cons ?_ (.cons ?_ (.cons ?_ (.cons ?_ .nil))))))))
  · exact word (.bitParam _ _ _) .failed
  · exact cases rfl (.cons (.zeroParam _ _) .nil)
  · exact cases rfl (.cons (.byteParam _ _ _) (.cons (.byteParam _ _ _) .nil))
  · exact cases rfl (.cons .vip (.cons (.zeroParam _ _) .nil))
  · exact cases rfl (.cons .vls .nil)
  · exact cases rfl (.cons (.byteParam _ _ _) (.cons (.byteParam _ _ _) (.cons .handleClass8Cmd .nil)))
  · exact cases rfl (.cons .vsd (.cons .vsm .nil))
  · exact cases rfl (.cons (.byteParam _ _ _) (.cons .handleClass8Cmd (.cons .handleClass8Cmd .nil)))

theorem ampersand : Meets l Done n (Cmd.ampersand w) := by
  refine cases rfl (.cons (.unused _ _ _) (.cons (.unused _ _ _) (.cons .loadProfile (.cons ?_ .nil))))
  exact number fun _ => .ite (.setP _) .failed

theorem sharp : Meets l Done n Cmd.sharp :=
  word .cid (word (.byteParam _ _ _) (word (.bitParam _ _ _) .failed))

end Meets

end Cmd

end T38Modem
