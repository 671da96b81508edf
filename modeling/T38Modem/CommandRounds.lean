import T38Modem.CommandDial

namespace T38Modem

namespace Cmd

open CmdLine

/-- What a character of the line begins. A dial command is told apart from the others. -/
def Follows (w : World) (l : List Char) (ch : Char) (x : Cmd) : Prop :=
  if ch = 'D' then x = dial w else Meets l Done 1 x

theorem command_branches (w : World) (l : List Char) : ∃ cases, command w = switch cases ∧
    cases.lookup 'D' = some (dial w) ∧ Branches (Follows w l) cases := by
  refine ⟨_, rfl, rfl, ?_⟩
  refine .cons .pass (.cons .pass (.cons (.of_leaves (.answer _)) (.cons (.unused _ _ _) ?_)))
  refine .cons rfl (.cons (.toSBit _) (.cons ?_ (.cons .information ?_)))
  · exact .number fun _ => .ite (.thenHook _ (fun _ => rfl) fun _ => rfl) .failed
  refine .cons (.unused _ _ _) (.cons (.unused _ _ _) (.cons (.unused _ _ _) (.cons .failed ?_)))
  refine .cons (.toSBit _) (.cons .register (.cons (.toSBit _) (.cons ?_ ?_)))
  · exact .number fun _ => .ite .pass .failed
  refine .cons ?_ (.cons ?_ (.cons .ampersand (.cons .sharp .nil)))
  · exact .number fun _ => .ite .loadProfile .failed
  · refine .cases rfl (.cons .fax (.cons ?_ (.cons .voice .nil)))
    exact .cases rfl (.cons (.cases rfl (.cons .ifc .nil)) .nil)

end Cmd

namespace CmdLine

/-- The command behind the character that is read, where the other threads have gone on. -/
def behind (w : Nat → World) (s : CmdLine) : CmdLine :=
  { s with toCursor := s.skip 1, body := s.body.others (w s.pos).before }

/-- `state == stCommand && !err && *pCmd` -/
def Goes (s : CmdLine) : Prop :=
  s.body.state = .stCommand ∧ s.err = false ∧ ∃ ch, s.read = some ch ∧ ch ≠ Cursor.nul

/-- The rounds of the loop. -/
inductive Rounds (w : Nat → World) (s : CmdLine) : CmdLine → Prop
  | refl : Rounds w s s
  | next {t u : CmdLine} (h : Rounds w s t) (hg : t.Goes) (hr : t.round w = some u) : Rounds w s u

/-- A dial command whose response is BUSY. -/
def DialsBusy (w : Nat → World) (s : CmdLine) : Prop := s.read = some 'D' ∧ (s.behind w).EndsBusy

variable {w : Nat → World} {s t u : CmdLine} {k : Nat}

theorem Rounds.cons (hg : s.Goes) (hr : s.round w = some t) (h : Rounds w t u) : Rounds w s u := by
  induction h with
  | refl => exact .next .refl hg hr
  | next _ hg' hr' ih => exact .next ih hg' hr'

/-- A round dials with the response BUSY, or does what the other commands do. -/
theorem round_some (hg : s.Goes) : ∃ u, s.round w = some u ∧
    (s.DialsBusy w ∧ Busy (s.behind w) u ∨ ¬s.DialsBusy w ∧ Done (s.behind w) u) := by
  obtain ⟨hstate, herr, ch, hread, hnul⟩ := hg
  have hready : Ready s.line 1 (s.behind w) :=
    ⟨rfl, Cursor.skip_inside hread hnul, Nat.le_add_left 1 s.pos, herr, (ModemEngineBody.others_command _).mpr hstate⟩
  obtain ⟨cases, hcases, hdial, hb⟩ := Cmd.command_branches (w s.pos) s.line
  have hround : s.round w = (cases.lookup ch).getD Cmd.fail (s.behind w) := by
    unfold round
    rw [hcases]
    unfold Cmd.switch
    dsimp only
    rw [hread]
    rfl
  rw [hround]
  by_cases hch : ch = 'D'
  · subst hch
    rw [hdial]
    obtain ⟨u, hu, h⟩ := Cmd.dial_some (w := w s.pos) hready
    refine ⟨u, hu, ?_⟩
    rcases h with ⟨he, hbusy⟩ | ⟨he, hl⟩
    · exact .inl ⟨⟨hread, he⟩, hbusy⟩
    · exact .inr ⟨fun h => he h.2, .leaves hl⟩
  · have hno : ¬s.DialsBusy w := fun h => hch (Option.some.inj (hread.symm.trans h.1))
    cases hx : cases.lookup ch with
    | none =>
      obtain ⟨u, hu, hd⟩ := Cmd.Meets.failed (s.behind w) hready
      exact ⟨u, hu, .inr ⟨hno, hd⟩⟩
    | some x =>
      have hm := hb.lookup hx
      rw [Cmd.Follows, if_neg hch] at hm
      obtain ⟨u, hu, hd⟩ := hm (s.behind w) hready
      exact ⟨u, hu, .inr ⟨hno, hd⟩⟩

theorem Done.read (h : Done s t) : Reads s t := by
  cases h with
  | stays read => exact read
  | leaves h => cases h <;> assumption

/-- It reads a character at least, and none behind the NUL that is not followed by the error. -/
theorem round_reads (hg : s.Goes) (hr : s.round w = some u) :
    u.line = s.line ∧ s.pos < u.pos ∧ (u.err = true ∨ u.Inside) := by
  obtain ⟨u', hu', h⟩ := round_some (w := w) hg
  cases Option.some.inj (hr.symm.trans hu')
  have hread : Reads (s.behind w) u := by
    rcases h with ⟨_, hb⟩ | ⟨_, hd⟩
    · exact hb.read
    · exact hd.read
  exact ⟨hread.line, hread.pos, hread.inside⟩

/-- The loop ends, with a round at most for each character of the line. -/
theorem loop_some (hin : s.err = true ∨ s.Inside) (hk : s.line.length + 1 ≤ k + s.pos) (hpos : 1 ≤ k) :
    ∃ u, loop w k s = some u ∧ Rounds w s u ∧ ¬u.Goes := by
  induction k generalizing s with
  | zero => omega
  | succ k ih =>
    unfold loop
    split
    next hc =>
      have hins : s.Inside := by simpa [hc.2] using hin
      have hread := Cursor.read_inside hins
      rw [hread]
      dsimp only
      split
      next hnul =>
        refine ⟨s, rfl, .refl, fun ⟨_, _, ch, hch, hne⟩ => hne ?_⟩
        rw [hnul] at hread
        exact Option.some.inj (hch.symm.trans hread)
      next hnul =>
        have hg : s.Goes := ⟨hc.1, hc.2, _, hread, hnul⟩
        obtain ⟨t, ht, _⟩ := round_some (w := w) hg
        obtain ⟨hline, hlt, hin'⟩ := round_reads hg ht
        have hnext := Cursor.skip_inside hread hnul
        simp only [Cursor.Inside, Cursor.skip_pos, Cursor.skip_line] at hnext
        obtain ⟨u, hu, hru, hend⟩ := ih hin' (by rw [hline]; omega) (by omega)
        exact ⟨u, by rw [ht]; exact hu, hru.cons hg ht, hend⟩
    next hc => exact ⟨s, rfl, .refl, fun hg => hc ⟨hg.1, hg.2.1⟩⟩

theorem start_inside (s : CmdLine) : s.start.Inside := Nat.zero_le _

/-- The parser answers every line. -/
theorem handleCmdRest_some (w : Nat → World) (s : CmdLine) :
    ∃ u, handleCmdRest w s = some u.finish ∧ Rounds w s.start u ∧ ¬u.Goes := by
  obtain ⟨u, hu, h⟩ := loop_some (w := w) (s := s.start) (k := s.line.length + 1) (.inr s.start_inside)
    (Nat.le_refl _) (Nat.le_add_left _ _)
  exact ⟨u, by rw [handleCmdRest, hu]; rfl, h⟩

theorem Rounds.inside (h : Rounds w s t) (hs : s.Inside) : t.err = true ∨ t.Inside := by
  cases h with
  | refl => exact .inr hs
  | next _ hg hr => exact (round_reads hg hr).2.2

end CmdLine

end T38Modem
