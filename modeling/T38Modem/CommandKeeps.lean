import T38Modem.CommandSteps

namespace T38Modem

namespace CmdLine

variable {l : List Char} {n : Nat} {s s' : CmdLine}

/-- A command that writes nothing of the line, the flags and the response. -/
theorem Ready.stays (hs : Ready l n s) (hc : s'.toCursor = s.toCursor) (hr : s'.resp = s.resp)
    (ho : s'.ok = s.ok) (hst : s'.body.state = .stCommand) : Done s s' := by
  refine .stays ⟨congrArg Cursor.line hc, Nat.le_of_eq (congrArg Cursor.pos hc).symm, .inr ?_⟩ (.none hr) ho hst
  rw [hc]
  exact hs.inside

/-- What may be done with the modem and with `ok` at the end of a command. -/
theorem Ready.leaves (hs : Ready l n s) (hc : s'.toCursor = s.toCursor) (hr : s'.resp = s.resp) (ho : s'.ok = false)
    (hst : s'.err = false → s'.body.state ≠ .stCommand) : Leaves s s' := by
  have hread : Reads s s' := by
    refine ⟨congrArg Cursor.line hc, Nat.le_of_eq (congrArg Cursor.pos hc).symm, .inr ?_⟩
    rw [hc]
    exact hs.inside
  cases he : s'.err with
  | true => exact .fails hread (.none hr) he
  | false => exact .ends hread (.none hr) he ho (hst he)

/-- In front of a result there is a text, and no text behind it is due. -/
theorem beginResult_eq (s : CmdLine) : ∃ t, s.beginResult = { s with resp := s.resp ++ [.text t], crlf := false } := by
  unfold beginResult
  split
  next => exact ⟨"\r\n", rfl⟩
  next h =>
    have hc : s.crlf = false := by simpa using h
    refine ⟨if s.P.asciiResultCodes then "\r\n" else "", ?_⟩
    rw [← hc]
    rfl

/-- The result behind it. -/
theorem beginResult_adds (s : CmdLine) (p : Piece) :
    Adds s { s.beginResult with resp := s.beginResult.resp ++ [p] } [p] := by
  obtain ⟨t, ht⟩ := s.beginResult_eq
  rw [ht]
  refine ⟨[.text t], rfl, fun q hq => ?_⟩
  rw [List.mem_singleton.mp hq]
  rfl

end CmdLine

namespace Cmd

open CmdLine

variable {l : List Char} {n : Nat} {x y : Cmd} {w : World}

namespace Meets

theorem pass : Meets l Done n Cmd.pass := fun s hs => ⟨s, rfl, hs.stays rfl rfl rfl hs.state⟩

theorem failed : Meets l Done n Cmd.fail := .fail closed_done

theorem of_leaves (h : Meets l Leaves n x) : Meets l Done n x := h.imp fun _ _ => .leaves

theorem cases {cases : List (Char × Cmd)} (hn : cases.lookup Cursor.nul = none) (h : Branches (fun _ => Meets l Done (n + 1)) cases) :
    Meets l Done n (Cmd.switch cases) := .switch closed_done hn h

theorem next {ch : Char} (hch : (ch == Cursor.nul) = false) (hx : Meets l Done (n + 1) x) (hy : Meets l Done n y) :
    Meets l Done n (Cmd.ifNext ch x y) := .ifNext closed_done hch hx hy

theorem word {word : List Char} (hx : Meets l Done n x) (hy : Meets l Done n y) :
    Meets l Done n (Cmd.ifWord word x y) := .ifWord closed_done hx hy

theorem number {minDigits maxDigits : Nat} {maxNum : Int} {defNum : CmdLine → Int} {f : Int → Cmd}
    (h : ∀ val, Meets l Done n (f val)) : Meets l Done n (Cmd.num minDigits maxDigits maxNum defNum f) :=
  .num closed_done h

theorem number3 {f : Int → Cmd} (h : ∀ val, Meets l Done n (f val)) : Meets l Done n (Cmd.num3 f) := .num closed_done h

theorem inClass {R : CmdLine → CmdLine → Prop} (hR : Closed R) (cl : ModemClassId) (h : Meets l R n x) :
    Meets l R n (Cmd.inClass cl x) := by
  intro s hs
  unfold Cmd.inClass
  split
  · exact h s hs
  · exact Meets.fail hR s hs

theorem setP (op : ProfileOp) : Meets l Done n (Cmd.setP op) := .edit fun _ hs => hs.stays rfl rfl rfl hs.state

/-- The registers are changed. -/
theorem editP (f : CmdLine → Profile) : Meets l Done n (Cmd.edit fun s => { s with P := f s }) :=
  .edit fun _ hs => hs.stays rfl rfl rfl hs.state

theorem reply (t : CmdLine → String) : Meets l Done n (Cmd.reply t) := by
  refine .edit fun s hs => .stays ⟨rfl, Nat.le_refl _, .inr hs.inside⟩ ⟨[.text (t s)], ?_, ?_⟩ rfl hs.state
  · exact (List.append_nil _).symm
  · intro p hp
    rw [List.mem_singleton.mp hp]
    rfl

theorem setClass (cl : String) : Meets l Done n (Cmd.setClass cl) :=
  .edit fun _ hs => hs.stays rfl rfl rfl hs.state

theorem hookIf (p : CmdLine → Bool) : Meets l Done n (Cmd.hookIf w p) := by
  refine .edit fun s hs => ?_
  split
  · exact hs.stays rfl rfl rfl (ModemEngineBody.hookOn_command hs.state)
  · exact hs.stays rfl rfl rfl hs.state

/-- An edit that leaves all but the registers and the modem alone, and `OnHook` behind it. -/
theorem thenHook {f : CmdLine → CmdLine} (p : CmdLine → Bool)
    (hf : ∀ s, f s = { s with P := (f s).P, body := (f s).body }) (hb : ∀ s, (f s).body.state = s.body.state) :
    Meets l Done n (Cmd.andThen (Cmd.edit f) (Cmd.hookIf w p)) := by
  intro s hs
  refine ⟨_, rfl, ?_⟩
  have he := hf s
  have hst : (f s).body.state = .stCommand := (hb s).trans hs.state
  have hc : (f s).toCursor = s.toCursor := (congrArg CmdLine.toCursor he :)
  have hr : (f s).resp = s.resp := (congrArg CmdLine.resp he :)
  have ho : (f s).ok = s.ok := (congrArg CmdLine.ok he :)
  dsimp only
  split
  · exact hs.stays hc hr ho (ModemEngineBody.hookOn_command hst)
  · exact hs.stays hc hr ho hst

theorem operate {f : ModemEngineBody → Bool × ModemEngineBody} (h : ∀ b, (f b).1 = true → (f b).2.state ≠ .stCommand) :
    Meets l Leaves n (Cmd.operate f) := by
  refine .edit fun s hs => hs.leaves rfl rfl rfl fun he => h _ ?_
  simpa [hs.err] using he

theorem answer (direction : CallDirection) : Meets l Leaves n (Cmd.answer w direction) := by
  refine .edit fun s hs => hs.leaves rfl rfl rfl fun he => ModemEngineBody.pickUp_command ?_
  simpa [hs.err] using he

end Meets

end Cmd

end T38Modem
