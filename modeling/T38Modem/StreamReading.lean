import T38Modem.HdlcLine
import T38Modem.StreamPackets

namespace T38Modem

namespace Hdlc

variable {h : Hdlc} {inp : DataStream} {count : Nat}

theorem Encoding.getData_reads (he : h.Encoding) (inp : DataStream) (count : Nat) :
    ReadsOn h inp count [] (h.getData inp count) := by
  have hr := getRawData_reads he inp count
  have hg : h.getData inp count = h.getRawData inp count := by simp only [getData, he.outType]
  rwa [hg]

theorem Encoding.getData (he : h.Encoding) (inp : DataStream) (count : Nat) : (h.getData inp count).2.1.Encoding := by
  obtain ⟨new, hr, -⟩ := he.getData_reads inp count
  exact hr.encoding

/-- The encoder answers -1 when the frame with its end has been handed out. -/
theorem Encoding.getData_none (he : h.Encoding) (hn : (h.getData inp count).1 = none) :
    (h.getData inp count).2.1.inData = none := by
  obtain ⟨new, -, hres⟩ := he.getData_reads inp count
  rw [hn, rawResult] at hres
  split at hres
  next hd => exact hd.2.1
  next => cases hres

/-- A frame that is complete is handed out, or its end is told. -/
theorem Encoding.getData_closed (he : h.Encoding) (hf : inp.eof = true) (hc : 0 < count) :
    (h.getData inp count).1 ≠ some [] := by
  obtain ⟨new, hr, hres⟩ := he.getData_reads inp count
  intro hs
  rw [hs, List.nil_append, rawResult] at hres
  split at hres
  next => cases hres
  next hne =>
    have hnew : new = [] := (Option.some.inj hres).symm
    have hs := hr.short (by rw [hnew]; exact hc)
    have hin : (h.getData inp count).2.1.inData = none := by
      by_contra hi
      rw [(hs.2 hi).1] at hf
      cases hf
    exact hne ⟨hnew, hin, hs.1⟩

end Hdlc

namespace ModStream

variable {m m' other : ModStream} {i : BufId} {f : DataStream → DataStream} {d : Diag} {bs : List Byte} {junk : Hdlc}
  {count : Nat}

/-- What the DTE has of a stream: what it takes it for, the encoder and the buffer in front of it. -/
def reader (m : ModStream) : ModPars × Hdlc × Option BufId := (m.modPars, m.hdlc, m.firstBuf.map Buf.id)

/-- The encoder, where the DTE needs one, is at work on the buffer that is read. -/
def Encodes (m : ModStream) : Prop := m.rawOverHdlc = true → m.firstBuf ≠ none → m.hdlc.Encoding

theorem Encodes.congr (hm : m.Encodes) (hr : m'.reader = m.reader) : m'.Encodes := by
  have hp : m'.modPars = m.modPars := congrArg Prod.fst hr
  have hh : m'.hdlc = m.hdlc := congrArg (·.2.1) hr
  have hb : m'.firstBuf.map Buf.id = m.firstBuf.map Buf.id := congrArg (·.2.2) hr
  intro hraw hf
  rw [hh]
  refine hm ?_ fun hn => hf ?_
  · unfold rawOverHdlc at hraw ⊢
    rwa [hp] at hraw
  · rw [hn] at hb
    exact Option.map_eq_none_iff.mp hb

theorem Encodes.of_none (hn : m.firstBuf = none) : m.Encodes := fun _ hf => absurd hn hf

theorem update_reader : (m.update i f).reader = m.reader := by
  have hid : (m.firstBuf.map (Buf.update i f)).map Buf.id = m.firstBuf.map Buf.id := by
    rw [Option.map_map]
    refine congrArg (Option.map · m.firstBuf) (funext fun b => ?_)
    dsimp only [Function.comp, Buf.update]
    split <;> rfl
  exact Prod.ext rfl (Prod.ext rfl hid)

theorem putData_reader : (m.putData bs).reader = m.reader := by
  unfold putData
  split
  next => rfl
  next => exact update_reader

theorem setDiag_reader : (m.setDiag d).reader = m.reader := by
  unfold setDiag
  split
  next => rfl
  next => exact update_reader

theorem putEof_reader : (m.putEof d).reader = m.reader := by
  unfold putEof
  split
  next => rfl
  next i _ => exact update_reader (m := m) (i := i)

theorem deleteFirstBuf_encodes : m.deleteFirstBuf.Encodes := .of_none deleteFirstBuf_none

theorem popBuf_encodes : (m.popBuf junk).2.Encodes := by
  have hn : m.deleteFirstBuf.firstBuf = none := deleteFirstBuf_none
  unfold popBuf
  generalize m.deleteFirstBuf = m₁ at hn
  dsimp only
  split
  next => exact .of_none hn
  next b bufQ _ =>
    split
    next => exact fun _ _ => (Hdlc.getRawStart_line (by simp [Hdlc.new]) rfl b.id 10).1
    next hr => exact fun hr' => absurd hr' hr

theorem getRawLoop_encodes {b : Buf} {bufQ : List Buf} (he : m.hdlc.Encoding) :
    (m.getRawLoop b count bufQ).2.Encodes := by
  induction bufQ generalizing m b with
  | nil =>
    have hg := he.getData b.stream count
    unfold getRawLoop
    split
    next hdlc stream hr =>
      rw [hr] at hg
      exact fun _ _ => hg
    next hdlc stream hr =>
      rw [hr] at hg
      dsimp only
      split
      next => exact deleteFirstBuf_encodes
      next => exact fun _ _ => hg
  | cons c bufQ ih =>
    have hg := he.getData b.stream count
    have hend := @Hdlc.Encoding.getData_none _ b.stream count he
    unfold getRawLoop
    split
    next hdlc stream hr =>
      rw [hr] at hg
      exact fun _ _ => hg
    next hdlc stream hr =>
      rw [hr] at hg hend
      exact ih (Hdlc.getRawStart_line hg.len (hg.detached (hend rfl)).2 c.id 0).1

/-- Where all the buffers are closed, the DTE is told that there is nothing yet only once. -/
theorem getRawLoop_closed {b : Buf} {bufQ : List Buf} (he : m.hdlc.Encoding) (hb : b.stream.eof = true)
    (hq : ∀ c ∈ bufQ, c.stream.eof = true) (hc : 0 < count) (hr : (m.getRawLoop b count bufQ).1 = some []) :
    (m.getRawLoop b count bufQ).2.firstBuf = none := by
  induction bufQ generalizing m b with
  | nil =>
    have hne := he.getData_closed hb hc
    unfold getRawLoop at hr ⊢
    split
    next hg =>
      rw [hg] at hr hne
      exact absurd hr hne
    next hg =>
      rw [hg] at hr
      dsimp only at hr ⊢
      split
      next => exact deleteFirstBuf_none
      next hd =>
        rw [if_neg hd] at hr
        cases hr
  | cons c bufQ ih =>
    have hne := he.getData_closed hb hc
    have hg := he.getData b.stream count
    have hend := @Hdlc.Encoding.getData_none _ b.stream count he
    unfold getRawLoop at hr ⊢
    split
    next hr' =>
      rw [hr'] at hr hne
      exact absurd hr hne
    next hdlc stream hr' =>
      rw [hr'] at hr hg hend
      refine ih ?_ (hq c (List.mem_cons_self ..)) (fun x hx => hq x (List.mem_cons_of_mem _ hx)) hr
      exact (Hdlc.getRawStart_line hg.len (hg.detached (hend rfl)).2 c.id 0).1

theorem getData_encodes (hm : m.Encodes) : (m.getData count).2.Encodes := by
  unfold getData
  split
  next => exact hm
  next b hb =>
    split
    next hr => exact getRawLoop_encodes (hm hr (by rw [hb]; exact Option.some_ne_none b))
    next hr =>
      split
      next => exact hm
      next => exact fun hr' => absurd hr' hr

theorem getData_closed (hm : m.Encodes) (hf : m.Formed) (hl : m.lastBuf = none) (hc : 0 < count)
    (hr : (m.getData count).1 = some []) : (m.getData count).2.firstBuf = none := by
  have heof : ∀ b ∈ m.bufs, b.stream.eof = true := fun b hb =>
    hf.tail.closed b.cell (List.mem_map_of_mem hb) (by rw [hl]; exact (Option.some_ne_none _).symm)
  unfold getData at hr ⊢
  split
  next hb => exact hb
  next b hb =>
    have hbe : b.stream.eof = true := heof b (by simp [bufs, hb])
    rw [hb] at hr
    dsimp only at hr
    split
    next hraw =>
      rw [if_pos hraw] at hr
      have he : m.hdlc.Encoding := hm hraw (by rw [hb]; exact Option.some_ne_none b)
      exact getRawLoop_closed he hbe (fun c hcq => heof c (by simp [bufs, hcq])) hc hr
    next hraw =>
      rw [if_neg hraw] at hr
      split at hr
      next => cases hr
      next =>
        have ho := (DataStream.getData_some_nil hc hr).2
        rw [hbe] at ho
        cases ho

theorem getData_gone (hn : m.firstBuf = none) : (m.getData count).1 = none := by
  unfold getData
  rw [hn]

end ModStream

end T38Modem
