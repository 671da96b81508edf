import T38Modem.SignalTape
import T38Modem.StreamPackets

namespace T38Modem

open Tape (Cell onLast onLast_concat)

/-- A buffer as the DTE finds it when it has got the octets `got` from it before. -/
def Buf.shown (got : List Byte) (b : Buf) : Cell Byte Diag := ⟨got ++ b.stream.data, b.stream.diag, b.stream.eof⟩

namespace ModStream

variable {m m' other : ModStream} {i : BufId} {f : DataStream → DataStream} {F : Cell Byte Diag → Cell Byte Diag}
  {got bs : List Byte} {d : Diag} {junk : Hdlc} {count : Nat}

/-- The records of a stream that the DTE has not done with, the octets it has of the first of them included. -/
def view (got : List Byte) (m : ModStream) : List (Cell Byte Diag) :=
  (m.firstBuf.map (Buf.shown got)).toList ++ m.bufQ.map (Buf.shown [])

theorem view_none (h : m.firstBuf = none) : m.view got = m.bufQ.map (Buf.shown []) := by
  simp [view, h]

theorem view_some {b : Buf} (h : m.firstBuf = some b) : m.view got = b.shown got :: m.bufQ.map (Buf.shown []) := by
  simp [view, h]

theorem view_nil : m.view got = [] ↔ m.bufs = [] := by
  simp [view, bufs]

/-- The writer's buffer is the last one, and no other has its number. -/
theorem Formed.split (h : m.Formed) (hl : m.lastBuf = some i) :
    ∃ front b, m.bufs = front ++ [b] ∧ b.id = i ∧ b.stream.eof = false ∧ ∀ c ∈ front, c.id ≠ i := by
  obtain ⟨front, hc⟩ := h.tail.tail i hl
  obtain ⟨bufs, last, hbufs, hfront, hlast⟩ := List.map_eq_append_iff.mp hc
  obtain ⟨b, rest, rfl, hb, hrest⟩ := List.map_eq_cons_iff.mp hlast
  obtain rfl := List.map_eq_nil_iff.mp hrest
  have hid : b.id = i := congrArg Prod.fst hb
  refine ⟨bufs, b, hbufs, hid, congrArg Prod.snd hb, fun c hcb he => ?_⟩
  have hn := h.tail.nodup
  rw [hc, List.map_append, ← hfront, List.map_map, List.nodup_append] at hn
  refine hn.2.2 c.id (List.mem_map_of_mem hcb) i (by simp) he

/-- What is written to the last buffer changes the last record. -/
theorem update_view (h : m.Formed) (hl : m.lastBuf = some i)
    (hf : ∀ (got : List Byte) (b : Buf), b.stream.eof = false →
      F (b.shown got) = Buf.shown got { b with stream := f b.stream }) :
    (m.update i f).view got = onLast F (m.view got) := by
  obtain ⟨front, b, hbufs, hid, heof, hne⟩ := h.split hl
  have hlast (got : List Byte) : (b.update i f).shown got = F (b.shown got) := by
    rw [Buf.update, if_pos hid, hf got b heof]
  have hother (c : Buf) (hc : c ∈ front) : c.update i f = c := if_neg (hne c hc)
  unfold bufs at hbufs
  unfold view update
  cases hb : m.firstBuf with
  | none =>
    rw [hb] at hbufs
    have hq : m.bufQ = front ++ [b] := hbufs
    have hfront : front.map (Buf.update i f) = front :=
      (List.map_congr_left hother).trans (List.map_id front)
    simp only [hq, List.map_append, hfront, Option.map_none, Option.toList_none, List.nil_append, List.map_cons,
      List.map_nil, hlast, onLast_concat]
  | some b₀ =>
    rw [hb] at hbufs
    cases front with
    | nil =>
      obtain ⟨rfl, hq⟩ := List.cons.inj hbufs
      have hq : m.bufQ = [] := hq
      simp only [hq, Option.map_some, Option.toList_some, List.map_nil, List.append_nil, hlast]
      rfl
    | cons c front =>
      obtain ⟨rfl, hq⟩ := List.cons.inj hbufs
      have hq : m.bufQ = front ++ [b] := hq
      have hfront : front.map (Buf.update i f) = front :=
        (List.map_congr_left fun c hc => hother c (List.mem_cons_of_mem _ hc)).trans (List.map_id front)
      have h₀ : b₀.update i f = b₀ := hother b₀ (List.mem_cons_self ..)
      simp only [hq, List.map_append, hfront, h₀, Option.map_some, Option.toList_some, List.map_cons, List.map_nil, hlast]
      rw [← List.append_assoc, ← List.append_assoc, onLast_concat]

theorem isOpen_lastBuf (ho : m.isOpen = true) : ∃ i, m.lastBuf = some i := Option.isSome_iff_exists.mp ho

theorem putData_view (h : m.Formed) (ho : m.isOpen = true) (bs got : List Byte) :
    (m.putData bs).view got = onLast (Cell.put bs) (m.view got) := by
  obtain ⟨i, hl⟩ := isOpen_lastBuf ho
  unfold putData
  rw [hl]
  refine update_view h hl fun got b he => ?_
  rw [DataStream.putData_open he]
  simp [Buf.shown, Cell.put]

theorem setDiag_view (h : m.Formed) (ho : m.isOpen = true) (d : Diag) (got : List Byte) :
    (m.setDiag d).view got = onLast (Cell.remark (· ||| d)) (m.view got) := by
  obtain ⟨i, hl⟩ := isOpen_lastBuf ho
  unfold setDiag
  rw [hl]
  exact update_view h hl fun _ _ _ => rfl

theorem putEof_view (h : m.Formed) (ho : m.isOpen = true) (d : Diag) (got : List Byte) :
    (m.putEof d).view got = onLast (fun c => (c.remark (· ||| d)).close) (m.view got) := by
  obtain ⟨i, hl⟩ := isOpen_lastBuf ho
  unfold putEof
  rw [hl]
  exact update_view h hl fun _ _ _ => rfl

theorem pushBuf_view (got : List Byte) : (m.pushBuf i).view got = m.view got ++ [⟨[], 0, false⟩] := by
  simp [view, pushBuf, Buf.shown]

theorem move_view (got : List Byte) : (m.move other).view got = m.view got ++ other.view [] := by
  cases hb : other.firstBuf <;> simp [view, move, hb]

theorem deleteFirstBuf_view {b : Buf} (hb : m.firstBuf = some b) (got : List Byte) :
    m.deleteFirstBuf.view [] = (m.view got).tail := by
  simp [view, deleteFirstBuf, hb]

theorem deleteFirstBuf_same (hb : m.firstBuf = none) : m.deleteFirstBuf = m := by
  simp [deleteFirstBuf, hb]

/-- The DTE takes the next record. -/
theorem popBuf_view (junk : Hdlc) (hb : m.firstBuf = none) (hv : m.view [] ≠ []) :
    (m.popBuf junk).1 = true ∧ (m.popBuf junk).2.view [] = m.view [] ∧ (m.popBuf junk).2.firstBuf.isSome = true ∧
      (m.popBuf junk).2.modPars = m.modPars ∧ (m.popBuf junk).2.isOpen = m.isOpen := by
  unfold popBuf
  rw [deleteFirstBuf_same hb]
  dsimp only
  cases hq : m.bufQ with
  | nil => simp [view, hb, hq] at hv
  | cons b bufQ =>
    dsimp only
    split <;> simp [view, hb, hq, isOpen]

/-- The DTE gets the octets of a record one after the other, and -1 when it has them all. -/
theorem getData_view {b : Buf} (hb : m.firstBuf = some b) (hr : m.rawOverHdlc = false)
    (ht : m.modPars.dataTypeT38 = m.modPars.dataType) (got : List Byte) (n : Nat) :
    ((m.getData n).2.modPars = m.modPars ∧ (m.getData n).2.firstBuf.isSome = true ∧ (m.getData n).2.isOpen = m.isOpen) ∧
      match (m.getData n).1 with
      | some bs => (m.getData n).2.view (got ++ bs) = m.view got
      | none => (m.getData n).2 = m ∧ b.shown got = ⟨got, b.stream.diag, true⟩ := by
  unfold getData
  rw [hb]
  dsimp only
  rw [if_neg (by simp [hr]), if_neg (by simp [ht])]
  dsimp only
  refine ⟨⟨rfl, rfl, rfl⟩, ?_⟩
  cases hg : (b.stream.getData n).1 with
  | none =>
    obtain ⟨hd, he⟩ := DataStream.getData_none.mp hg
    have hst := DataStream.getData_none_state hg
    refine ⟨?_, by simp [Buf.shown, hd, he]⟩
    rw [hst]
    have hm : { m with firstBuf := some { b with stream := b.stream } } = m := by
      rw [show ({ b with stream := b.stream } : Buf) = b from rfl, ← hb]
    exact hm
  | some bs =>
    obtain ⟨rest, hd, hs⟩ := DataStream.getData_rest hg
    rw [hs]
    simp [view, hb, Buf.shown, hd]

end ModStream

end T38Modem
