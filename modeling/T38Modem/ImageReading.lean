import T38Modem.ImageLine
import T38Modem.StreamReading
import T38Modem.StreamView

namespace T38Modem

open BitList BitStuffing
open Tape (Cell)

/-- The raw stream so far and what is still to come of the frame in the encoder are together the stream of the records
`done` and that frame, of which the encoder has the octets `got`. Once it has all of them, they are those of the cell. -/
structure Emits (done : List (List Byte × Diag)) (got raw : List Byte) (h : Hdlc) (c : Cell Byte Diag) : Prop where
  encoding : h.Encoding
  reads : h.inData ≠ none → ∀ rest diag, octetBits raw ++ h.line rest diag = imageLine (done ++ [(got ++ rest, diag)])
  closed : h.inData = none → c = ⟨got, c.mark, true⟩ ∧ octetBits raw ++ h.sentBits = imageLine (done ++ [c.record])

namespace Emits

variable {done : List (List Byte × Diag)} {got raw : List Byte} {h : Hdlc} {c : Cell Byte Diag}

/-- The first frame of a stream. -/
theorem start (junk : Hdlc) (p : BufId) (c : Cell Byte Diag) :
    Emits [] [] [] (((Hdlc.new junk).putHdlcData p).getRawStart 10) c := by
  obtain ⟨he, hin, -, hline⟩ := @Hdlc.getRawStart_line (Hdlc.new junk) (by simp [Hdlc.new]) rfl p 10
  refine ⟨he, fun _ rest diag => ?_, fun hn => absurd (hin.symm.trans hn) (Option.some_ne_none p)⟩
  rw [hline]
  simp [Hdlc.new, lowBits, imageLine]

/-- The next frame, when all of the last one has been handed out. -/
theorem next (he : Emits done got raw h c) (hn : h.inData = none) (ho : h.outData.data = []) (p : BufId)
    (c' : Cell Byte Diag) : Emits (done ++ [c.record]) [] raw ((h.putHdlcData p).getRawStart 0) c' := by
  obtain ⟨-, hall⟩ := he.closed hn
  obtain ⟨hstart, hin, -, hline⟩ := Hdlc.getRawStart_line he.encoding.len (he.encoding.detached hn).2 p 0
  refine ⟨hstart, fun _ rest diag => ?_, fun hn => absurd (hin.symm.trans hn) (Option.some_ne_none p)⟩
  have hsent : h.sentBits = lowBits h.rawByte h.rawByteLen := by
    unfold Hdlc.sentBits
    rw [ho, octetBits_nil, List.nil_append]
  rw [hline, flags_zero, List.append_nil, imageLine_snoc, ← hall, hsent, List.nil_append, List.append_assoc]

/-- The raw stream so far is a beginning of that of the records. -/
theorem begun (he : Emits done got raw h c) {r : List Byte × Diag} (hr : got <+: r.1) (hc : c.full = true → c.record = r) :
    octetBits raw <+: imageLine (done ++ [r]) := by
  by_cases hn : h.inData = none
  · obtain ⟨hfull, hall⟩ := he.closed hn
    rw [← hc (by rw [hfull]), ← hall]
    exact List.prefix_append _ _
  · obtain ⟨rest, hrest⟩ := hr
    have hall := he.reads hn rest r.2
    rw [hrest] at hall
    rw [← hall]
    exact List.prefix_append _ _

/-- A read from the encoder hands out more of the stream, and -1 when it has handed out the frame. -/
theorem getData {b : Buf} (he : Emits done got raw h (b.shown got)) (count : Nat) :
    ∃ used, Buf.shown (got ++ used) { b with stream := (h.getData b.stream count).2.2 } = b.shown got ∧
      Emits done (got ++ used) (raw ++ (h.getData b.stream count).1.getD []) (h.getData b.stream count).2.1 (b.shown got) ∧
      ((h.getData b.stream count).1 = none → (h.getData b.stream count).2.1.inData = none ∧
        (h.getData b.stream count).2.1.outData.data = []) := by
  obtain ⟨new, hread, hres⟩ := he.encoding.getData_reads b.stream count
  generalize h.getData b.stream count = r at hread hres
  obtain ⟨res, g, s⟩ := r
  dsimp only at hread hres ⊢
  rw [List.nil_append] at hres
  have hnew : res.getD [] = new := by
    rw [hres, Hdlc.rawResult]
    split
    next hd => exact hd.1.symm
    next => rfl
  have hnone (hn : res = none) : g.inData = none ∧ g.outData.data = [] := by
    rw [hn, Hdlc.rawResult] at hres
    split at hres
    next hd => exact hd.2
    next => cases hres
  rw [hnew]
  by_cases hin : h.inData = none
  · have hs := hread.untouched hin
    have hg : g.inData = none := hread.pointer.elim id fun hg => hg.trans hin
    obtain ⟨hcell, hall⟩ := he.closed hin
    have hline := hread.line [] 0 fun hi => absurd hin hi
    rw [Hdlc.line_detached hg, Hdlc.line_detached hin] at hline
    refine ⟨[], by rw [hs, List.append_nil], ⟨hread.encoding, fun hi => absurd hg hi, fun _ => ⟨?_, ?_⟩⟩, hnone⟩
    · rwa [List.append_nil]
    · rw [octetBits_append, List.append_assoc, hline, hall]
  · obtain ⟨used, hused, hpass⟩ := hread.passed
    have hshown : Buf.shown (got ++ used) { b with stream := s } = b.shown got := by
      unfold Buf.shown
      rw [List.append_assoc, ← hused, hread.same.1, hread.same.2.1]
    refine ⟨used, hshown, ⟨hread.encoding, fun hg rest diag => ?_, fun hg => ?_⟩, hnone⟩
    · rw [octetBits_append, List.append_assoc, hpass hg, he.reads hin, List.append_assoc]
    · obtain ⟨heof, hdata⟩ := hread.ended hin hg
      have hline := hread.line [] b.stream.diag fun _ _ => ⟨rfl, rfl⟩
      rw [hdata, List.append_nil] at hused
      rw [List.append_nil, List.append_nil, Hdlc.line_detached hg] at hline
      refine ⟨?_, ?_⟩
      · unfold Buf.shown
        rw [hused, heof]
      · rw [octetBits_append, List.append_assoc, hline, he.reads hin]
        rfl

end Emits

namespace ModStream

variable {m : ModStream} {b : Buf} {bufQ : List Buf} {done : List (List Byte × Diag)} {got raw : List Byte} {count : Nat}

/-- What a read of the raw stream does: it has done with the records `front`, and goes on in the next one. -/
structure Passes (cells : List (Cell Byte Diag)) (done : List (List Byte × Diag)) (raw : List Byte)
    (r : Option (List Byte) × ModStream) (front : List (Cell Byte Diag)) (got : List Byte) (b : Buf) : Prop where
  firstBuf : r.2.firstBuf = some b
  view : cells = front ++ r.2.view got
  full : ∀ c ∈ front, c.full = true
  emits : Emits (done ++ front.map Cell.record) got (raw ++ r.1.getD []) r.2.hdlc (b.shown got)
  ended : r.1 = none → r.2.bufQ = [] ∧ r.2.hdlc.inData = none ∧ r.2.hdlc.outData.data = []

/-- A record is done with, and the read goes on behind it. -/
theorem Passes.after {cells : List (Cell Byte Diag)} {c : Cell Byte Diag} {r : Option (List Byte) × ModStream}
    (hc : c.full = true) (h : ∃ front got' b', Passes cells (done ++ [c.record]) raw r front got' b') :
    ∃ front got' b', Passes (c :: cells) done raw r front got' b' := by
  obtain ⟨front, got', b', hp⟩ := h
  refine ⟨c :: front, got', b', hp.firstBuf, ?_, List.forall_mem_cons.mpr ⟨hc, hp.full⟩, ?_, hp.ended⟩
  · rw [List.cons_append]
    exact congrArg (c :: ·) hp.view
  · rw [List.map_cons, List.append_cons]
    exact hp.emits

/-- The read ends within the record. -/
theorem Passes.within {r : Option (List Byte)} {m' : ModStream} {used : List Byte} {b' : Buf} (hb : m'.firstBuf = some b')
    (hq : m'.bufQ = bufQ) (hs : b'.shown (got ++ used) = b.shown got)
    (he : Emits done (got ++ used) (raw ++ r.getD []) m'.hdlc (b.shown got))
    (hn : r = none → bufQ = [] ∧ m'.hdlc.inData = none ∧ m'.hdlc.outData.data = []) :
    ∃ front got' b', Passes (b.shown got :: bufQ.map (Buf.shown [])) done raw (r, m') front got' b' := by
  refine ⟨[], got ++ used, b', hb, ?_, fun c hc => (by cases hc), ?_, fun h => hq ▸ hn h⟩
  · rw [view_some hb, hs, hq]
    rfl
  · rw [hs, List.map_nil, List.append_nil]
    exact he

theorem getRawLoop_passes (he : Emits done got raw m.hdlc (b.shown got))
    (hseal : ∀ c, (b.shown got :: bufQ.map (Buf.shown [])).getLast? = some c → c.full = true →
      c.mark &&& diagNoCarrier ≠ 0) :
    ∃ front got' b', Passes (b.shown got :: bufQ.map (Buf.shown [])) done raw (m.getRawLoop b count bufQ) front got' b' := by
  induction bufQ generalizing m b done got with
  | nil =>
    obtain ⟨used, hshown, hemits, hnone⟩ := he.getData count
    unfold getRawLoop
    split
    next bs hdlc stream hg =>
      rw [hg] at hshown hemits
      exact Passes.within rfl rfl hshown hemits fun hn => (by cases hn)
    next hdlc stream hg =>
      rw [hg] at hshown hemits hnone
      dsimp only [Option.getD_none] at hshown hemits hnone
      obtain ⟨hin, hout⟩ := hnone rfl
      -- the frame is at its end, so it is the last one, and has the mark of the end
      have hdiag : stream.diag = b.stream.diag := congrArg Cell.mark hshown
      have hfull : (b.shown got).full = true := by rw [(hemits.closed hin).1]
      have hmark := hseal (b.shown got) rfl hfull
      dsimp only
      rw [if_neg (by rw [hdiag]; exact hmark)]
      exact Passes.within rfl rfl hshown hemits fun _ => ⟨rfl, hin, hout⟩
  | cons c bufQ ih =>
    obtain ⟨used, hshown, hemits, hnone⟩ := he.getData count
    unfold getRawLoop
    split
    next bs hdlc stream hg =>
      rw [hg] at hshown hemits
      exact Passes.within rfl rfl hshown hemits fun hn => (by cases hn)
    next hdlc stream hg =>
      rw [hg] at hshown hemits hnone
      dsimp only [Option.getD_none] at hshown hemits hnone
      obtain ⟨hin, hout⟩ := hnone rfl
      have hfull : (b.shown got).full = true := by rw [(hemits.closed hin).1]
      have hnext := hemits.next hin hout c.id (c.shown [])
      rw [List.append_nil] at hnext
      dsimp only
      exact Passes.after hfull (ih hnext fun x hx => hseal x (by rwa [List.map_cons, List.getLast?_cons_cons]))

theorem getData_passes (hb : m.firstBuf = some b) (hr : m.rawOverHdlc = true) (he : Emits done got raw m.hdlc (b.shown got))
    (hseal : ∀ c, (m.view got).getLast? = some c → c.full = true → c.mark &&& diagNoCarrier ≠ 0) (count : Nat) :
    ∃ front got' b', Passes (m.view got) done raw (m.getData count) front got' b' := by
  unfold getData
  rw [hb]
  dsimp only
  rw [if_pos hr]
  rw [view_some hb] at hseal ⊢
  exact getRawLoop_passes he hseal

end ModStream

end T38Modem
