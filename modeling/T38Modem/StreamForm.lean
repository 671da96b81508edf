import T38Modem.HdlcInput
import T38Modem.OpenTail
import T38Modem.StreamKeeping

namespace T38Modem

/-- A buffer as a place to write to. -/
def Buf.cell (b : Buf) : BufId × Bool := (b.id, b.stream.eof)

theorem Buf.update_cell {f : DataStream → DataStream} (hf : ∀ d, (f d).eof = d.eof) (i : BufId) (b : Buf) :
    (b.update i f).cell = b.cell := by
  unfold Buf.update
  split
  next => exact Prod.ext rfl (hf b.stream)
  next => rfl

theorem Buf.update_closed {f : DataStream → DataStream} (hf : ∀ d, (f d).eof = true) (i : BufId) (b : Buf) :
    (b.update i f).cell = if b.cell.1 = i then (b.cell.1, true) else b.cell := by
  unfold Buf.update
  by_cases hi : b.id = i
  · simp [hi, Buf.cell, hf]
  · simp [hi, Buf.cell]

namespace ModStream

/-- The buffers in the order in which they are received. -/
def bufs (m : ModStream) : List Buf := m.firstBuf.toList ++ m.bufQ

def cells (m : ModStream) : List (BufId × Bool) := m.bufs.map Buf.cell

def ids (m : ModStream) : List BufId := m.cells.map Prod.fst

/-- The pointers of a stream are those of buffers that it has. -/
structure Formed (m : ModStream) : Prop where
  tail : OpenTail m.cells m.lastBuf
  reads : m.rawOverHdlc = true → ∀ b, m.firstBuf = some b → m.hdlc.inData = none ∨ m.hdlc.inData = some b.id

/-- The stream stays formed, and gets no buffer. -/
structure Trims (m m' : ModStream) : Prop where
  formed : m.Formed → m'.Formed
  ids : m'.ids ⊆ m.ids
  isOpen : m'.isOpen = true → m.isOpen = true

variable {m m' m'' other : ModStream} {i : BufId} {f : DataStream → DataStream} {bs : List Byte} {d : Diag}
  {junk : Hdlc} {count : Nat}

theorem Trims.refl (m : ModStream) : Trims m m := ⟨id, fun _ h => h, id⟩

theorem Trims.trans (h : Trims m m') (h' : Trims m' m'') : Trims m m'' :=
  ⟨h'.formed ∘ h.formed, fun _ hi => h.ids (h'.ids hi), h.isOpen ∘ h'.isOpen⟩

theorem new_formed (junk : Hdlc) (modPars : ModPars) : (new junk modPars).Formed := ⟨.nil, nofun⟩

theorem isOpen_false (h : m.isOpen = false) : m.lastBuf = none := by
  simpa [isOpen] using h

theorem update_bufs : (m.update i f).bufs = m.bufs.map (Buf.update i f) := by
  unfold bufs update
  cases m.firstBuf <;> simp

theorem update_first_id {b : Buf} (h : (m.update i f).firstBuf = some b) : ∃ b₀, m.firstBuf = some b₀ ∧ b.id = b₀.id := by
  obtain ⟨b₀, hb, rfl⟩ := Option.map_eq_some_iff.mp h
  refine ⟨b₀, hb, ?_⟩
  unfold Buf.update
  split <;> rfl

theorem update_cells (hf : ∀ d, (f d).eof = d.eof) : (m.update i f).cells = m.cells := by
  unfold cells
  rw [update_bufs, List.map_map]
  exact List.map_congr_left fun b _ => Buf.update_cell hf i b

/-- What is written to a buffer leaves the pointers as they are. -/
theorem update_trims (hf : ∀ d, (f d).eof = d.eof) : Trims m (m.update i f) := by
  have hc : (m.update i f).cells = m.cells := update_cells hf
  refine ⟨fun h => ⟨?_, fun hr b hb => ?_⟩, fun j hj => ?_, id⟩
  · rw [hc]
    exact h.tail
  · obtain ⟨b₀, hb₀, he⟩ := update_first_id hb
    rw [he]
    exact h.reads hr b₀ hb₀
  · rwa [ids, hc] at hj

theorem putData_trims : Trims m (m.putData bs) := by
  unfold putData
  split
  next => exact .refl m
  next => exact update_trims fun _ => DataStream.putData_eof

theorem setDiag_trims : Trims m (m.setDiag d) := by
  unfold setDiag
  split
  next => exact .refl m
  next => exact update_trims fun _ => rfl

theorem putEof_trims : Trims m (m.putEof d) := by
  cases hl : m.lastBuf with
  | none =>
    rw [putEof, hl]
    exact .refl m
  | some i =>
    have hc : (m.putEof d).cells = m.cells.map fun c => if c.1 = i then (c.1, true) else c := by
      rw [putEof, hl]
      show (m.update i _).cells = _
      rw [cells, update_bufs, cells, List.map_map, List.map_map]
      exact List.map_congr_left fun b _ => Buf.update_closed (fun _ => rfl) i b
    refine ⟨fun h => ⟨?_, fun hr b hb => ?_⟩, fun j hj => ?_, putEof_closes.isOpen⟩
    · have hn : (m.putEof d).lastBuf = none := isOpen_false putEof_isOpen
      rw [hc, hn]
      have ht := h.tail
      rw [hl] at ht
      exact ht.close
    · rw [putEof, hl] at hr hb ⊢
      obtain ⟨b₀, hb₀, he⟩ := update_first_id hb
      rw [he]
      exact h.reads hr b₀ hb₀
    · rw [ids, hc, List.map_map] at hj
      obtain ⟨c, hc, rfl⟩ := List.mem_map.mp hj
      refine List.mem_map.mpr ⟨c, hc, ?_⟩
      dsimp only [Function.comp]
      split <;> rfl

theorem deleteFirstBuf_trims : Trims m m.deleteFirstBuf := by
  cases hb : m.firstBuf with
  | none =>
    rw [deleteFirstBuf, hb]
    exact .refl m
  | some b =>
    have hc : m.cells = b.cell :: m.deleteFirstBuf.cells := by simp [cells, bufs, deleteFirstBuf, hb]
    refine ⟨fun h => ⟨?_, fun _ b' hb' => ?_⟩, fun j hj => ?_, deleteFirstBuf_closes.isOpen⟩
    · have ht := h.tail
      rw [hc] at ht
      have hp := ht.pop
      rw [deleteFirstBuf, hb] at hp ⊢
      exact hp
    · rw [deleteFirstBuf, hb] at hb'
      cases hb'
    · rw [ids, hc]
      exact List.mem_cons_of_mem _ hj

/-- The first buffer of the queue is taken to be read. -/
theorem next_trims {b : Buf} {bufQ : List Buf} {hdlc : Hdlc} (hn : m.firstBuf = none) (hq : m.bufQ = b :: bufQ)
    (hd : m.rawOverHdlc = true → hdlc.inData = some b.id) :
    Trims m { m with firstBuf := some b, bufQ, hdlc } := by
  have hc : ({ m with firstBuf := some b, bufQ, hdlc } : ModStream).cells = m.cells := by
    simp [cells, bufs, hn, hq]
  refine ⟨fun h => ⟨?_, fun hr b' hb => ?_⟩, fun j hj => ?_, id⟩
  · rw [hc]
    exact h.tail
  · cases hb
    exact .inr (hd hr)
  · rwa [ids, hc] at hj

theorem deleteFirstBuf_none : m.deleteFirstBuf.firstBuf = none := by
  unfold deleteFirstBuf
  split
  next hb => exact hb
  next => rfl

theorem putHdlcData_start {h : Hdlc} {n : Nat} : ((h.putHdlcData i).getRawStart n).inData = some i := by
  rw [Hdlc.getRawStart_inData]
  rfl

theorem popBuf_trims : Trims m (m.popBuf junk).2 := by
  have h : Trims m m.deleteFirstBuf := deleteFirstBuf_trims
  have hn : m.deleteFirstBuf.firstBuf = none := deleteFirstBuf_none
  unfold popBuf
  generalize m.deleteFirstBuf = m₁ at h hn
  dsimp only
  split
  next => exact h
  next b bufQ hq =>
    split
    next => exact h.trans (next_trims hn hq fun _ => putHdlcData_start)
    next hr => exact h.trans (next_trims hn hq fun hr' => absurd hr' hr)

/-- The first buffer has been read from. -/
theorem read_trims {b : Buf} {hdlc : Hdlc} {stream : DataStream} {bufQ : List Buf} (hb : m.firstBuf = some b)
    (hq : m.bufQ = bufQ) (ha : Hdlc.Attends m.hdlc b.stream hdlc stream) :
    Trims m { m with hdlc, firstBuf := some { b with stream }, bufQ } := by
  have hc : ({ m with hdlc, firstBuf := some { b with stream }, bufQ } : ModStream).cells = m.cells := by
    simp [cells, bufs, hb, hq, Buf.cell, ha.eof]
  refine ⟨fun h => ⟨?_, fun hr b' hb' => ?_⟩, fun j hj => ?_, id⟩
  · rw [hc]
    exact h.tail
  · cases hb'
    rcases ha.pointer with hp | hp
    · rw [hp]
      exact h.reads hr b hb
    · exact .inl hp
  · rwa [ids, hc] at hj

theorem getRawLoop_trims {b : Buf} {bufQ : List Buf} (hb : m.firstBuf = some b) (hq : m.bufQ = bufQ) :
    Trims m (m.getRawLoop b count bufQ).2 := by
  have ha := @Hdlc.getData_attends m.hdlc b.stream count
  induction bufQ generalizing m b with
  | nil =>
    unfold getRawLoop
    split
    next hdlc stream hg =>
      rw [hg] at ha
      exact read_trims hb hq ha
    next hdlc stream hg =>
      rw [hg] at ha
      have hr := read_trims hb hq ha
      dsimp only
      split
      next => exact hr.trans deleteFirstBuf_trims
      next => exact hr
  | cons c bufQ ih =>
    unfold getRawLoop
    split
    next hdlc stream hg =>
      rw [hg] at ha
      exact read_trims hb hq ha
    next hdlc stream hg =>
      rw [hg] at ha
      have hr := (read_trims hb hq ha).trans deleteFirstBuf_trims
      have hp : ((hdlc.putHdlcData c.id).getRawStart 0).inData = some c.id := putHdlcData_start
      exact (hr.trans (next_trims deleteFirstBuf_none rfl fun _ => hp)).trans (ih rfl rfl Hdlc.getData_attends)

theorem getData_trims : Trims m (m.getData count).2 := by
  unfold getData
  split
  next => exact .refl m
  next b hb =>
    split
    next => exact getRawLoop_trims hb rfl
    next hr =>
      split
      next => exact .refl m
      next =>
        have hc : ({ m with firstBuf := some { b with stream := (b.stream.getData count).2 } } : ModStream).cells =
            m.cells := by
          simp [cells, bufs, hb, Buf.cell, DataStream.getData_eof]
        refine ⟨fun h => ⟨?_, fun hr' => absurd hr' hr⟩, fun j hj => ?_, id⟩
        · rw [hc]
          exact h.tail
        · rwa [ids, hc] at hj

/-- The DTE asks for the signal in another way, before it reads any of it. -/
theorem setPars_trims {modPars : ModPars} (hn : m.firstBuf = none) : Trims m { m with modPars } := by
  refine ⟨fun h => ⟨h.tail, fun _ b hb => ?_⟩, fun _ hj => hj, id⟩
  rw [hn] at hb
  cases hb

theorem pushBuf_formed (h : m.Formed) (hl : m.isOpen = false) (hi : i ∉ m.ids) : (m.pushBuf i).Formed := by
  have ht := h.tail
  rw [isOpen_false hl] at ht
  have hc : (m.pushBuf i).cells = m.cells ++ [(i, false)] := by simp [cells, bufs, pushBuf, Buf.cell]
  refine ⟨?_, h.reads⟩
  rw [hc]
  exact ht.push hi

theorem pushBuf_ids : (m.pushBuf i).ids = m.ids ++ [i] := by simp [ids, cells, bufs, pushBuf, Buf.cell]

theorem move_cells : (m.move other).cells = m.cells ++ other.cells := by simp [cells, bufs, move]

theorem move_formed (h : m.Formed) (h' : other.Formed) (hl : m.isOpen = false) (hd : m.ids.Disjoint other.ids) :
    (m.move other).Formed := by
  have ht := h.tail
  rw [isOpen_false hl] at ht
  refine ⟨?_, h.reads⟩
  rw [move_cells]
  exact ht.append h'.tail hd

theorem move_ids : (m.move other).ids = m.ids ++ other.ids := by
  rw [ids, move_cells, List.map_append]
  rfl

/-- The pointer that each round of the `while` of `GetData` reads through, and the first buffer there. -/
def rawRounds (s : ModStream) (b : Buf) (count : Nat) : List Buf → List (Option BufId × BufId)
  | [] => [(s.hdlc.inData, b.id)]
  | c :: bufQ =>
    (s.hdlc.inData, b.id) ::
      match s.hdlc.getData b.stream count with
      | (some _, _, _) => []
      | (none, hdlc, stream) =>
        let s := { s with hdlc, firstBuf := some { b with stream }, bufQ }.deleteFirstBuf
        { s with firstBuf := some c, hdlc := (s.hdlc.putHdlcData c.id).getRawStart 0 }.rawRounds c count bufQ

def hdlcReads (s : ModStream) (count : Nat) : List (Option BufId × BufId) :=
  match s.firstBuf with
  | none => []
  | some b => if s.rawOverHdlc then s.rawRounds b count s.bufQ else []

theorem rawRounds_first {b : Buf} {bufQ : List Buf} (hp : m.hdlc.inData = none ∨ m.hdlc.inData = some b.id) :
    ∀ r ∈ m.rawRounds b count bufQ, r.1 = none ∨ r.1 = some r.2 := by
  induction bufQ generalizing m b with
  | nil =>
    intro r hr
    rw [List.mem_singleton.mp hr]
    exact hp
  | cons c bufQ ih =>
    intro r hr
    unfold rawRounds at hr
    rcases List.mem_cons.mp hr with rfl | hr
    · exact hp
    · split at hr
      next => cases hr
      next => exact ih (.inr putHdlcData_start) r hr

/-- The HDLC object of a stream reads the first buffer. -/
theorem Formed.hdlcReads (h : m.Formed) : ∀ r ∈ m.hdlcReads count, r.1 = none ∨ r.1 = some r.2 := by
  intro r hr
  unfold ModStream.hdlcReads at hr
  split at hr
  next => cases hr
  next b hb =>
    split at hr
    next hraw => exact rawRounds_first (h.reads hraw b hb) r hr
    next => cases hr

end ModStream

end T38Modem
