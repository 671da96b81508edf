import T38Modem.StreamPackets

namespace T38Modem

open ModStream (Trims)

namespace ModStream

variable {m : ModStream} {i : BufId} {f : DataStream → DataStream} {bs : List Byte}

/-- What is put into a stream goes to its last buffer, which is open, or nowhere. -/
theorem putData_bufs (h : m.Formed) (bs : List Byte) : (m.putData bs).bufs = m.bufs ∨
    ∃ front b, m.bufs = front ++ [b] ∧ m.lastBuf = some b.id ∧ b.stream.eof = false ∧
      (m.putData bs).bufs = front ++ [{ b with stream := (b.stream.putData bs).2 }] := by
  cases hl : m.lastBuf with
  | none => exact .inl (by rw [putData, hl])
  | some i =>
    obtain ⟨closed, hc⟩ := h.tail.tail i hl
    obtain ⟨front, last, hbufs, -, hlast⟩ := List.map_eq_append_iff.mp hc
    obtain ⟨b, rest, rfl, hb, hrest⟩ := List.map_eq_cons_iff.mp hlast
    obtain rfl := List.map_eq_nil_iff.mp hrest
    obtain ⟨rfl, heof⟩ := Prod.mk.inj hb
    refine .inr ⟨front, b, hbufs, rfl, heof, ?_⟩
    have hnd : ((front ++ [b]).map fun b : Buf => b.id).Nodup := by
      have hn := h.tail.nodup
      rwa [ModStream.cells, List.map_map, hbufs] at hn
    have hother (x : Buf) (hx : x ∈ front) : x.update b.id (fun d => (d.putData bs).2) = x := by
      rw [List.map_append, List.nodup_append] at hnd
      exact if_neg (hnd.2.2 x.id (List.mem_map_of_mem hx) b.id (by simp))
    rw [putData, hl]
    show (m.update b.id _).bufs = _
    rw [update_bufs, hbufs, List.map_append, List.map_congr_left hother]
    simp [Buf.update]

end ModStream

namespace T38Engine

variable {e : T38Engine} {p : Option Place}

/-- The buffers of the received signals. -/
def bufs (e : T38Engine) : List Buf :=
  e.modStreamIn.elim [] ModStream.bufs ++ e.modStreamInSaved.elim [] ModStream.bufs

theorem Paired.nodup (h : e.Paired) : (e.bufs.map Buf.id).Nodup := by
  have hids (o : Option ModStream) : (o.elim [] ModStream.bufs).map Buf.id = idsOf o := by
    cases o with
    | none => rfl
    | some m =>
      show m.bufs.map Buf.id = (m.bufs.map Buf.cell).map Prod.fst
      rw [List.map_map]
      rfl
  have hnd (o : Option ModStream) (ho : ∀ m, o = some m → m.Formed) : (idsOf o).Nodup := by
    cases o with
    | none => exact .nil
    | some m => exact (ho m rfl).tail.nodup
  rw [bufs, List.map_append, hids, hids]
  exact (hnd _ h.left).append (hnd _ h.right) h.apart

/-- The data of a field goes to one buffer, which is there and not closed, or to none. -/
def Stores (e : T38Engine) (p : Option Place) (f : DataField) : Prop :=
  (e.fieldData p f).bufs = e.bufs ∨
    ∃ bs front b rest, f.fieldData = some bs ∧ e.bufs = front ++ b :: rest ∧ b.stream.eof = false ∧
      (e.fieldData p f).bufs = front ++ { b with stream := (b.stream.putData bs).2 } :: rest

theorem fieldData_bufs (p : Option Place) (fd : DataField) : (e.fieldData p fd).bufs = e.bufs ∨
    ∃ bs, fd.fieldData = some bs ∧ (e.fieldData p fd).bufs = (e.updateStream (·.putData bs) p).bufs := by
  unfold fieldData
  split
  next => exact .inl rfl
  next => exact .inl rfl
  next bs hd _ => exact .inr ⟨bs, hd, rfl⟩

theorem fieldData_stores (h : e.Paired) (p : Option Place) (fd : DataField) : e.Stores p fd := by
  rcases e.fieldData_bufs p fd with he | ⟨bs, hd, he⟩
  · exact .inl he
  · unfold Stores
    rw [he]
    match p with
    | none => exact .inl rfl
    | some .modStreamIn =>
      cases hm : e.modStreamIn with
      | none => exact .inl (by simp [bufs, updateStream, hm])
      | some m =>
        rcases ModStream.putData_bufs (h.left m hm) bs with hb | ⟨front, b, hb, -, heof, hput⟩
        · exact .inl (by simp [bufs, updateStream, hm, hb])
        · refine .inr ⟨bs, front, b, e.modStreamInSaved.elim [] ModStream.bufs, hd, ?_, heof, ?_⟩
          · simp [bufs, hm, hb]
          · simp [bufs, updateStream, hm, hput]
    | some .modStreamInSaved =>
      cases hm : e.modStreamInSaved with
      | none => exact .inl (by simp [bufs, updateStream, hm])
      | some m =>
        rcases ModStream.putData_bufs (h.right m hm) bs with hb | ⟨front, b, hb, -, heof, hput⟩
        · exact .inl (by simp [bufs, updateStream, hm, hb])
        · refine .inr ⟨bs, e.modStreamIn.elim [] ModStream.bufs ++ front, b, [], hd, ?_, heof, ?_⟩
          · simp [bufs, hm, hb]
          · simp [bufs, updateStream, hm, hput]

/-- The fields that the loop of `HandlePacket` handles before it stops, each with the engine it finds and
the stream pointed to. -/
def fieldCalls (e : T38Engine) (p : Option Place) : List DataField → List (T38Engine × Option Place × DataField)
  | [] => []
  | f :: rest =>
    (e, p, f) ::
      let e := (e.fieldData p f).fieldFcs p f
      if FieldType.isSigEnd f.fieldType then
        let e : T38Engine := { e.updateStream (·.putEof diagNoCarrier) p with isCarrierIn := 0 }
        if e.stateModem = .stmInWaitSilence then [] else fieldCalls e none rest
      else fieldCalls e p rest

/-- The fields of a packet that are handled up to the first callback. -/
def packetCalls (e : T38Engine) : Ifp → List (T38Engine × Option Place × DataField)
  | .data type fields =>
    let p := e.openPlace
    let bad := p.any fun p => (e.streamAt p).any fun s => s.modPars.msgType != type
    let e := if bad then e.updateStream (·.putEof (diagOutOfOrder ||| diagNoCarrier)) p else e
    e.fieldCalls (if bad then none else p) (fields.getD [])
  | _ => []

/-- Those that are handled behind a callback. -/
def resumeCalls (e : T38Engine) : AfterIn → List (T38Engine × Option Place × DataField)
  | .fields rest => e.fieldCalls none rest
  | _ => []

theorem fieldCalls_paired (h : e.Paired) (fs : List DataField)
    (hp : ∀ q, p = some q → isOpen (e.streamAt q) = true) : ∀ c ∈ e.fieldCalls p fs, c.1.Paired := by
  induction fs generalizing e p with
  | nil =>
    intro c hc
    exact absurd hc List.not_mem_nil
  | cons fd rest ih =>
    have hopen := fieldData_open fd hp
    have hf : ((e.fieldData p fd).fieldFcs p fd).Paired := fieldFcs_paired ((fieldData_tidies fd).paired h) fd hopen
    intro c hc
    unfold fieldCalls at hc
    dsimp only at hc
    rcases List.mem_cons.mp hc with rfl | hc
    · exact h
    · split at hc
      next =>
        split at hc
        next => exact absurd hc List.not_mem_nil
        next =>
          have hend : Paired { ((e.fieldData p fd).fieldFcs p fd).updateStream (·.putEof diagNoCarrier) p with isCarrierIn := 0 } :=
            ((updateStream_tidies fun _ => ModStream.putEof_trims).trans (.of_eq rfl)).paired hf
          exact ih (p := none) hend nofun c hc
      next => exact ih hf (fieldFcs_keeps fd hopen).2 c hc

theorem packetCalls_paired (h : e.Paired) (ifp : Ifp) : ∀ c ∈ e.packetCalls ifp, c.1.Paired := by
  cases ifp with
  | data type fields =>
    unfold packetCalls
    dsimp only
    split
    next =>
      have ht : Tidies e (e.updateStream (·.putEof (diagOutOfOrder ||| diagNoCarrier)) e.openPlace) :=
        updateStream_tidies fun _ => ModStream.putEof_trims
      exact fieldCalls_paired (ht.paired h) _ nofun
    next => exact fieldCalls_paired h _ openPlace_open
  | _ =>
    intro c hc
    exact absurd hc List.not_mem_nil

theorem resumeCalls_paired (h : e.Paired) (after : AfterIn) : ∀ c ∈ e.resumeCalls after, c.1.Paired := by
  cases after with
  | fields rest => exact fieldCalls_paired h rest nofun
  | _ =>
    intro c hc
    exact absurd hc List.not_mem_nil

end T38Engine

end T38Modem
