import T38Modem.CarrierDrop
import T38Modem.StreamView

namespace T38Modem

open Tape (Cell onLast onLast_append onLast_concat)
open ModStream (Formed)

/-- Only the end of a list is changed, and it is not taken away. -/
def Trailing {β : Type*} (G : List β → List β) : Prop := ∀ xs ys, ys ≠ [] → G (xs ++ ys) = xs ++ G ys ∧ G ys ≠ []

theorem onLast_trailing {β : Type*} (f : β → β) : Trailing (onLast f) := by
  intro xs ys hy
  refine ⟨onLast_append f xs hy, ?_⟩
  obtain ⟨front, y, rfl⟩ := (List.eq_nil_or_concat' ys).resolve_left hy
  rw [onLast_concat]
  simp

/-- What a change of the stream that is filled does to the records: `g` to those of the tape, and `G` to those that
the DTE has not done with. -/
structure Edit (f : ModStream → ModStream) (g : SignalTape → SignalTape)
    (G : List (Cell Byte Diag) → List (Cell Byte Diag)) : Prop where
  trailing : Trailing G
  pars : ∀ m, (f m).modPars = m.modPars
  bufs : ∀ m, m.bufs ≠ [] → (f m).bufs ≠ []
  isOpen : ∀ m t, m.isOpen = true → t.current.isSome = true → (f m).isOpen = (g t).current.isSome
  view : ∀ m got, m.Formed → m.isOpen = true → (f m).view got = G (m.view got)
  tape : ∀ t k, k ≤ t.closed.length → t.current.isSome = true →
    k ≤ (g t).closed.length ∧ (g t).cells.drop k = G (t.cells.drop k)

namespace Edit

variable {f : ModStream → ModStream} {F : Cell Byte Diag → Cell Byte Diag} {i : BufId} {m : ModStream}

theorem update_bufs_ne {f : DataStream → DataStream} (h : m.bufs ≠ []) : (m.update i f).bufs ≠ [] := by
  rw [ModStream.update_bufs]
  simpa using h

theorem putData (bs : List Byte) : Edit (·.putData bs) (·.put bs) (onLast (Cell.put bs)) where
  trailing := onLast_trailing _
  pars _ := ModStream.putData_closes.modPars
  bufs m h := by
    unfold ModStream.putData
    split
    next => exact h
    next => exact update_bufs_ne h
  isOpen m t hm ht := by
    rw [ModStream.putData_isOpen, hm, Tape.put, Option.isSome_map, ht]
  view m got hf ho := ModStream.putData_view hf ho bs got
  tape t k hk ht := ⟨hk, Tape.drop_put hk ht bs⟩

theorem setDiag (d : Diag) : Edit (·.setDiag d) (·.mark (· ||| d)) (onLast (Cell.remark (· ||| d))) where
  trailing := onLast_trailing _
  pars _ := ModStream.setDiag_closes.modPars
  bufs m h := by
    unfold ModStream.setDiag
    split
    next => exact h
    next => exact update_bufs_ne h
  isOpen m t hm ht := by
    rw [ModStream.setDiag_isOpen, hm, Tape.mark, Option.isSome_map, ht]
  view m got hf ho := ModStream.setDiag_view hf ho d got
  tape t k hk ht := ⟨hk, Tape.drop_mark hk ht _⟩

theorem putEof_bufs (d : Diag) (h : m.bufs ≠ []) : (m.putEof d).bufs ≠ [] := by
  unfold ModStream.putEof
  split
  next => exact h
  next i _ =>
    have hu := update_bufs_ne (m := m) (i := i) (f := fun s => (s.setDiag (s.diag ||| d)).putEof) h
    exact hu

theorem close_length {t : SignalTape} {k : Nat} (hk : k ≤ t.closed.length) : k ≤ t.close.closed.length := by
  simp only [Tape.close, List.length_append]
  omega

theorem putEof (d : Diag) :
    Edit (·.putEof d) (fun t => (t.mark (· ||| d)).close) (onLast fun c => (c.remark (· ||| d)).close) where
  trailing := onLast_trailing _
  pars _ := ModStream.putEof_closes.modPars
  bufs _ := putEof_bufs d
  isOpen _ _ _ _ := ModStream.putEof_isOpen
  view _ got hf ho := ModStream.putEof_view hf ho d got
  tape t _ hk ht := ⟨close_length (t := t.mark _) hk, Tape.drop_finish hk ht _⟩

/-- The end of a frame, with a buffer for the next one behind it. -/
theorem closeBuf (n : BufId) :
    Edit (fun m => (m.putEof 0).pushBuf n) (·.next 0) (fun cs => onLast Cell.close cs ++ [⟨[], 0, false⟩]) where
  trailing xs ys hy := by
    obtain ⟨ha, hne⟩ := onLast_trailing Cell.close xs ys hy
    refine ⟨?_, by simp⟩
    dsimp only
    rw [ha, List.append_assoc]
  pars _ := ModStream.putEof_closes.modPars
  bufs m h := by simp [ModStream.bufs, ModStream.pushBuf]
  isOpen m t _ ht := by
    rw [Tape.next, Option.isSome_map, ht]
    rfl
  view m got hf ho := by
    rw [ModStream.pushBuf_view, ModStream.putEof_view hf ho]
    congr 2
    funext c
    simp [Cell.remark]
  tape t k hk ht := by
    refine ⟨?_, Tape.drop_next hk ht 0⟩
    simp only [Tape.next, List.length_append]
    omega

end Edit

namespace T38Engine

variable {e e' : T38Engine} {f : ModStream → ModStream} {g : SignalTape → SignalTape}
  {G : List (Cell Byte Diag) → List (Cell Byte Diag)} {l : Incoming} {k : Nat} {got : List Byte} {q : Place}
  {p : Option Place} {fd : DataField}

/-- The records of a stream that may be missing. -/
def viewOf (got : List Byte) (o : Option ModStream) : List (Cell Byte Diag) := o.elim [] (ModStream.view got)

/-- The records that the DTE has not done with, first those of the stream it has. -/
def view (e : T38Engine) (got : List Byte) : List (Cell Byte Diag) :=
  viewOf got e.modStreamIn ++ viewOf [] e.modStreamInSaved

/-- The DTE can ask for a signal of this modulation. -/
def Known (type : MsgType) : Prop := ∃ param, (getModPars param).isModValid = true ∧ (getModPars param).msgType = type

/-- The streams hold what the packets have said from the record `k` on, of which the DTE has the octets `got`. -/
structure Tracks (l : Incoming) (k : Nat) (got : List Byte) (e : T38Engine) : Prop where
  le : k ≤ l.tape.closed.length
  view : e.view got = l.tape.cells.drop k
  opened : e.anyOpen = l.tape.current.isSome
  lead : isOpen e.modStreamIn = true → e.modStreamInSaved = none
  saved : ∀ m, e.modStreamInSaved = some m → m.bufs ≠ []
  type : ∀ q m, e.streamAt q = some m → m.isOpen = true → m.modPars.msgType = l.type
  known : ∀ q m, e.streamAt q = some m → Known m.modPars.msgType

theorem Tracks.of_eq (h : Tracks l k got e) (hi : e'.modStreamIn = e.modStreamIn)
    (hs : e'.modStreamInSaved = e.modStreamInSaved) : Tracks l k got e' := by
  have hat (q : Place) : e'.streamAt q = e.streamAt q := by
    cases q
    · exact hi
    · exact hs
  refine ⟨h.le, ?_, ?_, ?_, ?_, fun q m hm => h.type q m ?_, fun q m hm => h.known q m ?_⟩
  · unfold T38Engine.view
    rw [hi, hs]
    exact h.view
  · unfold anyOpen
    rw [hi, hs]
    exact h.opened
  · rw [hi, hs]
    exact h.lead
  · rw [hs]
    exact h.saved
  · rwa [hat q] at hm
  · rwa [hat q] at hm

theorem isOpen_stream {o : Option ModStream} (h : isOpen o = true) : ∃ m, o = some m ∧ m.isOpen = true := by
  cases o with
  | none => cases h
  | some m => exact ⟨m, rfl, h⟩

theorem anyOpen_at (h : isOpen (e.streamAt q) = true) : e.anyOpen = true := by
  unfold anyOpen
  cases q with
  | modStreamIn => exact (Bool.or_eq_true _ _).mpr (.inl h)
  | modStreamInSaved => exact (Bool.or_eq_true _ _).mpr (.inr h)

/-- What is written to the stream that is filled is written to the tape. -/
theorem Tracks.edit (h : Tracks l k got e) (hp : e.Paired) (hq : isOpen (e.streamAt q) = true) (he : Edit f g G) :
    Tracks { l with tape := g l.tape } k got (e.updateStream f (some q)) := by
  obtain ⟨m, hm, ho⟩ := isOpen_stream hq
  have hcur : l.tape.current.isSome = true := by rw [← h.opened, anyOpen_at hq]
  obtain ⟨hle, htape⟩ := he.tape l.tape k h.le hcur
  have hopen : (f m).isOpen = (g l.tape).current.isSome := he.isOpen m l.tape ho hcur
  have hknown (q' : Place) (m' : ModStream) (hm' : (e.updateStream f (some q)).streamAt q' = some m') :
      Known m'.modPars.msgType := by
    have hmap : e.streamAt q' = some m' ∨ ∃ x, e.streamAt q' = some x ∧ f x = m' := by
      cases q <;> cases q' <;> first | exact .inl hm' | exact .inr (Option.map_eq_some_iff.mp hm')
    rcases hmap with hm' | ⟨x, hx, rfl⟩
    · exact h.known q' m' hm'
    · rw [he.pars]
      exact h.known q' x hx
  cases q with
  | modStreamIn =>
    have hm : e.modStreamIn = some m := hm
    have hs : e.modStreamInSaved = none := h.lead hq
    have hv := h.view
    unfold T38Engine.view at hv
    rw [hm, hs] at hv
    have hv : m.view got = l.tape.cells.drop k := (List.append_nil _).symm.trans hv
    refine ⟨hle, ?_, ?_, fun _ => hs, fun m' hm' => absurd (hs.symm.trans hm') (Option.some_ne_none m').symm, ?_, hknown⟩
    · unfold T38Engine.view updateStream
      dsimp only
      rw [hm, hs, htape, ← hv, ← he.view m got (hp.left m hm) ho]
      exact List.append_nil _
    · unfold anyOpen updateStream
      dsimp only
      rw [hm, hs, ← hopen]
      exact Bool.or_false _
    · intro q' m' hm' _
      cases q' with
      | modStreamIn =>
        simp only [updateStream, streamAt, hm, Option.map_some, Option.some.injEq] at hm'
        rw [← hm', he.pars]
        exact h.type .modStreamIn m hm ho
      | modStreamInSaved => exact absurd (hs.symm.trans hm') (Option.some_ne_none m').symm
  | modStreamInSaved =>
    have hm : e.modStreamInSaved = some m := hm
    have hin : isOpen e.modStreamIn = false := hp.one.resolve_right (by rw [show isOpen e.modStreamInSaved = true from hq]; simp)
    have hv := h.view
    unfold T38Engine.view at hv
    rw [hm] at hv
    have hne : m.view [] ≠ [] := fun hn => h.saved m hm (ModStream.view_nil.mp hn)
    obtain ⟨hG, -⟩ := he.trailing (viewOf got e.modStreamIn) (m.view []) hne
    refine ⟨hle, ?_, ?_, fun hi => ?_, fun m' hm' => ?_, ?_, hknown⟩
    · unfold T38Engine.view updateStream
      dsimp only
      rw [hm, htape, ← hv]
      show _ ++ (f m).view [] = G (_ ++ m.view [])
      rw [hG, he.view m [] (hp.right m hm) ho]
    · unfold anyOpen updateStream
      dsimp only
      rw [hin, hm, ← hopen]
      exact Bool.false_or _
    · exact absurd (hin.symm.trans hi) Bool.false_ne_true
    · simp only [updateStream, hm, Option.map_some, Option.some.injEq] at hm'
      rw [← hm']
      exact he.bufs m (h.saved m hm)
    · intro q' m' hm' ho'
      cases q' with
      | modStreamIn =>
        have hm' : e.modStreamIn = some m' := hm'
        rw [hm'] at hin
        exact absurd (hin.symm.trans ho') Bool.false_ne_true
      | modStreamInSaved =>
        simp only [updateStream, streamAt, hm, Option.map_some, Option.some.injEq] at hm'
        rw [← hm', he.pars]
        exact h.type .modStreamInSaved m hm ho

theorem updateStream_comp (f f' : ModStream → ModStream) :
    (e.updateStream f p).updateStream f' p = e.updateStream (fun m => f' (f m)) p := by
  cases p with
  | none => rfl
  | some q => cases q <;> simp [updateStream, Function.comp_def]

/-- The octets of a field are written, or it has none. -/
theorem fieldData_cases (p : Option Place) (fd : DataField) :
    e.fieldData p fd = e ∧ (∀ t : SignalTape, t.fieldData fd = t) ∨
      ∃ bs n, e.fieldData p fd = { e.updateStream (·.putData bs) p with countIn := n } ∧
        ∀ t : SignalTape, t.fieldData fd = t.put bs := by
  obtain ⟨ft, d⟩ := fd
  cases d with
  | none => exact .inl ⟨by cases ft <;> rfl, fun t => by cases ft <;> rfl⟩
  | some bs =>
    cases ft with
    | other n => exact .inl ⟨rfl, fun _ => rfl⟩
    | _ => exact .inr ⟨bs, _, rfl, fun _ => rfl⟩

theorem fieldData_tracks (h : Tracks l k got e) (hp : e.Paired) (hq : isOpen (e.streamAt q) = true) (fd : DataField) :
    Tracks { l with tape := l.tape.fieldData fd } k got (e.fieldData (some q) fd) := by
  rcases fieldData_cases (e := e) (some q) fd with ⟨he, ht⟩ | ⟨bs, n, he, ht⟩
  · rw [he, ht]
    exact h
  · rw [he, ht]
    exact (h.edit hp hq (Edit.putData bs)).of_eq rfl rfl

theorem closeBuf_tracks (h : Tracks l k got e) (hp : e.Paired) (hq : isOpen (e.streamAt q) = true) :
    Tracks { l with tape := l.tape.next 0 } k got (e.closeBuf (some q)) := by
  have he : e.closeBuf (some q) =
      { e.updateStream (fun m => (m.putEof 0).pushBuf e.nextBuf) (some q) with nextBuf := e.nextBuf + 1 } := by
    rw [← updateStream_comp (·.putEof 0) (·.pushBuf e.nextBuf)]
    cases q <;> rfl
  rw [he]
  exact (h.edit hp hq (Edit.closeBuf e.nextBuf)).of_eq rfl rfl

theorem fieldFcs_tracks (h : Tracks l k got e) (hp : e.Paired) (hq : isOpen (e.streamAt q) = true) (fd : DataField) :
    Tracks { l with tape := l.tape.fieldFcs fd } k got (e.fieldFcs (some q) fd) := by
  have bad : Tracks { l with tape := (l.tape.mark (· ||| diagBadFcs)).next 0 } k got
      ((e.updateStream (·.setDiag diagBadFcs) (some q)).closeBuf (some q)) := by
    have ht : Tidies e (e.updateStream (·.setDiag diagBadFcs) (some q)) :=
      updateStream_tidies fun _ => ModStream.setDiag_trims
    have ho : isOpen ((e.updateStream (·.setDiag diagBadFcs) (some q)).streamAt q) = true :=
      updateStream_open (fun _ => ModStream.setDiag_isOpen) (fun q' hq' => Option.some.inj hq' ▸ hq) q rfl
    exact closeBuf_tracks (h.edit hp hq (Edit.setDiag diagBadFcs)) (ht.paired hp) ho
  obtain ⟨ft, d⟩ := fd
  cases ft with
  | hdlcFcsBAD | hdlcFcsBADSigEnd => exact bad
  | hdlcFcsOK | hdlcFcsOKSigEnd => exact closeBuf_tracks h hp hq
  | _ => exact h

theorem finishIn_streams : e.finishIn.engine.modStreamIn = e.modStreamIn ∧
    e.finishIn.engine.modStreamInSaved = e.modStreamInSaved := by
  unfold finishIn
  split <;> exact ⟨rfl, rfl⟩

theorem afterFields_streams : e.afterFields.engine.modStreamIn = e.modStreamIn ∧
    e.afterFields.engine.modStreamInSaved = e.modStreamInSaved := by
  unfold afterFields
  split
  · exact ⟨rfl, rfl⟩
  · exact finishIn_streams

/-- The fields that come when no stream is filled. -/
theorem handleFields_none (fs : List DataField) : (e.handleFields none fs).engine.modStreamIn = e.modStreamIn ∧
    (e.handleFields none fs).engine.modStreamInSaved = e.modStreamInSaved := by
  induction fs generalizing e with
  | nil => exact afterFields_streams
  | cons f rest ih =>
    have hd : ((e.fieldData none f).fieldFcs none f).modStreamIn = e.modStreamIn ∧
        ((e.fieldData none f).fieldFcs none f).modStreamInSaved = e.modStreamInSaved := by
      obtain ⟨ft, d⟩ := f
      cases d <;> cases ft <;> exact ⟨rfl, rfl⟩
    unfold handleFields
    generalize (e.fieldData none f).fieldFcs none f = e₁ at hd
    dsimp only
    split
    next =>
      split
      next => exact hd
      next => exact ⟨ih.1.trans hd.1, ih.2.trans hd.2⟩
    next => exact ⟨ih.1.trans hd.1, ih.2.trans hd.2⟩

theorem handleFields_tracks (h : Tracks l k got e) (hp : e.Paired) (hn : p = none → e.anyOpen = false)
    (ho : ∀ q, p = some q → isOpen (e.streamAt q) = true) (fs : List DataField) :
    Tracks { l with tape := fs.foldl SignalTape.field l.tape } k got (e.handleFields p fs).engine := by
  induction fs generalizing e l p with
  | nil => exact h.of_eq afterFields_streams.1 afterFields_streams.2
  | cons f rest ih =>
    cases p with
    | none =>
      have hcur : l.tape.current = none := by
        have hs := h.opened.symm.trans (hn rfl)
        simpa using hs
      obtain ⟨hi, hs⟩ := handleFields_none (e := e) (f :: rest)
      rw [SignalTape.fields_none hcur]
      exact h.of_eq hi hs
    | some q =>
      have hd := fieldData_tracks h hp (ho q rfl) f
      have hdo := fieldData_open f ho
      have hdp := (fieldData_tidies (p := some q) f).paired hp
      have hf := fieldFcs_tracks hd hdp (hdo q rfl) f
      have hfo := (fieldFcs_keeps f hdo).2
      have hfp := fieldFcs_paired hdp f hdo
      unfold handleFields
      generalize (e.fieldData (some q) f).fieldFcs (some q) f = e₁ at hf hfo hfp
      rw [List.foldl_cons]
      dsimp only
      split
      next hend =>
        have hfield : l.tape.field f = ((((l.tape.fieldData f).fieldFcs f).mark (· ||| diagNoCarrier))).close := by
          unfold SignalTape.field
          rw [if_pos hend]
        have hclosed := hf.edit hfp (hfo q rfl) (Edit.putEof diagNoCarrier)
        have hclosedp : (e₁.updateStream (·.putEof diagNoCarrier) (some q)).Paired :=
          (updateStream_tidies fun _ => ModStream.putEof_trims).paired hfp
        rw [← hfield] at hclosed
        have hcur : (l.tape.field f).current = none := by
          rw [hfield]
          rfl
        split
        next =>
          rw [SignalTape.fields_none hcur]
          exact hclosed.of_eq rfl rfl
        next =>
          have hend : Tracks { l with tape := l.tape.field f } k got
              { e₁.updateStream (·.putEof diagNoCarrier) (some q) with isCarrierIn := 0 } := hclosed.of_eq rfl rfl
          have hopen : anyOpen { e₁.updateStream (·.putEof diagNoCarrier) (some q) with isCarrierIn := 0 } = false := by
            rw [hend.opened]
            exact congrArg Option.isSome hcur
          exact ih hend hclosedp (fun _ => hopen) fun q' hq' => absurd hq'.symm (Option.some_ne_none q')
      next hend =>
        have hfield : l.tape.field f = (l.tape.fieldData f).fieldFcs f := by
          unfold SignalTape.field
          exact if_neg hend
        rw [← hfield] at hf
        exact ih hf hfp (fun hq => absurd hq (Option.some_ne_none q)) hfo

theorem openPlace_none (h : e.openPlace = none) : e.anyOpen = false := by
  unfold openPlace at h
  unfold anyOpen
  cases hi : isOpen e.modStreamIn <;> cases hs : isOpen e.modStreamInSaved <;> simp_all

theorem handleData_tracks (h : Tracks l k got e) (hp : e.Paired) (type : MsgType) (fields : Option (List DataField)) :
    Tracks (l.packet (.data type fields)) k got (e.handleData type fields).engine := by
  unfold handleData Incoming.packet
  cases hop : e.openPlace with
  | none =>
    have hcur : l.tape.current = none := by
      have hs := h.opened.symm.trans (openPlace_none hop)
      simpa using hs
    have htape : (if l.type = type then (fields.getD []).foldl SignalTape.field l.tape else l.tape.breakOff) = l.tape := by
      rw [SignalTape.fields_none hcur, SignalTape.breakOff_none hcur, ite_self]
    obtain ⟨hi, hs⟩ := handleFields_none (e := e) (fields.getD [])
    dsimp only
    rw [htape]
    exact h.of_eq hi hs
  | some q =>
    have ho : isOpen (e.streamAt q) = true := openPlace_open q hop
    obtain ⟨m, hm, hmo⟩ := isOpen_stream ho
    have hbad : ((some q).any fun p => (e.streamAt p).any fun s => s.modPars.msgType != type) = (l.type != type) := by
      rw [Option.any_some, hm, Option.any_some, h.type q m hm hmo]
    dsimp only
    rw [hbad]
    by_cases ht : l.type = type
    · have hgood : (l.type != type) = false := by simp [ht]
      rw [hgood, if_pos ht, if_neg Bool.false_ne_true, if_neg Bool.false_ne_true]
      exact handleFields_tracks h hp (fun hn => absurd hn (Option.some_ne_none q))
        (fun q' hq' => Option.some.inj hq' ▸ ho) _
    · have hwrong : (l.type != type) = true := by simp [ht]
      rw [hwrong, if_neg ht, if_pos rfl, if_pos rfl]
      obtain ⟨hi, hs⟩ := handleFields_none
        (e := e.updateStream (·.putEof (diagOutOfOrder ||| diagNoCarrier)) (some q)) (fields.getD [])
      exact (h.edit hp ho (Edit.putEof _)).of_eq hi hs

theorem handlePacketLost_tracks (h : Tracks l k got e) (hp : e.Paired) : Tracks l.lost k got e.handlePacketLost := by
  unfold handlePacketLost
  dsimp only
  cases hop : e.openPlace with
  | none =>
    have hcur : l.tape.current = none := by
      have hs := h.opened.symm.trans (openPlace_none hop)
      simpa using hs
    have hl : l.lost = l := by
      unfold Incoming.lost Tape.mark
      rw [hcur, Option.map_none, ← hcur]
      split <;> rfl
    rw [hl]
    exact h
  | some q =>
    have ho : isOpen (e.streamAt q) = true := openPlace_open q hop
    obtain ⟨m, hm, hmo⟩ := isOpen_stream ho
    have ht := h.type q m hm hmo
    have hmark (f f' : ModStream → ModStream) (hf : f m = f' m) : e.updateStream f (some q) = e.updateStream f' (some q) := by
      cases q with
      | modStreamIn =>
        have hm : e.modStreamIn = some m := hm
        simp [updateStream, hm, hf]
      | modStreamInSaved =>
        have hm : e.modStreamInSaved = some m := hm
        simp [updateStream, hm, hf]
    unfold Incoming.lost
    by_cases h21 : l.type = .v21
    · have hbad := hmark (fun s => if s.modPars.msgType = .v21 then s.setDiag diagBadFcs else s) (·.setDiag diagBadFcs)
        (if_pos (ht.trans h21))
      rw [if_pos h21, hbad]
      exact h.edit hp ho (Edit.setDiag diagBadFcs)
    · have hsame := hmark (fun s => if s.modPars.msgType = .v21 then s.setDiag diagBadFcs else s) id
        (if_neg fun h' => h21 (ht.symm.trans h'))
      rw [if_neg h21, hsame]
      cases q with
      | modStreamIn => exact h.of_eq Option.map_id_apply rfl
      | modStreamInSaved => exact h.of_eq rfl Option.map_id_apply

theorem dropCarrier_streams : e.dropCarrier.engine.modStreamIn = e.modStreamIn ∧
    e.dropCarrier.engine.modStreamInSaved = e.modStreamInSaved := by
  unfold dropCarrier endSilence
  split
  · exact ⟨rfl, rfl⟩
  · exact finishIn_streams

theorem userInput_streams (tone : Byte) : (e.userInput tone).engine.modStreamIn = e.modStreamIn ∧
    (e.userInput tone).engine.modStreamInSaved = e.modStreamInSaved := by
  unfold userInput
  split
  · exact dropCarrier_streams
  · split
    · exact dropCarrier_streams
    · exact ⟨rfl, rfl⟩

/-- No signal begins: the stream that has not been asked for is dropped. -/
theorem indicatorSwitch_streams {type : Indicator} (ht : type.isTraining = false) :
    (e.indicatorSwitch type).engine.modStreamIn = e.modStreamIn ∧
      (e.indicatorSwitch type).engine.modStreamInSaved = none := by
  cases type with
  | noSignal => exact dropCarrier_streams
  | ced => exact userInput_streams _
  | cng => exact userInput_streams _
  | other n => exact finishIn_streams
  | _ => cases ht

/-- The stream that the DTE has takes over the records of the other. -/
theorem Tracks.move {m s : ModStream} (h : Tracks l k got e) (hm : e.modStreamIn = some m)
    (hs : e.modStreamInSaved = some s) (hmo : m.isOpen = false) (ht : m.modPars.msgType = s.modPars.msgType)
    (hi : e'.modStreamIn = some (m.move s)) (hn : e'.modStreamInSaved = none) : Tracks l k got e' := by
  have hv := h.view
  have ho := h.opened
  unfold T38Engine.view at hv
  unfold anyOpen at ho
  rw [hm, hs] at hv ho
  refine ⟨h.le, ?_, ?_, fun _ => hn, fun m' hm' => absurd (hn.symm.trans hm') (Option.some_ne_none m').symm, ?_, ?_⟩
  · unfold T38Engine.view
    rw [hi, hn, ← hv]
    exact (List.append_nil _).trans (ModStream.move_view got)
  · unfold anyOpen
    rw [hi, hn, ← ho, isOpen_some, isOpen_some, hmo]
    exact (Bool.or_false _).trans (Bool.false_or _).symm
  · intro q m' hm' ho'
    cases q with
    | modStreamIn =>
      have hm' : e'.modStreamIn = some m' := hm'
      rw [hi] at hm'
      rw [← Option.some.inj hm'] at ho' ⊢
      exact ht.trans (h.type .modStreamInSaved s hs ho')
    | modStreamInSaved => exact absurd (hn.symm.trans hm') (Option.some_ne_none m').symm
  · intro q m' hm'
    cases q with
    | modStreamIn =>
      have hm' : e'.modStreamIn = some m' := hm'
      rw [hi] at hm'
      rw [← Option.some.inj hm']
      exact h.known .modStreamIn m hm
    | modStreamInSaved => exact absurd (hn.symm.trans hm') (Option.some_ne_none m').symm

theorem known_row {type : Indicator} (ht : type.isTraining = true) : Known (getModParsByInd type).msgType := by
  have hall : ∀ m ∈ mods, (getModPars m.val).isModValid = true ∧ (getModPars m.val).msgType = m.msgType := by decide
  obtain ⟨m, hm, rfl⟩ := List.mem_map.mp (List.contains_iff_mem.mp ht)
  rw [getModParsByInd_row hm]
  exact ⟨m.val, hall m hm⟩

/-- A signal begins, and what comes of it is kept for the DTE. -/
theorem Tracks.begin (h : Tracks l k got e) {type : Indicator} (ht : type.isTraining = true)
    (hi : isOpen e.modStreamIn = false) (hs : e.modStreamInSaved = none) (hin : e'.modStreamIn = e.modStreamIn)
    (hn : e'.modStreamInSaved = some ((e.newStream (getModParsByInd type)).pushBuf e.nextBuf)) :
    Tracks { tape := l.tape.start 0, type := (getModParsByInd type).msgType } k got e' := by
  have hcur : l.tape.current = none := by
    have ho := h.opened
    unfold anyOpen at ho
    rw [hi, hs] at ho
    simpa using ho.symm
  have hv := h.view
  unfold T38Engine.view at hv
  rw [hs] at hv
  have hv : viewOf got e.modStreamIn = l.tape.cells.drop k := (List.append_nil _).symm.trans hv
  refine ⟨h.le, ?_, ?_, fun ho => ?_, fun m hm => ?_, ?_, ?_⟩
  · unfold T38Engine.view
    rw [hin, hn, hv, Tape.drop_start h.le hcur 0]
    rfl
  · unfold anyOpen Tape.start
    rw [hn, hin, hi, hcur]
    rfl
  · rw [hin, hi] at ho
    cases ho
  · rw [hn] at hm
    rw [← Option.some.inj hm]
    simp [ModStream.bufs, ModStream.pushBuf]
  · intro q m hm ho
    cases q with
    | modStreamIn =>
      have hm : e'.modStreamIn = some m := hm
      rw [hin] at hm
      rw [hm] at hi
      exact absurd (hi.symm.trans ho) Bool.false_ne_true
    | modStreamInSaved =>
      have hm : e'.modStreamInSaved = some m := hm
      rw [hn] at hm
      rw [← Option.some.inj hm]
      rfl
  · intro q m hm
    cases q with
    | modStreamIn => exact h.known .modStreamIn m (hin.symm.trans hm)
    | modStreamInSaved =>
      have hm : e'.modStreamInSaved = some m := hm
      rw [hn] at hm
      rw [← Option.some.inj hm]
      exact known_row ht

/-- The indicators that come in their turn: the signal that is received again, or another one when the DTE has
taken up the last, and asks for no other. -/
def InTurn (e : T38Engine) (type : Indicator) : Prop :=
  type.isTraining = true ∧ (repeated e.modStreamIn type || repeated e.modStreamInSaved type) = true ∨
    e.modStreamInSaved = none ∧ (isOpen e.modStreamIn = true → type = .noSignal ∧ e.countIn ≠ 0) ∧
      (type.isTraining = true → e.stateModem = .stmInWaitData →
        ∀ m, e.modStreamIn = some m → m.modPars.msgType = (getModParsByInd type).msgType)

instance (e : T38Engine) (type : Indicator) : Decidable (e.InTurn type) :=
  inferInstanceAs (Decidable (_ ∨ _ = _ ∧ (_ → _ ∧ _) ∧ (_ → _ → ∀ m ∈ e.modStreamIn, _)))

theorem training_tracks (h : Tracks l k got e) {type : Indicator} (ht : type.isTraining = true) (hi : isOpen e.modStreamIn = false)
    (hs : e.modStreamInSaved = none) (hw : e.stateModem = .stmInWaitData →
      ∀ m, e.modStreamIn = some m → m.modPars.msgType = (getModParsByInd type).msgType) :
    Tracks { tape := l.tape.start 0, type := (getModParsByInd type).msgType } k got (e.training type).engine := by
  have hnew : Tracks { tape := l.tape.start 0, type := (getModParsByInd type).msgType } k got
      { e with
        isCarrierIn := 1
        modStreamInSaved := some ((e.newStream (getModParsByInd type)).pushBuf e.nextBuf)
        nextBuf := e.nextBuf + 1
        countIn := 0 } := h.begin ht hi hs rfl rfl
  unfold training
  dsimp only
  unfold endSilence
  split
  next => exact hnew.of_eq rfl rfl
  next =>
    unfold endWaitData
    split
    next hwait =>
      cases hm : e.modStreamIn with
      | none =>
        dsimp only
        exact hnew.of_eq hm.symm rfl
      | some m =>
        have htype := hw hwait m hm
        have heq : m.modPars.isEqual ((e.newStream (getModParsByInd type)).pushBuf e.nextBuf).modPars = true :=
          beq_iff_eq.mpr htype
        have hmo : m.isOpen = false := by rwa [hm] at hi
        dsimp only
        rw [if_pos heq]
        exact hnew.move hm rfl hmo htype rfl rfl
    next => exact hnew.of_eq finishIn_streams.1 finishIn_streams.2

theorem indicatorSwitch_tracks (h : Tracks l k got e) {type : Indicator} (hi : isOpen e.modStreamIn = false)
    (hs : e.modStreamInSaved = none) (hw : type.isTraining = true → e.stateModem = .stmInWaitData →
      ∀ m, e.modStreamIn = some m → m.modPars.msgType = (getModParsByInd type).msgType) :
    Tracks (l.packet (.t30Indicator type)) k got (e.indicatorSwitch type).engine := by
  have hcur : l.tape.current = none := by
    have ho := h.opened
    unfold anyOpen at ho
    rw [hi, hs] at ho
    simpa using ho.symm
  unfold Incoming.packet
  dsimp only
  cases ht : type.isTraining with
  | false =>
    obtain ⟨hi', hs'⟩ := indicatorSwitch_streams (e := e) ht
    rw [if_pos rfl, SignalTape.breakOff_none hcur]
    exact h.of_eq hi' (hs'.trans hs.symm)
  | true =>
    have hd : Tracks l k got { e with modStreamInSaved := none } := h.of_eq rfl hs.symm
    rw [if_neg (by simp), hcur, if_neg (by simp), indicatorSwitch_training ht]
    exact training_tracks hd ht hi rfl (hw ht)

theorem handleIndicator_tracks (h : Tracks l k got e) (hp : e.Paired) (hr : e.Rows) {type : Indicator} (ht : e.InTurn type) :
    Tracks (l.packet (.t30Indicator type)) k got (e.handleIndicator type).engine := by
  unfold handleIndicator
  split
  next hrep =>
    have hopen : e.anyOpen = true := by
      rw [Bool.or_eq_true, repeated_iff, repeated_iff] at hrep
      rcases hrep with ⟨m, hm, ho, -⟩ | ⟨m, hm, ho, -⟩
      · exact anyOpen_at (q := .modStreamIn) (by rw [show e.streamAt .modStreamIn = some m from hm]; exact ho)
      · exact anyOpen_at (q := .modStreamInSaved) (by rw [show e.streamAt .modStreamInSaved = some m from hm]; exact ho)
    have htr : type.isTraining = true := by
      rcases ht with ⟨htr, -⟩ | ⟨hs, hi, -⟩
      · exact htr
      · have hin : isOpen e.modStreamIn = true := by
          unfold anyOpen at hopen
          rw [hs] at hopen
          exact (Bool.or_false _).symm.trans hopen
        rw [(hi hin).1, not_repeated hr] at hrep
        cases hrep
    have hl : l.packet (.t30Indicator type) = l := by
      unfold Incoming.packet
      dsimp only
      rw [if_neg (by simp [htr]), ← h.opened, hopen]
      rfl
    rw [hl]
    exact h.of_eq finishIn_streams.1 finishIn_streams.2
  next hrep =>
    obtain ⟨hs, hi, hw⟩ := ht.resolve_left fun ht => hrep ht.2
    split
    next ho =>
      obtain ⟨rfl, hc⟩ := hi ho
      rw [if_neg fun hn => hc hn.2.1]
      have hend := h.edit hp (q := .modStreamIn) ho (Edit.putEof (diagOutOfOrder ||| diagNoCarrier))
      dsimp only
      split
      next => exact hend
      next =>
        have hno : Indicator.isTraining .noSignal = false := rfl
        obtain ⟨hi', hs'⟩ := indicatorSwitch_streams
          (e := e.updateStream (·.putEof (diagOutOfOrder ||| diagNoCarrier)) (some .modStreamIn)) hno
        exact hend.of_eq hi' (hs'.trans hs.symm)
    next ho => exact indicatorSwitch_tracks h (by simpa using ho) hs hw

/-- A packet that comes in its turn. -/
def PacketInTurn (e : T38Engine) (ifp : Ifp) : Prop := ∀ type, ifp = .t30Indicator type → e.InTurn type

instance (e : T38Engine) : ∀ ifp, Decidable (e.PacketInTurn ifp)
  | .t30Indicator type => decidable_of_iff (e.InTurn type) ⟨fun h _ ht => Ifp.t30Indicator.inj ht ▸ h, fun h => h type rfl⟩
  | .data .. => .isTrue fun _ ht => (by cases ht)
  | .badTag => .isTrue fun _ ht => (by cases ht)

theorem handlePacket_tracks (h : Tracks l k got e) (hp : e.Paired) (hr : e.Rows) {ifp : Ifp} (ht : e.PacketInTurn ifp) :
    Tracks (l.packet ifp) k got (e.handlePacket ifp).engine := by
  cases ifp with
  | t30Indicator type => exact handleIndicator_tracks h hp hr (ht type rfl)
  | data type fields => exact handleData_tracks h hp type fields
  | badTag => exact h.of_eq finishIn_streams.1 finishIn_streams.2

/-- What is done behind a callback is of no signal: no stream is changed. -/
theorem resumePacket_streams {after : AfterIn}
    (ht : ∀ type, after = .indicator type → type.isTraining = false ∧ e.modStreamInSaved = none) :
    (e.resumePacket after).engine.modStreamIn = e.modStreamIn ∧
      (e.resumePacket after).engine.modStreamInSaved = e.modStreamInSaved := by
  cases after with
  | indicator type =>
    obtain ⟨htr, hs⟩ := ht type rfl
    obtain ⟨hi, hs'⟩ := indicatorSwitch_streams (e := e) htr
    exact ⟨hi, hs'.trans hs.symm⟩
  | dropCarrier => exact dropCarrier_streams
  | fields rest => exact handleFields_none rest
  | finish => exact finishIn_streams
  | ret => exact ⟨rfl, rfl⟩

theorem resumePacket_tracks (h : Tracks l k got e) {after : AfterIn}
    (ht : ∀ type, after = .indicator type → type.isTraining = false ∧ e.modStreamInSaved = none) :
    Tracks l k got (e.resumePacket after).engine :=
  h.of_eq (resumePacket_streams ht).1 (resumePacket_streams ht).2

end T38Engine

end T38Modem
