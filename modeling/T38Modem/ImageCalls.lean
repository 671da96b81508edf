import T38Modem.ImageReading
import T38Modem.ReceiveCycles

namespace T38Modem

open BitList BitStuffing
open T38Engine
open Tape (Cell)

namespace ModStream

variable {m : ModStream} {got : List Byte}

/-- A stream is filled as long as its last record is not at its end. -/
theorem Formed.isOpen_last (h : m.Formed) {c : Cell Byte Diag} (hc : (m.view got).getLast? = some c) :
    m.isOpen = !c.full := by
  have hcells : ∃ b ∈ m.bufs, b.stream.eof = c.full ∧ m.bufs.getLast? = some b := by
    unfold view at hc
    unfold bufs
    cases hb : m.firstBuf with
    | none =>
      rw [hb, Option.map_none, Option.toList_none, List.nil_append, List.getLast?_map] at hc
      obtain ⟨b, hlast, rfl⟩ := Option.map_eq_some_iff.mp hc
      exact ⟨b, List.mem_of_getLast? hlast, rfl, hlast⟩
    | some b₀ =>
      rw [hb, Option.map_some, Option.toList_some, List.singleton_append] at hc
      rw [Option.toList_some, List.singleton_append]
      cases hq : m.bufQ with
      | nil =>
        rw [hq] at hc
        rw [← Option.some.inj hc]
        exact ⟨b₀, List.mem_singleton_self b₀, rfl, rfl⟩
      | cons b₁ bufQ =>
        rw [hq, List.map_cons, List.getLast?_cons_cons, ← List.map_cons, List.getLast?_map] at hc
        obtain ⟨b, hlast, rfl⟩ := Option.map_eq_some_iff.mp hc
        exact ⟨b, List.mem_cons_of_mem _ (List.mem_of_getLast? hlast), rfl, hlast⟩
  obtain ⟨b, hmem, heof, hlast⟩ := hcells
  rw [← heof]
  cases hl : m.lastBuf with
  | none =>
    have hb := h.tail.closed b.cell (List.mem_map_of_mem hmem) (by rw [hl]; exact (Option.some_ne_none _).symm)
    have hb : b.stream.eof = true := hb
    rw [isOpen, hl, hb]
    rfl
  | some i =>
    obtain ⟨front, b', hbufs, -, hb', -⟩ := h.split hl
    rw [hbufs, List.getLast?_concat] at hlast
    rw [isOpen, hl, ← Option.some.inj hlast, hb']
    rfl

/-- The encoder begins with the record that the DTE takes first. -/
theorem popBuf_emits (junk : Hdlc) (hr : m.rawOverHdlc = true) (hq : m.deleteFirstBuf.bufQ ≠ []) (c : Cell Byte Diag) :
    Emits [] [] [] (m.popBuf junk).2.hdlc c := by
  have hpars : m.deleteFirstBuf.modPars = m.modPars := deleteFirstBuf_closes.modPars
  have hr : m.deleteFirstBuf.rawOverHdlc = true := by
    unfold rawOverHdlc at hr ⊢
    rw [hpars]
    exact hr
  unfold popBuf
  dsimp only
  generalize m.deleteFirstBuf = m₁ at hq hr
  cases hb : m₁.bufQ with
  | nil => exact absurd hb hq
  | cons b bufQ =>
    dsimp only
    have hraw : ({ m₁ with firstBuf := some b, bufQ } : ModStream).rawOverHdlc = true := hr
    rw [if_pos hraw]
    exact .start junk b.id c

end ModStream

namespace T38Engine

variable {e e' : T38Engine} {l l' : Incoming} {k : Nat} {got raw : List Byte} {m : ModStream} {t : DataType} {param : Int}
  {type : MsgType}

/-- The DTE gets the frames of an image as a raw stream. -/
def Coded (p : ModPars) : Prop := p.dataType = .dtRaw ∧ p.dataTypeT38 = .dtHdlc

theorem Coded.encoded (h : Coded m.modPars) : m.rawOverHdlc = true := decide_eq_true h

/-- While the DTE's stream has records, none is kept beside it. -/
def Alone (e : T38Engine) : Prop := viewOf [] e.modStreamIn ≠ [] → e.modStreamInSaved = none

namespace Alone

theorem of_saved (h : e.Alone) (hs : e'.modStreamInSaved = e.modStreamInSaved)
    (hv : viewOf [] e'.modStreamIn ≠ [] → viewOf [] e.modStreamIn ≠ []) : e'.Alone :=
  fun hv' => hs.trans (h (hv hv'))

theorem of_eq (h : e.Alone) (hi : e'.modStreamIn = e.modStreamIn) (hs : e'.modStreamInSaved = e.modStreamInSaved) :
    e'.Alone := h.of_saved hs (by rw [hi]; exact id)

/-- Of a single record only one stream has anything. -/
theorem of_single (h : Tracks l k got e) (hl : l.tape.cells.length ≤ 1) : e.Alone := by
  intro hv
  by_contra hn
  obtain ⟨s, hs⟩ := Option.ne_none_iff_exists'.mp hn
  obtain ⟨m, hm, hb⟩ := viewOf_ne.mp hv
  have hpos {got : List Byte} {m : ModStream} (hb : m.bufs ≠ []) : 0 < (m.view got).length :=
    List.length_pos_of_ne_nil fun hn => hb (ModStream.view_nil.mp hn)
  have hlen := congrArg List.length h.view
  unfold T38Engine.view at hlen
  rw [hm, hs, List.length_append, List.length_drop] at hlen
  have hin : 0 < (viewOf got (some m)).length := hpos hb
  have hsaved : 0 < (viewOf [] (some s)).length := hpos (h.saved s hs)
  omega

/-- While the DTE's stream has records nothing is put beside it, and nothing else puts one into it. -/
theorem goes (h : e.Alone) (haside : viewOf [] e.modStreamIn = [] → e'.modStreamIn = e.modStreamIn)
    (hs : e.SavedOf (fun _ => False) → e'.SavedOf fun _ => False) : e'.Alone := by
  by_cases hv : viewOf [] e.modStreamIn = []
  · intro hv'
    rw [haside hv] at hv'
    exact absurd hv hv'
  · exact fun _ => Option.eq_none_iff_forall_ne_some.mpr (hs (.none (h hv)))

theorem handlePacket (h : e.Alone) (hp : e.Paired) {ifp : Ifp} (hi : ∀ ind, ifp ≠ .t30Indicator ind) :
    (e.handlePacket ifp).engine.Alone := by
  refine h.goes (fun hv => ?_) fun hs => handlePacket_saved hs fun ind hifp => absurd hifp (hi ind)
  cases ifp with
  | t30Indicator ind => exact absurd rfl (hi ind)
  | data type fields => exact handleData_aside (viewOf_closed hp hv) type fields
  | badTag => exact finishIn_streams.1

theorem lost (h : e.Alone) (hp : e.Paired) : e.handlePacketLost.Alone :=
  h.goes (fun hv => handlePacketLost_aside (viewOf_closed hp hv)) fun hs => hs.keeps handlePacketLost_keeps

theorem openStream {mp : ModPars} (ht : ∀ s, e.modStreamInSaved = some s → mp.msgType = s.modPars.msgType) :
    (e.openStream mp t).1.Alone := by
  unfold T38Engine.openStream
  dsimp only
  cases hs : e.modStreamInSaved with
  | none => exact fun _ => rfl
  | some s =>
    have heq : (e.newStream { mp with dataType := t, dataTypeT38 := hdlcT38 mp e.t30.hdlcOnly }).modPars.isEqual s.modPars =
        true := beq_iff_eq.mpr (ht s hs)
    dsimp only
    rw [if_pos heq]
    exact fun _ => rfl

theorem recvWait (h : e.Alone) (hsig : e.OfSignal type) (hph : ReadPhase Coded e) (ht : t = .dtHdlc ∨ t = .dtRaw)
    (hp : (getModPars param).msgType = type) (cb : Int) : (e.recvWait t param cb).2.2.Alone := by
  rcases recvWait_cases e param cb ht with ⟨-, he⟩ | ⟨hidle, ⟨-, -, he⟩ | ⟨m, hm, -, he⟩⟩
  · rw [he]
    exact h
  · rw [he]
    exact openStream fun s hs => hp.trans (hsig.saved s hs).symm
  · have hf := deleteFirstBuf_idle hph (by simp [hidle]) hm
    rw [he]
    refine h.of_saved rfl fun hv => ?_
    obtain ⟨m', hm', hb⟩ := viewOf_ne.mp hv
    rw [ModStream.deleteFirstBuf_same hf] at hm'
    rw [← Option.some.inj hm'] at hb
    exact viewOf_ne.mpr ⟨m, hm, hb⟩

theorem recvStart (h : e.Alone) (hph : ReadPhase Coded e) (cb : Int) : (e.recvStart cb).2.Alone := by
  obtain ⟨hsame, hsaved, -⟩ := recvStart_shape e cb
  by_cases hs : e.stateModem = .stmInReadyData
  · exact h.of_saved hsaved fun _ => hph.ready hs
  · rw [hsame hs]
    exact h

theorem recv (h : e.Alone) (hph : ReadPhase Coded e) (n : Nat) : (e.recv n).2.Alone := by
  by_cases hs : e.stateModem = .stmInRecvData
  · refine h.of_saved (recv_shape e n).2 fun _ => ?_
    obtain ⟨m, hm, -⟩ := hph.reads (by rw [hs]; rfl)
    obtain ⟨b, hb⟩ := Option.isSome_iff_exists.mp ((hph.first m hm).mpr hs)
    exact viewOf_ne.mpr ⟨m, hm, by simp [ModStream.bufs, hb]⟩
  · rw [recv_other hs]
    exact h

theorem recvStop (h : e.Alone) : e.recvStop.Alone := by
  unfold T38Engine.recvStop
  split
  · exact h
  · split
    · exact h
    · refine h.of_saved rfl fun hv => ?_
      obtain ⟨m', hm', hb⟩ := viewOf_ne.mp hv
      obtain ⟨m, hm, rfl⟩ := Option.map_eq_some_iff.mp hm'
      refine viewOf_ne.mpr ⟨m, hm, fun hn => hb ?_⟩
      have hf : m.firstBuf = none := by simpa using (List.append_eq_nil_iff.mp hn).1
      rw [ModStream.deleteFirstBuf_same hf]
      exact hn

end Alone

/-- The DTE has the raw stream `raw` of what has come, and the octets `got` of the record `k` are in it. -/
structure Recodes (l : Incoming) (k : Nat) (got raw : List Byte) (e : T38Engine) : Prop where
  tracks : Tracks l k got e
  emits : ∀ m b, e.modStreamIn = some m → m.firstBuf = some b →
    Emits (l.tape.closed.take k) got raw m.hdlc (b.shown got)

/-- The signal has come whole, the record `k` being the last one, and the raw stream has all of it but for bits that make
no octet. -/
structure Whole (l : Incoming) (k : Nat) (raw : List Byte) : Prop where
  current : l.tape.current = none
  last : l.tape.closed.length = k + 1
  line : ∃ tail, octetBits raw ++ tail = imageLine l.tape.closed ∧ tail.length < 8

namespace Recodes

/-- More has come, and the DTE has what it had. -/
theorem goes (h : Recodes l k got raw e) (hph : ReadPhase Coded e) (hs : e.stateModem = .stmInRecvData)
    (hp : l.tape.closed <+: l'.tape.closed) (hr : e'.reader = e.reader) (ht : Tracks l' k got e') :
    Recodes l' k got raw e' := by
  refine ⟨ht, fun m' b' hm' hb' => ?_⟩
  obtain ⟨m, hm, hmr⟩ := reader_some hr hm'
  obtain ⟨b, hb⟩ := Option.isSome_iff_exists.mp ((hph.first m hm).mpr hs)
  have hhdlc : m'.hdlc = m.hdlc := congrArg (·.2.1) hmr
  obtain ⟨he, hreads, hclosed⟩ := h.emits m b hm hb
  have htake : l'.tape.closed.take k = l.tape.closed.take k := by
    obtain ⟨more, hmore⟩ := hp
    rw [← hmore, List.take_append_of_le_length h.tracks.le]
  rw [hhdlc, htake]
  refine ⟨he, hreads, fun hn => ?_⟩
  obtain ⟨hcell, hall⟩ := hclosed hn
  -- the record that the encoder has done with was at its end, and stays as it was
  obtain ⟨cs, hc⟩ := h.tracks.first hm hb
  obtain ⟨cs', hc'⟩ := ht.first hm' hb'
  obtain ⟨cs'', hc''⟩ := Tape.full_of_prefix hc (by rw [hcell]) hp
  rw [hc'] at hc''
  rw [(List.cons.inj hc'').1]
  exact ⟨hcell, hall⟩

/-- The raw stream is a beginning of that of the records. -/
theorem begun (h : Recodes l k got raw e) (hph : ReadPhase Coded e) (hs : e.stateModem = .stmInRecvData)
    {rs : List (List Byte × Diag)} (hp : l.tape.closed <+: rs) (hx : l.tape.Extends { closed := rs }) :
    octetBits raw <+: imageLine rs := by
  obtain ⟨m, b, cs, hm, hb, -, hc⟩ := reading_record h.tracks hph hs
  obtain ⟨r, hr, htext, hfull⟩ := Tape.cell_of_finished hp hx hc
  have hbegun := (h.emits m b hm hb).begun ((List.prefix_append _ _).trans htext) hfull
  refine hbegun.trans (imageLine_mono ?_)
  have htake : l.tape.closed.take k = rs.take k := by
    obtain ⟨more, hmore⟩ := hp
    rw [← hmore, List.take_append_of_le_length h.tracks.le]
  have hnext : rs.take (k + 1) = rs.take k ++ [r] := by rw [List.take_add_one, hr, Option.toList_some]
  rw [htake, ← hnext]
  exact List.take_prefix _ _

end Recodes

namespace Whole

theorem goes (h : Whole l k raw) (ht : l'.tape = l.tape) : Whole l' k raw := by
  obtain ⟨hcur, hlast, hline⟩ := h
  rw [← ht] at hcur hlast hline
  exact ⟨hcur, hlast, hline⟩

/-- Behind the end the DTE gets nothing more. -/
theorem stays (h : Whole l k raw) {k' : Nat} {got' bs : List Byte} (hr : Recodes l k' got' (raw ++ bs) e)
    (hph : ReadPhase Coded e) (hs : e.stateModem = .stmInRecvData) : bs = [] := by
  have htape : ({ closed := l.tape.closed } : SignalTape) = l.tape := by
    rw [← h.current]
  have hbegun := (hr.begun hph hs (List.prefix_refl _) (by rw [htape]; exact .refl _)).length_le
  obtain ⟨tail, htail, hlen⟩ := h.line
  have hall := congrArg List.length htail
  rw [List.length_append, length_octetBits] at hall
  rw [length_octetBits, List.length_append] at hbegun
  exact List.length_eq_zero_iff.mp (by omega)

/-- The record that the DTE reads is the last one. -/
theorem reads_last (h : Whole l k raw) {k' : Nat} {got' : List Byte} (ht : Tracks l k' got' e)
    (hph : ReadPhase Coded e) (hs : e.stateModem = .stmInRecvData) (hk : k ≤ k') : k' = k := by
  obtain ⟨m, b, cs, -, -, -, hc⟩ := reading_record ht hph hs
  have hlen := congrArg List.length hc
  have hlast := h.last
  rw [List.length_drop, Tape.cells_none h.current, List.length_map, List.length_cons] at hlen
  omega

end Whole

/-- `RecvStart` takes the first record, or does nothing. -/
theorem recvStart_recodes (h : Tracks l 0 [] e) (hph : ReadPhase Coded e) (cb : Int) :
    e.recvStart cb = (false, e) ∨ e.stateModem = .stmInReadyData ∧ (e.recvStart cb).1 = true ∧
      (e.recvStart cb).2.stateModem = .stmInRecvData ∧ Recodes l 0 [] [] (e.recvStart cb).2 ∧
        ReadPhase Coded (e.recvStart cb).2 := by
  rcases recvStart_tracks h hph cb with ⟨-, he⟩ | ⟨hs, hok, hst, htr, hphase⟩
  · exact .inl he
  · refine .inr ⟨hs, hok, hst, ⟨htr, fun m' b' hm' hb' => ?_⟩, hphase⟩
    obtain ⟨m, hm, hcoded⟩ := hph.reads (by rw [hs]; rfl)
    have hf := deleteFirstBuf_idle hph (by simp [hs]) hm
    have hv : m.view [] ≠ [] := by
      have hr := hph.ready hs
      rwa [hm] at hr
    have hq : m.deleteFirstBuf.bufQ ≠ [] := by
      rw [ModStream.deleteFirstBuf_same hf]
      intro hn
      rw [ModStream.view_none hf, hn] at hv
      exact hv rfl
    have hpop := (ModStream.popBuf_view e.junk hf hv).1
    have hstart : (e.recvStart cb).2.modStreamIn = some (m.popBuf e.junk).2 := by
      unfold recvStart at hok ⊢
      split
      next ho => rw [if_pos ho] at hok; cases hok
      next =>
        rw [if_neg (not_not.mpr hs), hm]
        dsimp only
        rw [show m.popBuf e.junk = (true, (m.popBuf e.junk).2) from Prod.ext hpop rfl]
    rw [hstart] at hm'
    rw [← Option.some.inj hm']
    exact ModStream.popBuf_emits e.junk hcoded.encoded hq _

/-- The DTE gets more of the raw stream, and -1 when it has got all of it. When the signal has come whole it is not kept
waiting. -/
theorem recv_recodes (h : Recodes l k got raw e) (hph : ReadPhase Coded e) (hp : e.Paired) (ha : e.Alone)
    (hl : l.tape.Sealed) (ho : e.modemOpen = true) (hs : e.stateModem = .stmInRecvData) (n : Nat) :
    ∃ k' got', k ≤ k' ∧ Recodes l k' got' (raw ++ (e.recv n).1.getD []) (e.recv n).2 ∧ ReadPhase Coded (e.recv n).2 ∧
      ((e.recv n).1 = none → Whole l k' raw) ∧
      (l.tape.current = none → 0 < n → (e.recv n).1 ≠ some []) := by
  obtain ⟨m, b, cs, hm, hb, hcoded, -⟩ := reading_record h.tracks hph hs
  have hsaved : e.modStreamInSaved = none := ha (viewOf_ne.mpr ⟨m, hm, by simp [ModStream.bufs, hb]⟩)
  have hview : m.view got = l.tape.cells.drop k := by
    have hv := h.tracks.view
    unfold T38Engine.view at hv
    rw [hm, hsaved] at hv
    exact (List.append_nil _).symm.trans hv
  have hemits := h.emits m b hm hb
  have hseal (c : Cell Byte Diag) (hc : (m.view got).getLast? = some c) (hf : c.full = true) :
      c.mark &&& diagNoCarrier ≠ 0 := by
    rw [hview] at hc
    obtain ⟨hcur, hlast⟩ := Tape.last_closed hc hf
    exact hl hcur c.record hlast
  have hformed : m.Formed := hp.left m hm
  obtain ⟨front, got', b', hpass⟩ := ModStream.getData_passes hb hcoded.encoded hemits hseal n
  have hformed' : (m.getData n).2.Formed := ModStream.getData_trims.formed hformed
  have hpars : (m.getData n).2.modPars = m.modPars := ModStream.getData_closes.modPars
  have hclosed := @ModStream.getData_closed m n (fun _ _ => hemits.encoding) hformed
  unfold recv
  rw [if_neg (by simp [isModemOpen, ho]), if_neg (not_not.mpr hs), hm]
  dsimp only
  generalize m.getData n = r at hpass hformed' hpars hclosed ⊢
  obtain ⟨res, m'⟩ := r
  obtain ⟨hfirst, hcells, hfull, hemits', hend⟩ := hpass
  dsimp only at hfirst hcells hemits' hend hformed' hpars hclosed ⊢
  obtain ⟨htake, hrest, hle⟩ := Tape.closed_of_front (hview ▸ hcells) hfull h.tracks.le
  have hopen : m'.isOpen = m.isOpen := by
    have hne : m'.view got' ≠ [] := by
      rw [ModStream.view_some hfirst]
      exact List.cons_ne_nil _ _
    obtain ⟨c, hc⟩ := Option.isSome_iff_exists.mp (List.getLast?_isSome.mpr hne)
    have hc₀ : (m.view got).getLast? = some c := by
      rw [hcells, List.getLast?_append, hc, Option.some_or]
    rw [hformed'.isOpen_last hc, hformed.isOpen_last hc₀]
  have htracks (t30 : T30) : Tracks l (k + front.length) got' { e with modStreamIn := some m', t30 } := by
    have hin : ({ e with modStreamIn := some m', t30 } : T38Engine).modStreamIn = some m' := rfl
    refine h.tracks.moves hm hin hopen (by rw [hpars]) rfl hle ?_
    unfold T38Engine.view
    dsimp only
    rw [hsaved, hrest]
    exact List.append_nil _
  refine ⟨k + front.length, got', Nat.le_add_right _ _, ⟨htracks _, fun x c hx hc => ?_⟩,
    ⟨fun x hx => ?_, fun _ => ⟨m', rfl, ?_⟩, fun hr => absurd (hs.symm.trans hr) (by simp)⟩, fun hn => ?_, fun hcur hpos hn => ?_⟩
  · rw [← Option.some.inj hx] at hc ⊢
    rw [hfirst] at hc
    rw [← Option.some.inj hc, htake]
    exact hemits'
  · rw [← Option.some.inj hx, hfirst]
    exact ⟨fun _ => hs, fun _ => rfl⟩
  · rw [hpars]
    exact hcoded
  · obtain ⟨hq, hin, hout⟩ := hend hn
    obtain ⟨hcell, hall⟩ := hemits'.closed hin
    have hlast : l.tape.cells.drop (k + front.length) = [b'.shown got'] := by
      rw [hrest, ModStream.view_some hfirst, hq]
      rfl
    obtain ⟨hcur, hdone⟩ := Tape.closed_of_last hlast (by rw [hcell])
    have hraw : octetBits raw ++ m'.hdlc.sentBits = imageLine l.tape.closed := by
      rw [hdone, htake, ← hall, hn, Option.getD_none, List.append_nil]
    have htail : m'.hdlc.sentBits.length < 8 := by
      unfold Hdlc.sentBits
      rw [hout, octetBits_nil, List.nil_append, length_lowBits]
      exact hemits'.encoding.len
    refine ⟨hcur, ?_, _, hraw, htail⟩
    rw [hdone, List.length_append, List.length_take, Nat.min_eq_left hle]
    rfl
  · have hno : e.anyOpen = false := by rw [h.tracks.opened, hcur]; rfl
    have hno : m.isOpen = false := by
      have hin := (Bool.or_eq_false_iff.mp hno).1
      rwa [hm] at hin
    have hgone := hclosed (by simpa [ModStream.isOpen] using hno) hpos hn
    exact absurd (hfirst.symm.trans hgone) (Option.some_ne_none b')

end T38Engine

end T38Modem
