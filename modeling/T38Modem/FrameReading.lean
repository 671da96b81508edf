import T38Modem.FrameDelivery
import T38Modem.ReceptionRun

namespace T38Modem

/-- The diagnostics are those of the signal that the DTE has asked for. -/
def SameSig (d : Diag) : Prop := d &&& diagDiffSig = 0

instance (d : Diag) : Decidable (SameSig d) := inferInstanceAs (Decidable (_ = _))

theorem SameSig.or {d d' : Diag} (h : SameSig d) (h' : SameSig d') : SameSig (d ||| d') := by
  unfold SameSig at h h' ⊢
  rw [BitVec.and_or_distrib_right, h, h']
  rfl

theorem sameSig_field {t : SignalTape} (h : t.Marks SameSig) (f : DataField) : (t.field f).Marks SameSig := by
  have hdata : (t.fieldData f).Marks SameSig := by
    unfold SignalTape.fieldData
    split
    · exact h
    · exact h
    · exact h.put _
  have hfcs : ((t.fieldData f).fieldFcs f).Marks SameSig := by
    unfold SignalTape.fieldFcs
    split
    · exact (hdata.mark fun d hd => hd.or (by decide)).next (by decide)
    · exact (hdata.mark fun d hd => hd.or (by decide)).next (by decide)
    · exact hdata.next (by decide)
    · exact hdata.next (by decide)
    · exact hdata
  unfold SignalTape.field
  dsimp only
  split
  · exact (hfcs.mark fun d hd => hd.or (by decide)).close
  · exact hfcs

namespace Incoming

variable {l : Incoming}

theorem sameSig_arrive (h : l.tape.Marks SameSig) (a : Option Ifp) : (l.arrive a).tape.Marks SameSig := by
  have hbreak : l.tape.breakOff.Marks SameSig := (h.mark fun d hd => hd.or (by decide)).close
  cases a with
  | none =>
    show l.lost.tape.Marks SameSig
    unfold lost
    split
    · exact h.mark fun d hd => hd.or (by decide)
    · exact h
  | some ifp =>
    cases ifp with
    | t30Indicator type =>
      show (l.packet (.t30Indicator type)).tape.Marks SameSig
      unfold packet
      dsimp only
      split
      · exact hbreak
      · split
        · exact h
        · exact h.start (by decide)
    | data type fields =>
      show (l.packet (.data type fields)).tape.Marks SameSig
      unfold packet
      dsimp only
      split
      · generalize fields.getD [] = fs
        generalize l.tape = t at h
        induction fs generalizing t with
        | nil => exact h
        | cons f fs ih => exact ih _ (sameSig_field h f)
      · exact hbreak
    | badTag => exact h

end Incoming

theorem sameSig_incoming (as : List Act) : (incoming as).tape.Marks SameSig := by
  unfold incoming
  rw [incoming_arrivals]
  have hall (l : Incoming) (h : l.tape.Marks SameSig) (ps : List (Option Ifp)) : (ps.foldl Incoming.arrive l).tape.Marks SameSig := by
    induction ps generalizing l with
    | nil => exact h
    | cons p ps ih => exact ih _ (Incoming.sameSig_arrive h p)
  exact hall {} ⟨fun r hr => (by cases hr), fun r hr => by cases hr⟩ _

namespace Sys

open T38Engine

variable {junk : Hdlc} {now : Int} {as : List Act} {es : List Event} {x : Sys × DteLog}

/-- What the DTE has got is what it has seen. -/
theorem run_seen (h : reception.Run KeepsTurn (start junk now, {}) as es x) : x.2 = es.foldl DteLog.see {} := by
  refine h.invariant (I := fun es x => x.2 = es.foldl DteLog.see {}) rfl fun es x a x' es' hi _ hs => ?_
  obtain ⟨-, hd⟩ := Machine.watched_step hs
  rw [hd, List.foldl_append, hi]

/-- While it reads, the DTE is never told that the signal is another one than it has asked for. -/
theorem recvDiag_sameSig {l : Incoming} (h : Received l x) (hm : l.tape.Marks SameSig) (ht : x.2.text.isSome = true) :
    SameSig x.1.e.recvDiag := by
  obtain ⟨text, htext⟩ := Option.isSome_iff_exists.mp ht
  cases h.reading with
  | idle _ hn => exact absurd (hn.symm.trans htext) (Option.some_ne_none text).symm
  | told _ _ _ _ _ hn => exact absurd (hn.symm.trans htext) (Option.some_ne_none text).symm
  | reads got hs _ htr _ =>
    obtain ⟨m, b, cs, -, -, -, hc⟩ := reading_record htr h.phase hs
    rw [recvDiag_mark htr h.phase hs hc]
    exact hm.cell (List.mem_of_mem_drop (hc ▸ List.mem_cons_self))

theorem run_sameSig (h : reception.Run KeepsTurn (start junk now, {}) as es x) {front rest : List Event} {diag : Diag}
    (he : es = front ++ .recvDiag diag :: rest) (ht : (front.foldl DteLog.see {}).text.isSome = true) : SameSig diag := by
  induction h generalizing front rest with
  | start => exact absurd he.symm (by simp)
  | @next as es x a x' es' hrun hok hs ih =>
    obtain ⟨s, d⟩ := x
    obtain ⟨s', d'⟩ := x'
    obtain ⟨hstep, -⟩ := Machine.watched_step hs
    have hr := run_received hrun
    -- the diagnostics are asked for in the last step
    have hlast (more : List Event) (hfront : front = es ++ more) (hes' : es' = more ++ .recvDiag diag :: rest) : SameSig diag := by
      have hmem : .recvDiag diag ∈ es' := by
        rw [hes']
        simp
      obtain ⟨rfl, hdiag⟩ : more = [] ∧ diag = s.e.recvDiag := by
        have hhears := step_hears hr.attached hstep
        dsimp only at hhears
        cases hhears with
        | speaks ha hsp => cases hsp.events _ hmem
        | recvDiag =>
          cases more with
          | nil =>
            obtain ⟨hd, -⟩ := List.cons.inj hes'
            cases hd
            exact ⟨rfl, rfl⟩
          | cons ev more => simp at hes'
        | handlePacket ifp => 
          exact absurd hmem (by cases s.e.handlePacket ifp <;> simp [ofInOutcome])
        | resumes =>
          rename_i after _
          exact absurd hmem (by cases s.e.resumePacket after <;> simp [ofInOutcome])
        | _ => simp at hmem
      rw [List.append_nil] at hfront
      have hd : d = front.foldl DteLog.see {} := hfront ▸ run_seen hrun
      rw [← hd] at ht
      rw [hdiag]
      exact recvDiag_sameSig hr (sameSig_incoming as) ht
    rcases List.append_eq_append_iff.mp he with ⟨more, hfront, hes'⟩ | ⟨more, hes, hrest⟩
    · exact hlast more hfront hes'
    · cases more with
      | nil => exact hlast [] (by simpa using hes.symm) hrest.symm
      | cons ev more =>
        obtain ⟨rfl, -⟩ := List.cons.inj hrest
        exact ih hes ht

end Sys

/-- A call with which the modem reads. -/
def Event.reading : Event → Bool
  | .recvStart _ | .recv _ | .recvDiag _ => true
  | _ => false

theorem see_reading (es : List Event) (d : DteLog) : es.foldl DteLog.see d = (es.filter Event.reading).foldl DteLog.see d := by
  induction es generalizing d with
  | nil => rfl
  | cons ev es ih =>
    cases hr : ev.reading with
    | true => rw [List.filter_cons_of_pos hr, List.foldl_cons, List.foldl_cons, ih]
    | false =>
      have hsame : d.see ev = d := by cases ev <;> first | rfl | cases hr
      rw [List.filter_cons_of_neg (by simp [hr]), List.foldl_cons, hsame, ih]

namespace Modem

open ModemEngineBody DLEData Escape

/-- The results of `Recv` that the modem asks for in a step, the one that ends its loop the last. -/
def asked : List (Option (List Byte)) → List (Option (List Byte))
  | [] => [some []]
  | none :: _ => [none]
  | some [] :: _ => [some []]
  | some (b :: bs) :: rs => some (b :: bs) :: asked rs

/-- What the modem calls to read a frame, with what it is answered: `a₁` in the step that says CONNECT, and `as` in
those that follow. -/
def recvCalls (a₁ : Answers) (as : List Answers) (diag : Diag) : List Event :=
  .recvStart a₁.recvStart :: .recvDiag a₁.recvDiag :: (as.flatMap fun a => (asked a.recv).map .recv) ++ [.recvDiag diag]

variable {d : DteLog} {text frame : List Byte} {a a₀ a₁ aₙ : Answers} {as : List Answers} {b : ModemEngineBody}
  {es : List Event}

theorem see_asked (rs : List (Option (List Byte))) (ht : d.text = some text) (he : d.ended = false) :
    ((asked rs).map Event.recv).foldl DteLog.see d =
      { d with text := some (text ++ (ModemEngineBody.heard rs).1), ended := (ModemEngineBody.heard rs).2 } := by
  obtain ⟨records, _, _⟩ := d
  cases ht
  cases he
  induction rs generalizing text with
  | nil => rfl
  | cons r rs ih =>
    match r with
    | none => simp [asked, ModemEngineBody.heard, DteLog.see]
    | some [] => rfl
    | some (b :: bs) =>
      rw [asked, List.map_cons, List.foldl_cons, heard_cons]
      show List.foldl DteLog.see ⟨records, some (text ++ b :: bs), false⟩ _ = _
      rw [ih, List.append_assoc]

theorem see_more (hmore : ∀ a ∈ as, (ModemEngineBody.heard a.recv).2 = false) (ht : d.text = some text) (he : d.ended = false) :
    (as.flatMap fun a => (asked a.recv).map Event.recv).foldl DteLog.see d = { d with text := some (text ++ framed as) } := by
  obtain ⟨records, _, _⟩ := d
  cases ht
  cases he
  induction as generalizing text with
  | nil => simp [framed]
  | cons a as ih =>
    have hfirst := see_asked a.recv (d := ⟨records, some text, false⟩) rfl rfl
    rw [hmore a List.mem_cons_self] at hfirst
    rw [List.flatMap_cons, List.foldl_append, hfirst, ih fun a' ha' => hmore a' (List.mem_cons_of_mem a ha')]
    simp [framed]

/-- The modem has read a record to its end, and what it has got is the record with its diagnostics. -/
theorem see_recvCalls (hs : a₁.recvStart = true) (hmore : ∀ a ∈ as, (ModemEngineBody.heard a.recv).2 = false)
    (hend : (ModemEngineBody.heard aₙ.recv).2 = true) (hes : es.filter Event.reading = recvCalls a₁ (as ++ [aₙ]) aₙ.recvDiag)
    (d : DteLog) :
    es.foldl DteLog.see d = ⟨d.records ++ [(framed (as ++ [aₙ]), aₙ.recvDiag)], none, true⟩ := by
  have hbegin : (d.see (.recvStart a₁.recvStart)).see (.recvDiag a₁.recvDiag) = ⟨d.records, some [], false⟩ := by
    rw [hs]
    rfl
  have hall := see_more hmore (d := ⟨d.records, some [], false⟩) rfl rfl
  have hlast := see_asked aₙ.recv (d := ⟨d.records, some ([] ++ framed as), false⟩) rfl rfl
  rw [see_reading, hes, recvCalls, List.flatMap_append, List.flatMap_singleton, List.cons_append, List.cons_append,
    List.foldl_cons, List.foldl_cons, hbegin, List.foldl_append, List.foldl_append, hall, hlast, hend]
  simp [DteLog.see, framed]

/-- The frame and its check sequence as the DTE is to get them. -/
def onLine (frame : List Byte) : List Byte :=
  stuff DLE (frame ++ (Fcs.build {} (frame.map bitRevTable)).octets.map bitRevTable) ++ [DLE, ETX]

theorem encoded_onLine (frame : List Byte) :
    encoded true (frame.map bitRevTable ++ (Fcs.build {} (frame.map bitRevTable)).octets) = onLine frame := by
  have hturn (bs : List Byte) : bs.map (turn true) = bs.map bitRevTable :=
    List.map_congr_left fun c _ => (bitRevTable_eq c).symm
  have hback : (frame.map bitRevTable).map bitRevTable = frame := by simp [Function.comp_def]
  unfold encoded onLine
  rw [DLEData.body, hturn, List.map_append, hback]

/-- The modem gives the DTE the frame that it has read with good diagnostics. -/
theorem run_onLine (hm : b.modemClass = .mcFax) (hq : ¬(b.off_hook = false ∧ b.callState = .cstCalled))
    (hw : (b.recvStart a₀ .dtHdlc).1 = true) (hr : a₁.recvStart = true) (hd : SameSig a₁.recvDiag)
    (hmore : ∀ a ∈ as, (ModemEngineBody.heard a.recv).2 = false) (hend : (ModemEngineBody.heard aₙ.recv).2 = true) :
    ∃ chunks m, machine.Run (fun _ _ => True) ⟨b.begun a₀, .idle⟩ (.checkState a₁ :: (as ++ [aₙ]).map .checkState)
      (.out (.result .connect) :: chunks.map (fun c => .out (.data c)) ++
        [.out (.result (frameCode aₙ.recvDiag (framed (as ++ [aₙ])).length))]) m ∧ m.body.state = .stCommand ∧
      (∀ frame, aₙ.recvDiag = 0 → frame ≠ [] → framed (as ++ [aₙ]) = frame.map bitRevTable → chunks.flatten = onLine frame) ∧
      (framed (as ++ [aₙ]) = [] → chunks = []) := by
  obtain ⟨hl, hs⟩ := begun_listening hm hq hw
  obtain ⟨b₁, h₁, hrec⟩ := checkState_begin hl hs hr hd
  obtain ⟨chunks, b₂, h₂, hful, hfl, hrec⟩ := run_more hrec hmore
  obtain ⟨chunks', b₃, h₃, hst, hnil, hne⟩ := checkState_end hrec hend
  have hframe : framed (as ++ [aₙ]) = framed as ++ (ModemEngineBody.heard aₙ.recv).1 := by simp [framed]
  simp only [List.nil_append, ← hframe] at h₃ hnil hne
  have hrun := ((done_checkState h₁).trans h₂).trans (done_checkState h₃)
  simp only [List.map_append, List.map_cons, List.map_nil, List.cons_append] at hrun
  refine ⟨chunks ++ chunks', ⟨b₃, .idle⟩, by simpa [Function.comp_def] using hrun, hst, fun frame hdiag hf hg => ?_, fun hf => ?_⟩
  · have hsome : framed (as ++ [aₙ]) ≠ [] := by
      rw [hg]
      simpa using hf
    have hcheck : checkOctets aₙ.recvDiag (Fcs.build {} (framed (as ++ [aₙ]))) = (Fcs.build {} (framed (as ++ [aₙ]))).octets :=
      (checkOctets_iff _ _).mpr (by rw [hdiag]; rfl)
    rw [← encoded_onLine, ← hg, List.flatten_append, hfl, hne hsome, hcheck, encoded, encoded, ← List.append_assoc, ← body_append,
      hframe, List.append_assoc]
  · have hnone : framed as = [] := (List.append_eq_nil_iff.mp (hframe ▸ hf)).1
    rw [hnone] at hfl
    have hall : ∀ c ∈ chunks, c = [] := List.flatten_eq_nil_iff.mp hfl
    have hchunks : chunks = [] := List.eq_nil_iff_forall_not_mem.mpr fun c hc => hful (hall c hc ▸ hc)
    rw [hchunks, hnil hf, List.append_nil]

end Modem

/-- The modem that has asked for a signal and begins to read is not told that it is another one. -/
theorem Sys.recvCalls_sameSig {junk : Hdlc} {now : Int} {acts : List Act} {es₀ es : List Event} {x : Sys × DteLog}
    {a₁ : Answers} {as : List Answers} {diag : Diag}
    (h : reception.Run KeepsTurn (Sys.start junk now, {}) acts (es₀ ++ es) x) (hs : a₁.recvStart = true)
    (hes : es.filter Event.reading = Modem.recvCalls a₁ as diag) : SameSig a₁.recvDiag := by
  rw [Modem.recvCalls, hs] at hes
  obtain ⟨es₁, rest, rfl, -, -, hrest⟩ := List.filter_eq_cons_iff.mp hes
  obtain ⟨es₂, rest, rfl, hquiet, -, -⟩ := List.filter_eq_cons_iff.mp hrest
  have hsplit : es₀ ++ (es₁ ++ .recvStart true :: (es₂ ++ .recvDiag a₁.recvDiag :: rest)) =
      (es₀ ++ es₁ ++ .recvStart true :: es₂) ++ .recvDiag a₁.recvDiag :: rest := by simp
  refine Sys.run_sameSig h hsplit ?_
  have hnone : es₂.filter Event.reading = [] := List.filter_eq_nil_iff.mpr hquiet
  rw [List.foldl_append, List.foldl_cons, see_reading es₂, hnone]
  rfl

end T38Modem
