import T38Modem.ReadView

namespace T38Modem

open Tape (Cell)

namespace T38Engine

variable {e e' : T38Engine} {l : Incoming} {k : Nat} {got got' : List Byte} {m m' : ModStream} {t : DataType}
  {param cb : Int} {P : ModPars → Prop}

theorem Plain.decoded (h : Plain m.modPars) : m.rawOverHdlc = false := by
  unfold Plain at h
  unfold ModStream.rawOverHdlc
  rw [h]
  cases m.modPars.dataType <;> rfl

/-- The modulation of the record that the DTE gets next. -/
def pendingType (e : T38Engine) : Option MsgType :=
  if viewOf [] e.modStreamIn ≠ [] then e.modStreamIn.map (·.modPars.msgType)
  else e.modStreamInSaved.map (·.modPars.msgType)

theorem pendingType_in (hm : e.modStreamIn = some m) (hb : m.bufs ≠ []) : e.pendingType = some m.modPars.msgType := by
  unfold pendingType
  rw [if_pos (viewOf_ne.mpr ⟨m, hm, hb⟩), hm]
  rfl

theorem pendingType_saved (hv : viewOf [] e.modStreamIn = []) (hs : e.modStreamInSaved = some m) :
    e.pendingType = some m.modPars.msgType := by
  unfold pendingType
  rw [if_neg (not_not.mpr hv), hs]
  rfl

/-- The DTE asks for what comes next, and as it comes. -/
def Asks (e : T38Engine) (t : DataType) (param : Int) : Prop :=
  match t with
  | .dtHdlc | .dtRaw =>
    (∀ type, e.pendingType = some type → (getModPars param).msgType = type) ∧
      hdlcT38 (getModPars param) e.t30.hdlcOnly = t
  | _ => viewOf [] e.modStreamIn = []

instance (e : T38Engine) (param : Int) : ∀ t, Decidable (e.Asks t param)
  | .dtHdlc | .dtRaw => inferInstanceAs (Decidable ((∀ type ∈ e.pendingType, _ = type) ∧ _ = _))
  | .dtNone | .dtRing | .dtBusy | .dtCed | .dtCng | .dtSilence => inferInstanceAs (Decidable (viewOf [] e.modStreamIn = []))

/-- A stream without records is not filled. -/
theorem viewOf_closed (hp : e.Paired) (hv : viewOf got e.modStreamIn = []) : isOpen e.modStreamIn = false := by
  by_contra ho
  obtain ⟨m, hm, hmo⟩ := isOpen_stream (by simpa using ho)
  obtain ⟨i, hi⟩ := Option.isSome_iff_exists.mp hmo
  obtain ⟨front, b, hb, -⟩ := (hp.left m hm).split hi
  have hnil : m.bufs = [] := by
    rw [hm] at hv
    exact ModStream.view_nil.mp hv
  rw [hnil] at hb
  exact absurd hb.symm (by simp)

/-- The DTE's stream has no records, and is exchanged for another one that has none. -/
theorem Tracks.renew (h : Tracks l k got e) (hp : e.Paired) (hv : viewOf got e.modStreamIn = [])
    (hv' : viewOf got e'.modStreamIn = []) (ho' : isOpen e'.modStreamIn = false)
    (hk : ∀ m, e'.modStreamIn = some m → Known m.modPars.msgType)
    (hs : e'.modStreamInSaved = e.modStreamInSaved) : Tracks l k got e' := by
  have ho := viewOf_closed hp hv
  refine ⟨h.le, ?_, ?_, fun hi => absurd (ho'.symm.trans hi) Bool.false_ne_true, ?_, fun q m hm hmo => ?_, fun q m hm => ?_⟩
  · have hview := h.view
    unfold T38Engine.view at hview ⊢
    rwa [hv', hs, ← hv]
  · have hopen := h.opened
    unfold anyOpen at hopen ⊢
    rwa [ho', hs, ← ho]
  · rw [hs]
    exact h.saved
  · cases q with
    | modStreamIn =>
      have hm : e'.modStreamIn = some m := hm
      rw [hm] at ho'
      exact absurd (ho'.symm.trans hmo) Bool.false_ne_true
    | modStreamInSaved => exact h.type .modStreamInSaved m (hs.symm.trans hm) hmo
  · cases q with
    | modStreamIn => exact hk m hm
    | modStreamInSaved => exact h.known .modStreamInSaved m (hs.symm.trans hm)

/-- The DTE goes on in the stream it has, and may have done with some of its records. -/
theorem Tracks.moves (h : Tracks l k got e) (hm : e.modStreamIn = some m) (hm' : e'.modStreamIn = some m')
    (ho : m'.isOpen = m.isOpen) (ht : m'.modPars.msgType = m.modPars.msgType)
    (hs : e'.modStreamInSaved = e.modStreamInSaved) {k' : Nat} (hk : k' ≤ l.tape.closed.length)
    (hv : e'.view got' = l.tape.cells.drop k') : Tracks l k' got' e' := by
  refine ⟨hk, hv, ?_, fun hi => ?_, ?_, fun q x hx hxo => ?_, fun q x hx => ?_⟩
  · have hopen := h.opened
    unfold anyOpen at hopen ⊢
    rw [hm', hs, ← hopen, hm, isOpen_some, isOpen_some, ho]
  · rw [hs]
    refine h.lead ?_
    rw [hm', isOpen_some, ho] at hi
    rw [hm]
    exact hi
  · rw [hs]
    exact h.saved
  · cases q with
    | modStreamIn =>
      have hx : e'.modStreamIn = some x := hx
      rw [hm'] at hx
      rw [← Option.some.inj hx] at hxo ⊢
      exact ht.trans (h.type .modStreamIn m hm (ho ▸ hxo))
    | modStreamInSaved => exact h.type .modStreamInSaved x (hs.symm.trans hx) hxo
  · cases q with
    | modStreamIn =>
      have hx : e'.modStreamIn = some x := hx
      rw [hm'] at hx
      rw [← Option.some.inj hx, ht]
      exact h.known .modStreamIn m hm
    | modStreamInSaved => exact h.known .modStreamInSaved x (hs.symm.trans hx)

theorem Tracks.of_in (h : Tracks l k got e) (hm : e.modStreamIn = some m) (hm' : e'.modStreamIn = some m')
    (ho : m'.isOpen = m.isOpen) (ht : m'.modPars.msgType = m.modPars.msgType) (hv : m'.view got' = m.view got)
    (hs : e'.modStreamInSaved = e.modStreamInSaved) : Tracks l k got' e' := by
  refine h.moves hm hm' ho ht hs h.le ?_
  have hview := h.view
  unfold T38Engine.view at hview ⊢
  rw [hm', hs, ← hview, hm]
  exact congrArg (· ++ viewOf [] e.modStreamInSaved) hv

/-- While the DTE reads no record, it does not matter what it has got before. -/
theorem Tracks.idle (h : Tracks l k got e) (hph : ReadPhase P e) (hs : e.stateModem ≠ .stmInRecvData) (got' : List Byte) :
    Tracks l k got' e := by
  refine ⟨h.le, ?_, h.opened, h.lead, h.saved, h.type, h.known⟩
  rw [← h.view]
  unfold T38Engine.view
  cases hm : e.modStreamIn with
  | none => rfl
  | some m =>
    have hn : m.firstBuf = none := by
      by_contra hne
      exact hs ((hph.first m hm).mp (Option.isSome_iff_ne_none.mpr hne))
    show m.view got' ++ _ = m.view got ++ _
    rw [ModStream.view_none hn, ModStream.view_none hn]

/-- A stream is opened for the DTE. -/
theorem openStream_tracks (h : Tracks l k got e) (hp : e.Paired) (hv : viewOf got e.modStreamIn = []) {mp : ModPars}
    (ht : ∀ s, e.modStreamInSaved = some s → mp.msgType = s.modPars.msgType) (hk : Known mp.msgType)
    (hP : P { mp with dataType := t, dataTypeT38 := hdlcT38 mp e.t30.hdlcOnly }) :
    Tracks l k got (e.openStream mp t).1 ∧ ReadPhase P (e.openStream mp t).1 := by
  unfold openStream
  dsimp only
  cases hs : e.modStreamInSaved with
  | none =>
    dsimp only
    refine ⟨h.renew hp hv rfl rfl (fun m hm => Option.some.inj hm ▸ hk) hs.symm, ⟨fun m hm => ?_, fun _ => ⟨_, rfl, hP⟩, fun hr => (by cases hr)⟩⟩
    rw [← Option.some.inj hm]
    exact ⟨fun hf => (by cases hf), fun hr => (by cases hr)⟩
  | some s =>
    have heq : (e.newStream { mp with dataType := t, dataTypeT38 := hdlcT38 mp e.t30.hdlcOnly }).modPars.isEqual s.modPars =
        true := beq_iff_eq.mpr (ht s hs)
    dsimp only
    rw [if_pos heq]
    have hnew : Tracks l k got { e with
        modStreamIn := some (e.newStream { mp with dataType := t, dataTypeT38 := hdlcT38 mp e.t30.hdlcOnly }) } :=
      h.renew hp hv rfl rfl (fun m hm => Option.some.inj hm ▸ hk) rfl
    refine ⟨hnew.move rfl hs rfl (ht s hs) rfl rfl, ⟨fun m hm => ?_, fun _ => ⟨_, rfl, hP⟩, fun _ => ?_⟩⟩
    · rw [← Option.some.inj hm]
      exact ⟨fun hf => (by cases hf), fun hr => (by cases hr)⟩
    · refine viewOf_ne.mpr ⟨_, rfl, ?_⟩
      have hne := h.saved s hs
      have hmove (m : ModStream) : (m.move s).bufs = m.bufs ++ s.bufs := by simp [ModStream.bufs, ModStream.move]
      rw [hmove]
      simp [hne]

theorem deleteFirstBuf_idle (hph : ReadPhase P e) (hs : e.stateModem ≠ .stmInRecvData) (hm : e.modStreamIn = some m) :
    m.firstBuf = none := by
  by_contra hne
  exact hs ((hph.first m hm).mp (Option.isSome_iff_ne_none.mpr hne))

/-- What `RecvWait` does for a signal: nothing, or it opens a stream, or the DTE goes on in the one it has. -/
theorem recvWait_cases (e : T38Engine) (param cb : Int) (hsig : t = .dtHdlc ∨ t = .dtRaw) :
    (e.modemOpen = false ∨ e.stateModem ≠ .stmIdle ∨ (getModPars param).isModValid = false) ∧
        (e.recvWait t param cb).2.2 = e ∨ e.stateModem = .stmIdle ∧
      ((∀ m, e.modStreamIn = some m → m.deleteFirstBuf.bufQ = [] ∨ (getModPars param).isEqual m.modPars = false) ∧
          (getModPars param).isModValid = true ∧ e.recvWait t param cb = (true, (({ e with callbackParamIn := cb } : T38Engine).openStream (getModPars param) t).2,
            (({ e with callbackParamIn := cb } : T38Engine).openStream (getModPars param) t).1) ∨
        ∃ m, e.modStreamIn = some m ∧ m.deleteFirstBuf.bufQ ≠ [] ∧ e.recvWait t param cb =
          (true, true, { e with
            callbackParamIn := cb
            modStreamIn := some { m.deleteFirstBuf with
              modPars := { m.modPars with dataType := t, dataTypeT38 := hdlcT38 m.modPars e.t30.hdlcOnly } }
            stateModem := .stmInReadyData })) := by
  have hpars (m : ModStream) : m.deleteFirstBuf.modPars = m.modPars := ModStream.deleteFirstBuf_closes.modPars
  unfold recvWait
  split
  next ho => exact .inl ⟨.inl ho, rfl⟩
  next =>
    split
    next hne => exact .inl ⟨.inr (.inl hne), rfl⟩
    next hidle =>
      have hidle := not_not.mp hidle
      rcases hsig with rfl | rfl <;> dsimp only <;> split
      all_goals try exact .inl ⟨.inr (.inr ‹_›), rfl⟩
      all_goals
        rename_i hvalid
        refine .inr ⟨hidle, ?_⟩
        cases hm : e.modStreamIn with
        | none => exact .inl ⟨fun m hm => absurd hm.symm (Option.some_ne_none m), by simpa using hvalid, rfl⟩
        | some m =>
          dsimp only [Option.map_some]
          split
          next hq => exact .inr ⟨m, rfl, hq.1, by rw [hpars]⟩
          next hq =>
            refine .inl ⟨fun x hx => ?_, by simpa using hvalid, rfl⟩
            rw [← Option.some.inj hx]
            rw [hpars, not_and_or, not_not] at hq
            exact hq.imp_right fun h => by simpa using h

/-- For a silence the DTE's stream is dropped. -/
theorem recvWait_silence (e : T38Engine) (param cb : Int) (hsig : ¬(t = .dtHdlc ∨ t = .dtRaw)) :
    (e.recvWait t param cb).2.2 = e ∨ e.stateModem = .stmIdle ∧ (e.recvWait t param cb).2.2.modStreamIn = none ∧
      (e.recvWait t param cb).2.2.modStreamInSaved = e.modStreamInSaved ∧
      ((e.recvWait t param cb).2.2.stateModem = .stmIdle ∨ (e.recvWait t param cb).2.2.stateModem = .stmInWaitSilence) := by
  unfold recvWait
  split
  next => exact .inl rfl
  next =>
    split
    next => exact .inl rfl
    next hidle =>
      have hidle := not_not.mp hidle
      cases t with
      | dtSilence =>
        dsimp only
        split
        next => exact .inl rfl
        next =>
          split
          next => exact .inr ⟨hidle, rfl, rfl, .inr rfl⟩
          next => exact .inr ⟨hidle, rfl, rfl, .inl hidle⟩
      | dtHdlc => exact absurd (.inl rfl) hsig
      | dtRaw => exact absurd (.inr rfl) hsig
      | _ => exact .inl rfl

/-- With `RecvWait` no record is begun. -/
theorem recvWait_notRecv (t : DataType) (param cb : Int) (hs : e.stateModem ≠ .stmInRecvData) :
    (e.recvWait t param cb).2.2.stateModem ≠ .stmInRecvData := by
  intro hr
  by_cases hsig : t = .dtHdlc ∨ t = .dtRaw
  · rcases recvWait_cases e param cb hsig with ⟨-, he⟩ | ⟨-, ⟨-, -, he⟩ | ⟨m, -, -, he⟩⟩
    · rw [he] at hr
      exact hs hr
    · rw [he] at hr
      unfold openStream at hr
      dsimp only at hr
      split at hr
      · cases hr
      · split at hr <;> cases hr
    · rw [he] at hr
      cases hr
  · rcases recvWait_silence e param cb hsig with he | ⟨-, -, -, hst | hst⟩
    · rw [he] at hr
      exact hs hr
    · exact absurd (hst.symm.trans hr) (by simp)
    · exact absurd (hst.symm.trans hr) (by simp)

/-- Another stream is opened when the DTE's stream has no more records. -/
theorem asked_empty (hph : ReadPhase P e) (hne : e.stateModem ≠ .stmInRecvData)
    (ht : ∀ type, e.pendingType = some type → (getModPars param).msgType = type)
    (hq : ∀ m, e.modStreamIn = some m → m.deleteFirstBuf.bufQ = [] ∨ (getModPars param).isEqual m.modPars = false) :
    viewOf [] e.modStreamIn = [] := by
  by_contra hn
  obtain ⟨m, hm, hb⟩ := viewOf_ne.mp hn
  have hf := deleteFirstBuf_idle hph hne hm
  rcases hq m hm with hq | hq
  · rw [ModStream.deleteFirstBuf_same hf] at hq
    exact hb (by simp [ModStream.bufs, hf, hq])
  · have htype := ht m.modPars.msgType (pendingType_in hm hb)
    rw [ModPars.isEqual, htype] at hq
    simp at hq

/-- The DTE asks for the signal that comes next, and what it is given is of the kind that it receives. -/
theorem recvWait_signal (h : Tracks l k got e) (hph : ReadPhase P e) (hp : e.Paired) (hsig : t = .dtHdlc ∨ t = .dtRaw)
    (ht : ∀ type, e.pendingType = some type → (getModPars param).msgType = type)
    (hP : ∀ mp : ModPars, mp.msgType = (getModPars param).msgType →
      P { mp with dataType := t, dataTypeT38 := hdlcT38 mp e.t30.hdlcOnly }) :
    Tracks l k got (e.recvWait t param cb).2.2 ∧ ReadPhase P (e.recvWait t param cb).2.2 := by
  rcases recvWait_cases e param cb hsig with ⟨-, he⟩ | ⟨hidle, ⟨hq, hvalid, he⟩ | ⟨m, hm, hq, he⟩⟩
  · rw [he]
    exact ⟨h, hph⟩
  · have hne : e.stateModem ≠ .stmInRecvData := by simp [hidle]
    have hv := asked_empty hph hne ht hq
    have hcb : Tracks l k [] { e with callbackParamIn := cb } := (h.idle hph hne []).of_eq rfl rfl
    obtain ⟨htr, hphase⟩ := openStream_tracks (t := t) hcb hp hv (fun s hs => ht _ (pendingType_saved hv hs))
      ⟨param, hvalid, rfl⟩ (hP _ rfl)
    have hst : (({ e with callbackParamIn := cb } : T38Engine).openStream (getModPars param) t).1.stateModem ≠
        .stmInRecvData := by
      unfold openStream
      dsimp only
      split
      · simp
      · split <;> simp
    rw [he]
    exact ⟨htr.idle hphase hst got, hphase⟩
  · have hne : e.stateModem ≠ .stmInRecvData := by simp [hidle]
    have hf := deleteFirstBuf_idle hph hne hm
    have hsame := ModStream.deleteFirstBuf_same hf
    rw [hsame] at hq he
    have hb : m.bufs ≠ [] := by simp [ModStream.bufs, hq]
    have htype : (getModPars param).msgType = m.modPars.msgType := ht _ (pendingType_in hm hb)
    rw [he]
    refine ⟨h.of_in hm rfl rfl rfl rfl rfl, fun x hx => ?_, fun _ => ⟨_, rfl, hP _ htype.symm⟩,
      fun _ => viewOf_ne.mpr ⟨_, rfl, hb⟩⟩
    have hx : x.firstBuf = none := by
      rw [← Option.some.inj hx]
      exact hf
    rw [hx]
    simp

theorem recvWait_tracks (h : Tracks l k got e) (hph : ReadPhase Plain e) (hp : e.Paired) (ha : e.Asks t param) :
    Tracks l k got (e.recvWait t param cb).2.2 ∧ ReadPhase Plain (e.recvWait t param cb).2.2 := by
  by_cases hsig : t = .dtHdlc ∨ t = .dtRaw
  · obtain ⟨ht, hh⟩ : (∀ type, e.pendingType = some type → (getModPars param).msgType = type) ∧
        hdlcT38 (getModPars param) e.t30.hdlcOnly = t := by
      rcases hsig with rfl | rfl <;> exact ha
    refine recvWait_signal h hph hp hsig ht fun mp hmp => ?_
    show hdlcT38 mp e.t30.hdlcOnly = t
    rw [← hh]
    unfold hdlcT38
    rw [hmp]
  · have hv : viewOf [] e.modStreamIn = [] := by
      cases t <;> first | exact ha | simp at hsig
    rcases recvWait_silence e param cb hsig with he | ⟨hidle, hi, hs, hst⟩
    · rw [he]
      exact ⟨h, hph⟩
    · have hne : e.stateModem ≠ .stmInRecvData := by simp [hidle]
      have hv' (got : List Byte) : viewOf got (e.recvWait t param cb).2.2.modStreamIn = [] := by
        rw [hi]
        rfl
      have htr := (h.idle hph hne []).renew hp hv (hv' []) (by rw [hi]; rfl)
        (fun m hm => absurd (hi.symm.trans hm) (Option.some_ne_none m).symm) hs
      have hphase : ReadPhase Plain (e.recvWait t param cb).2.2 := by
        refine ⟨fun x hx => ?_, fun hr => ?_, fun hr => ?_⟩
        · rw [hi] at hx
          cases hx
        · rcases hst with hst | hst <;> rw [hst] at hr <;> cases hr
        · rcases hst with hst | hst <;> rw [hst] at hr <;> cases hr
      exact ⟨htr.idle hphase (by rcases hst with hst | hst <;> simp [hst]) got, hphase⟩

/-- `RecvStart` takes the record that is next, or does nothing. -/
theorem recvStart_tracks (h : Tracks l k got e) (hph : ReadPhase P e) (cb : Int) :
    (e.modemOpen = false ∨ e.stateModem ≠ .stmInReadyData) ∧ e.recvStart cb = (false, e) ∨
      e.stateModem = .stmInReadyData ∧ (e.recvStart cb).1 = true ∧ (e.recvStart cb).2.stateModem = .stmInRecvData ∧
        Tracks l k [] (e.recvStart cb).2 ∧ ReadPhase P (e.recvStart cb).2 := by
  unfold recvStart
  split
  next ho => exact .inl ⟨.inl ho, rfl⟩
  next =>
    split
    next hs => exact .inl ⟨.inr hs, rfl⟩
    next hs =>
      have hs := not_not.mp hs
      have hne : e.stateModem ≠ .stmInRecvData := by simp [hs]
      obtain ⟨m, hm, hkind⟩ := hph.reads (by rw [hs]; rfl)
      have hf := deleteFirstBuf_idle hph hne hm
      have hv : m.view [] ≠ [] := by
        have hr := hph.ready hs
        rwa [hm] at hr
      obtain ⟨hpop, hview, hfirst, hpars, hopen⟩ := ModStream.popBuf_view e.junk hf hv
      dsimp only
      rw [hm]
      dsimp only
      rw [show m.popBuf e.junk = (true, (m.popBuf e.junk).2) from Prod.ext hpop rfl]
      dsimp only
      have htr : Tracks l k [] { e with
          callbackParamIn := cb
          modStreamIn := some (m.popBuf e.junk).2
          t30 := if (m.popBuf e.junk).2.modPars.msgType = .v21 then e.t30.v21Begin else e.t30
          stateModem := .stmInRecvData } :=
        (h.idle hph hne []).of_in hm rfl hopen (by rw [hpars]) hview rfl
      refine .inr ⟨hs, rfl, rfl, htr, fun x hx => ?_, fun _ => ⟨_, rfl, ?_⟩, fun hr => by cases hr⟩
      · rw [← Option.some.inj hx, hfirst]
        simp
      · rw [hpars]
        exact hkind

/-- The record of the DTE's buffer. -/
theorem Tracks.first (h : Tracks l k got e) (hm : e.modStreamIn = some m) {b : Buf} (hb : m.firstBuf = some b) :
    ∃ cs, l.tape.cells.drop k = b.shown got :: cs := by
  have hv := h.view
  unfold T38Engine.view at hv
  rw [hm] at hv
  have hv : m.view got ++ viewOf [] e.modStreamInSaved = l.tape.cells.drop k := hv
  rw [ModStream.view_some hb] at hv
  exact ⟨_, hv.symm⟩

/-- The record that the DTE reads. -/
theorem reading_record (h : Tracks l k got e) (hph : ReadPhase P e) (hs : e.stateModem = .stmInRecvData) :
    ∃ m b cs, e.modStreamIn = some m ∧ m.firstBuf = some b ∧ P m.modPars ∧
      l.tape.cells.drop k = b.shown got :: cs := by
  obtain ⟨m, hm, hplain⟩ := hph.reads (by rw [hs]; rfl)
  obtain ⟨b, hb⟩ := Option.isSome_iff_exists.mp ((hph.first m hm).mpr hs)
  obtain ⟨cs, hc⟩ := h.first hm hb
  exact ⟨m, b, cs, hm, hb, hplain, hc⟩

/-- The DTE gets octets of its record, or -1 when it has got them all. -/
theorem recv_tracks (h : Tracks l k got e) (hph : ReadPhase Plain e) (ho : e.modemOpen = true) (hs : e.stateModem = .stmInRecvData)
    (n : Nat) : ReadPhase Plain (e.recv n).2 ∧ (e.recv n).2.stateModem = .stmInRecvData ∧
      match (e.recv n).1 with
      | some bs => Tracks l k (got ++ bs) (e.recv n).2
      | none => Tracks l k got (e.recv n).2 ∧ ∃ d cs, l.tape.cells.drop k = ⟨got, d, true⟩ :: cs := by
  obtain ⟨m, b, cs, hm, hb, hplain, hcell⟩ := reading_record h hph hs
  obtain ⟨⟨hpars, hfirst, hopen⟩, hgot⟩ := ModStream.getData_view hb hplain.decoded hplain got n
  unfold recv
  rw [if_neg (by simp [isModemOpen, ho]), if_neg (not_not.mpr hs), hm]
  dsimp only
  generalize m.getData n = r at hpars hfirst hopen hgot ⊢
  obtain ⟨res, m'⟩ := r
  dsimp only at hpars hfirst hopen hgot ⊢
  have hphase (t30 : T30) : ReadPhase Plain { e with modStreamIn := some m', t30 } := by
    refine ⟨fun x hx => ?_, fun _ => ⟨_, rfl, ?_⟩, fun hr => absurd (hs.symm.trans hr) (by simp)⟩
    · rw [← Option.some.inj hx, hfirst]
      exact ⟨fun _ => hs, fun _ => rfl⟩
    · rw [hpars]
      exact hplain
  refine ⟨hphase _, hs, ?_⟩
  cases res with
  | none =>
    obtain ⟨rfl, hshown⟩ := hgot
    rw [hshown] at hcell
    exact ⟨h.of_eq hm.symm rfl, _, cs, hcell⟩
  | some bs => exact h.of_in hm rfl hopen (by rw [hpars]) hgot rfl

/-- The DTE gets what its buffer gives. -/
theorem recv_result (ho : e.modemOpen = true) (hs : e.stateModem = .stmInRecvData) {b : Buf} (hm : e.modStreamIn = some m)
    (hb : m.firstBuf = some b) (hplain : Plain m.modPars) (n : Nat) : (e.recv n).1 = (b.stream.getData n).1 := by
  have hraw : ¬m.rawOverHdlc = true := by simp [hplain.decoded]
  have htype : ¬m.modPars.dataTypeT38 ≠ m.modPars.dataType := not_not.mpr hplain
  unfold recv
  rw [if_neg (by simp [isModemOpen, ho]), if_neg (not_not.mpr hs), hm]
  dsimp only
  unfold ModStream.getData
  rw [hb]
  dsimp only
  rw [if_neg hraw, if_neg htype]

theorem recv_other (hs : e.stateModem ≠ .stmInRecvData) (n : Nat) : e.recv n = (none, e) := by
  unfold recv
  rw [if_pos hs, ite_self]

/-- The diagnostics are those of the record that the DTE reads. -/
theorem recvDiag_mark (h : Tracks l k got e) (hph : ReadPhase P e) (hs : e.stateModem = .stmInRecvData) {c : Cell Byte Diag}
    {cs : List (Cell Byte Diag)} (hc : l.tape.cells.drop k = c :: cs) : e.recvDiag = c.mark := by
  obtain ⟨m, b, cs', hm, hb, -, hcell⟩ := reading_record h hph hs
  unfold recvDiag
  rw [hm]
  dsimp only
  rw [hb]
  rw [hcell] at hc
  rw [← (List.cons.inj hc).1]
  rfl

/-- A buffer that is closed is not the one that is filled. -/
theorem deleteFirst_isOpen (hf : m.Formed) {b : Buf} (hb : m.firstBuf = some b) (he : b.stream.eof = true) :
    m.deleteFirstBuf.isOpen = m.isOpen := by
  have hne : m.lastBuf ≠ some b.id := by
    intro hl
    obtain ⟨front, b', hbufs, hid, heof, hother⟩ := hf.split hl
    have hmem : b ∈ front ++ [b'] := by
      rw [← hbufs, ModStream.bufs, hb]
      simp
    rcases List.mem_append.mp hmem with hmem | hmem
    · exact hother b hmem rfl
    · rw [List.mem_singleton.mp hmem] at he
      exact absurd (heof.symm.trans he) Bool.false_ne_true
  simp [ModStream.deleteFirstBuf, hb, ModStream.isOpen, hne]

/-- The DTE stops, and has no record. -/
theorem stop_tracks (h : Tracks l k got e) (hph : ReadPhase P e) (hne : e.stateModem ≠ .stmInRecvData)
    (hi : e'.modStreamIn = e.modStreamIn.map ModStream.deleteFirstBuf)
    (hs : e'.modStreamInSaved = e.modStreamInSaved) : Tracks l k [] e' := by
  refine (h.idle hph hne []).of_eq ?_ hs
  rw [hi]
  cases hm : e.modStreamIn with
  | none => rfl
  | some m => rw [Option.map_some, ModStream.deleteFirstBuf_same (deleteFirstBuf_idle hph hne hm)]

/-- The DTE stops behind the end of its record. -/
theorem done_tracks (h : Tracks l k got e) (hph : ReadPhase P e) (hp : e.Paired) (hr : e.stateModem = .stmInRecvData)
    {c : Cell Byte Diag} {cs : List (Cell Byte Diag)} (hc : l.tape.cells.drop k = c :: cs) (hfull : c.full = true)
    (hi : e'.modStreamIn = e.modStreamIn.map ModStream.deleteFirstBuf)
    (hs : e'.modStreamInSaved = e.modStreamInSaved) : Tracks l (k + 1) [] e' := by
  obtain ⟨m, b, cs', hm, hb, -, hcell⟩ := reading_record h hph hr
  rw [hc] at hcell
  obtain ⟨rfl, rfl⟩ := List.cons.inj hcell
  have ho := deleteFirst_isOpen (hp.left m hm) hb hfull
  have hpars : m.deleteFirstBuf.modPars = m.modPars := ModStream.deleteFirstBuf_closes.modPars
  have hi : e'.modStreamIn = some m.deleteFirstBuf := by rw [hi, hm, Option.map_some]
  obtain ⟨-, hk⟩ := Tape.closed_of_drop hc hfull
  have hview : e'.view [] = (e.view got).tail := by
    unfold T38Engine.view
    rw [hi, hs, hm]
    show m.deleteFirstBuf.view [] ++ _ = (m.view got ++ _).tail
    rw [ModStream.deleteFirstBuf_view hb got, ModStream.view_some hb]
    rfl
  refine h.moves hm hi ho (by rw [hpars]) hs hk ?_
  rw [hview, h.view, List.tail_drop]

theorem ReadPhase.stopped (hi : e'.modStreamIn = e.modStreamIn.map ModStream.deleteFirstBuf) (hs : e'.stateModem.isIn = false) :
    ReadPhase P e' := by
  refine ⟨fun m' hm' => ?_, fun hin => absurd (hs.symm.trans hin) Bool.false_ne_true,
    fun hr => absurd hr (ne_of_isIn hs rfl)⟩
  rw [hi] at hm'
  obtain ⟨m, -, rfl⟩ := Option.map_eq_some_iff.mp hm'
  rw [ModStream.deleteFirstBuf_none]
  exact ⟨fun hf => (by cases hf), fun hr => absurd hr (ne_of_isIn hs rfl)⟩

/-- The DTE sends when it has got all records. -/
theorem sendStart_tracks (h : Tracks l k got e) (hph : ReadPhase P e) (hp : e.Paired) (t : DataType) (param : Int)
    (hv : e.stateModem = .stmIdle → e.view [] = []) :
    Tracks l k got (e.sendStart t param).2 ∧ ReadPhase P (e.sendStart t param).2 := by
  have hsame : e.sendStart t param = (false, e) ∨ e.stateModem = .stmIdle ∧
      (e.sendStart t param).2.modStreamIn = none ∧
      (e.modStreamInSaved = none → (e.sendStart t param).2.modStreamInSaved = none) ∧
      (e.sendStart t param).2.stateModem.isIn = false := by
    unfold sendStart
    split
    next => exact .inl rfl
    next =>
      split
      next => exact .inl rfl
      next hidle =>
        have hidle := not_not.mp hidle
        refine .inr ⟨hidle, ?_⟩
        have hst : e.stateModem.isIn = false := by rw [hidle]; rfl
        dsimp only
        split
        · split
          · exact ⟨rfl, id, rfl⟩
          · exact ⟨rfl, id, hst⟩
        · split
          · exact ⟨rfl, fun _ => rfl, rfl⟩
          · exact ⟨rfl, fun _ => rfl, hst⟩
  rcases hsame with he | ⟨hidle, hi, hs, hst⟩
  · rw [he]
    exact ⟨h, hph⟩
  · have hne : e.stateModem ≠ .stmInRecvData := by simp [hidle]
    obtain ⟨hin, hsaved⟩ := List.append_eq_nil_iff.mp (hv hidle)
    have hnone : e.modStreamInSaved = none := by
      by_contra hn
      obtain ⟨m, hm⟩ := Option.ne_none_iff_exists'.mp hn
      exact viewOf_ne.mpr ⟨m, hm, h.saved m hm⟩ hsaved
    have hphase : ReadPhase P (e.sendStart t param).2 := by
      refine ⟨fun m hm => ?_, fun hin => absurd (hst.symm.trans hin) Bool.false_ne_true,
        fun hr => absurd hr (ne_of_isIn hst rfl)⟩
      rw [hi] at hm
      cases hm
    have htr : Tracks l k [] (e.sendStart t param).2 :=
      (h.idle hph hne []).renew hp hin (by rw [hi]; rfl) (by rw [hi]; rfl) (fun m hm => absurd (hi.symm.trans hm) (Option.some_ne_none m).symm) ((hs hnone).trans hnone.symm)
    exact ⟨htr.idle hphase (ne_of_isIn hst rfl) got, hphase⟩

end T38Engine

end T38Modem
