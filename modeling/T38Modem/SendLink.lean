import T38Modem.Transmission
import T38Modem.HdlcSending

namespace T38Modem

/-- The data that the thread in `PreparePacket` has read and not made a packet of. -/
def AfterOut.limbo : AfterOut → List Byte
  | .data (some bs) => bs
  | _ => []

/-- The signal that is to be sent, or is being sent, hands through what the modem sends. -/
structure T38Engine.Signals (ind : Indicator) (t : DataType) (e : T38Engine) : Prop where
  row : e.modParsOut.ind = ind
  training : ind ≠ .noSignal
  data : e.modParsOut.dataType = t
  t38 : e.modParsOut.dataTypeT38 = t
  kind : t = .dtHdlc ∨ t = .dtRaw

/-- How far the signal has come while data may be left. -/
inductive Phase (h : Heard) (limbo : List Byte) (e : T38Engine) : Prop
  | before (hs : e.stateOut = .stOutIdle ∨ e.stateOut = .stOutNoSig) (hb : h.begun = false) (hd : h.data = [])
      (hl : limbo = [])
  | indWait (hs : e.stateOut = .stOutIndWait) (hb : h.begun = true) (hd : h.data = []) (hl : limbo = [])
  | data (hs : e.stateOut = .stOutData) (hb : h.begun = true) (hc : e.countOut = 0 ↔ h.data = [])
      (direct : e.hdlcOut.Direct)

/-- What is heard, what is on its way and what `bufOut` holds are together what the modem has got in. -/
inductive Link (t : DataType) (h : Heard) (a : Accepted) (limbo : List Byte) (e : T38Engine) : Prop
  | more (hm : e.stateModem = .stmOutMoreData) (hp : Phase h limbo e) (he : h.ended = false)
      (eof : e.bufOut.eof = false) (hg : ∀ f ∈ a.frames, f.2 = true) (hf : h.frames = closed a.frames)
      (hd : h.data ++ limbo ++ e.bufOut.data = a.data) (raw : t = .dtRaw → a.frames = [])
  | last (done : List (List Byte × Bool)) (sec : List Byte) (hm : e.stateModem = .stmOutNoMoreData)
      (hp : Phase h limbo e) (he : h.ended = false) (eof : e.bufOut.eof = true)
      (ha : a = ⟨done ++ [(sec, e.moreFramesOut)], []⟩) (hg : ∀ f ∈ done, f.2 = true) (hf : h.frames = closed done)
      (hd : h.data ++ limbo ++ e.bufOut.data = sec) (raw : t = .dtRaw → done = [])
  | fcs (done : List (List Byte × Bool)) (hm : e.stateModem = .stmOutNoMoreData) (hs : e.stateOut = .stOutHdlcFcs)
      (he : h.ended = false) (hb : h.begun = true) (hc : e.countOut = 0 ↔ h.data = []) (hl : limbo = [])
      (ha : a = ⟨done ++ [(h.data, e.moreFramesOut)], []⟩) (hg : ∀ f ∈ done, f.2 = true) (hf : h.frames = closed done)
      (ht : t = .dtHdlc)
  | sent (hm : e.stateModem = .stmOutNoMoreData) (hs : e.stateOut = .stOutDataNoSig) (he : h.ended = false)
      (hb : h.begun = true) (hl : limbo = []) (hd : Delivered h a t)
  | past (hm : e.stateModem.isOut = false) (he : h.ended = true) (hb : h.begun = true) (hd : Delivered h a t)

namespace Heard

variable {ind : Indicator} {h : Heard}

theorem packet_field (hb : h.begun = true) (type : MsgType) (f : FieldType) (bs : List Byte) :
    h.packet ind (some (t38data type f bs)) = h.field ⟨f, if bs = [] then none else some bs⟩ := by
  simp [packet, t38data, t38indicator, hb, Ifp.fields]

theorem packet_indicator (hb : h.begun = true) (i : Indicator) : h.packet ind (some (t38indicator i)) = h := by
  obtain ⟨begun, frames, data, ended⟩ := h
  cases hb
  simp only [packet, t38indicator, Ifp.fields]
  split <;> rfl

theorem packet_other (hb : h.begun = false) {p : Ifp} (hp : p ≠ t38indicator ind) : h.packet ind (some p) = h := by
  simp [packet, hb, hp]

theorem packet_begins : h.packet ind (some (t38indicator ind)) = { h with begun := true } := by
  simp [packet]

end Heard

namespace Link

variable {t : DataType} {h h' : Heard} {a : Accepted} {limbo limbo' : List Byte} {e e' : T38Engine}

/-- The signal comes further without ending what it has begun. -/
theorem moves (hk : Link t h a limbo e) (hout : e.stateModem.isOut = true)
    (hs : e.stateOut ≠ .stOutHdlcFcs ∧ e.stateOut ≠ .stOutDataNoSig) (hm : e'.stateModem = e.stateModem)
    (hmore : e'.moreFramesOut = e.moreFramesOut) (heof : e'.bufOut.eof = e.bufOut.eof) (hf : h'.frames = h.frames)
    (he : h'.ended = h.ended) (hd : h'.data ++ limbo' ++ e'.bufOut.data = h.data ++ limbo ++ e.bufOut.data)
    (hp : Phase h limbo e → Phase h' limbo' e') : Link t h' a limbo' e' := by
  cases hk with
  | more hm' hp' he' eof hg hf' hd' raw =>
    exact .more (hm.trans hm') (hp hp') (he.trans he') (heof.trans eof) hg (hf.trans hf') (hd.trans hd') raw
  | last done sec hm' hp' he' eof ha hg hf' hd' raw =>
    exact .last done sec (hm.trans hm') (hp hp') (he.trans he') (heof.trans eof) (hmore ▸ ha) hg (hf.trans hf')
      (hd.trans hd') raw
  | fcs _ _ hs' => exact absurd hs' hs.1
  | sent _ hs' => exact absurd hs' hs.2
  | past hm' => exact absurd (hm'.symm.trans hout) nofun

/-- The closed data has come to its end. -/
theorem ends (hk : Link t h a [] e) (ht : t = .dtHdlc ∨ t = .dtRaw) (hs : e.stateOut = .stOutData)
    (hout : e.stateModem.isOut = true) (hd : e.bufOut.data = []) (heof : e.bufOut.eof = true)
    (hm : e'.stateModem = e.stateModem) (hmore : e'.moreFramesOut = e.moreFramesOut)
    (hc : e'.countOut = e.countOut)
    (hs' : e'.stateOut = if t = .dtHdlc then .stOutHdlcFcs else .stOutDataNoSig) : Link t h a [] e' := by
  cases hk with
  | more _ _ _ eof => exact absurd (eof.symm.trans heof) nofun
  | last done sec hm' hp he _ ha hg hf hd' raw =>
    have hsec : h.data = sec := by simpa [hd] using hd'
    subst hsec
    cases hp with
    | before h' => rcases h' with h' | h' <;> exact absurd (hs.symm.trans h') nofun
    | indWait h' => exact absurd (hs.symm.trans h') nofun
    | data _ hb hcount _ =>
      rcases ht with rfl | rfl
      · exact .fcs done (hm.trans hm') hs' he hb (hc ▸ hcount) rfl (hmore ▸ ha) hg hf rfl
      · obtain rfl := raw rfl
        exact .sent (hm.trans hm') hs' he hb rfl (.raw _ _ ha hf rfl)
  | fcs _ _ h' => exact absurd (hs.symm.trans h') nofun
  | sent _ h' => exact absurd (hs.symm.trans h') nofun
  | past hm' => exact absurd (hm'.symm.trans hout) nofun

end Link

/-- What a part of `PreparePacket` leaves is linked to what the modem has got in. -/
def Outcome.Links (ind : Indicator) (t : DataType) (h : Heard) (a : Accepted) : Outcome → Prop
  | .exit _ _ => False
  | .done e l _ => Link t (h.packet ind l.ifp) a [] e
  | .call e l _ _ after => after ≠ .data none ∧ Link t (h.packet ind l.ifp) a after.limbo e

section

variable {ind : Indicator} {t : DataType} {h : Heard} {a : Accepted} {e : T38Engine} {l : Locals}

theorem Link.redo (hk : Link t h a [] e) (hl : l.Clean) :
    (Outcome.done e { l with redo := true } false).Links ind t h a := by
  simp only [Outcome.Links, hl.2]
  exact hk

theorem Link.wait (hk : Link t h a [] e) (hl : l.Clean) : (Outcome.done e l true).Links ind t h a := by
  simp only [Outcome.Links, hl.2]
  exact hk

theorem Link.call {bs : List Byte} (hk : Link t h a bs e) (after : AfterOut) (hl : l.Clean) (hbs : after.limbo = bs)
    (ha : after ≠ .data none) (kind : Callback) (extra : Int) :
    (Outcome.call e l kind extra after).Links ind t h a := by
  simp only [Outcome.Links, hl.2, hbs]
  exact ⟨ha, hk⟩

end

namespace T38Engine

variable {ind : Indicator} {t : DataType} {h : Heard} {a : Accepted} {e : T38Engine} {now : Int} {l : Locals}

theorem outIdle_links (hk : Link t h a [] e) (hsig : e.Signals ind t) (hl : l.Clean) (hs : e.stateOut = .stOutIdle)
    (hout : e.stateModem.isOut = true) : (e.outIdle now l).Links ind t h a := by
  have stay {e' : T38Engine} (hs' : e'.stateOut = e.stateOut) (hb : e'.bufOut = e.bufOut)
      (hm : e'.stateModem = e.stateModem) (hmore : e'.moreFramesOut = e.moreFramesOut) : Link t h a [] e' := by
    refine hk.moves hout (by simp [hs]) hm hmore (by rw [hb]) rfl rfl (by rw [hb]) fun hp => ?_
    cases hp with
    | before _ hb hd hl => exact .before (.inl (hs'.trans hs)) hb hd hl
    | indWait h' => exact absurd (hs.symm.trans h') nofun
    | data h' => exact absurd (hs.symm.trans h') nofun
  unfold outIdle
  split
  · exact hk.redo hl
  · have hw := Sends.waitCarrier_same { e with delaySignalOut := false } now
    have hb := ({ e with delaySignalOut := false } : T38Engine).waitCarrier_bufOut now
    have hsame := ({ e with delaySignalOut := false } : T38Engine).waitCarrier_sameIn now
    dsimp only at hw hb
    split
    next e' he =>
      rw [he] at hw hb hsame
      obtain ⟨h1, -, -, h4, -⟩ := hw
      exact (stay h1 hb h4 (congrArg Prod.fst hsame.stop)).redo hl
    next e' he =>
      rw [he] at hw hb hsame
      obtain ⟨h1, h2, -, h4, -⟩ := hw
      have hnext : Link t (h.packet ind (some (t38indicator e'.modParsOut.ind))) a []
          { e' with stateOut := .stOutIndWait } := by
        have hind : e'.modParsOut.ind = ind := by rw [h2]; exact hsig.row
        rw [hind, Heard.packet_begins]
        refine hk.moves hout (by simp [hs]) h4 (congrArg Prod.fst hsame.stop) (by rw [← hb]) rfl rfl (by rw [← hb])
          fun hp => ?_
        cases hp with
        | before _ _ hd hl => exact .indWait rfl rfl hd hl
        | indWait h' => exact absurd (hs.symm.trans h') nofun
        | data h' => exact absurd (hs.symm.trans h') nofun
      have ht38 : e'.modParsOut.dataTypeT38 = t := by rw [h2]; exact hsig.t38
      rw [ht38]
      rcases hsig.kind with rfl | rfl
      · exact hnext
      · exact hnext

theorem outNoSig_links (hk : Link t h a [] e) (hsig : e.Signals ind t) (hs : e.stateOut = .stOutNoSig)
    (hout : e.stateModem.isOut = true) : (e.outNoSig now l).Links ind t h a := by
  have hb : h.begun = false ∨ h.begun = true := by cases h.begun <;> simp
  have hpacket : h.packet ind (some (t38indicator .noSignal)) = h := by
    rcases hb with hb | hb
    · exact Heard.packet_other hb fun he => hsig.training (by cases he; rfl)
    · exact Heard.packet_indicator hb _
  show Link t (h.packet ind (some (t38indicator .noSignal))) a [] _
  rw [hpacket]
  refine hk.moves hout (by simp [hs]) rfl rfl rfl rfl rfl rfl fun hp => ?_
  cases hp with
  | before _ hb hd hl => exact .before (.inl rfl) hb hd hl
  | indWait h' => exact absurd (hs.symm.trans h') nofun
  | data h' => exact absurd (hs.symm.trans h') nofun

theorem outIndWait_links (hk : Link t h a [] e) (hsig : e.Signals ind t) (hl : l.Clean)
    (hs : e.stateOut = .stOutIndWait) (hout : e.stateModem.isOut = true) : (e.outIndWait now l).Links ind t h a := by
  have next {e' : T38Engine} (hm : e'.stateModem = e.stateModem) (hmore : e'.moreFramesOut = e.moreFramesOut)
      (hb : e'.bufOut = e.bufOut) (hs' : e'.stateOut = .stOutData) (hc : e'.countOut = 0)
      (hd : e'.hdlcOut.Direct) : Link t h a [] e' := by
    refine hk.moves hout (by simp [hs]) hm hmore (by rw [hb]) rfl rfl (by rw [hb]) fun hp => ?_
    cases hp with
    | before h' => rcases h' with h' | h' <;> exact absurd (hs.symm.trans h') nofun
    | indWait _ hb hd' _ => exact .data hs' hb (by simp [hc, hd']) hd
    | data h' => exact absurd (hs.symm.trans h') nofun
  unfold outIndWait
  rcases hsig.kind with rfl | rfl
  · simp only [hsig.data, hsig.t38]
    exact Link.redo (next rfl rfl rfl rfl rfl ⟨.inl ⟨rfl, rfl⟩, by simp [Hdlc.getHdlcStart, Hdlc.putHdlcData]⟩) hl
  · simp only [hsig.data, hsig.t38]
    exact Link.redo (next rfl rfl rfl rfl rfl ⟨.inr ⟨rfl, rfl⟩, by simp [Hdlc.getRawStart, Hdlc.putRawData]⟩) hl

/-- What was read goes into a packet. -/
theorem dataSwitch_links {bs : List Byte} (hk : Link t h a bs e) (hsig : e.Signals ind t) (hl : l.Clean)
    (hs : e.stateOut = .stOutData) (hout : e.stateModem.isOut = true) :
    (e.dataSwitch now l (some bs)).Links ind t h a := by
  have hdata : Phase h bs e → h.begun = true ∧ e.hdlcOut.Direct ∧ (e.countOut = 0 ↔ h.data = []) := fun hp => by
    cases hp with
    | before h' => rcases h' with h' | h' <;> exact absurd (hs.symm.trans h') nofun
    | indWait h' => exact absurd (hs.symm.trans h') nofun
    | data _ hb hc hd => exact ⟨hb, hd, hc⟩
  cases bs with
  | nil =>
    have stay {e' : T38Engine} (hm : e'.stateModem = e.stateModem) (hmore : e'.moreFramesOut = e.moreFramesOut)
        (hb : e'.bufOut = e.bufOut) (hs' : e'.stateOut = .stOutData) (hc : e'.countOut = e.countOut)
        (hd : e'.hdlcOut = e.hdlcOut) : Link t h a [] e' := by
      refine hk.moves hout (by simp [hs]) hm hmore (by rw [hb]) rfl rfl (by rw [hb]) fun hp => ?_
      obtain ⟨hb, hdirect, hcount⟩ := hdata hp
      exact .data hs' hb (hc ▸ hcount) (hd ▸ hdirect)
    unfold dataSwitch
    dsimp only
    split
    · exact hk.call .wait hl rfl nofun _ _
    · split
      · exact Link.wait (stay rfl rfl rfl hs rfl rfl) hl
      · split
        · exact hk.call .wait hl rfl nofun _ _
        · exact hk.wait hl
  | cons b bs =>
    have hbegun : h.begun = true := by
      cases hk with
      | more _ hp => exact (hdata hp).1
      | last _ _ _ hp => exact (hdata hp).1
      | fcs _ _ _ _ hb => exact hb
      | sent _ _ _ hb => exact hb
      | past _ _ hb => exact hb
    have next (f : FieldType) (hf : h.field ⟨f, some (b :: bs)⟩ = { h with data := h.data ++ b :: bs })
        {e' : T38Engine} (hm : e'.stateModem = e.stateModem)
        (hmore : e'.moreFramesOut = e.moreFramesOut) (hb : e'.bufOut = e.bufOut) (hs' : e'.stateOut = .stOutData)
        (hc : e'.countOut = e.countOut + (b :: bs).length) (hd : e'.hdlcOut = e.hdlcOut) :
        Link t (h.packet ind (some (t38data e.modParsOut.msgType f (b :: bs)))) a [] e' := by
      rw [Heard.packet_field hbegun, if_neg (by simp), hf]
      refine hk.moves hout (by simp [hs]) hm hmore (by rw [hb]) rfl rfl (by rw [hb]; simp) fun hp => ?_
      obtain ⟨hb, hdirect, -⟩ := hdata hp
      exact .data hs' hb (by simp [hc]) (hd ▸ hdirect)
    unfold dataSwitch
    rcases hsig.kind with rfl | rfl
    · simp only [hsig.t38]
      exact next .hdlcData rfl rfl rfl rfl hs rfl rfl
    · simp only [hsig.t38]
      exact next .t4NonEcmData rfl rfl rfl rfl hs rfl rfl

theorem outData_links (hk : Link t h a [] e) (hsig : e.Signals ind t) (hl : l.Clean) (hs : e.stateOut = .stOutData)
    (hout : e.stateModem.isOut = true) : (e.outData now l).Links ind t h a := by
  have direct : e.hdlcOut.Direct := by
    have of_phase (hp : Phase h [] e) : e.hdlcOut.Direct := by
      cases hp with
      | before h' => rcases h' with h' | h' <;> exact absurd (hs.symm.trans h') nofun
      | indWait h' => exact absurd (hs.symm.trans h') nofun
      | data _ _ _ hd => exact hd
    cases hk with
    | more _ hp => exact of_phase hp
    | last _ _ _ hp => exact of_phase hp
    | fcs _ _ h' => exact absurd (hs.symm.trans h') nofun
    | sent _ h' => exact absurd (hs.symm.trans h') nofun
    | past hm => exact absurd (hm.symm.trans hout) nofun
  obtain ⟨g, hget, hkind, hin⟩ := direct.getData e.bufOut (dataLen e.modParsOut.br)
  unfold outData
  rw [hget]
  have heof := e.bufOut.getData_same (dataLen e.modParsOut.br)
  cases hr : e.bufOut.getData (dataLen e.modParsOut.br) with
  | mk res bufOut =>
    rw [hr] at heof hin
    dsimp only at heof hin ⊢
    cases res with
    | none =>
      have hnone : (e.bufOut.getData (dataLen e.modParsOut.br)).1 = none := by rw [hr]
      obtain rfl : bufOut = e.bufOut := by
        have := DataStream.getData_none_state hnone
        rwa [hr] at this
      obtain ⟨hempty, hend⟩ := DataStream.getData_none.mp hnone
      rw [if_neg (by simp)]
      unfold dataSwitch
      dsimp only
      rcases hsig.kind with rfl | rfl
      · simp only [hsig.t38]
        exact Link.redo (hk.ends (.inl rfl) hs hout hempty hend rfl rfl rfl rfl) hl
      · simp only [hsig.t38]
        exact Link.redo (hk.ends (.inr rfl) hs hout hempty hend rfl rfl rfl rfl) hl
    | some bs =>
      have hread : bs ++ bufOut.data = e.bufOut.data := by
        have := (DataStream.getData_some (s := e.bufOut) (n := dataLen e.modParsOut.br) (by rw [hr])).1
        rwa [hr] at this
      have hk' : Link t h a bs { e with hdlcOut := g, bufOut } := by
        refine hk.moves hout (by simp [hs]) rfl rfl heof.1 rfl rfl ?_ fun hp => ?_
        · simp only [List.append_assoc, List.nil_append, hread]
        · cases hp with
          | before h' => rcases h' with h' | h' <;> exact absurd (hs.symm.trans h') nofun
          | indWait h' => exact absurd (hs.symm.trans h') nofun
          | data _ hb hc hd =>
            refine .data hs hb hc ⟨?_, ?_⟩
            · rw [hkind.inDataType, hkind.outDataType]
              exact hd.types
            · rw [hin (by simp)]
              exact hd.attached
      split
      · exact hk'.call (.data (some bs)) hl rfl (by simp) _ _
      · exact dataSwitch_links hk' ⟨hsig.row, hsig.training, hsig.data, hsig.t38, hsig.kind⟩ hl hs hout

theorem outHdlcFcs_links (hk : Link t h a [] e) (hsig : e.Signals ind t) (hl : l.Clean)
    (hs : e.stateOut = .stOutHdlcFcs) (hout : e.stateModem.isOut = true) : (e.outHdlcFcs l).Links ind t h a := by
  have of_phase (hp : Phase h [] e) : False := by
    cases hp with
    | before h' => rcases h' with h' | h' <;> exact absurd (hs.symm.trans h') nofun
    | indWait h' => exact absurd (hs.symm.trans h') nofun
    | data h' => exact absurd (hs.symm.trans h') nofun
  cases hk with
  | more _ hp => exact (of_phase hp).elim
  | last _ _ _ hp => exact (of_phase hp).elim
  | sent _ h' => exact absurd (hs.symm.trans h') nofun
  | past hm => exact absurd (hm.symm.trans hout) nofun
  | fcs done hm _ he hb hc _ ha hg hf ht =>
    subst ht
    -- the packet that closes the frame, if there is one
    have hclose (t30 : T30) : h.packet ind (({ e with t30 } : T38Engine).closeFrame l .hdlcFcsOK).ifp =
        { h with frames := closed (done ++ [(h.data, e.moreFramesOut)]), data := [] } := by
      unfold closeFrame
      split
      next hne =>
        have hdata : h.data ≠ [] := fun hd => hne (hc.mpr hd)
        rw [Heard.packet_field hb, closed_append, closed_one hdata, ← hf]
        rfl
      next heq =>
        have hdata : h.data = [] := hc.mp (not_not.mp heq)
        rw [closed_append, hdata, closed_nil, List.append_nil, ← hf, ← hdata]
        simp only [hl.2]
        rfl
    unfold outHdlcFcs
    dsimp only
    rw [if_neg (by simp [hsig.data]), if_neg (by simp [hm])]
    split
    next hmore =>
      refine ⟨nofun, ?_⟩
      rw [hclose]
      refine .more rfl (.data rfl hb (by simp) ⟨.inl ⟨rfl, rfl⟩, nofun⟩) he rfl (fun f hf => ?_) (by rw [ha]) (by rw [ha]; rfl) nofun
      rw [ha] at hf
      rcases List.mem_append.mp hf with hf | hf
      · exact hg f hf
      · rw [List.mem_singleton.mp hf]
        exact hmore
    next hmore =>
      show Link _ (h.packet ind _) a [] _
      rw [hclose]
      rw [show e.moreFramesOut = false by simpa using hmore] at ha ⊢
      exact .sent hm rfl he hb rfl (.hdlc done h.data ha hg (by rw [ha]) rfl)

theorem outDataNoSig_links (hk : Link t h a [] e) (hsig : e.Signals ind t) (hs : e.stateOut = .stOutDataNoSig)
    (hout : e.stateModem.isOut = true) : (e.outDataNoSig l).Links ind t h a := by
  have of_phase (hp : Phase h [] e) : False := by
    cases hp with
    | before h' => rcases h' with h' | h' <;> exact absurd (hs.symm.trans h') nofun
    | indWait h' => exact absurd (hs.symm.trans h') nofun
    | data h' => exact absurd (hs.symm.trans h') nofun
  cases hk with
  | more _ hp => exact (of_phase hp).elim
  | last _ _ _ hp => exact (of_phase hp).elim
  | fcs _ _ h' => exact absurd (hs.symm.trans h') nofun
  | past hm => exact absurd (hm.symm.trans hout) nofun
  | sent hm _ he hb _ hd =>
    have hover {h' : Heard} (he' : h' = { h with ended := true }) {e' : T38Engine} (hm' : e'.stateModem = .stmIdle) :
        Link t h' a [] e' := by
      subst he'
      refine .past (by rw [hm']; rfl) rfl hb ?_
      cases hd with
      | hdlc done last ha more hf hd => exact .hdlc done last ha more hf hd
      | raw last more ha hf hd => exact .raw last more ha hf hd
    unfold outDataNoSig
    rw [if_neg (by simp [hm])]
    dsimp only
    rcases hsig.kind with rfl | rfl
    · simp only [hsig.t38]
      exact ⟨nofun, hover (Heard.packet_field hb _ _ _) rfl⟩
    · simp only [hsig.t38]
      exact ⟨nofun, hover (Heard.packet_field hb _ _ _) rfl⟩

/-- When the modem does not send, nothing is added to what was heard. -/
theorem over_links (hk : Link t h a [] e) (hl : l.Clean) (hout : e.stateModem.isOut = false)
    (hs : e.stateOut = .stOutIdle ∨ e.stateOut = .stOutNoSig) : (e.prepare now l).Links ind t h a := by
  have not_out {m : StateModem} (hm : e.stateModem = m) (ho : m.isOut = true) : False := by
    rw [hm, ho] at hout
    cases hout
  cases hk with
  | more hm => exact (not_out hm rfl).elim
  | last _ _ hm => exact (not_out hm rfl).elim
  | fcs _ hm => exact (not_out hm rfl).elim
  | sent hm => exact (not_out hm rfl).elim
  | past _ he hb hd =>
    have stay {i : Option Ifp} (hi : h.packet ind i = h) {e' : T38Engine} (hm : e'.stateModem = e.stateModem) :
        Link t (h.packet ind i) a [] e' := by
      rw [hi]
      exact .past (by rw [hm]; exact hout) he hb hd
    unfold prepare
    rcases hs with hs | hs
    · rw [if_neg (by simp [hout, hs])]
      unfold onIdle
      split
      · exact stay (Heard.packet_indicator hb _) rfl
      · exact stay (by rw [hl.2]; rfl) rfl
    · rw [if_pos (by simp [hs])]
      simp only [hs]
      exact stay (Heard.packet_indicator hb _) rfl

/-- The body of `PreparePacket` neither loses nor adds nor misplaces an octet. -/
theorem prepare_links {o : Stage} (hk : Link t h a [] e) (hsig : e.Signals ind t) (hsend : Sends o e) (hl : l.Clean) :
    (e.prepare now l).Links ind t h a := by
  cases hout : e.stateModem.isOut with
  | false => exact over_links hk hl hout (hsend.quiet hout)
  | true =>
    have timed (hs : e.stateOut = .stOutCedWait ∨ e.stateOut = .stOutSilenceWait) : False := by
      have of_phase (hp : Phase h [] e) : False := by
        cases hp with
        | before h' => rcases hs with hs | hs <;> rcases h' with h' | h' <;> exact absurd (hs.symm.trans h') nofun
        | indWait h' => rcases hs with hs | hs <;> exact absurd (hs.symm.trans h') nofun
        | data h' => rcases hs with hs | hs <;> exact absurd (hs.symm.trans h') nofun
      cases hk with
      | more _ hp => exact of_phase hp
      | last _ _ _ hp => exact of_phase hp
      | fcs _ _ h' => rcases hs with hs | hs <;> exact absurd (hs.symm.trans h') nofun
      | sent _ h' => rcases hs with hs | hs <;> exact absurd (hs.symm.trans h') nofun
      | past hm => exact absurd (hm.symm.trans hout) nofun
    unfold prepare
    rw [if_pos (.inl hout)]
    cases hs : e.stateOut with
    | stOutIdle => exact outIdle_links hk hsig hl hs hout
    | stOutCedWait => exact (timed (.inl hs)).elim
    | stOutSilenceWait => exact (timed (.inr hs)).elim
    | stOutIndWait => exact outIndWait_links hk hsig hl hs hout
    | stOutData => exact outData_links hk hsig hl hs hout
    | stOutHdlcFcs => exact outHdlcFcs_links hk hsig hl hs hout
    | stOutDataNoSig => exact outDataNoSig_links hk hsig hs hout
    | stOutNoSig => exact outNoSig_links hk hsig hs hout

end T38Engine

end T38Modem
