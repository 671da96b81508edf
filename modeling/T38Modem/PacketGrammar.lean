import T38Modem.Ifp

namespace T38Modem

/-- The packets of a frame: its octets in pieces, and whether it was good. -/
def groupPackets (type : MsgType) (g : List (List Byte) × Bool) : List Ifp :=
  g.1.map (t38data type .hdlcData) ++ [t38data type (if g.2 then .hdlcFcsOK else .hdlcFcsBAD) []]

/-- What may follow the first no-signal indicator, any number of times. -/
inductive Item : List Ifp → Prop
  | cng : Item [t38indicator .cng]
  | ced : Item [t38indicator .ced, t38indicator .noSignal]
  | hdlc {m : ModPars} (hm : m ∈ mods) (groups : List (List (List Byte) × Bool)) (hg : ∀ g ∈ groups, g.1 ≠ []) :
      Item (t38indicator m.ind :: groups.flatMap (groupPackets m.msgType) ++
        [t38data m.msgType .hdlcSigEnd [], t38indicator .noSignal])
  | raw {m : ModPars} (hm : m ∈ mods) (pieces : List (List Byte)) :
      Item (t38indicator m.ind :: pieces.map (t38data m.msgType .t4NonEcmData) ++
        [t38data m.msgType .t4NonEcmSigEnd [], t38indicator .noSignal])

/-- The packets of a sender of T.38. -/
def Sentence (w : List Ifp) : Prop :=
  ∃ items : List (List Ifp), (∀ i ∈ items, Item i) ∧ w = t38indicator .noSignal :: items.flatten

/-- What the packets so far have begun and not ended. -/
inductive Stage where
  | start | idle | ced | ended
  | hdlc (m : ModPars) (data : Bool)
  | raw (m : ModPars)

/-- The packets `ps` are well formed and have begun `o`. -/
inductive Begun : Stage → List Ifp → Prop
  | start : Begun .start []
  | noSignal {o : Stage} {ps : List Ifp} (ho : o = .start ∨ o = .ced ∨ o = .ended) (h : Begun o ps) :
      Begun .idle (ps ++ [t38indicator .noSignal])
  | cng {ps : List Ifp} (h : Begun .idle ps) : Begun .idle (ps ++ [t38indicator .cng])
  | ced {ps : List Ifp} (h : Begun .idle ps) : Begun .ced (ps ++ [t38indicator .ced])
  | hdlc {m : ModPars} (hm : m ∈ mods) {ps : List Ifp} (h : Begun .idle ps) :
      Begun (.hdlc m false) (ps ++ [t38indicator m.ind])
  | hdlcData {m : ModPars} {d : Bool} (bs : List Byte) {ps : List Ifp} (h : Begun (.hdlc m d) ps) :
      Begun (.hdlc m true) (ps ++ [t38data m.msgType .hdlcData bs])
  | hdlcFcs {m : ModPars} (ok : Bool) {ps : List Ifp} (h : Begun (.hdlc m true) ps) :
      Begun (.hdlc m false) (ps ++ [t38data m.msgType (if ok then .hdlcFcsOK else .hdlcFcsBAD) []])
  | hdlcSigEnd {m : ModPars} {ps : List Ifp} (h : Begun (.hdlc m false) ps) :
      Begun .ended (ps ++ [t38data m.msgType .hdlcSigEnd []])
  | raw {m : ModPars} (hm : m ∈ mods) {ps : List Ifp} (h : Begun .idle ps) :
      Begun (.raw m) (ps ++ [t38indicator m.ind])
  | rawData {m : ModPars} (bs : List Byte) {ps : List Ifp} (h : Begun (.raw m) ps) :
      Begun (.raw m) (ps ++ [t38data m.msgType .t4NonEcmData bs])
  | rawSigEnd {m : ModPars} {ps : List Ifp} (h : Begun (.raw m) ps) :
      Begun .ended (ps ++ [t38data m.msgType .t4NonEcmSigEnd []])

/-- The part of an item that is begun. -/
inductive Part : Stage → List Ifp → Prop
  | idle : Part .idle []
  | ced : Part .ced [t38indicator .ced]
  | hdlc {m : ModPars} (hm : m ∈ mods) (groups : List (List (List Byte) × Bool)) (hg : ∀ g ∈ groups, g.1 ≠ [])
      (pieces : List (List Byte)) {d : Bool} (hd : d = true ↔ pieces ≠ []) :
      Part (.hdlc m d) (t38indicator m.ind :: groups.flatMap (groupPackets m.msgType) ++
        pieces.map (t38data m.msgType .hdlcData))
  | raw {m : ModPars} (hm : m ∈ mods) (pieces : List (List Byte)) :
      Part (.raw m) (t38indicator m.ind :: pieces.map (t38data m.msgType .t4NonEcmData))
  | ended {part : List Ifp} (h : Item (part ++ [t38indicator .noSignal])) : Part .ended part

/-- A begun item can be brought to its end. -/
theorem Part.complete {o : Stage} {part : List Ifp} (h : Part o part) :
    part = [] ∨ ∃ rest, Item (part ++ rest) := by
  cases h with
  | idle => exact .inl rfl
  | ced => exact .inr ⟨[t38indicator .noSignal], .ced⟩
  | @hdlc m hm groups hg pieces d hd =>
    right
    by_cases hp : pieces = []
    · subst hp
      exact ⟨_, by simpa using Item.hdlc hm groups hg⟩
    · have hall := Item.hdlc hm (groups ++ [(pieces, true)]) (List.forall_mem_append.mpr ⟨hg, List.forall_mem_singleton.mpr hp⟩)
      refine ⟨t38data m.msgType .hdlcFcsOK [] :: [t38data m.msgType .hdlcSigEnd [], t38indicator .noSignal], ?_⟩
      simpa [groupPackets] using hall
  | @raw m hm pieces => exact .inr ⟨_, by simpa using Item.raw hm pieces⟩
  | ended h => exact .inr ⟨_, h⟩

theorem Begun.items {o : Stage} {ps : List Ifp} (h : Begun o ps) :
    (o = .start ∧ ps = []) ∨
      ∃ (items : List (List Ifp)) (part : List Ifp), (∀ i ∈ items, Item i) ∧
        ps = t38indicator .noSignal :: items.flatten ++ part ∧ Part o part := by
  induction h with
  | start => exact .inl ⟨rfl, rfl⟩
  | @noSignal o ps ho _ ih =>
    right
    rcases ih with ⟨-, rfl⟩ | ⟨items, part, hi, rfl, hp⟩
    · exact ⟨[], [], by simp, rfl, .idle⟩
    · rcases ho with rfl | rfl | rfl
      · cases hp
      · cases hp
        exact ⟨items ++ [[t38indicator .ced, t38indicator .noSignal]], [],
          List.forall_mem_append.mpr ⟨hi, List.forall_mem_singleton.mpr .ced⟩, by simp, .idle⟩
      · cases hp with
        | ended hitem =>
          exact ⟨items ++ [part ++ [t38indicator .noSignal]], [],
            List.forall_mem_append.mpr ⟨hi, List.forall_mem_singleton.mpr hitem⟩, by simp, .idle⟩
  | cng _ ih =>
    obtain ⟨h, -⟩ | ⟨items, part, hi, rfl, hp⟩ := ih
    · cases h
    · cases hp
      exact .inr ⟨items ++ [[t38indicator .cng]], [], List.forall_mem_append.mpr ⟨hi, List.forall_mem_singleton.mpr .cng⟩, by simp, .idle⟩
  | ced _ ih =>
    obtain ⟨h, -⟩ | ⟨items, part, hi, rfl, hp⟩ := ih
    · cases h
    · cases hp
      exact .inr ⟨items, [t38indicator .ced], hi, by simp, .ced⟩
  | @hdlc m hm _ _ ih =>
    obtain ⟨h, -⟩ | ⟨items, part, hi, rfl, hp⟩ := ih
    · cases h
    · cases hp
      exact .inr ⟨items, [t38indicator m.ind], hi, by simp, .hdlc hm [] (by simp) [] (by simp)⟩
  | @hdlcData m d bs _ _ ih =>
    obtain ⟨h, -⟩ | ⟨items, part, hi, rfl, hp⟩ := ih
    · cases h
    · cases hp with
      | hdlc hm groups hg pieces hd =>
        refine .inr ⟨items, _, hi, List.append_assoc _ _ _, ?_⟩
        simpa using Part.hdlc hm groups hg (pieces ++ [bs]) (d := true) (by simp)
  | @hdlcFcs m ok _ _ ih =>
    obtain ⟨h, -⟩ | ⟨items, part, hi, rfl, hp⟩ := ih
    · cases h
    · cases hp with
      | hdlc hm groups hg pieces hd =>
        refine .inr ⟨items, _, hi, List.append_assoc _ _ _, ?_⟩
        have hall := Part.hdlc hm (groups ++ [(pieces, ok)])
          (List.forall_mem_append.mpr ⟨hg, List.forall_mem_singleton.mpr (hd.mp rfl)⟩) [] (d := false) (by simp)
        simpa [groupPackets] using hall
  | @hdlcSigEnd m _ _ ih =>
    obtain ⟨h, -⟩ | ⟨items, part, hi, rfl, hp⟩ := ih
    · cases h
    · cases hp with
      | hdlc hm groups hg pieces hd =>
        obtain rfl : pieces = [] := by
          by_contra hne
          cases hd.mpr hne
        refine .inr ⟨items, _, hi, List.append_assoc _ _ _, .ended ?_⟩
        simpa using Item.hdlc hm groups hg
  | @raw m hm _ _ ih =>
    obtain ⟨h, -⟩ | ⟨items, part, hi, rfl, hp⟩ := ih
    · cases h
    · cases hp
      exact .inr ⟨items, [t38indicator m.ind], hi, by simp, .raw hm []⟩
  | @rawData m bs _ _ ih =>
    obtain ⟨h, -⟩ | ⟨items, part, hi, rfl, hp⟩ := ih
    · cases h
    · cases hp with
      | raw hm pieces =>
        refine .inr ⟨items, _, hi, List.append_assoc _ _ _, ?_⟩
        simpa using Part.raw hm (pieces ++ [bs])
  | @rawSigEnd m _ _ ih =>
    obtain ⟨h, -⟩ | ⟨items, part, hi, rfl, hp⟩ := ih
    · cases h
    · cases hp with
      | raw hm pieces =>
        refine .inr ⟨items, _, hi, List.append_assoc _ _ _, .ended ?_⟩
        simpa using Item.raw hm pieces

/-- What is begun is the beginning of a sentence. -/
theorem Begun.prefix_sentence {o : Stage} {ps : List Ifp} (h : Begun o ps) : ∃ w, Sentence w ∧ ps <+: w := by
  rcases h.items with ⟨-, rfl⟩ | ⟨items, part, hi, rfl, hp⟩
  · exact ⟨_, ⟨[], by simp, rfl⟩, List.nil_prefix⟩
  · rcases hp.complete with rfl | ⟨rest, hitem⟩
    · exact ⟨_, ⟨items, hi, rfl⟩, by simp⟩
    · refine ⟨_, ⟨items ++ [part ++ rest], List.forall_mem_append.mpr ⟨hi, List.forall_mem_singleton.mpr hitem⟩, rfl⟩, rest, ?_⟩
      simp

end T38Modem
