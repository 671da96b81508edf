import T38Modem.CheckQuiet
import T38Modem.DleEncode
import T38Modem.ModemSystem

namespace T38Modem

namespace DLEData

variable {d : DLEData} {count : Nat}

/-- A call that has room for all that is left gives all. -/
theorem getDleData_all (h : d.recvEtx = false) (he : d.eof = true) (hc : 2 * d.data.length + 8 ≤ count)
    (hl : d.data.length ≤ 1024) :
    d.getDleData count = (some (encoded d.bitRev d.data), { d with data := [], recvEtx := true }) := by
  -- the last round comes to the end of the stream
  have hlast : ∀ n out, out.length + 4 ≤ count →
      getLoop count (n + 1) { d with data := [] } out =
        (out ++ [DLE, ETX], { d with data := [], recvEtx := true }) := by
    intro n out hn
    rw [getLoop, if_pos (by omega)]
    dsimp only
    rw [DataStream.getData, if_pos rfl, if_pos he]
  obtain ⟨m, rfl⟩ : ∃ m, count = m + 2 := ⟨count - 2, by omega⟩
  have hloop : getLoop (m + 2) (m + 2) d [] = (encoded d.bitRev d.data, { d with data := [], recvEtx := true }) := by
    cases hd : d.data with
    | nil =>
      have hsame : d = { d with data := [] } := by rw [← hd]
      rw [hsame, hlast (m + 1) [] (by simp only [List.length_nil]; omega)]
      rfl
    | cons c cs =>
      rw [hd] at hc hl
      rw [getLoop, if_pos (by simp only [List.length_nil]; omega)]
      dsimp only
      generalize hg : (if (m + 2 - ([] : List Byte).length - 2) / 2 > 1024 then 1024
        else (m + 2 - ([] : List Byte).length - 2) / 2) = cGet
      have hget : (c :: cs).length ≤ cGet := by
        rw [← hg]
        simp only [List.length_cons, List.length_nil] at hc hl ⊢
        split <;> omega
      rw [DataStream.getData, if_neg (by simp [hd]), hd, List.take_of_length_le hget, List.drop_of_length_le hget]
      dsimp only
      rw [flatMap_encode, hlast m _ ?_]
      · rfl
      · have hb := (length_body d.bitRev (c :: cs)).2
        simp only [List.nil_append]
        omega
  rw [getDleData, if_neg (by simp [h]), hloop]

end DLEData

namespace ModemEngineBody

open DLEData

/-- What of the modem has to do with a receive. -/
structure RecvSide where
  state : ModemState
  off_hook : Bool
  callState : CallState
  modemClass : ModemClass
  engine : Bool
  dataType : DataType
  dleData : DLEData
  dataCount : Nat
  fcs : Fcs

def recvSide (b : ModemEngineBody) : RecvSide :=
  { state := b.state
    off_hook := b.off_hook
    callState := b.callState
    modemClass := b.modemClass
    engine := b.currentClassEngine.isSome
    dataType := b.dataType
    dleData := b.dleData
    dataCount := b.dataCount
    fcs := b.fcs }

/-- A receive of a frame is going on, on a line on which no call is coming in. -/
structure Listening (b : ModemEngineBody) : Prop where
  modemClass : b.modemClass = .mcFax
  engine : b.currentClassEngine.isSome = true
  dataType : b.dataType = .dtHdlc
  bitRev : b.dleData.bitRev = true
  quiet : ¬(b.off_hook = false ∧ b.callState = .cstCalled)

variable {a : Answers} {b b' : ModemEngineBody} {resp : Option ResultCode}

theorem Listening.engine_ne (h : Listening b) : ¬b.currentClassEngine.isNone = true := by
  have := h.engine
  rw [Option.isSome_iff_ne_none] at this
  rwa [Option.isNone_iff_eq_none]

theorem Listening.congr (h : Listening b) (he : b'.recvSide = b.recvSide) : Listening b' := by
  have hs := congrArg RecvSide.state he
  refine ⟨?_, ?_, ?_, ?_, ?_⟩
  · exact (congrArg RecvSide.modemClass he).trans h.modemClass
  · exact (congrArg RecvSide.engine he).trans h.engine
  · exact (congrArg RecvSide.dataType he).trans h.dataType
  · exact (congrArg (·.dleData.bitRev) he).trans h.bitRev
  · intro hq
    exact h.quiet ⟨(congrArg RecvSide.off_hook he).symm.trans hq.1, (congrArg RecvSide.callState he).symm.trans hq.2⟩

/-- In a receive `CheckState` comes to its last `switch` with nothing done. -/
theorem checkState_listening (h : Listening b) (hs : b.state = .stRecv ∨ b.state = .stRecvBegHandle) :
    ∃ b' : ModemEngineBody, b'.recvSide = b.recvSide ∧ b.checkState a = b'.switchState a none := by
  have hst : b.state.untimed = true := by rcases hs with hs | hs <;> rw [hs] <;> rfl
  obtain ⟨t, t', t'', n, resp, he, hr⟩ := checkState_quiet a h.modemClass hst fun hq => h.quiet hq.2
  rcases hr with rfl | ⟨-, hq⟩
  · exact ⟨b.retimed t t' t'' n, rfl, he⟩
  · exact absurd hq h.quiet

/-- What `Recv` gives before it gives nothing or the end. -/
def heard : List (Option (List Byte)) → List Byte × Bool
  | [] | some [] :: _ => ([], false)
  | none :: _ => ([], true)
  | some bs :: rs => (bs ++ (heard rs).1, (heard rs).2)

/-- The modem with `bs` just received. -/
def received (b : ModemEngineBody) (bs : List Byte) : ModemEngineBody :=
  { b with dleData := b.dleData.put bs, fcs := b.fcs.build bs, dataCount := b.dataCount + bs.length }

theorem heard_cons {c : Byte} {cs : List Byte} {rs : List (Option (List Byte))} :
    heard (some (c :: cs) :: rs) = (c :: cs ++ (heard rs).1, (heard rs).2) := rfl

theorem received_received {bs cs : List Byte} (he : b.dleData.eof = false) :
    (b.received bs).received cs = b.received (bs ++ cs) := by
  have he' : (b.dleData.put bs).eof = false := by simp [he]
  unfold received
  dsimp only
  rw [put_eq he', put_eq he, put_eq he, Fcs.build_append, List.length_append, List.append_assoc, Nat.add_assoc]

theorem received_nil : b.received [] = b := by
  unfold received
  simp

theorem recvLoop_listening {rs : List (Option (List Byte))} (h : Listening b) (he : b.dleData.eof = false) :
    recvLoop a resp rs b =
      if (heard rs).2 then ((b.received (heard rs).1).recvEnd a).drain true resp
      else (b.received (heard rs).1).drain false resp := by
  induction rs generalizing b with
  | nil =>
    unfold recvLoop
    rw [if_neg h.engine_ne, heard, received_nil]
    rfl
  | cons r rs ih =>
    unfold recvLoop
    rw [if_neg h.engine_ne]
    match r with
    | none => rw [heard, received_nil]; rfl
    | some [] => rw [heard, received_nil]; rfl
    | some (c :: cs) =>
      have he' : (b.received (c :: cs)).dleData.eof = false := by simp [received, he]
      have hl : Listening (b.received (c :: cs)) :=
        ⟨h.modemClass, h.engine, h.dataType, by simpa [received, put_eq he] using h.bitRev, h.quiet⟩
      dsimp only
      rw [if_pos h.modemClass, heard_cons]
      dsimp only
      rw [← received_received he, ← ih hl he']
      split
      next => rfl
      next hd => exact absurd (h.dataType.symm.trans hd) nofun
      next hd _ => exact absurd h.dataType hd

/-- The result of a frame of `count` octets. -/
def frameCode (diag : Diag) (count : Nat) : ResultCode :=
  if diag = 0 then .ok
  else if count = 0 ∧ diag &&& diagErrorMask = 0 then .noCarrier
  else .error

theorem body_eq_nil {rev : Bool} {bs : List Byte} (h : body rev bs = []) : bs = [] := by
  have hl := (length_body rev bs).1
  rw [h] at hl
  exact List.length_eq_zero_iff.mp (Nat.le_zero.mp hl)

/-- All that has come in goes out. -/
theorem drainLoop_open {n : Nat} (resp : Option ResultCode) (hx : b.dleData.recvEtx = false) (he : b.dleData.eof = false)
    (hn : b.dleData.data.length < n) :
    ∃ chunks : List (List Byte), drainLoop n b resp = ({ b with dleData := { b.dleData with data := [] } }, .idle,
        chunks.map ModemOut.data ++ (resp.map ModemOut.result).toList) ∧ [] ∉ chunks ∧
      chunks.flatten = body b.dleData.bitRev b.dleData.data := by
  induction n generalizing b with
  | zero => omega
  | succ n ih =>
    rw [drainLoop]
    rcases getDleData_cases hx (show 4 ≤ 1024 by omega) with ⟨bs, rest, hd, heq, -, hpos⟩ | ⟨he', -⟩
    · rw [heq]
      cases hbs : body b.dleData.bitRev bs with
      | nil =>
        have hbs0 : bs = [] := body_eq_nil hbs
        have hdata : b.dleData.data = [] := by
          by_contra hne
          exact hpos (.inr hne) hbs0
        have hrest : rest = [] := by
          rw [hdata, hbs0] at hd
          exact hd.symm
        rw [hrest]
        refine ⟨[], rfl, List.not_mem_nil, ?_⟩
        rw [hdata]
        rfl
      | cons o os =>
        have hlen : rest.length < n := by
          have hne : bs ≠ [] := by
            intro hnil
            rw [hnil] at hbs
            cases hbs
          have hpos := List.length_pos_iff.mpr hne
          rw [hd, List.length_append] at hn
          omega
        obtain ⟨chunks, heq', hne, hfl⟩ := ih (b := { b with dleData := { b.dleData with data := rest } }) hx he hlen
        dsimp only
        rw [heq']
        refine ⟨(o :: os) :: chunks, rfl, by simp [hne], ?_⟩
        rw [List.flatten_cons, hfl, hd, body_append, hbs]
    · exact absurd (he.symm.trans he') nofun

/-- The end of a receive: what is left goes out with its end, and the result. -/
theorem drainLoop_sent {n : Nat} (resp : Option ResultCode) (hm : b.modemClass = .mcFax) (ht : b.dataType = .dtHdlc)
    (hx : b.dleData.recvEtx = true) :
    drainLoop (n + 1) b resp =
      (b.setState .stCommand, .idle, [.result (frameCode b.dleData.diag b.dataCount)]) := by
  rw [drainLoop, getDleData_ended hx]
  dsimp only
  rw [if_neg (by simp [setState, hm]), if_pos (by simpa [setState] using ht)]
  rfl

theorem drainLoop_ended {n : Nat} (resp : Option ResultCode) (hm : b.modemClass = .mcFax) (ht : b.dataType = .dtHdlc)
    (hx : b.dleData.recvEtx = false) (he : b.dleData.eof = true) (hn : b.dleData.data.length + 1 < n) :
    ∃ chunks : List (List Byte), ∃ b', drainLoop n b resp = (b', .idle,
        chunks.map ModemOut.data ++ [.result (frameCode b.dleData.diag b.dataCount)]) ∧ b'.state = .stCommand ∧
      chunks.flatten = encoded b.dleData.bitRev b.dleData.data := by
  induction n generalizing b with
  | zero => omega
  | succ n ih =>
    rw [drainLoop]
    rcases getDleData_cases hx (show 4 ≤ 1024 by omega) with ⟨bs, rest, hd, heq, -, hpos⟩ | ⟨-, -, heq⟩
    · rw [heq]
      have hne : bs ≠ [] := hpos (.inl he)
      cases hbs : body b.dleData.bitRev bs with
      | nil => exact absurd (body_eq_nil hbs) hne
      | cons o os =>
        have hlen : rest.length + 1 < n := by
          have hpos := List.length_pos_iff.mpr hne
          rw [hd, List.length_append] at hn
          omega
        obtain ⟨chunks, b', heq', hs, hfl⟩ :=
          ih (b := { b with dleData := { b.dleData with data := rest } }) hm ht hx he hlen
        dsimp only
        rw [heq']
        refine ⟨(o :: os) :: chunks, b', rfl, hs, ?_⟩
        rw [List.flatten_cons, hfl, hd, encoded, encoded, body_append, hbs, List.append_assoc]
    · rw [heq]
      cases hbs : encoded b.dleData.bitRev b.dleData.data with
      | nil => simp [encoded] at hbs
      | cons o os =>
        obtain ⟨n, rfl⟩ : ∃ n', n = n' + 1 := ⟨n - 1, by omega⟩
        dsimp only
        rw [drainLoop_sent (b := { b with dleData := { b.dleData with data := [], recvEtx := true } }) resp hm ht rfl]
        exact ⟨[o :: os], _, rfl, rfl, by simp⟩

/-- The modem receives a frame, of which `fed` has come in and gone out. -/
structure Receiving (b : ModemEngineBody) (fed : List Byte) : Prop extends Listening b where
  state : b.state = .stRecv
  data : b.dleData.data = []
  eof : b.dleData.eof = false
  recvEtx : b.dleData.recvEtx = false
  dataCount : b.dataCount = fed.length
  fcs : b.fcs = Fcs.build {} fed

variable {fed : List Byte}

theorem Receiving.congr (h : Receiving b fed) (he : b'.recvSide = b.recvSide) : Receiving b' fed := by
  have hd : b'.dleData = b.dleData := congrArg RecvSide.dleData he
  refine ⟨h.toListening.congr he, (congrArg RecvSide.state he).trans h.state, ?_, ?_, ?_,
    (congrArg RecvSide.dataCount he).trans h.dataCount, (congrArg RecvSide.fcs he).trans h.fcs⟩
  · rw [hd, h.data]
  · rw [hd, h.eof]
  · rw [hd, h.recvEtx]

/-- The step that begins a receive. -/
theorem checkState_begin (h : Listening b) (hs : b.state = .stRecvBegHandle) (hr : a.recvStart = true)
    (hd : a.recvDiag &&& diagDiffSig = 0) :
    ∃ b', b.checkState a = (b', .idle, [.result .connect]) ∧ Receiving b' [] := by
  obtain ⟨b₁, hb, he⟩ := checkState_listening (a := a) h (.inr hs)
  have hl := h.congr hb
  have hs₁ : b₁.state = .stRecvBegHandle := (congrArg RecvSide.state hb).trans hs
  rw [he, switchState, hs₁]
  dsimp only
  unfold recvBegin
  rw [if_neg (by simp [hl.dataType]), if_neg (by simpa [hr] using hl.engine_ne)]
  split
  next hm => exact absurd (hl.modemClass.symm.trans hm) nofun
  next =>
    rw [if_pos hd, if_pos hl.dataType]
    dsimp only
    rw [if_pos (by simp [hl.dataType])]
    exact ⟨_, rfl, ⟨hl.modemClass, hl.engine, hl.dataType, hl.bitRev, hl.quiet⟩, rfl, rfl, rfl, rfl, rfl, rfl⟩
  next hm => exact absurd (hl.modemClass.symm.trans hm) nofun

theorem Receiving.received (h : Receiving b fed) (bs : List Byte) :
    (b.received bs).dleData = { b.dleData with data := bs } ∧ Listening (b.received bs) ∧
      (b.received bs).dataCount = (fed ++ bs).length ∧ (b.received bs).fcs = Fcs.build {} (fed ++ bs) := by
  have hd : (b.received bs).dleData = { b.dleData with data := bs } := by
    rw [ModemEngineBody.received, put_eq h.eof, h.data]
    rfl
  refine ⟨hd, ⟨h.modemClass, h.engine, h.dataType, hd ▸ h.bitRev, h.quiet⟩, ?_, ?_⟩
  · rw [ModemEngineBody.received, h.dataCount, List.length_append]
  · rw [ModemEngineBody.received, h.fcs, Fcs.build_append]

theorem recvStep (h : Receiving b fed) :
    ∃ b' : ModemEngineBody, b'.recvSide = b.recvSide ∧ b.checkState a = recvLoop a none a.recv b' := by
  obtain ⟨b', hb, he⟩ := checkState_listening (a := a) h.toListening (.inl h.state)
  refine ⟨b', hb, ?_⟩
  rw [he, switchState, (h.congr hb).state]

/-- A step in which the engine gives no end. -/
theorem checkState_more (h : Receiving b fed) (hm : (heard a.recv).2 = false) :
    ∃ chunks : List (List Byte), ∃ b', b.checkState a = (b', .idle, chunks.map ModemOut.data) ∧
      [] ∉ chunks ∧ chunks.flatten = body true (heard a.recv).1 ∧ Receiving b' (fed ++ (heard a.recv).1) := by
  obtain ⟨b₁, hb, he⟩ := recvStep (a := a) h
  have h₁ := h.congr hb
  obtain ⟨hd, hl, hcount, hfcs⟩ := h₁.received (heard a.recv).1
  have hs : (b₁.received (heard a.recv).1).state = .stRecv := h₁.state
  rw [he, recvLoop_listening h₁.toListening h₁.eof, if_neg (by simp [hm])]
  generalize b₁.received (heard a.recv).1 = r at hd hl hcount hfcs hs
  have hx : r.dleData.recvEtx = false := by rw [hd]; exact h₁.recvEtx
  have heof : r.dleData.eof = false := by rw [hd]; exact h₁.eof
  rw [drain, if_neg (by simp [hl.modemClass])]
  obtain ⟨chunks, heq, hne, hfl⟩ := drainLoop_open (n := r.dleData.data.length + 2) none hx heof (by omega)
  rw [heq]
  refine ⟨chunks, _, by rw [ModemNext.after]; simp; rfl, hne, ?_, ?_⟩
  · rw [hfl, hl.bitRev, hd]
  · exact ⟨⟨hl.modemClass, hl.engine, hl.dataType, hl.bitRev, hl.quiet⟩, hs, rfl, heof, hx, hcount, hfcs⟩

theorem checkOctets_iff (diag : Diag) (fcs : Fcs) : checkOctets diag fcs = fcs.octets ↔ diag &&& diagErrorMask = 0 := by
  have hne : ∀ b : Byte, b + 1 ≠ b := by decide
  unfold checkOctets Fcs.octets
  dsimp only
  by_cases h : diag &&& diagErrorMask = 0
  · rw [if_neg (not_not.mpr h)]
    exact iff_of_true rfl h
  · rw [if_pos h]
    exact iff_of_false (fun he => hne _ (List.cons.inj he).1) h

/-- The octets that are still to go out when the end has come. -/
def ending (b : ModemEngineBody) (diag : Diag) : DLEData :=
  { b.dleData with data := b.dleData.data ++ checkOctets diag b.fcs, eof := true, diag := diag }

theorem recvEnd_eq (h : Listening b) (he : b.dleData.eof = false) :
    b.recvEnd a = { b with dleData :=
      if b.dataCount = 0 then ((b.ending a.recvDiag).getDleData 1024).2 else b.ending a.recvDiag } := by
  unfold recvEnd
  rw [if_neg (by simp [h.modemClass]), if_pos h.dataType, put_eq he]
  dsimp only
  by_cases hc : b.dataCount = 0
  · rw [if_pos ⟨hc, h.modemClass⟩, if_pos hc]
    rfl
  · rw [if_neg (fun hn => hc hn.1), if_neg hc]
    rfl

/-- The step in which the engine gives the end. -/
theorem checkState_end (h : Receiving b fed) (hm : (heard a.recv).2 = true) :
    ∃ chunks : List (List Byte), ∃ b', b.checkState a = (b', .idle,
        chunks.map ModemOut.data ++ [.result (frameCode a.recvDiag (fed ++ (heard a.recv).1).length)]) ∧
      b'.state = .stCommand ∧
      (fed ++ (heard a.recv).1 = [] → chunks = []) ∧
      (fed ++ (heard a.recv).1 ≠ [] → chunks.flatten =
        encoded true ((heard a.recv).1 ++ checkOctets a.recvDiag (Fcs.build {} (fed ++ (heard a.recv).1)))) := by
  obtain ⟨b₁, hb, he⟩ := recvStep (a := a) h
  have h₁ := h.congr hb
  obtain ⟨hd, hl, hcount, hfcs⟩ := h₁.received (heard a.recv).1
  rw [he, recvLoop_listening h₁.toListening h₁.eof, if_pos hm]
  generalize b₁.received (heard a.recv).1 = r at hd hl hcount hfcs
  have hx : r.dleData.recvEtx = false := by rw [hd]; exact h₁.recvEtx
  have heof : r.dleData.eof = false := by rw [hd]; exact h₁.eof
  have hdata : r.dleData.data = (heard a.recv).1 := by rw [hd]
  rw [recvEnd_eq hl heof]
  by_cases hc : fed ++ (heard a.recv).1 = []
  · have hc0 : r.dataCount = 0 := by rw [hcount, hc]; rfl
    have hx0 : (heard a.recv).1 = [] := (List.append_eq_nil_iff.mp hc).2
    have hlen : (r.ending a.recvDiag).data.length = 2 := by simp [ending, hdata, hx0, checkOctets]
    have hall := @getDleData_all (r.ending a.recvDiag) 1024 hx rfl (by omega) (by omega)
    rw [if_pos hc0, hall]
    generalize hsent : ({ r with
      dleData := { r.ending a.recvDiag with data := [], recvEtx := true } } : ModemEngineBody) = e
    have hdone := drainLoop_sent (n := e.dleData.data.length + 1) (b := e) none (by rw [← hsent]; exact hl.modemClass)
      (by rw [← hsent]; exact hl.dataType) (by rw [← hsent])
    rw [drain, if_neg (by rw [← hsent]; simp [hl.modemClass]), hdone]
    refine ⟨[], e.setState .stCommand, ?_, rfl, fun _ => rfl, fun hn => absurd hc hn⟩
    rw [← hsent, hc]
    dsimp only
    rw [hc0]
    rfl
  · have hc0 : r.dataCount ≠ 0 := by
      rw [hcount]
      exact fun h0 => hc (List.length_eq_zero_iff.mp h0)
    rw [if_neg hc0, drain, if_neg (by simp [hl.modemClass])]
    obtain ⟨chunks, b', heq, hs, hfl⟩ := drainLoop_ended (b := { r with dleData := r.ending a.recvDiag })
      (n := (r.ending a.recvDiag).data.length + 2) none hl.modemClass hl.dataType hx rfl (by dsimp only; omega)
    rw [heq]
    refine ⟨chunks, b', ?_, hs, fun hn => absurd hn hc, fun _ => ?_⟩
    · dsimp only
      rw [hcount]
      rfl
    · have hrev : (r.ending a.recvDiag).bitRev = true := hl.bitRev
      rw [hfl, hrev, ending, hdata, hfcs]

/-- The modem behind `AT+FRH` and the callback of the engine that there is a signal. -/
def begun (a : Answers) (b : ModemEngineBody) : ModemEngineBody := (b.recvStart a .dtHdlc).2.onSeq

theorem begun_listening (hm : b.modemClass = .mcFax) (hq : ¬(b.off_hook = false ∧ b.callState = .cstCalled))
    (hw : (b.recvStart a .dtHdlc).1 = true) : Listening (b.begun a) ∧ (b.begun a).state = .stRecvBegHandle := by
  have hbit : { b with dataType := .dtHdlc }.setBitRevDleData =
      { b with dataType := .dtHdlc, dleData := { b.dleData with bitRev := true } } := by
    simp [setBitRevDleData, hm]
  unfold begun
  unfold recvStart at hw ⊢
  rw [hbit] at hw ⊢
  dsimp only at hw ⊢
  split at hw
  next => cases hw
  next he =>
    rw [if_neg he]
    have hsome : b.currentClassEngine.isSome = true := by
      by_contra hn
      exact he (.inl (by simpa [setState] using hn))
    split
    next => exact ⟨⟨hm, hsome, rfl, rfl, hq⟩, rfl⟩
    next => exact ⟨⟨hm, hsome, rfl, rfl, hq⟩, rfl⟩

end ModemEngineBody

namespace Modem

open ModemEngineBody DLEData

/-- The octets that the engine has given in some steps of `CheckState`. -/
def framed (as : List Answers) : List Byte := as.flatMap fun a => (heard a.recv).1

/-- What is seen of the delivery of a frame. -/
structure Delivered (frame : List Byte) (diag : Diag) (es : List ModemSeen) : Prop where
  seen : ∃ (chunks : List (List Byte)) (fcs : List Byte) (code : ResultCode),
    es = .out (.result .connect) :: chunks.map (fun c => .out (.data c)) ++ [.out (.result code)] ∧
    fcs.length = 2 ∧ (fcs = (Fcs.build {} frame).octets ↔ diag &&& diagErrorMask = 0) ∧
    (frame ≠ [] → chunks.flatten = encoded true (frame ++ fcs) ∧ code = if diag = 0 then .ok else .error) ∧
    (frame = [] → chunks = [] ∧
      code = if diag = 0 then .ok else if diag &&& diagErrorMask = 0 then .noCarrier else .error)

variable {b b' : ModemEngineBody} {fed : List Byte} {as : List Answers} {a₀ a₁ aₙ a : Answers}

theorem done_checkState {out : List ModemOut} (h : b.checkState a = (b', .idle, out)) :
    machine.Run (fun _ _ => True) ⟨b, .idle⟩ [.checkState a] (out.map .out) ⟨b', .idle⟩ := by
  have hs : machine.step ⟨b, .idle⟩ (.checkState a) = some (⟨b', .idle⟩, out.map .out) := by
    simp only [machine, step, if_true, h]
    rfl
  exact .one trivial hs

/-- What has come in has gone out. -/
theorem run_more (h : Receiving b fed) (hm : ∀ a ∈ as, (heard a.recv).2 = false) :
    ∃ (chunks : List (List Byte)) (b' : ModemEngineBody),
      machine.Run (fun _ _ => True) ⟨b, .idle⟩ (as.map .checkState) (chunks.map fun c => .out (.data c)) ⟨b', .idle⟩ ∧
        [] ∉ chunks ∧ chunks.flatten = DLEData.body true (framed as) ∧ Receiving b' (fed ++ framed as) := by
  induction as generalizing b fed with
  | nil => exact ⟨[], b, .start, List.not_mem_nil, rfl, by simpa [framed] using h⟩
  | cons a as ih =>
    obtain ⟨chunks, b₁, hs, hne, hfl, h₁⟩ := checkState_more h (hm a List.mem_cons_self)
    obtain ⟨chunks', b', hr, hne', hfl', h'⟩ := ih h₁ fun x hx => hm x (List.mem_cons_of_mem a hx)
    refine ⟨chunks ++ chunks', b', ?_, by simp [hne, hne'], ?_, ?_⟩
    · have hrun := (done_checkState hs).trans hr
      simpa [Function.comp_def] using hrun
    · rw [List.flatten_append, hfl, hfl', ← body_append]
      rfl
    · simpa [framed] using h'

/-- A frame of any content, in any pieces, and any diagnostics: `CheckState` sends it, and one
result. -/
theorem run_delivered (hm : b.modemClass = .mcFax) (hq : ¬(b.off_hook = false ∧ b.callState = .cstCalled))
    (hw : (b.recvStart a₀ .dtHdlc).1 = true) (hr : a₁.recvStart = true) (hd : a₁.recvDiag &&& diagDiffSig = 0)
    (hmore : ∀ a ∈ as, (heard a.recv).2 = false) (hend : (heard aₙ.recv).2 = true) :
    (∃ es m, machine.Run (fun _ _ => True) ⟨b.begun a₀, .idle⟩ (.checkState a₁ :: (as ++ [aₙ]).map .checkState) es m) ∧
    ∀ es m, machine.Run (fun _ _ => True) ⟨b.begun a₀, .idle⟩ (.checkState a₁ :: (as ++ [aₙ]).map .checkState) es m →
      m.pc = .idle ∧ m.body.state = .stCommand ∧ Delivered (framed (as ++ [aₙ])) aₙ.recvDiag es := by
  obtain ⟨hl, hs⟩ := begun_listening hm hq hw
  obtain ⟨b₁, h₁, hrec⟩ := checkState_begin hl hs hr hd
  obtain ⟨chunks, b₂, h₂, hful, hfl, hrec⟩ := run_more hrec hmore
  obtain ⟨chunks', b₃, h₃, hst, hnil, hne⟩ := checkState_end hrec hend
  have hframe : framed (as ++ [aₙ]) = framed as ++ (heard aₙ.recv).1 := by simp [framed]
  simp only [List.nil_append, ← hframe] at h₃ hnil hne
  have hrun := ((done_checkState h₁).trans h₂).trans (done_checkState h₃)
  simp only [List.map_append, List.map_cons, List.map_nil, List.cons_append] at hrun ⊢
  refine ⟨⟨_, _, hrun⟩, fun es m h => ?_⟩
  obtain ⟨rfl, rfl⟩ := hrun.unique h
  refine ⟨rfl, hst, ⟨⟨chunks ++ chunks', checkOctets aₙ.recvDiag (Fcs.build {} (framed (as ++ [aₙ]))),
    frameCode aₙ.recvDiag (framed (as ++ [aₙ])).length, ?_, rfl, checkOctets_iff _ _, fun hf => ⟨?_, ?_⟩,
    fun hf => ⟨?_, ?_⟩⟩⟩⟩
  · simp [Function.comp_def]
  · rw [List.flatten_append, hfl, hne hf, encoded, encoded, ← List.append_assoc, ← body_append, hframe,
      List.append_assoc]
  · have hlen : (framed (as ++ [aₙ])).length ≠ 0 := fun h0 => hf (List.length_eq_zero_iff.mp h0)
    simp [frameCode, hlen]
  · have hnone : framed as = [] := (List.append_eq_nil_iff.mp (hframe ▸ hf)).1
    rw [hnone] at hfl
    have hall : ∀ c ∈ chunks, c = [] := List.flatten_eq_nil_iff.mp hfl
    have hchunks : chunks = [] := List.eq_nil_iff_forall_not_mem.mpr fun c hc => hful (hall c hc ▸ hc)
    rw [hchunks, hnil hf]
    rfl
  · rw [hf]
    simp [frameCode]

/-- A modem in a call, with its engine. -/
def inCall : ModemEngineBody :=
  { off_hook := true, callState := .cstEstablished, t38Engine := true, currentClassEngine := some .mceT38 }

def firstPart : Answers := { recv := [some [0xFF, 0x13], some []] }
def lastPart : Answers := { recv := [some [0x10], none], recvDiag := diagBadFcs }

theorem inCall_delivered :
    (∃ es m, machine.Run (fun _ _ => True) ⟨inCall.begun {}, .idle⟩
      (.checkState {} :: ([firstPart] ++ [lastPart]).map .checkState) es m) ∧
    ∀ es m, machine.Run (fun _ _ => True) ⟨inCall.begun {}, .idle⟩
        (.checkState {} :: ([firstPart] ++ [lastPart]).map .checkState) es m →
      m.pc = .idle ∧ m.body.state = .stCommand ∧ Delivered (framed ([firstPart] ++ [lastPart])) diagBadFcs es :=
  run_delivered rfl (by decide) rfl rfl rfl (by decide) rfl

/-- `AT+FRH` on a modem whose engine is there. -/
def waiting (before : List ModemAct) : List ModemAct :=
  before ++ [.newPtrEngine {} .mceT38, .command {} (.recvStart .dtHdlc), .onSeq]

/-- With another signal than the one that was asked for nothing of the frame is delivered, and on-hook
a call that is coming in is told of between the data. -/
theorem waiting_not_delivered :
    (∃ m, machine.Run (fun _ _ => True) {}
      (waiting [] ++ [.checkState { recvDiag := diagDiffSig }, .checkState lastPart]) [.out (.result .fcError)] m) ∧
    ∃ m, machine.Run (fun _ _ => True) {}
      (waiting [.request {} (.call "T")] ++ [.checkState {}, .onTimeout .ring, .checkState firstPart])
      [.response (.call "T") true, .out (.result .connect), .out (.data [0xFF, 0xC8]), .out (.result .ring)] m :=
  ⟨Machine.exec_run (by decide +kernel), Machine.exec_run (by decide +kernel)⟩

end Modem

end T38Modem
