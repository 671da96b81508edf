import T38Modem.EndToEnd
import T38Modem.MediaStream

namespace T38Modem

open Delivery

namespace T38ModemMediaStream

/-- The packet that is read for what `PreparePacket` gives, none where it is called again. -/
def readPacket (codec : IfpCodec) (s : T38ModemMediaStream) (res : Prepared) :
    Option (Option RTPDataFrame × T38ModemMediaStream) :=
  if s.isOpen = false then none
  else
    match res with
    | .packet ifp =>
      let packet : RTPDataFrame := ⟨BitVec.ofInt 16 s.currentSequenceNumber, s.payloadType, codec.encode ifp⟩
      some (some packet, { s with currentSequenceNumber := s.currentSequenceNumber + 1 })
    | .timeOut =>
      if s.currentSequenceNumber = 0 then some (none, s)
      -- a fake packet has the number of the last one
      else some (some ⟨BitVec.ofInt 16 (s.currentSequenceNumber - 1), s.payloadType, []⟩, s)
    | .stopped => none

variable {codec : IfpCodec} {s : T38ModemMediaStream} {packet : RTPDataFrame} {n : Int}

/-- What the stream does with a packet that is not far behind. -/
inductive Writes (codec : IfpCodec) (s : T38ModemMediaStream) (n : Int) (packet : RTPDataFrame) :
    List EngineCall → T38ModemMediaStream → Prop
  | idle : Writes codec s n packet [] s
  | next (ifp : Ifp) (hne : packet.payload ≠ []) (hd : codec.decode packet.payload = some ifp)
      (hn : n = s.currentSequenceNumber) :
      Writes codec s n packet [.item n ifp] { s with currentSequenceNumber := n + 1 }
  | gap (ifp : Ifp) (k : Int) (hne : packet.payload ≠ []) (hd : codec.decode packet.payload = some ifp)
      (hn : s.currentSequenceNumber < n) :
      Writes codec s n packet [.lost k, .item n ifp] { s with currentSequenceNumber := n + 1 }

theorem writePacket_writes (hw : packet.sequenceNumber = BitVec.ofInt 16 n) (hlow : -10 < n - s.currentSequenceNumber)
    (hhigh : n - s.currentSequenceNumber < 0x8000) :
    ∃ r, Writes codec s n packet (s.writePacket codec (fun _ => true) packet).1 r ∧
      (s.writePacket codec (fun _ => true) packet).2.2 = r := by
  unfold writePacket
  rw [hw, sequenceNumber_eq (by omega) hhigh]
  dsimp only
  split
  next => exact ⟨s, .idle, rfl⟩
  next =>
    split
    next => exact ⟨s, .idle, rfl⟩
    next =>
      split
      next => exact ⟨s, .idle, rfl⟩
      next hback =>
        split
        next => exact ⟨s, .idle, rfl⟩
        next hne =>
          split
          next => exact ⟨s, .idle, rfl⟩
          next ifp hd =>
            by_cases h0 : n - s.currentSequenceNumber = 0
            · rw [if_neg (not_not_intro h0)]
              exact ⟨_, .next ifp hne hd (by omega), rfl⟩
            · rw [if_pos h0, if_pos rfl]
              exact ⟨_, .gap ifp _ hne hd (by omega), rfl⟩

end T38ModemMediaStream

/-- The stream that reads from the engine of one side and the stream that writes to that of the other side. `written`
are the packets that the network may deliver, each with its number in full. -/
structure RtpLink where
  source : T38ModemMediaStream
  sent : List Ifp := []
  written : List (Int × RTPDataFrame) := []
  sink : T38ModemMediaStream

namespace RtpLink

inductive Act where
  | prepared (res : Prepared)
  | deliver (i : Nat)

/-- Both streams are opened, each with the payload type of its media format. -/
def start (sourceType sinkType : Nat) : RtpLink where
  source := T38ModemMediaStream.opened ⟨false, 0, sourceType⟩
  sink := T38ModemMediaStream.opened ⟨false, 0, sinkType⟩

variable (codec : IfpCodec)

/-- The calls of the engine are observed, and they all succeed. -/
def step (s : RtpLink) : Act → Option (RtpLink × List EngineCall)
  | .prepared res =>
    match s.source.readPacket codec res with
    | none => none
    | some (none, source) => some ({ s with source }, [])
    | some (some packet, source) =>
      let sent := match res with
        | .packet ifp => s.sent ++ [ifp]
        | _ => s.sent
      some ({ s with source, sent, written := s.written ++ [(source.currentSequenceNumber - 1, packet)] }, [])
  | .deliver i =>
    match s.written[i]? with
    | none => none
    | some p =>
      let (calls, _, sink) := s.sink.writePacket codec (fun _ => true) p.2
      some ({ s with sink }, calls)

def machine : Machine RtpLink Act EngineCall := ⟨step codec⟩

/-- IFP packets are encoded faithfully, and the network delivers no packet that is ten behind or half the range in front
of the expected one. -/
def allowed (s : RtpLink) : Act → Prop
  | .prepared (.packet ifp) => codec.decode (codec.encode ifp) = some ifp ∧ codec.encode ifp ≠ []
  | .prepared _ => True
  | .deliver i => ∀ p ∈ s.written[i]?,
    -10 < p.1 - s.sink.currentSequenceNumber ∧ p.1 - s.sink.currentSequenceNumber < 0x8000

instance (s : RtpLink) : ∀ a, Decidable (allowed codec s a)
  | .prepared (.packet ifp) =>
    inferInstanceAs (Decidable (codec.decode (codec.encode ifp) = some ifp ∧ codec.encode ifp ≠ []))
  | .prepared .timeOut => .isTrue trivial
  | .prepared .stopped => .isTrue trivial
  | .deliver i =>
    match h : s.written[i]? with
    | none => .isTrue fun p hp => by simp [h] at hp
    | some p =>
      decidable_of_iff (-10 < p.1 - s.sink.currentSequenceNumber ∧ p.1 - s.sink.currentSequenceNumber < 0x8000) <| by
        simp [allowed, h]

variable {codec} {as : List Act} {es es' : List EngineCall} {s s' : RtpLink} {a : Act} {n m : Nat}

/-- A packet of the network is a fake one, or carries the IFP packet that has its number. -/
structure Carries (codec : IfpCodec) (sent : List Ifp) (p : Int × RTPDataFrame) : Prop where
  number : p.2.sequenceNumber = BitVec.ofInt 16 p.1
  payload : p.2.payload = [] ∨ 0 ≤ p.1 ∧ ∃ ifp, sent[p.1.toNat]? = some ifp ∧ codec.decode p.2.payload = some ifp

theorem Carries.more {sent : List Ifp} {p : Int × RTPDataFrame} (h : Carries codec sent p) (more : List Ifp) :
    Carries codec (sent ++ more) p := by
  refine ⟨h.number, h.payload.imp_right fun ⟨h0, ifp, hget, hd⟩ => ⟨h0, ifp, ?_, hd⟩⟩
  obtain ⟨hlt, -⟩ := List.getElem?_eq_some_iff.mp hget
  rw [List.getElem?_append_left hlt, hget]

/-- The calls of the engine are what is left of the packets in front of the expected one. -/
structure Linked (codec : IfpCodec) (es : List EngineCall) (s : RtpLink) : Prop where
  number : s.source.currentSequenceNumber = s.sent.length
  written : ∀ p ∈ s.written, Carries codec s.sent p
  from0 : 0 ≤ s.sink.currentSequenceNumber
  upTo : s.sink.currentSequenceNumber ≤ s.sent.length
  thins : Thins (s.sent.take s.sink.currentSequenceNumber.toNat) (es.map Report.arrival)

theorem Linked.prepared {res : Prepared} (h : Linked codec es s) (hok : allowed codec s (.prepared res))
    (hs : step codec s (.prepared res) = some (s', es')) : Linked codec (es ++ es') s' := by
  have hnumber := h.number
  have hcarry {p : Int × RTPDataFrame} {sent : List Ifp} (hp : Carries codec sent p)
      (hw : ∀ q ∈ s.written, Carries codec sent q) : ∀ q ∈ s.written ++ [p], Carries codec sent q := by
    intro q hq
    rcases List.mem_append.mp hq with hq | hq
    · exact hw q hq
    · rwa [List.mem_singleton.mp hq]
  simp only [step, T38ModemMediaStream.readPacket] at hs
  by_cases ho : s.source.isOpen = false
  · simp only [if_pos ho, reduceCtorEq] at hs
  simp only [if_neg ho] at hs
  cases res with
  | stopped => cases hs
  | timeOut =>
    by_cases h0 : s.source.currentSequenceNumber = 0
    · simp only [if_pos h0, Option.some.injEq, Prod.mk.injEq] at hs
      obtain ⟨rfl, rfl⟩ := hs
      rw [List.append_nil]
      exact ⟨hnumber, h.written, h.from0, h.upTo, h.thins⟩
    · simp only [if_neg h0, Option.some.injEq, Prod.mk.injEq] at hs
      obtain ⟨rfl, rfl⟩ := hs
      rw [List.append_nil]
      exact ⟨hnumber, hcarry ⟨rfl, .inl rfl⟩ h.written, h.from0, h.upTo, h.thins⟩
  | packet ifp =>
    simp only [Option.some.injEq, Prod.mk.injEq] at hs
    obtain ⟨rfl, rfl⟩ := hs
    have hnew : Carries codec (s.sent ++ [ifp])
        (s.source.currentSequenceNumber + 1 - 1,
          ⟨BitVec.ofInt 16 s.source.currentSequenceNumber, s.source.payloadType, codec.encode ifp⟩) := by
      refine ⟨by rw [Int.add_sub_cancel], .inr ⟨by dsimp only; omega, ifp, ?_, hok.1⟩⟩
      rw [Int.add_sub_cancel, hnumber, Int.toNat_natCast, List.getElem?_concat_length]
    have htake : (s.sent ++ [ifp]).take s.sink.currentSequenceNumber.toNat =
        s.sent.take s.sink.currentSequenceNumber.toNat := by
      have hupTo := h.upTo
      exact List.take_append_of_le_length (by omega)
    rw [List.append_nil]
    refine ⟨?_, hcarry hnew fun q hq => (h.written q hq).more _, h.from0, ?_, ?_⟩
    · simp [hnumber]
    · have hupTo := h.upTo
      simp only [List.length_append, List.length_singleton]
      omega
    · dsimp only
      rw [htake]
      exact h.thins

theorem Linked.deliver {i : Nat} (h : Linked codec es s) (hok : allowed codec s (.deliver i))
    (hs : step codec s (.deliver i) = some (s', es')) : Linked codec (es ++ es') s' := by
  simp only [step] at hs
  split at hs
  next => cases hs
  next p hp =>
    obtain ⟨hlow, hhigh⟩ := hok p hp
    have hc := h.written p (List.mem_of_getElem? hp)
    obtain ⟨sink, hw, hsink⟩ := @T38ModemMediaStream.writePacket_writes codec s.sink p.2 p.1 hc.number hlow hhigh
    simp only [Option.some.injEq, Prod.mk.injEq] at hs
    obtain ⟨rfl, rfl⟩ := hs
    rw [hsink]
    generalize (s.sink.writePacket codec (fun _ => true) p.2).1 = calls at hw
    have hfrom := h.from0
    have hthins := h.thins
    -- the packet that is handled is the one sent with its number
    have hput {ifp : Ifp} (hne : p.2.payload ≠ []) (hd : codec.decode p.2.payload = some ifp) :
        s.sent[p.1.toNat]? = some ifp ∧ p.1.toNat < s.sent.length := by
      obtain ⟨-, x, hx, hd'⟩ := hc.payload.resolve_left hne
      rw [hd] at hd'
      cases hd'
      exact ⟨hx, (List.getElem?_eq_some_iff.mp hx).1⟩
    cases hw with
    | idle =>
      rw [List.append_nil]
      exact ⟨h.number, h.written, hfrom, h.upTo, hthins⟩
    | next ifp hne hd hn =>
      obtain ⟨hx, hlt⟩ := hput hne hd
      refine ⟨h.number, h.written, by dsimp only; omega, by dsimp only; omega, ?_⟩
      have hsplit : s.sent.take (p.1 + 1).toNat = s.sent.take s.sink.currentSequenceNumber.toNat ++ [ifp] := by
        have hnext : (p.1 + 1).toNat = p.1.toNat + 1 := by omega
        rw [hnext, List.take_add_one, hx, hn]
        rfl
      dsimp only
      rw [List.map_append, hsplit]
      exact hthins.append (.keep ifp .nil)
    | gap ifp k hne hd hn =>
      obtain ⟨hx, hlt⟩ := hput hne hd
      refine ⟨h.number, h.written, by dsimp only; omega, by dsimp only; omega, ?_⟩
      have hsplit : s.sent.take (p.1 + 1).toNat = s.sent.take s.sink.currentSequenceNumber.toNat ++
          ((s.sent.take p.1.toNat).drop s.sink.currentSequenceNumber.toNat ++ [ifp]) := by
        have hnext : (p.1 + 1).toNat = p.1.toNat + 1 := by omega
        have hmin : min s.sink.currentSequenceNumber.toNat p.1.toNat = s.sink.currentSequenceNumber.toNat := by omega
        rw [hnext, List.take_add_one, hx, ← List.append_assoc]
        conv_lhs => rw [← List.take_append_drop s.sink.currentSequenceNumber.toNat (s.sent.take p.1.toNat)]
        rw [List.take_take, hmin]
        rfl
      dsimp only
      rw [List.map_append, hsplit]
      exact hthins.append (.gap _ (.keep ifp .nil))

theorem run_linked (h : (machine codec).Run (allowed codec) (start n m) as es s) : Linked codec es s := by
  induction h with
  | start =>
    refine ⟨rfl, ?_, Int.le_refl 0, Int.le_refl 0, .nil⟩
    intro p hp
    cases hp
  | @next as es s a s' es' _ hok hs ih =>
    cases a with
    | prepared res => exact ih.prepared hok hs
    | deliver i => exact ih.deliver hok hs

end RtpLink

section

open Sys

variable {junk junk' : Hdlc} {now now' : Int} {codec : IfpCodec} {as₁ as₃ : List Act} {as₂ : List RtpLink.Act}
  {es₁ es₃ : List Event} {es₂ : List EngineCall} {s : Sys} {u : RtpLink} {x : Sys × DteLog} {n m : Nat}

/-- A control frame that the DTE gets with good diagnostics is one that the sender has sent, where the packets go between
two media streams, whatever the network loses, repeats and reorders, and however often no packet is prepared in time. -/
theorem controls_streamed (h₁ : machine.Run (fun _ _ => True) (Sys.start junk now) as₁ es₁ s)
    (h₂ : (RtpLink.machine codec).Run (RtpLink.allowed codec) (RtpLink.start n m) as₂ es₂ u)
    (hin : u.sent.map some <+: packets es₁) (h₃ : reception.Run KeepsTurn (Sys.start junk' now', {}) as₃ es₃ x)
    (hout : arrivals as₃ <+: es₂.map Report.arrival) :
    (goodControls x.2.records (Incoming.types {} (arrivals as₃))).Sublist (Incoming.controlFrames {} (packets es₁)) := by
  obtain ⟨hsent, hsub⟩ := handed_controls h₁ hin
  have hlinked := RtpLink.run_linked h₂
  exact (arrived_controls hsent (.refl u.sent) hlinked.thins h₃ hout).trans hsub

/-- The packets are read with time limits between them, and come in but for the octet of the first frame. A packet comes
again, and so do the fake ones. -/
def pairStream : List RtpLink.Act :=
  .prepared .timeOut :: (t38indicator .noSignal :: pairPackets).flatMap (fun p => [.prepared (.packet p), .prepared .timeOut]) ++
    ([0, 1, 2, 3, 2, 6, 7, 8, 4, 9, 10, 11, 12, 10, 13] : List Nat).map .deliver

theorem second_streamed : ∃ es₁ es₃ x, packets es₁ = (t38indicator .noSignal :: pairPackets).map some ∧
    reception.Run KeepsTurn (Sys.start default 0, {}) firstLost es₃ x ∧ x.2.records = [([], diagBadFcs), ([8], 0)] ∧
    ([[8]] : List (List Byte)).Sublist (Incoming.controlFrames {} (packets es₁)) := by
  obtain ⟨s, as₁, es₁, h₁, hpackets⟩ := pair_sent
  obtain ⟨u, h₂, hu⟩ : ∃ u, (RtpLink.machine v21Codec).Run (RtpLink.allowed v21Codec) (RtpLink.start 98 98) pairStream
      [.item 0 (t38indicator .noSignal), .item 1 (t38indicator .v21Preamble), .lost 1,
        .item 3 (t38data .v21 .hdlcFcsOK []), .item 4 (t38data .v21 .hdlcData [8]), .item 5 (t38data .v21 .hdlcFcsOK []),
        .item 6 (t38data .v21 .hdlcSigEnd [])] u ∧
      (fun u : RtpLink => decide (u.sent = t38indicator .noSignal :: pairPackets)) u = true :=
    Machine.exec_test (by decide +kernel)
  obtain ⟨x, es₃, h₃, hrec⟩ := second_got
  have hsent : u.sent = t38indicator .noSignal :: pairPackets := of_decide_eq_true hu
  have hsub := controls_streamed h₁ h₂ (by rw [hpackets, hsent]) h₃ (List.prefix_refl _)
  rw [hrec] at hsub
  exact ⟨es₁, es₃, x, hpackets, h₃, hrec, hsub⟩

end

end T38Modem
