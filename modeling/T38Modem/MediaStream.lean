import T38Modem.Machine
import T38Modem.Udptl

namespace T38Modem

open Delivery

/-- `RTP_DataFrame` -/
structure RTPDataFrame where
  sequenceNumber : Word
  payloadType : Nat
  payload : List Byte
  deriving DecidableEq, Repr

/-- A sink; `payloadType` is that of its media format. -/
structure T38ModemMediaStream where
  isOpen : Bool := false
  currentSequenceNumber : Int := 0
  payloadType : Nat
  deriving DecidableEq, Repr

namespace T38ModemMediaStream

def opened (s : T38ModemMediaStream) : T38ModemMediaStream :=
  if s.isOpen then s else { s with isOpen := true, currentSequenceNumber := 0 }

/-- The calls of the engine, what is returned, and the stream afterwards. -/
def writePacket (codec : IfpCodec) (engine : EngineCall → Bool) (s : T38ModemMediaStream) (packet : RTPDataFrame) :
    List EngineCall × Bool × T38ModemMediaStream :=
  if s.isOpen = false then ([], false, s)
  else if s.payloadType ≠ packet.payloadType then ([], true, s)
  else
    let (packed, lost) := sequenceNumber s.currentSequenceNumber packet.sequenceNumber
    if lost < 0 ∧ lost > -10 then ([], true, s)
    else if packet.payload = [] then ([], true, s)
    else
      match codec.decode packet.payload with
      | none => ([], true, s)
      | some ifp =>
        let handled := [.item packed ifp]
        let s' := { s with currentSequenceNumber := packed + 1 }
        if lost ≠ 0 then
          let lost := if lost < 0 ∨ lost > 10 then 1 else lost
          if engine (.lost lost) then (.lost lost :: handled, engine (.item packed ifp), s')
          else ([.lost lost], false, s)
        else (handled, engine (.item packed ifp), s')

variable (codec : IfpCodec)

/-- The stream is written packets whose true numbers are known, and every call of the engine
succeeds. -/
def machine : Machine T38ModemMediaStream (Int × RTPDataFrame) EngineCall :=
  ⟨fun s p => match s.writePacket codec (fun _ => true) p.2 with
    | (calls, _, s') => some (s', calls)⟩

/-- The packet is one of the stream, fake or an IFP packet, and near the expected one. -/
structure Fit (s : T38ModemMediaStream) (p : Int × RTPDataFrame) : Prop where
  type : p.2.payloadType = s.payloadType
  payload : p.2.payload = [] ∨ (codec.decode p.2.payload).isSome
  number : p.2.sequenceNumber = BitVec.ofInt 16 p.1
  near : -10 < p.1 - s.currentSequenceNumber ∧ p.1 - s.currentSequenceNumber ≤ 10

instance (s : T38ModemMediaStream) (p : Int × RTPDataFrame) : Decidable (Fit codec s p) :=
  decidable_of_iff (p.2.payloadType = s.payloadType ∧
      (p.2.payload = [] ∨ (codec.decode p.2.payload).isSome) ∧ p.2.sequenceNumber = BitVec.ofInt 16 p.1 ∧
      -10 < p.1 - s.currentSequenceNumber ∧ p.1 - s.currentSequenceNumber ≤ 10)
    ⟨fun ⟨h1, h2, h3, h4⟩ => ⟨h1, h2, h3, h4⟩, fun ⟨h1, h2, h3, h4⟩ => ⟨h1, h2, h3, h4⟩⟩

variable {codec} {s s' : T38ModemMediaStream} {p : Int × RTPDataFrame} {es : List EngineCall} {ifp : Ifp}

/-- A packet that is fake, late or repeated is let alone. -/
theorem writePacket_idle (ho : s.isOpen = true) (hf : Fit codec s p) (h : p.2.payload = [] ∨ p.1 < s.currentSequenceNumber)
    (engine : EngineCall → Bool) : s.writePacket codec engine p.2 = ([], true, s) := by
  have hnear := hf.near
  unfold writePacket
  rw [if_neg (by simp [ho]), if_neg (by simp [hf.type]), hf.number,
    sequenceNumber_eq (by omega) (by omega)]
  dsimp only
  split
  next => rfl
  next hlt =>
    rcases h with h | h
    · rw [if_pos h]
    · exact absurd ⟨by omega, by omega⟩ hlt

/-- Any other packet is handled, and what lies between is told to be lost before it. -/
theorem writePacket_handled (ho : s.isOpen = true) (hf : Fit codec s p) (hd : codec.decode p.2.payload = some ifp)
    (hne : p.2.payload ≠ []) (hle : s.currentSequenceNumber ≤ p.1) :
    s.writePacket codec (fun _ => true) p.2 =
      ((if p.1 = s.currentSequenceNumber then [] else [.lost (p.1 - s.currentSequenceNumber)]) ++ [.item p.1 ifp],
        true, { s with currentSequenceNumber := p.1 + 1 }) := by
  have hnear := hf.near
  unfold writePacket
  rw [if_neg (by simp [ho]), if_neg (by simp [hf.type]), hf.number,
    sequenceNumber_eq (by omega) (by omega)]
  dsimp only
  rw [if_neg (by omega), if_neg hne, hd]
  dsimp only
  by_cases h0 : p.1 = s.currentSequenceNumber
  · rw [if_neg (by omega), if_pos h0]
    rfl
  · rw [if_pos (by omega), if_neg h0, if_pos rfl, if_neg (by omega)]
    rfl

/-- What the engine has been called with accounts for the numbers up to the expected one. -/
structure InStep (codec : IfpCodec) (as : List (Int × RTPDataFrame)) (es : List EngineCall) (s : T38ModemMediaStream) :
    Prop where
  isOpen : s.isOpen = true
  tiles : Tiles 0 es s.currentSequenceNumber
  prompt : Prompt es
  genuine : ∀ n ifp, .item n ifp ∈ es → ∃ f, (n, f) ∈ as ∧ codec.decode f.payload = some ifp

theorem step_inStep {as : List (Int × RTPDataFrame)} {es' : List EngineCall} (h : InStep codec as es s)
    (hf : Fit codec s p) (hs : (machine codec).step s p = some (s', es')) :
    InStep codec (as ++ [p]) (es ++ es') s' := by
  have hmore : ∀ n ifp, .item n ifp ∈ es → ∃ f, (n, f) ∈ as ++ [p] ∧ codec.decode f.payload = some ifp := by
    intro n ifp hm
    obtain ⟨f, hfm, hd⟩ := h.genuine n ifp hm
    exact ⟨f, List.mem_append_left _ hfm, hd⟩
  simp only [machine, Option.some.injEq, Prod.mk.injEq] at hs
  obtain ⟨rfl, rfl⟩ := hs
  by_cases hidle : p.2.payload = [] ∨ p.1 < s.currentSequenceNumber
  · rw [writePacket_idle h.isOpen hf hidle, List.append_nil]
    exact ⟨h.isOpen, h.tiles, h.prompt, hmore⟩
  · obtain ⟨hne, hge⟩ := not_or.mp hidle
    have hle : s.currentSequenceNumber ≤ p.1 := Int.not_lt.mp hge
    obtain ⟨ifp, hd⟩ := Option.isSome_iff_exists.mp (hf.payload.resolve_left hne)
    rw [writePacket_handled h.isOpen hf hd hne hle]
    dsimp only
    refine ⟨h.isOpen, h.tiles.append ?_, h.prompt.append ?_, ?_⟩
    · split
      next h0 => exact ⟨h0, by simp [Tiles, h0]⟩
      next h0 => exact ⟨by omega, by omega, by dsimp only [Tiles]; omega⟩
    · split
      next => exact trivial
      next => exact ⟨⟨_, _, _, rfl⟩, trivial⟩
    · intro n x hm
      rcases List.mem_append.mp hm with hm | hm
      · exact hmore n x hm
      · have hx : n = p.1 ∧ x = ifp := by
          split at hm <;> simpa using hm
        obtain ⟨rfl, rfl⟩ := hx
        exact ⟨p.2, List.mem_append_right _ (List.mem_singleton.mpr rfl), hd⟩

theorem run_inStep {as : List (Int × RTPDataFrame)} {n : Nat}
    (h : (machine codec).Run (Fit codec) (opened ⟨false, 0, n⟩) as es s) : InStep codec as es s := by
  induction h with
  | start => exact ⟨rfl, rfl, trivial, fun _ _ hm => nomatch hm⟩
  | next _ hok hs ih => exact step_inStep ih hok hs

/-- What the engine is told by a stream, and what the next packet does. -/
structure Sequenced (codec : IfpCodec) (as : List (Int × RTPDataFrame)) (es : List EngineCall)
    (s : T38ModemMediaStream) : Prop where
  increasing : (handled es).Pairwise (· < ·)
  genuine : ∀ n ifp, .item n ifp ∈ es → ∃ f, (n, f) ∈ as ∧ codec.decode f.payload = some ifp
  between : ∀ pre m x mid n y post, es = pre ++ .item m x :: (mid ++ .item n y :: post) → handled mid = [] →
    mid = if n = m + 1 then [] else [.lost (n - m - 1)]
  idle : ∀ p, Fit codec s p → p.2.payload = [] ∨ p.1 < s.currentSequenceNumber →
    s.writePacket codec (fun _ => true) p.2 = ([], true, s)
  taken : ∀ p, Fit codec s p → p.2.payload ≠ [] → s.currentSequenceNumber ≤ p.1 →
    p.1 ∈ handled (s.writePacket codec (fun _ => true) p.2).1

theorem run_sequenced {as : List (Int × RTPDataFrame)} {n : Nat}
    (h : (machine codec).Run (Fit codec) (opened ⟨false, 0, n⟩) as es s) : Sequenced codec as es s := by
  have hi := run_inStep h
  refine ⟨hi.tiles.increasing, hi.genuine, ?_, fun p hf hp => writePacket_idle hi.isOpen hf hp _, ?_⟩
  · intro pre m x mid n y post hsplit hmid
    have ht := hi.tiles
    have hp := hi.prompt
    rw [hsplit] at ht hp
    exact ht.between hp hmid
  · intro p hf hne hle
    obtain ⟨ifp, hd⟩ := Option.isSome_iff_exists.mp (hf.payload.resolve_left hne)
    rw [writePacket_handled hi.isOpen hf hd hne hle]
    simp [handled]

/-- The encoding of two indicators. -/
def toneCodec : IfpCodec where
  encode
    | .t30Indicator .cng => [0x02]
    | _ => [0x00]
  decode
    | [0x02] => some (.t30Indicator .cng)
    | [0x00] => some (.t30Indicator .noSignal)
    | _ => none

/-- A packet, its repetition, a fake one and, behind a gap, another one. -/
theorem tone_sequenced : ∃ as es s,
    (machine toneCodec).Run (Fit toneCodec) (opened ⟨false, 0, 98⟩) as es s ∧
    es = [.item 0 (.t30Indicator .noSignal), .lost 2, .item 3 (.t30Indicator .cng)] ∧ Sequenced toneCodec as es s := by
  have hr : ∃ s, (machine toneCodec).Run (Fit toneCodec) (opened ⟨false, 0, 98⟩)
      [(0, ⟨0, 98, [0x00]⟩), (0, ⟨0, 98, [0x00]⟩), (1, ⟨1, 98, []⟩), (3, ⟨3, 98, [0x02]⟩)] _ s :=
    Machine.exec_run (by rfl)
  obtain ⟨s, hr⟩ := hr
  exact ⟨_, _, s, hr, by decide +kernel, run_sequenced hr⟩

end T38ModemMediaStream

end T38Modem
