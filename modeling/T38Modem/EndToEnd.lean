import T38Modem.LossyTape
import T38Modem.ReceptionEnd
import T38Modem.SignalSent
import T38Modem.UdptlRedundancy

namespace T38Modem

namespace Incoming

variable {l : Incoming} {as : List (Option Ifp)}

/-- The modulation of each record that is closed. -/
def types (l : Incoming) : List (Option Ifp) → List MsgType
  | [] => []
  | a :: as => List.replicate ((l.arrive a).tape.closed.length - l.tape.closed.length) l.type ++ (l.arrive a).types as

end Incoming

/-- The texts of the records of V.21 signals with good diagnostics. -/
def goodControls (rs : List (List Byte × Diag)) (ts : List MsgType) : List (List Byte) :=
  ((rs.zip ts).filter fun r => r.1.2 = 0 ∧ r.2 = .v21).map (·.1.1)

theorem goodControls_append {rs rs' : List (List Byte × Diag)} {ts ts' : List MsgType} (h : rs.length = ts.length) :
    goodControls (rs ++ rs') (ts ++ ts') = goodControls rs ts ++ goodControls rs' ts' := by
  unfold goodControls
  rw [List.zip_append h, List.filter_append, List.map_append]

theorem goodControls_replicate (rs : List (List Byte × Diag)) (type : MsgType) :
    goodControls rs (List.replicate rs.length type) =
      if type = .v21 then (rs.filter (·.2 = 0)).map Prod.fst else [] := by
  have hzip : rs.zip (List.replicate rs.length type) = rs.map (·, type) := by
    induction rs with
    | nil => rfl
    | cons r rs ih => rw [List.length_cons, List.replicate_succ, List.zip_cons_cons, ih, List.map_cons]
  unfold goodControls
  rw [hzip, List.filter_map, List.map_map]
  split
  next ht =>
    subst ht
    simp [Function.comp_def]
  next ht => simp [Function.comp_def, ht]

/-- The records that are closed from now on are those that the frames have come in. -/
theorem goodControls_types (l : Incoming) (as : List (Option Ifp)) :
    goodControls ((as.foldl Incoming.arrive l).tape.closed.drop l.tape.closed.length) (l.types as) = l.controlFrames as := by
  induction as generalizing l with
  | nil => simp [Incoming.types, Incoming.controlFrames, goodControls]
  | cons a as ih =>
    obtain ⟨rs, hrs⟩ := @Incoming.arrive_closed l a
    obtain ⟨qs, hqs⟩ := @Incoming.arrives_closed (l.arrive a) as
    have hlen : (l.arrive a).tape.closed.length - l.tape.closed.length = rs.length := by
      rw [← hrs, List.length_append, Nat.add_sub_cancel_left]
    have hdrop : ((a :: as).foldl Incoming.arrive l).tape.closed.drop l.tape.closed.length = rs ++ qs := by
      rw [List.foldl_cons, ← hqs, ← hrs, List.append_assoc, List.drop_left]
    have htail := ih (l.arrive a)
    rw [← hqs, List.drop_left] at htail
    rw [hdrop, Incoming.types, Incoming.controlFrames, hlen, goodControls_append (by simp), goodControls_replicate, htail]
    congr 1
    unfold Incoming.controls
    rw [← hrs, List.drop_left]

theorem goodControls_prefix {rs rs' : List (List Byte × Diag)} (h : rs <+: rs') (ts : List MsgType) :
    (goodControls rs ts).Sublist (goodControls rs' ts) := by
  have hzip : (rs.zip ts) <+: (rs'.zip ts) := by
    obtain ⟨qs, rfl⟩ := h
    induction rs generalizing ts with
    | nil => exact List.nil_prefix
    | cons r rs ih =>
      cases ts with
      | nil => exact List.nil_prefix
      | cons t ts => exact (List.prefix_cons_inj _).mpr (ih ts)
  exact (hzip.sublist.filter _).map _

namespace UdptlLink

open Delivery

variable {t : T38Protocol} {codec : IfpCodec} {as : List Act} {es : List EngineCall} {s : UdptlLink}

/-- The packets that `Originate` has got from `PreparePacket`. -/
def handedIn (as : List Act) : List Ifp := as.filterMap fun | .prepared (.packet ifp) => some ifp | _ => none

/-- What is sent is what was handed in, with some of the indicators said again. -/
theorem run_stutters (h : (machine t codec).Run (allowed codec) {} as es s) :
    Stutters (fun p => p.isIndicator = true) (handedIn as) s.sent ∧
      (s.tx.lastifp = .badTag ∨ s.sent.getLast? = some s.tx.lastifp) := by
  induction h with
  | start => exact ⟨.nil, .inl rfl⟩
  | @next as es s a s' es' _ _ hs ih =>
    obtain ⟨hst, hlast⟩ := ih
    unfold handedIn at hst ⊢
    rw [List.filterMap_append]
    cases a with
    | deliver i =>
      simp only [machine, step] at hs
      split at hs
      next => cases hs
      next =>
        simp only [Option.some.injEq, Prod.mk.injEq] at hs
        obtain ⟨rfl, rfl⟩ := hs
        show Stutters _ (List.filterMap _ as ++ []) s.sent ∧ _
        rw [List.append_nil]
        exact ⟨hst, hlast⟩
    | prepared res =>
      simp only [machine, step] at hs
      split at hs
      next => cases hs
      next o ifp heq =>
        simp only [Option.some.injEq, Prod.mk.injEq] at hs
        obtain ⟨rfl, rfl⟩ := hs
        cases res with
        | packet p =>
          cases heq
          exact ⟨.next p hst, .inr List.getLast?_concat⟩
        | timeOut =>
          show Stutters _ (List.filterMap _ as ++ []) (s.sent ++ ifp.toList) ∧ (o.lastifp = _ ∨ (s.sent ++ ifp.toList).getLast? = _)
          rw [List.append_nil]
          unfold T38Protocol.originate at heq
          dsimp only at heq
          split at heq
          next hr =>
            cases heq
            rcases hlast with hbad | hlast
            · rw [hbad] at hr
              cases hr.2
            · exact ⟨.again hr.2 hlast hst, .inr List.getLast?_concat⟩
          next =>
            cases heq
            rw [Option.toList_none, List.append_nil]
            exact ⟨hst, hlast⟩
        | stopped => cases heq

/-- The calls of the engine are what is left of what is sent, and all of it where no loss is told. -/
theorem run_thins (h : (machine t codec).Run (allowed codec) {} as es s) :
    Thins (s.sent.take s.rx.expectedSequenceNumber.toNat) (es.map Report.arrival) ∧
      ((∀ k, .lost k ∉ es) → es.map Report.arrival = (s.sent.take s.rx.expectedSequenceNumber.toNat).map some) := by
  have hl := run_linked h
  have hn : Numbered s.sent es := hl.genuine
  have hle := hl.tiles.end_le hl.prompt hn (Int.natCast_nonneg _)
  have ht := hl.tiles.thins hn (Int.le_refl 0) hle
  refine ⟨by simpa using ht, fun hnone => ?_⟩
  simpa using hl.tiles.arrivals hn (Int.le_refl 0) hle hnone

end UdptlLink

/-- Indicators that are said again bring no frames. -/
theorem controlFrames_stutters {ps qs : List Ifp} (h : Stutters (fun p => p.isIndicator = true) ps qs)
    (hs : Incoming.Speaks {} ps) :
    Incoming.controlFrames {} (qs.map some) = Incoming.controlFrames {} (ps.map some) := by
  induction h with
  | nil => rfl
  | @next p ps qs hst ih =>
    obtain ⟨hps, -⟩ := Incoming.speaks_concat.mp hs
    have hsame : qs.foldl Incoming.packet {} = ps.foldl Incoming.packet {} := (spoken_stutters hst hps).2
    rw [List.map_append, List.map_append, Incoming.controlFrames_append, Incoming.controlFrames_append, ih hps,
      Incoming.arrive_packets, Incoming.arrive_packets, hsame]
  | @again p ps qs hp hl hst ih =>
    have hlast : (qs.foldl Incoming.packet {}).packet p = qs.foldl Incoming.packet {} := by
      have hboth : spoken (qs ++ [p]) = spoken qs :=
        (spoken_stutters (.again hp hl hst) hs).2.trans (spoken_stutters hst hs).2.symm
      rwa [spoken_concat] at hboth
    have hnil : (qs.foldl Incoming.packet {}).controls (some p) = [] := Incoming.controls_same (by
      show ((qs.foldl Incoming.packet {}).packet p).tape.closed = _
      rw [hlast])
    rw [List.map_append, Incoming.controlFrames_append, Incoming.arrive_packets, ih hs]
    show _ ++ ((qs.foldl Incoming.packet {}).controls (some p) ++ []) = _
    rw [hnil, List.append_nil, List.append_nil]

section

open Delivery Sys

variable {junk junk' : Hdlc} {now now' : Int} {t : T38Protocol} {codec : IfpCodec} {as₁ as₃ : List Act}
  {as₂ : List UdptlLink.Act} {es₁ es₃ : List Event} {es₂ : List EngineCall} {s : Sys} {u : UdptlLink} {x : Sys × DteLog}

/-- The packets of a sender fit one behind the other. -/
theorem Sys.run_speaks (h : machine.Run (fun _ _ => True) (start junk now) as₁ es₁ s) :
    ∃ ps, packets es₁ = ps.map some ∧ Incoming.Speaks {} ps := by
  obtain ⟨ps, hp, hg⟩ : ∃ ps, packets es₁ = ps.map some ∧ s.Grammatical ps := by
    refine h.invariant (I := fun es s => ∃ ps, packets es = ps.map some ∧ s.Grammatical ps)
      ⟨[], rfl, .start junk now⟩ fun es s a s' es' hi _ hs => ?_
    obtain ⟨ps, hp, hgr⟩ := hi
    obtain ⟨ps', hp', hgr'⟩ := hgr.step (step_cases hs)
    exact ⟨ps ++ ps', by rw [packets_append, hp, hp', List.map_append], hgr'⟩
  obtain ⟨o, hb, -⟩ := hg.begun
  exact ⟨ps, hp, hb.speaks.1⟩

theorem prefix_of_map {α : Type*} {xs ys : List α} (h : xs.map some <+: ys.map some) : xs <+: ys := by
  obtain ⟨more, hmore⟩ := h
  obtain ⟨front, rest, rfl, hf, -⟩ := List.map_eq_append_iff.mp hmore.symm
  rw [(List.map_injective_iff.mpr (Option.some_injective α)) hf]
  exact List.prefix_append _ _

/-- What comes of the packets over a channel that says some indicators again and loses packets brings no good V.21 frame
but theirs. -/
theorem arrived_controls {handed sent : List Ifp} {n : Nat} {arrived : List (Option Ifp)} (hs : Incoming.Speaks {} handed)
    (hst : Stutters (fun p => p.isIndicator = true) handed sent) (hthins : Thins (sent.take n) arrived)
    (h₃ : reception.Run KeepsTurn (start junk' now', {}) as₃ es₃ x) (hout : arrivals as₃ <+: arrived) :
    (goodControls x.2.records (Incoming.types {} (arrivals as₃))).Sublist (Incoming.controlFrames {} (handed.map some)) := by
  obtain ⟨hsent, -⟩ := spoken_stutters hst hs
  obtain ⟨later, hlater⟩ := hout
  rw [← hlater] at hthins
  obtain ⟨front, hfront, hleft⟩ := hthins.of_append
  obtain ⟨more, hmore⟩ := hfront.trans (List.take_prefix _ _)
  have hcame : (Incoming.controlFrames {} (arrivals as₃)).Sublist (Incoming.controlFrames {} (front.map some)) := by
    rw [← hmore] at hsent
    obtain ⟨hfirst, -⟩ := Incoming.speaks_append.mp hsent
    exact Incoming.Follows.controlFrames (.silent rfl) hleft hfirst
  have hgot : (goodControls x.2.records (Incoming.types {} (arrivals as₃))).Sublist (Incoming.controlFrames {} (arrivals as₃)) := by
    have hall := goodControls_types {} (arrivals as₃)
    rw [← incoming_arrivals] at hall
    rw [← hall]
    exact goodControls_prefix (run_records h₃) _
  calc
    (goodControls x.2.records (Incoming.types {} (arrivals as₃))).Sublist (Incoming.controlFrames {} (front.map some)) :=
      hgot.trans hcame
    List.Sublist _ (Incoming.controlFrames {} (sent.map some)) := by
      rw [← hmore, List.map_append, Incoming.controlFrames_append]
      exact List.sublist_append_left _ _
    _ = Incoming.controlFrames {} (handed.map some) := controlFrames_stutters hst hs

/-- The packets that are handed over are the first that the sender makes. -/
theorem handed_controls {handed : List Ifp} (h₁ : machine.Run (fun _ _ => True) (start junk now) as₁ es₁ s)
    (hin : handed.map some <+: packets es₁) :
    Incoming.Speaks {} handed ∧
      (Incoming.controlFrames {} (handed.map some)).Sublist (Incoming.controlFrames {} (packets es₁)) := by
  obtain ⟨ps, hps, hspeaks⟩ := run_speaks h₁
  rw [hps] at hin ⊢
  obtain ⟨rest, rfl⟩ := prefix_of_map hin
  obtain ⟨hhanded, -⟩ := Incoming.speaks_append.mp hspeaks
  refine ⟨hhanded, ?_⟩
  rw [List.map_append, Incoming.controlFrames_append]
  exact List.sublist_append_left _ _

/-- A control frame that the DTE gets with good diagnostics is one that the sender has sent, whatever the network loses,
repeats and reorders: the sender hands its packets to `Originate`, the network what it will to `Answer`, and `Answer` what
it has, with the losses, to the engine of the DTE. -/
theorem controls_survive (h₁ : machine.Run (fun _ _ => True) (start junk now) as₁ es₁ s)
    (h₂ : (UdptlLink.machine t codec).Run (UdptlLink.allowed codec) {} as₂ es₂ u)
    (hin : (UdptlLink.handedIn as₂).map some <+: packets es₁)
    (h₃ : reception.Run KeepsTurn (start junk' now', {}) as₃ es₃ x) (hout : arrivals as₃ <+: es₂.map Report.arrival) :
    (goodControls x.2.records (Incoming.types {} (arrivals as₃))).Sublist (Incoming.controlFrames {} (packets es₁)) := by
  obtain ⟨hhanded, hsub⟩ := handed_controls h₁ hin
  obtain ⟨hst, -⟩ := UdptlLink.run_stutters h₂
  obtain ⟨hthins, -⟩ := UdptlLink.run_thins h₂
  exact (arrived_controls hhanded hst hthins h₃ hout).trans hsub

/-- All packets of a signal have come: behind what the packets before its indicator say there are the frames that the modem
has got in, each with good diagnostics, and the end of the signal, or the octets of a signal without frames. -/
theorem signal_came {as₀ : List Act} {es₀ : List Event} {s₀ s₁ : Sys} {type : DataType} {param : Int}
    (h₀ : machine.Run (fun _ _ => True) (start junk now) as₀ es₀ s₀) (htype : type = .dtHdlc ∨ type = .dtRaw)
    (hstart : machine.step s₀ (.sendStart type param) = some (s₁, [.sendStart type true]))
    (ht38 : s₁.e.modParsOut.dataTypeT38 = type) (h₁ : machine.Run Patient s₁ as₁ es₁ s)
    (hend : (heard s₁.e.modParsOut.ind (packets es₁)).ended = true)
    (h₂ : (UdptlLink.machine t codec).Run (UdptlLink.allowed codec) {} as₂ es₂ u)
    (hin : (UdptlLink.handedIn as₂).map some = packets (es₀ ++ es₁)) (hnone : ∀ k, .lost k ∉ es₂)
    (hall : u.rx.expectedSequenceNumber = u.sent.length) (hout : arrivals as₃ = es₂.map Report.arrival) :
    ∃ front rest, packets es₁ = front ++ some (t38indicator s₁.e.modParsOut.ind) :: rest ∧
      (incoming as₃).tape =
        ⟨((packets es₀ ++ front).foldl Incoming.arrive {}).tape.closed ++ sentRecords type (accepted es₁), none⟩ := by
  obtain ⟨ps₀, ps, hps₀, hps, ⟨o, hb⟩, hon, hconveyed⟩ := run_spoken h₀ htype hstart ht38 h₁
  have hdelivered := hconveyed.ended hend
  -- all that the sender has sent is on the tape of the receiver
  have hhanded : UdptlLink.handedIn as₂ = ps₀ ++ ps := by
    rw [packets_append, hps₀, hps, ← List.map_append] at hin
    exact (List.map_injective_iff.mpr (Option.some_injective Ifp)) hin
  obtain ⟨hst, -⟩ := UdptlLink.run_stutters h₂
  rw [hhanded] at hst
  have hsent : spoken u.sent = spoken (ps₀ ++ ps) := (spoken_stutters hst hb.speaks.1).2
  have hcame : arrivals as₃ = u.sent.map some := by
    rw [hout, (UdptlLink.run_thins h₂).2 hnone, hall, Int.toNat_natCast, List.take_length]
  have htape : incoming as₃ = spoken (ps₀ ++ ps) := by
    rw [← hsent, incoming, incoming_arrivals, hcame, Incoming.arrive_packets]
    rfl
  cases hon with
  | before hh =>
    rw [hh] at hend
    cases hend
  | during _ _ _ _ _ he => exact absurd (he.symm.trans hend) Bool.false_ne_true
  | behind front rest hsplit hlen _ _ hclosed hcur =>
    obtain ⟨front, rfl⟩ : ps₀ <+: front :=
      List.prefix_of_prefix_length_le (List.prefix_append ps₀ ps) (hsplit ▸ List.prefix_append _ _) hlen
    rw [List.append_assoc] at hsplit
    obtain rfl : ps = front ++ t38indicator s₁.e.modParsOut.ind :: rest := List.append_cancel_left hsplit
    have hbefore : (packets es₀ ++ front.map some).foldl Incoming.arrive {} = spoken (ps₀ ++ front) := by
      rw [hps₀, ← List.map_append, Incoming.arrive_packets]
      rfl
    rw [List.append_assoc, delivered_records hdelivered] at hclosed
    refine ⟨front.map some, rest.map some, by rw [hps]; simp, ?_⟩
    rw [hbefore, htape, ← hclosed, ← hcur]

/-- A signal from one modem to the other, where the network loses nothing for good: behind what the packets before its
indicator say the DTE gets the frames that the other modem has got in, each with good diagnostics, and the end of the signal,
or the octets of a signal without frames. -/
theorem signal_carried {as₀ : List Act} {es₀ : List Event} {s₀ s₁ r : Sys} {d : DteLog} {type : DataType} {param : Int}
    (h₀ : machine.Run (fun _ _ => True) (start junk now) as₀ es₀ s₀) (htype : type = .dtHdlc ∨ type = .dtRaw)
    (hstart : machine.step s₀ (.sendStart type param) = some (s₁, [.sendStart type true]))
    (ht38 : s₁.e.modParsOut.dataTypeT38 = type) (h₁ : machine.Run Patient s₁ as₁ es₁ s)
    (hend : (heard s₁.e.modParsOut.ind (packets es₁)).ended = true)
    (h₂ : (UdptlLink.machine t codec).Run (UdptlLink.allowed codec) {} as₂ es₂ u)
    (hin : (UdptlLink.handedIn as₂).map some = packets (es₀ ++ es₁)) (hnone : ∀ k, .lost k ∉ es₂)
    (hall : u.rx.expectedSequenceNumber = u.sent.length)
    (h₃ : reception.Run KeepsTurn (start junk' now', {}) as₃ es₃ (r, d)) (hout : arrivals as₃ = es₂.map Report.arrival) :
    ∃ front rest, packets es₁ = front ++ some (t38indicator s₁.e.modParsOut.ind) :: rest ∧
      let rs := ((packets es₀ ++ front).foldl Incoming.arrive {}).tape.closed ++ sentRecords type (accepted es₁)
      d.records <+: rs ∧ (r.modem = .out → r.e.stateModem = .stmIdle ∨ r.e.stateModem.isIn = true →
        ∃ as es x, reception.Run Receiving (r, d) as es x ∧ x.2.records = rs) := by
  obtain ⟨front, rest, hsplit, htape⟩ := signal_came h₀ htype hstart ht38 h₁ hend h₂ hin hnone hall hout
  refine ⟨front, rest, hsplit, ?_⟩
  dsimp only
  refine ⟨?_, fun hm hidle => ?_⟩
  · have hrec := run_records h₃
    rwa [htape] at hrec
  · obtain ⟨x, ⟨as, es, hrun⟩, hrec⟩ := goes_all (run_received h₃) hm (by rw [htape]) hidle
    rw [htape] at hrec
    exact ⟨as, es, x, hrun, hrec⟩

theorem nil_of_first {α : Type*} {p : α} {ps front rest : List α} (h : p :: ps = front ++ p :: rest) (hp : p ∉ ps) : front = [] := by
  cases front with
  | nil => rfl
  | cons q front =>
    obtain ⟨-, hps⟩ := List.cons.inj h
    exact absurd (hps ▸ List.mem_append_right front List.mem_cons_self) hp

/-- The encoding of the packets of V.21 signals with frames of one octet. -/
def v21Codec : IfpCodec where
  encode
    | .t30Indicator .v21Preamble => [0x06]
    | .data .v21 (some [⟨.hdlcData, some [b]⟩]) => [0xC0, 0x01, 0x80, 0x00, 0x00, b]
    | .data .v21 (some [⟨.hdlcFcsOK, none⟩]) => [0xC0, 0x01, 0x20]
    | .data .v21 (some [⟨.hdlcSigEnd, none⟩]) => [0xC0, 0x01, 0x10]
    | _ => [0x00]
  decode
    | [0x06] => some (.t30Indicator .v21Preamble)
    | [0xC0, 0x01, 0x80, 0x00, 0x00, b] => some (.data .v21 (some [⟨.hdlcData, some [b]⟩]))
    | [0xC0, 0x01, 0x20] => some (.data .v21 (some [⟨.hdlcFcsOK, none⟩]))
    | [0xC0, 0x01, 0x10] => some (.data .v21 (some [⟨.hdlcSigEnd, none⟩]))
    | [0x00] => some (.t30Indicator .noSignal)
    | _ => none

/-- The packets go out one by one, and come in but for those that are left out. -/
def pairLink (delivered : List Nat) : List UdptlLink.Act :=
  (t38indicator .noSignal :: pairPackets).map (fun p => .prepared (.packet p)) ++ delivered.map .deliver

/-- The octet of the first frame is lost. -/
def firstLost : List Act :=
  [.handlePacket (t38indicator .noSignal), .recvWait .dtHdlc 3 1, .handlePacket (t38indicator .v21Preamble), .inn, .inn,
    .handlePacketLost, .handlePacket (t38data .v21 .hdlcFcsOK []), .handlePacket (t38data .v21 .hdlcData [8]),
    .recvStart 2, .recv 5, .recvDiag, .recvStop, .handlePacket (t38data .v21 .hdlcFcsOK []), .recvWait .dtHdlc 3 1,
    .recvStart 2, .recv 5, .recv 5, .recvDiag, .recvStop, .handlePacket (t38data .v21 .hdlcSigEnd [])]

def secondGot (r : (Sys × DteLog) × List Event) : Bool :=
  decide (r.1.2.records = [([], diagBadFcs), ([8], 0)])

theorem pair_sent : ∃ s as es, machine.Run (fun _ _ => True) (start default 0) as es s ∧
    packets es = (t38indicator .noSignal :: pairPackets).map some := by
  obtain ⟨s, es, h, hp⟩ : ∃ s es, machine.Run (fun _ _ => True) (start default 0)
      (List.replicate 7 .out ++ .sendStart .dtHdlc 3 :: pairRun) es s ∧
      (fun es => decide (packets es = (t38indicator .noSignal :: pairPackets).map some)) es = true :=
    Machine.exec_seen (by decide +kernel)
  exact ⟨s, _, es, h, of_decide_eq_true hp⟩

theorem second_got : ∃ x es, reception.Run KeepsTurn (start default 0, {}) firstLost es x ∧
    x.2.records = [([], diagBadFcs), ([8], 0)] := by
  obtain ⟨x, es, h, ht⟩ : ∃ x es, reception.Run KeepsTurn (start default 0, {}) firstLost es x ∧ secondGot (x, es) = true :=
    Machine.exec_passes (by decide +kernel)
  exact ⟨x, es, h, of_decide_eq_true ht⟩

theorem second_survives : ∃ es₁ es₃ x, packets es₁ = (t38indicator .noSignal :: pairPackets).map some ∧
    reception.Run KeepsTurn (start default 0, {}) firstLost es₃ x ∧ x.2.records = [([], diagBadFcs), ([8], 0)] ∧
    ([[8]] : List (List Byte)).Sublist (Incoming.controlFrames {} (packets es₁)) := by
  obtain ⟨s, as₁, es₁, h₁, hpackets⟩ := pair_sent
  obtain ⟨u, h₂⟩ : ∃ u, (UdptlLink.machine ⟨0, 0, 0, false⟩ v21Codec).Run (UdptlLink.allowed v21Codec) {}
      (pairLink [0, 1, 3, 4, 5, 6]) [.item 0 (t38indicator .noSignal), .item 1 (t38indicator .v21Preamble), .lost 1,
        .item 3 (t38data .v21 .hdlcFcsOK []), .item 4 (t38data .v21 .hdlcData [8]), .item 5 (t38data .v21 .hdlcFcsOK []),
        .item 6 (t38data .v21 .hdlcSigEnd [])] u :=
    Machine.exec_run (by decide +kernel)
  obtain ⟨x, es₃, h₃, hrec⟩ := second_got
  have hsub := controls_survive h₁ h₂ (by rw [hpackets]; exact List.prefix_refl _) h₃ (List.prefix_refl _)
  rw [hrec] at hsub
  exact ⟨es₁, es₃, x, hpackets, h₃, hrec, hsub⟩

/-- All packets come, while the DTE reads the first frame. -/
def pairCame : List Act :=
  [.handlePacket (t38indicator .noSignal), .recvWait .dtHdlc 3 1, .handlePacket (t38indicator .v21Preamble), .inn, .inn,
    .handlePacket (t38data .v21 .hdlcData [7]), .recvStart 2, .recv 5, .handlePacket (t38data .v21 .hdlcFcsOK []), .inn, .inn,
    .handlePacket (t38data .v21 .hdlcData [8]), .inn, .inn, .handlePacket (t38data .v21 .hdlcFcsOK []), .inn, .inn,
    .handlePacket (t38data .v21 .hdlcSigEnd [])]

theorem pair_carried : ∃ es₃ x as es x', reception.Run KeepsTurn (start default 0, {}) pairCame es₃ x ∧ x.2.records = [] ∧
    reception.Run Receiving x as es x' ∧ x'.2.records = [([7], 0), ([8], 0), ([], diagNoCarrier)] := by
  have hstart : machine.step first (.sendStart .dtHdlc 3) = some (_, [.sendStart .dtHdlc true]) := rfl
  have hx : (machine.exec Patient { first with e := (first.e.sendStart .dtHdlc 3).2 } pairRun).map Prod.snd =
      some [.packet (some (t38indicator .v21Preamble)), .send [7] (some 1), .sendStop true 1 true,
        .packet (some (t38data .v21 .hdlcData [7])), .callbackOut .paramOut 1, .send [8] (some 1), .sendStop false 1 true,
        .packet (some (t38data .v21 .hdlcFcsOK [])), .packet (some (t38data .v21 .hdlcData [8])),
        .packet (some (t38data .v21 .hdlcFcsOK [])), .callbackOut .paramOut 1,
        .packet (some (t38data .v21 .hdlcSigEnd []))] := by decide +kernel
  obtain ⟨s, h₁⟩ := Machine.exec_run hx
  obtain ⟨u, h₂, hall⟩ : ∃ u, (UdptlLink.machine ⟨0, 0, 0, false⟩ v21Codec).Run (UdptlLink.allowed v21Codec) {}
      (pairLink [0, 1, 2, 3, 4, 5, 6]) [.item 0 (t38indicator .noSignal), .item 1 (t38indicator .v21Preamble),
        .item 2 (t38data .v21 .hdlcData [7]), .item 3 (t38data .v21 .hdlcFcsOK []), .item 4 (t38data .v21 .hdlcData [8]),
        .item 5 (t38data .v21 .hdlcFcsOK []), .item 6 (t38data .v21 .hdlcSigEnd [])] u ∧
        (fun u : UdptlLink => decide (u.rx.expectedSequenceNumber = u.sent.length)) u = true :=
    Machine.exec_test (by decide +kernel)
  obtain ⟨⟨r, d⟩, es₃, h₃, ht⟩ : ∃ x es₃, reception.Run KeepsTurn (start default 0, {}) pairCame es₃ x ∧ ready (x, es₃) = true :=
    Machine.exec_passes (by decide +kernel)
  unfold ready at ht
  simp only [Bool.and_eq_true, decide_eq_true_eq, List.isEmpty_iff] at ht
  obtain ⟨⟨hm, hin⟩, hd⟩ := ht
  obtain ⟨front, rest, hfront, -, hget⟩ := signal_carried run_first (.inl rfl) hstart rfl h₁ (by decide +kernel) h₂ rfl
    (by simp) (of_decide_eq_true hall) h₃ rfl
  obtain ⟨as, es, x', hrun, hrec⟩ := hget hm (.inr hin)
  obtain rfl : front = [] := nil_of_first hfront (by decide)
  exact ⟨es₃, _, as, es, x', h₃, hd, hrun, hrec⟩

end

end T38Modem
