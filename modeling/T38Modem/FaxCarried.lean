import T38Modem.EndToEnd
import T38Modem.FrameReading
import T38Modem.SendTurns

namespace T38Modem

open Delivery Sys

/-- The records of the frames of a signal, as the modem gives them to its engine. -/
def frameRecords (frames : List (List Byte)) : List (List Byte × Diag) :=
  (frames.filter (· ≠ [])).map fun frame => (frame.map bitRevTable, 0)

theorem sentRecords_frames (frames : List (List Byte)) :
    sentRecords .dtHdlc ⟨frames.map fun f => (f.map bitRevTable, moreToCome (f.map bitRevTable)), []⟩ =
      frameRecords frames ++ [([], diagNoCarrier)] := by
  have hclosed : (closed (frames.map fun f => (f.map bitRevTable, moreToCome (f.map bitRevTable)))).map frameRecord =
      frameRecords frames := by
    induction frames with
    | nil => rfl
    | cons f frames ih =>
      unfold closed frameRecords at ih ⊢
      cases f with
      | nil => simpa using ih
      | cons c f => simpa [frameRecord] using ih
  unfold sentRecords
  rw [if_pos rfl, hclosed]

section

variable {junk junk' : Hdlc} {now now' : Int} {t : T38Protocol} {codec : IfpCodec} {as₀ as₁ as₃ : List Act}
  {as₂ : List UdptlLink.Act} {es₀ es₁ es₃ es₄ : List Event} {es₂ : List EngineCall} {s₀ s₁ : Sys} {u : UdptlLink}
  {x : Sys × Option Int} {y : Sys × DteLog} {a a₀ a₁ aₙ : Answers} {as : List Answers} {b c : ModemEngineBody} {m : Modem}
  {frames : List (List Byte)} {segs : List (List ModemAct × List ModemSeen)} {param : Int}

/-- Frames from one fax application to the other: the DTE of the one modem gives them in, octet-stuffed, and the DTE of the
other modem gets each of them as it was given in, with its check sequence and OK, and NO CARRIER behind the last. -/
theorem fax_carried (hclass : b.modemClass = .mcFax) (hsend : (b.sendStart a .dtHdlc).1 = true)
    (hsignal : Modem.Signal ⟨(b.sendStart a .dtHdlc).2, .idle⟩ segs m) (hidle : m.pc = .idle)
    (hgives : List.Forall₂ Modem.Gives frames segs)
    (h₀ : machine.Run (fun _ _ => True) (start junk now) as₀ es₀ s₀) (hcalm : s₀.out.callback ≠ some .paramOut)
    (hstart : machine.step s₀ (.sendStart .dtHdlc param) = some (s₁, [.sendStart .dtHdlc true]))
    (ht38 : s₁.e.modParsOut.dataTypeT38 = .dtHdlc) (h₁ : turns.Run Courteous (s₁, none) as₁ es₁ x)
    (hcalls : sendCalls es₁ = segs.flatMap fun seg => Modem.engineCalls seg.2)
    (hended : (heard s₁.e.modParsOut.ind (packets es₁)).ended = true)
    (h₂ : (UdptlLink.machine t codec).Run (UdptlLink.allowed codec) {} as₂ es₂ u)
    (hin : (UdptlLink.handedIn as₂).map some = packets (es₀ ++ es₁)) (hnone : ∀ k, .lost k ∉ es₂)
    (hall : u.rx.expectedSequenceNumber = u.sent.length)
    (h₃ : reception.Run KeepsTurn (start junk' now', {}) as₃ (es₃ ++ es₄) y) (hout : arrivals as₃ = es₂.map Report.arrival)
    (hreads : es₄.filter Event.reading = Modem.recvCalls a₁ (as ++ [aₙ]) aₙ.recvDiag) (hbegin : a₁.recvStart = true)
    (hmore : ∀ a ∈ as, (ModemEngineBody.heard a.recv).2 = false) (hlast : (ModemEngineBody.heard aₙ.recv).2 = true)
    (hclass' : c.modemClass = .mcFax) (hquiet : ¬(c.off_hook = false ∧ c.callState = .cstCalled))
    (hwait : (c.recvStart a₀ .dtHdlc).1 = true) :
    ∃ front rest, packets es₁ = front ++ some (t38indicator s₁.e.modParsOut.ind) :: rest ∧
      ∀ k, (es₃.foldl DteLog.see {}).records.length =
          ((packets es₀ ++ front).foldl Incoming.arrive {}).tape.closed.length + k →
        ∃ chunks code m', Modem.machine.Run (fun _ _ => True) ⟨c.begun a₀, .idle⟩
            (.checkState a₁ :: (as ++ [aₙ]).map .checkState)
            (.out (.result .connect) :: chunks.map (fun c => .out (.data c)) ++ [.out (.result code)]) m' ∧
          m'.body.state = .stCommand ∧
          (∀ frame, (frames.filter (· ≠ []))[k]? = some frame → chunks.flatten = Modem.onLine frame ∧ code = .ok) ∧
          (k = (frames.filter (· ≠ [])).length → chunks = [] ∧ code = .noCarrier) := by
  obtain ⟨hpatient, htaken⟩ := run_taken h₀ hcalm hstart ht38 h₁
  obtain ⟨hproper, haccepted⟩ := hsignal.calls hclass hsend hidle hgives
  obtain ⟨front, rest, hsplit, htape⟩ :=
    signal_came h₀ (.inl rfl) hstart ht38 hpatient hended h₂ hin hnone hall hout
  rw [htaken (hcalls ▸ hproper), hcalls, haccepted, sentRecords_frames] at htape
  refine ⟨front, rest, hsplit, fun k hk => ?_⟩
  -- the record that the other modem has read is the one of that number
  have hrecord : (frameRecords frames ++ [([], diagNoCarrier)])[k]? = some (Modem.framed (as ++ [aₙ]), aₙ.recvDiag) := by
    obtain ⟨more, hprefix⟩ := run_records h₃
    have hlog := run_seen h₃
    rw [List.foldl_append, Modem.see_recvCalls hbegin hmore hlast hreads] at hlog
    rw [hlog, htape] at hprefix
    have hget := congrArg (·[(es₃.foldl DteLog.see {}).records.length]?) hprefix
    dsimp only at hget
    rw [List.append_assoc, List.getElem?_append_right (Nat.le_refl _), Nat.sub_self, hk,
      List.getElem?_append_right (Nat.le_add_right _ _), Nat.add_sub_cancel_left] at hget
    exact hget.symm
  obtain ⟨chunks, m', hrun, hstate, hdata, hempty⟩ :=
    Modem.run_onLine hclass' hquiet hwait hbegin (recvCalls_sameSig h₃ hbegin hreads) hmore hlast
  have hlen : (frameRecords frames).length = (frames.filter (· ≠ [])).length := List.length_map _
  refine ⟨chunks, _, m', hrun, hstate, fun frame hframe => ?_, fun hend => ?_⟩
  · have hk' : k < (frameRecords frames).length := by
      rw [hlen]
      exact (List.getElem?_eq_some_iff.mp hframe).1
    rw [List.getElem?_append_left hk', frameRecords, List.getElem?_map, hframe] at hrecord
    obtain ⟨hframed, hdiag⟩ := Prod.mk.inj (Option.some.inj hrecord)
    have hne : frame ≠ [] := by simpa using (List.mem_filter.mp (List.mem_of_getElem? hframe)).2
    refine ⟨hdata frame hdiag.symm hne hframed.symm, ?_⟩
    rw [← hdiag]
    rfl
  · rw [← hlen] at hend
    rw [hend, List.getElem?_concat_length] at hrecord
    obtain ⟨hframed, hdiag⟩ := Prod.mk.inj (Option.some.inj hrecord)
    refine ⟨hempty hframed.symm, ?_⟩
    rw [← hframed, ← hdiag]
    rfl

/-- The DTE gives in two frames of two octets, the second of them with the final bit. -/
def twoGiven : List (List ModemAct × List ModemSeen) :=
  [(Modem.inTwo 0x03, Modem.sentTwo 0x03 true), (Modem.inTwo 0x13, Modem.sentTwo 0x13 false)]

/-- The engine takes the frames in, the second of them when the first is sent. -/
def twoSent : List Act :=
  [[.tick 75], List.replicate 5 .out, [.tick 900, .send [0xFF], .modem, .send [0xC0], .modem, .sendStop true 1, .modem],
    List.replicate 4 .out, [.tick 200], List.replicate 12 .out, [.tick 60], List.replicate 12 .out, [.tick 60],
    List.replicate 12 .out, [.send [0xFF], .modem, .send [0xC8], .modem, .sendStop false 2, .modem, .tick 30],
    List.replicate 12 .out, [.tick 60], List.replicate 12 .out, [.tick 60], List.replicate 12 .out, [.tick 200],
    List.replicate 2 .out].flatten

def twoPackets : List Ifp :=
  [t38indicator .v21Preamble, t38data .v21 .hdlcData [0xFF], t38data .v21 .hdlcData [0xC0], t38data .v21 .hdlcFcsOK [],
    t38data .v21 .hdlcData [0xFF], t38data .v21 .hdlcData [0xC8], t38data .v21 .hdlcFcsOK [], t38data .v21 .hdlcSigEnd []]

/-- The packets go out one by one, and come in. -/
def twoLink : List UdptlLink.Act :=
  (t38indicator .noSignal :: twoPackets).map (fun p => .prepared (.packet p)) ++ (List.range 9).map .deliver

def twoReports : List EngineCall := (t38indicator .noSignal :: twoPackets).mapIdx fun i p => .item i p

/-- The other modem reads the first frame, and the second while it comes. -/
def twoCame : List Act :=
  [.handlePacket (t38indicator .noSignal), .recvWait .dtHdlc 3 1, .handlePacket (t38indicator .v21Preamble), .inn, .inn,
    .handlePacket (t38data .v21 .hdlcData [0xFF]), .recvStart 2, .recvDiag, .handlePacket (t38data .v21 .hdlcData [0xC0]),
    .inn, .inn, .recv 1024, .handlePacket (t38data .v21 .hdlcFcsOK []), .inn, .inn, .recv 1024, .recvDiag, .recvStop,
    .recvWait .dtHdlc 3 3, .handlePacket (t38data .v21 .hdlcData [0xFF]), .recvStart 4, .recvDiag, .recv 1024, .recv 1024,
    .handlePacket (t38data .v21 .hdlcData [0xC8]), .inn, .inn, .handlePacket (t38data .v21 .hdlcFcsOK []), .inn, .inn,
    .handlePacket (t38data .v21 .hdlcSigEnd []), .inn, .inn, .recv 1024, .recv 1024, .recvDiag]

/-- The steps of `CheckState` in which the second frame is read. -/
def partRead : Answers := { recv := [some [0xFF], some []] }
def lastRead : Answers := { recv := [some [0xC8], none] }

theorem two_carried : ∃ (chunks : List (List Byte)) (m' : Modem), Modem.machine.Run (fun _ _ => True) ⟨Modem.inCall.begun {}, .idle⟩
    (.checkState {} :: ([partRead] ++ [lastRead]).map .checkState)
    (.out (.result .connect) :: chunks.map (fun c => .out (.data c)) ++ [.out (.result .ok)]) m' ∧
      chunks.flatten = Modem.onLine [0xFF, 0x13] := by
  have hfirst : Modem.Signal ⟨Modem.sendBegun, .idle⟩ [(Modem.inTwo 0x03, Modem.sentTwo 0x03 true)] (Modem.ackTwo true) :=
    .first Modem.inTwo_run.1 (by decide +kernel)
  have hconnect : (Modem.ackTwo true).step (.checkState {}) = some (⟨Modem.sendBegun, .idle⟩, [.out (.result .connect)]) := by
    decide +kernel
  have hsignal := hfirst.next (x := .checkState {}) (by decide +kernel) hconnect (by simp) Modem.inTwo_run.2 (by decide +kernel)
  have hgives : List.Forall₂ Modem.Gives [[0xFF, 0x03], [0xFF, 0x13]] twoGiven :=
    .cons ⟨[], by decide +kernel⟩ (.cons ⟨[], by decide +kernel⟩ .nil)
  have hstart : machine.step first (.sendStart .dtHdlc 3) = some (_, [.sendStart .dtHdlc true]) := rfl
  have hwait : (Modem.inCall.recvStart {} .dtHdlc).1 = true := rfl
  obtain ⟨x, es₁, h₁, hseen⟩ : ∃ x es₁, turns.Run Courteous ({ first with e := (first.e.sendStart .dtHdlc 3).2 }, none) twoSent es₁ x ∧
      (fun es => decide (packets es = twoPackets.map some) &&
        decide (sendCalls es = twoGiven.flatMap fun seg => Modem.engineCalls seg.2)) es₁ = true :=
    Machine.exec_seen (by decide +kernel)
  simp only [Bool.and_eq_true, decide_eq_true_eq] at hseen
  obtain ⟨hpackets, hcalls⟩ := hseen
  obtain ⟨u, h₂, hall⟩ : ∃ u, (UdptlLink.machine ⟨0, 0, 0, false⟩ v21Codec).Run (UdptlLink.allowed v21Codec) {}
      twoLink twoReports u ∧
        (fun u : UdptlLink => decide (u.rx.expectedSequenceNumber = u.sent.length)) u = true :=
    Machine.exec_test (by decide +kernel)
  obtain ⟨y, es, h₃, hread⟩ : ∃ y es, reception.Run KeepsTurn (start default 0, {}) twoCame es y ∧
      (fun es => decide ((es.drop 16).filter Event.reading = Modem.recvCalls {} ([partRead] ++ [lastRead]) lastRead.recvDiag) &&
        decide (((es.take 16).foldl DteLog.see {}).records = [([0xFF, 0xC0], 0)])) es = true :=
    Machine.exec_seen (by decide +kernel)
  simp only [Bool.and_eq_true, decide_eq_true_eq] at hread
  obtain ⟨hreads, hbefore⟩ := hread
  rw [← List.take_append_drop 16 es] at h₃
  obtain ⟨front, rest, hsplit, hcarried⟩ := fax_carried rfl (by decide +kernel) hsignal rfl hgives run_first (by decide)
    hstart rfl h₁ hcalls (by rw [hpackets]; decide +kernel) h₂ (by rw [packets_append, hpackets]; rfl) (by simp [twoReports])
    (of_decide_eq_true hall) h₃ rfl hreads rfl (by decide +kernel) rfl rfl (by decide) hwait
  rw [hpackets] at hsplit
  obtain rfl : front = [] := nil_of_first hsplit (by decide)
  obtain ⟨chunks, code, m', hrun, -, hdata, -⟩ := hcarried 1 (by rw [hbefore]; rfl)
  obtain ⟨hflat, rfl⟩ := hdata [0xFF, 0x13] rfl
  exact ⟨chunks, m', hrun, hflat⟩

end

end T38Modem
