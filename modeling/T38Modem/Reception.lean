import T38Modem.Completion
import T38Modem.ReadCalls
import T38Modem.V21Receive

namespace T38Modem

open Tape (Cell)
open T38Engine

namespace Incoming

/-- What the thread that hands over the packets does. -/
def act (l : Incoming) : Act → Incoming
  | .handlePacket ifp => l.packet ifp
  | .handlePacketLost => l.lost
  | _ => l

end Incoming

/-- What has come in a run. -/
def incoming (as : List Act) : Incoming := as.foldl Incoming.act {}

/-- The packets of a run, and the gaps between them. -/
def arrivals (as : List Act) : List (Option Ifp) :=
  as.filterMap fun | .handlePacket ifp => some (some ifp) | .handlePacketLost => some none | _ => none

theorem arrivals_append (as bs : List Act) : arrivals (as ++ bs) = arrivals as ++ arrivals bs := List.filterMap_append

/-- What has come is what the packets and the gaps say. -/
theorem incoming_arrivals (l : Incoming) (as : List Act) : as.foldl Incoming.act l = (arrivals as).foldl Incoming.arrive l := by
  induction as generalizing l with
  | nil => rfl
  | cons a as ih =>
    have hcons : arrivals (a :: as) = arrivals [a] ++ arrivals as := arrivals_append [a] as
    rw [hcons, List.foldl_append, List.foldl_cons, ih]
    cases a <;> rfl

/-- What the DTE has got: the records that it has to their end, with their diagnostics, and what it has of the one
that it reads. -/
structure DteLog where
  records : List (List Byte × Diag) := []
  text : Option (List Byte) := none
  ended : Bool := false
  deriving DecidableEq

/-- The DTE asks for the diagnostics when it has been told that the record is at its end. -/
def DteLog.see (d : DteLog) : Event → DteLog
  | .recvStart true => { d with text := some [], ended := false }
  | .recv (some bs) => { d with text := d.text.map (· ++ bs) }
  | .recv none => { d with ended := true }
  | .recvDiag diag =>
    match d.ended, d.text with
    | true, some text => { d with records := d.records ++ [(text, diag)], text := none }
    | _, _ => d
  | _ => d

/-- The engine with the DTE beside it. -/
def reception : Machine (Sys × DteLog) Act Event := Sys.machine.watched fun _ => DteLog.see

/-- The packets come in their turn. The DTE asks for what comes next, stops behind the end of a record, and sends when
it has all records. -/
def KeepsTurn (x : Sys × DteLog) : Act → Prop
  | .handlePacket ifp => x.1.e.PacketInTurn ifp
  | .recvWait t param _ => x.1.e.stateModem = .stmIdle → x.1.e.Asks t param
  | .recvStop | .resetModemState => x.2.text = none
  | .sendStart .. => x.1.e.stateModem = .stmIdle → x.1.e.view [] = []
  | _ => True

instance (x : Sys × DteLog) : ∀ a, Decidable (KeepsTurn x a)
  | .handlePacket ifp => inferInstanceAs (Decidable (x.1.e.PacketInTurn ifp))
  | .recvWait t param _ => inferInstanceAs (Decidable (_ → x.1.e.Asks t param))
  | .recvStop | .resetModemState => inferInstanceAs (Decidable (x.2.text = none))
  | .sendStart .. => inferInstanceAs (Decidable (_ → x.1.e.view [] = []))
  | .tick _ | .out | .setPreparePacketTimeout .. | .openIn | .inn | .handlePacketLost | .sendOnIdle _ | .send _
  | .sendStop .. | .modem | .recvStart _ | .recv _ | .recvDiag => .isTrue trivial

/-- What the DTE has got and what it is about, the records it has being those that have come first. -/
inductive Reading (l : Incoming) (d : DteLog) (e : T38Engine) : Prop
  | idle (hs : e.stateModem ≠ .stmInRecvData) (ht : d.text = none) (h : Tracks l d.records.length [] e)
  | reads (got : List Byte) (hs : e.stateModem = .stmInRecvData) (ht : d.text = some got)
      (h : Tracks l d.records.length got e)
      (hend : d.ended = true → ∃ m cs, l.tape.cells.drop d.records.length = ⟨got, m, true⟩ :: cs)
  | told (k : Nat) (got : List Byte) (m : Diag) (cs : List (Cell Byte Diag)) (hs : e.stateModem = .stmInRecvData)
      (ht : d.text = none) (hk : d.records.length = k + 1) (h : Tracks l k got e)
      (hc : l.tape.cells.drop k = ⟨got, m, true⟩ :: cs)

namespace T38Engine

variable {e : T38Engine} {now : Int}

/-- The body of `PreparePacket` leaves the DTE's receive alone. -/
theorem prepare_notIn (hi : e.stateModem.isIn = false) (l : Locals) : (e.prepare now l).engine.stateModem.isIn = false := by
  have hdata (e : T38Engine) (hi : e.stateModem.isIn = false) (count : Option (List Byte)) :
      (e.dataSwitch now l count).engine.stateModem.isIn = false := by
    unfold dataSwitch
    split
    · dsimp only
      split <;> exact hi
    · split
      · exact hi
      · split
        · exact hi
        · split <;> exact hi
    · dsimp only
      split <;> exact hi
  have hstop : StateModem.isIn .stmIdle = false := rfl
  unfold prepare
  split
  · split
    · unfold outIdle
      split
      · exact hi
      · have hw := Sends.waitCarrier_same { e with delaySignalOut := false } now
        split
        next e' he =>
          rw [he] at hw
          have hm : e'.stateModem = e.stateModem := hw.2.2.2.1
          show e'.stateModem.isIn = false
          rw [hm]
          exact hi
        next e' he =>
          rw [he] at hw
          have hm : e'.stateModem = e.stateModem := hw.2.2.2.1
          rw [← hm] at hi
          split <;> exact hi
    · exact hstop
    · exact hstop
    · unfold outIndWait
      dsimp only
      split
      · exact hi
      · split
        · exact hi
        · split <;> exact hi
        · exact hi
    · unfold outData
      obtain ⟨count, hdlcOut, bufOut⟩ := e.hdlcOut.getData e.bufOut (dataLen e.modParsOut.br)
      dsimp only
      split
      · exact hi
      · exact hdata { e with hdlcOut, bufOut } hi count
    · unfold outHdlcFcs
      dsimp only
      split
      · split <;> exact hi
      · split
        · exact hi
        · split
          · rfl
          · exact hi
    · unfold outDataNoSig
      split
      · exact hi
      · dsimp only
        split
        · exact hstop
        · exact hstop
        · exact hi
    · exact hi
  · unfold onIdle
    split <;> exact hi

end T38Engine

namespace Reading

variable {l l' : Incoming} {d : DteLog} {e e' : T38Engine}

theorem tracked (h : Reading l d e) : ∃ k got, Tracks l k got e := by
  cases h with
  | idle _ _ htr => exact ⟨_, _, htr⟩
  | reads _ _ _ htr => exact ⟨_, _, htr⟩
  | told _ _ _ _ _ _ _ htr => exact ⟨_, _, htr⟩

/-- More has come, or nothing: the DTE goes on as before. -/
theorem goes (h : Reading l d e) (hp : l.tape.closed <+: l'.tape.closed)
    (hs : e'.stateModem = .stmInRecvData ↔ e.stateModem = .stmInRecvData)
    (ht : ∀ k got, Tracks l k got e → Tracks l' k got e') : Reading l' d e' := by
  cases h with
  | idle hst htext h => exact .idle (fun hn => hst (hs.mp hn)) htext (ht _ _ h)
  | reads got hst htext h hend =>
    refine .reads got (hs.mpr hst) htext (ht _ _ h) fun he => ?_
    obtain ⟨m, cs, hc⟩ := hend he
    obtain ⟨cs', hc'⟩ := Tape.full_of_prefix hc rfl hp
    exact ⟨m, cs', hc'⟩
  | told k got m cs hst htext hk h hc =>
    obtain ⟨cs', hc'⟩ := Tape.full_of_prefix hc rfl hp
    exact .told k got m cs' (hs.mpr hst) htext hk (ht _ _ h) hc'

/-- The DTE stops behind the end of a record. -/
theorem stops (h : Reading l d e) (hp : e.Paired) (hph : ReadPhase Plain e) (ht : d.text = none)
    (hi : e'.modStreamIn = e.modStreamIn.map ModStream.deleteFirstBuf) (hs : e'.modStreamInSaved = e.modStreamInSaved)
    (hst : e'.stateModem ≠ .stmInRecvData) : Reading l d e' := by
  cases h with
  | idle hne _ h => exact .idle hst ht (stop_tracks h hph hne hi hs)
  | reads got _ htext => exact absurd (ht.symm.trans htext) (Option.some_ne_none got).symm
  | told k got m cs hr _ hk h hc =>
    have hdone := done_tracks h hph hp hr hc rfl hi hs
    rw [← hk] at hdone
    exact .idle hst ht hdone

theorem recvWait (h : Reading l d e) (hph : ReadPhase Plain e) (hp : e.Paired) {t : DataType} {param : Int} (cb : Int)
    (ha : e.stateModem = .stmIdle → e.Asks t param) :
    Reading l d (e.recvWait t param cb).2.2 ∧ ReadPhase Plain (e.recvWait t param cb).2.2 := by
  by_cases hidle : e.stateModem = .stmIdle
  · cases h with
    | idle hs ht h =>
      obtain ⟨htr, hphase⟩ : _ ∧ ReadPhase Plain (e.recvWait t param cb).2.2 := recvWait_tracks h hph hp (ha hidle)
      exact ⟨.idle (recvWait_notRecv t param cb hs) ht htr, hphase⟩
    | reads got hs => exact absurd (hidle.symm.trans hs) (by simp)
    | told k got m cs hs => exact absurd (hidle.symm.trans hs) (by simp)
  · rw [recvWait_busy t param cb hidle]
    exact ⟨h, hph⟩

theorem recvStart (h : Reading l d e) (hph : ReadPhase Plain e) (cb : Int) :
    Reading l (d.see (.recvStart (e.recvStart cb).1)) (e.recvStart cb).2 ∧ ReadPhase Plain (e.recvStart cb).2 := by
  have hnot (he : e.recvStart cb = (false, e)) :
      Reading l (d.see (.recvStart (e.recvStart cb).1)) (e.recvStart cb).2 ∧ ReadPhase Plain (e.recvStart cb).2 := by
    rw [he]
    exact ⟨h, hph⟩
  cases h with
  | idle hs ht htr =>
    rcases recvStart_tracks htr hph cb with ⟨-, he⟩ | ⟨-, hok, hst, htr', hphase⟩
    · exact hnot he
    · rw [hok]
      exact ⟨.reads [] hst rfl htr' fun hend => (by cases hend), hphase⟩
  | reads got hs _ htr =>
    rcases recvStart_tracks htr hph cb with ⟨-, he⟩ | ⟨hst, -⟩
    · exact hnot he
    · exact absurd (hs.symm.trans hst) (by simp)
  | told k got m cs hs _ _ htr =>
    rcases recvStart_tracks htr hph cb with ⟨-, he⟩ | ⟨hst, -⟩
    · exact hnot he
    · exact absurd (hs.symm.trans hst) (by simp)

/-- Behind the end of a record there is nothing to get. -/
theorem no_more {k : Nat} {got bs : List Byte} {m : Diag} {cs : List (Cell Byte Diag)} (h : Tracks l k (got ++ bs) e)
    (hph : ReadPhase Plain e) (hs : e.stateModem = .stmInRecvData) (hc : l.tape.cells.drop k = ⟨got, m, true⟩ :: cs) : bs = [] := by
  obtain ⟨m', b, cs', -, -, -, hcell⟩ := reading_record h hph hs
  rw [hc] at hcell
  have htext : got = got ++ bs ++ b.stream.data := congrArg Cell.text (List.cons.inj hcell).1
  have hnil : bs ++ b.stream.data = [] := by
    rw [List.append_assoc] at htext
    simpa using htext
  exact (List.append_eq_nil_iff.mp hnil).1

theorem recv (h : Reading l d e) (hph : ReadPhase Plain e) (ho : e.modemOpen = true) (n : Nat) :
    Reading l (d.see (.recv (e.recv n).1)) (e.recv n).2 ∧ ReadPhase Plain (e.recv n).2 := by
  cases h with
  | idle hs ht htr =>
    rw [recv_other hs n]
    exact ⟨.idle hs ht htr, hph⟩
  | reads got hs ht htr hend =>
    obtain ⟨hphase, hst, hgot⟩ := recv_tracks htr hph ho hs n
    refine ⟨?_, hphase⟩
    generalize e.recv n = r at hst hgot hphase
    obtain ⟨res, e'⟩ := r
    cases res with
    | none => exact .reads got hst ht hgot.1 fun _ => hgot.2
    | some bs =>
      have hgot : Tracks l d.records.length (got ++ bs) e' := hgot
      have htext : (d.see (.recv (some bs))).text = some (got ++ bs) := by
        show d.text.map _ = _
        rw [ht, Option.map_some]
      refine .reads (got ++ bs) hst htext hgot fun he => ?_
      obtain ⟨m, cs, hc⟩ := hend he
      rw [no_more hgot hphase hst hc, List.append_nil]
      exact ⟨m, cs, hc⟩
  | told k got m cs hs ht hk htr hc =>
    obtain ⟨hphase, hst, hgot⟩ := recv_tracks htr hph ho hs n
    refine ⟨?_, hphase⟩
    generalize e.recv n = r at hst hgot hphase
    obtain ⟨res, e'⟩ := r
    cases res with
    | none => exact .told k got m cs hst ht hk hgot.1 hc
    | some bs =>
      have hgot : Tracks l k (got ++ bs) e' := hgot
      have htext : (d.see (.recv (some bs))).text = none := by
        show d.text.map _ = _
        rw [ht, Option.map_none]
      rw [no_more hgot hphase hst hc, List.append_nil] at hgot
      exact .told k got m cs hst htext hk hgot hc

/-- The record that the DTE asks the diagnostics of is the one that it has come to the end of. -/
theorem recvDiag (h : Reading l d e) (hph : ReadPhase Plain e) (hr : d.records = l.tape.closed.take d.records.length) :
    Reading l (d.see (.recvDiag e.recvDiag)) e ∧ (d.see (.recvDiag e.recvDiag)).records =
      l.tape.closed.take (d.see (.recvDiag e.recvDiag)).records.length := by
  have hsame (ht : d.text = none) : d.see (.recvDiag e.recvDiag) = d := by
    unfold DteLog.see
    rw [ht]
    cases d.ended <;> rfl
  cases h with
  | idle hs ht htr =>
    rw [hsame ht]
    exact ⟨.idle hs ht htr, hr⟩
  | reads got hs ht htr hend =>
    cases he : d.ended with
    | false =>
      have hd : d.see (.recvDiag e.recvDiag) = d := by
        unfold DteLog.see
        rw [he]
      rw [hd]
      exact ⟨.reads got hs ht htr hend, hr⟩
    | true =>
      obtain ⟨m, cs, hc⟩ := hend he
      have hdiag := recvDiag_mark htr hph hs hc
      have hd : d.see (.recvDiag e.recvDiag) = { d with records := d.records ++ [(got, m)], text := none } := by
        unfold DteLog.see
        rw [he, ht, hdiag]
      obtain ⟨htake, -⟩ := Tape.closed_of_drop hc rfl
      rw [hd]
      refine ⟨.told d.records.length got m cs hs rfl (by simp) htr hc, ?_⟩
      show d.records ++ [(got, m)] = l.tape.closed.take (d.records ++ [(got, m)]).length
      rw [List.length_append, List.length_singleton, htake, ← hr]
  | told k got m cs hs ht hk htr hc =>
    rw [hsame ht]
    exact ⟨.told k got m cs hs ht hk htr hc, hr⟩

end Reading

end T38Modem
