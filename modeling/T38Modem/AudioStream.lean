import T38Modem.AudioEngine
import T38Modem.ToneCadence

namespace T38Modem

def AudioAct.isSending : AudioAct → Bool
  | .send _ | .sendStop _ => true
  | _ => false

namespace AudioEngine

/-- The octets that are sent. -/
def sentOf (as : List AudioAct) : List Byte := as.flatMap fun a => match a with
  | .send bs => bs
  | _ => []

/-- The callback parameter of `SendStop`. -/
def stopOf (as : List AudioAct) : Option Int := as.findSome? fun a => match a with
  | .sendStop p => some p
  | _ => none

/-- The octets of the out stream that are read. -/
def takenOf (es : List AudioSeen) : List Byte := es.flatMap fun o => match o with
  | .given data _ => data
  | _ => []

/-- The callbacks with a parameter of the modem. -/
def endsOf (es : List AudioSeen) : List Int := es.filterMap fun o => match o with
  | .callback (.user p) => some p
  | _ => none

/-- The callback with such a parameter that the owner's thread is about to make. -/
def pending : ReadPc → List Int
  | .calling _ (.user p) => [p]
  | _ => []

/-- After `SendStop` nothing is sent and nothing is stopped. -/
def Orderly (as : List AudioAct) : Prop := as.Pairwise fun a b => ∀ p, a = .sendStop p → b.isSending = false

variable {sample : Nat → Int → Nat → Int} {as : List AudioAct} {a : AudioAct} {es fs : List AudioSeen}
  {e e' : AudioEngine} {p : Int}

theorem sentOf_snoc : sentOf (as ++ [a]) = sentOf as ++ sentOf [a] := List.flatMap_append

theorem takenOf_append : takenOf (es ++ fs) = takenOf es ++ takenOf fs := List.flatMap_append

theorem endsOf_append : endsOf (es ++ fs) = endsOf es ++ endsOf fs := List.filterMap_append

theorem stopOf_snoc : stopOf (as ++ [a]) = (stopOf as).or (stopOf [a]) := List.findSome?_append

theorem sentOf_quiet (h : a.isSending = false) : sentOf [a] = [] := by
  cases a <;> first | rfl | cases h

theorem stopOf_quiet (h : a.isSending = false) : stopOf [a] = none := by
  cases a <;> first | rfl | cases h

/-- The out stream holds what is sent and not yet read, until it ends: it has been stopped, all of it has
been read, and the callback has been made or is about to be. -/
inductive Streams (as : List AudioAct) (es : List AudioSeen) (e : AudioEngine) : Prop
  | live (s : DataStream) (stream : e.sendAudio = some s) (sent : sentOf as = takenOf es ++ s.data)
      (eof : s.eof = (stopOf as).isSome) (param : ∀ p, stopOf as = some p → e.callbackParam = p)
      (ends : endsOf es ++ pending e.pc = [])
  | ended (p : Int) (stream : e.sendAudio = none) (sent : sentOf as = takenOf es) (stop : stopOf as = some p)
      (ends : endsOf es ++ pending e.pc = [p])

/-- What neither sends nor reads leaves the out stream as it is. -/
theorem Streams.quiet (h : Streams as es e) (ha : a.isSending = false) (hs : e'.sendAudio = e.sendAudio)
    (hp : e'.callbackParam = e.callbackParam) (ht : takenOf fs = [])
    (he : endsOf fs ++ pending e'.pc = pending e.pc) : Streams (as ++ [a]) (es ++ fs) e' := by
  have hsent : sentOf (as ++ [a]) = sentOf as := by rw [sentOf_snoc, sentOf_quiet ha, List.append_nil]
  have htaken : takenOf (es ++ fs) = takenOf es := by rw [takenOf_append, ht, List.append_nil]
  have hstop : stopOf (as ++ [a]) = stopOf as := by rw [stopOf_snoc, stopOf_quiet ha, Option.or_none]
  have hends : endsOf (es ++ fs) ++ pending e'.pc = endsOf es ++ pending e.pc := by
    rw [endsOf_append, List.append_assoc, he]
  cases h with
  | live s stream sent eof param ends =>
    exact .live s (hs.trans stream) (by rw [hsent, htaken, sent]) (by rw [hstop, eof])
      (fun p h => hp.trans (param p (by rwa [hstop] at h))) (hends.trans ends)
  | ended p stream sent stop ends =>
    exact .ended p (hs.trans stream) (by rw [hsent, htaken, sent]) (hstop.trans stop) (hends.trans ends)

/-- A read that finds something takes it off the front. -/
theorem getData_take {s : DataStream} (n : Nat) (h : ¬(s.data = [] ∧ s.eof = true)) :
    s.getData n = (some (s.data.take n), { s with data := s.data.drop n }) := by
  unfold DataStream.getData
  split
  next hd =>
    have he : s.eof = false := by simpa [hd] using h
    cases s
    simp_all
  next hd => rfl

/-- The body of `Read` on a stream that is at its end. -/
theorem readBody_end {hOwner amount : Nat} {s : DataStream} (hl : e.isLost hOwner = false)
    (hs : e.sendAudio = some s) (hd : s.data = []) (he : s.eof = true) :
    e.readBody hOwner amount = ({ e with sendAudio := none, pc := .calling hOwner (.user e.callbackParam) },
      [.given [] (List.replicate amount 0)]) := by
  have hg : s.getData amount = (none, s) := by simp [DataStream.getData, hd, he]
  rw [readBody, hl, hs]
  simp only [Bool.false_eq_true, if_false, hg]

/-- The body of `Read` on a stream that goes on. -/
theorem readBody_data {hOwner : Nat} (amount : Nat) {s : DataStream} (hl : e.isLost hOwner = false)
    (hs : e.sendAudio = some s) (h : ¬(s.data = [] ∧ s.eof = true)) :
    ∃ pc fs, pending pc = [] ∧ (fs = [] ∨ fs = [.returned true]) ∧
      e.readBody hOwner amount = ({ e with sendAudio := some { s with data := s.data.drop amount }, pc := pc },
        .given (s.data.take amount) (List.replicate (amount - (s.data.take amount).length) 0) :: fs) := by
  rw [readBody, hl, hs]
  simp only [Bool.false_eq_true, if_false, getData_take amount h]
  split
  next => exact ⟨.calling hOwner .cbpOutBufNoFull, [], rfl, .inl rfl, rfl⟩
  next => exact ⟨.idle, [.returned true], rfl, .inr rfl, rfl⟩

/-- The body of `Read` without a stream. -/
theorem readBody_none {hOwner : Nat} (amount : Nat) (hl : e.isLost hOwner = false) (hs : e.sendAudio = none) :
    ∃ tone fill, e.readBody hOwner amount =
        ({ e with toneOut := tone, pc := .idle }, [.given [] fill, .returned true]) ∧
      fill.length = amount ∧
      (fill = List.replicate amount 0 ∨ ∃ g, e.toneOut = some g ∧ fill = (g.read amount).1) := by
  rw [readBody, hl, hs]
  simp only [Bool.false_eq_true, if_false]
  split
  next g hg => exact ⟨_, _, rfl, g.length_read amount, .inr ⟨g, hg, rfl⟩⟩
  next hg => exact ⟨none, _, by rw [← hg], List.length_replicate, .inl rfl⟩

theorem readBody_lost {hOwner amount : Nat} (hl : e.isLost hOwner = true) :
    e.readBody hOwner amount = ({ e with pc := .idle }, [.returned false]) := by
  rw [readBody, hl, if_pos rfl]

theorem Streams.readBody {hOwner amount : Nat} (h : Streams as es e) (hpc : e.pc = .delaying hOwner amount) :
    Streams (as ++ [.goOn]) (es ++ (e.readBody hOwner amount).2) (e.readBody hOwner amount).1 := by
  have hsent : sentOf (as ++ [.goOn]) = sentOf as := by rw [sentOf_snoc, sentOf_quiet rfl, List.append_nil]
  have hstop : stopOf (as ++ [.goOn]) = stopOf as := by rw [stopOf_snoc, stopOf_quiet rfl, Option.or_none]
  cases hl : e.isLost hOwner with
  | true =>
    rw [readBody_lost hl]
    exact h.quiet rfl rfl rfl rfl (by rw [hpc]; rfl)
  | false =>
    cases h with
    | ended p stream sent stop ends =>
      obtain ⟨tone, fill, hb, -, -⟩ := readBody_none amount hl stream
      rw [hb]
      exact (Streams.ended p stream sent stop ends).quiet rfl rfl rfl rfl (by rw [hpc]; rfl)
    | live s stream sent eof param ends =>
      rw [hpc] at ends
      have hends : endsOf es = [] := (List.append_eq_nil_iff.mp ends).1
      by_cases hd : s.data = [] ∧ s.eof = true
      · rw [readBody_end hl stream hd.1 hd.2]
        obtain ⟨p, hp⟩ := Option.isSome_iff_exists.mp (eof.symm.trans hd.2)
        refine .ended p rfl ?_ (hstop.trans hp) ?_
        · rw [hsent, takenOf_append, sent, hd.1]
          rfl
        · rw [endsOf_append, hends, ← param p hp]
          rfl
      · obtain ⟨pc, fs, hpend, hfs, hb⟩ := readBody_data amount hl stream hd
        have hquiet : takenOf fs = [] ∧ endsOf fs = [] := by
          rcases hfs with rfl | rfl <;> exact ⟨rfl, rfl⟩
        rw [hb]
        refine .live { s with data := s.data.drop amount } rfl ?_ (by rw [hstop]; exact eof)
          (fun p hp => param p (by rwa [hstop] at hp)) ?_
        · have htake : takenOf (.given (s.data.take amount)
              (List.replicate (amount - (s.data.take amount).length) 0) :: fs) = s.data.take amount := by
            rw [takenOf, List.flatMap_cons]
            exact (congrArg _ hquiet.1).trans (List.append_nil _)
          rw [hsent, takenOf_append, htake, List.append_assoc, List.take_append_drop, sent]
        · rw [endsOf_append, hends, hpend]
          exact (List.append_nil _).trans hquiet.2

theorem mem_of_stopOf (h : stopOf as = some p) : .sendStop p ∈ as := by
  obtain ⟨b, hb, hp⟩ := List.exists_of_findSome?_eq_some h
  cases b with
  | sendStop q =>
    cases hp
    exact hb
  | _ => cases hp

/-- What is sent or stopped in an orderly run is sent or stopped before the stream is. -/
theorem Orderly.not_stopped (hd : Orderly (as ++ [a])) (ha : a.isSending = true) : stopOf as = none := by
  cases hp : stopOf as with
  | none => rfl
  | some p =>
    have hq := (List.pairwise_append.mp hd).2.2 _ (mem_of_stopOf hp) a (List.mem_singleton_self a) p rfl
    rw [ha] at hq
    cases hq

theorem send_open {bs : List Byte} (ho : e.modemOpen = true) :
    e.send bs = ({ e with sendAudio := e.sendAudio.map fun s => (s.putData bs).2 }, some bs.length) := by
  rw [AudioEngine.send, ho]
  rfl

theorem sendStop_open {q : Int} (ho : e.modemOpen = true) :
    e.sendStop q = ({ e with callbackParam := q, sendAudio := e.sendAudio.map DataStream.putEof }, true) := by
  rw [AudioEngine.sendStop, ho]
  rfl

theorem Streams.send {bs : List Byte} (h : Streams as es e) (ho : e.modemOpen = true)
    (hd : Orderly (as ++ [.send bs])) : Streams (as ++ [.send bs]) (es ++ [.sent (e.send bs).2]) (e.send bs).1 := by
  have hopen := hd.not_stopped rfl
  have hstop : stopOf (as ++ [.send bs]) = stopOf as := by rw [stopOf_snoc]; exact Option.or_none
  cases h with
  | ended p stream sent stop ends =>
    rw [hopen] at stop
    cases stop
  | live s stream sent eof param ends =>
    have hput := @DataStream.putData_open s bs (by rw [eof, hopen]; rfl)
    rw [send_open ho]
    refine .live { s with data := s.data ++ bs } (by simp only [stream, Option.map_some, hput]) ?_
      (by rw [hstop]; exact eof) (fun p hp => param p (by rwa [hstop] at hp)) ?_
    · rw [sentOf_snoc, sent, takenOf_append]
      simp [sentOf, takenOf]
    · rw [endsOf_append]
      simpa [endsOf] using ends

theorem Streams.sendStop {q : Int} (h : Streams as es e) (ho : e.modemOpen = true)
    (hd : Orderly (as ++ [.sendStop q])) :
    Streams (as ++ [.sendStop q]) (es ++ [.returned (e.sendStop q).2]) (e.sendStop q).1 := by
  have hopen := hd.not_stopped rfl
  have hstop : stopOf (as ++ [.sendStop q]) = some q := by
    rw [stopOf_snoc, hopen]
    rfl
  cases h with
  | ended p stream sent stop ends =>
    rw [hopen] at stop
    cases stop
  | live s stream sent eof param ends =>
    rw [sendStop_open ho]
    refine .live s.putEof (by simp only [stream, Option.map_some]) ?_ (by rw [hstop]; rfl)
      (fun p hp => Option.some.inj (hstop.symm.trans hp)) ?_
    · rw [sentOf_snoc, sent, takenOf_append]
      simp [sentOf, takenOf, DataStream.putEof]
    · rw [endsOf_append]
      simpa [endsOf] using ends

theorem readBody_modemOpen (e : AudioEngine) (hOwner amount : Nat) :
    (e.readBody hOwner amount).1.modemOpen = e.modemOpen := by
  unfold AudioEngine.readBody
  split
  next => rfl
  next =>
    split
    next => 
      dsimp only
      split
      next => rfl
      next => split <;> rfl
    next => split <;> rfl

theorem Streams.goOn (h : Streams as es e) (ho : e.modemOpen = true) (hs : e.goOn e.pc = some (e', fs)) :
    Streams (as ++ [.goOn]) (es ++ fs) e' ∧ e'.modemOpen = true := by
  cases hpc : e.pc with
  | idle => rw [hpc] at hs; cases hs
  | delaying hOwner amount =>
    rw [hpc] at hs
    have hbody : e.readBody hOwner amount = (e', fs) := Option.some.inj hs
    have hstream := h.readBody hpc
    have hmodem := (readBody_modemOpen e hOwner amount).trans ho
    rw [hbody] at hstream hmodem
    exact ⟨hstream, hmodem⟩
  | updating hOwner amount =>
    rw [hpc, AudioEngine.goOn, if_pos ho] at hs
    cases hs
    exact ⟨h.quiet rfl rfl rfl rfl (by rw [hpc]; rfl), ho⟩
  | updated hOwner amount =>
    rw [hpc, AudioEngine.goOn] at hs
    split at hs <;> cases hs <;> exact ⟨h.quiet rfl rfl rfl rfl (by rw [hpc]; rfl), ho⟩
  | calling hOwner extra =>
    rw [hpc, AudioEngine.goOn, if_pos ho] at hs
    cases hs
    cases extra <;> exact ⟨h.quiet rfl rfl rfl rfl (by rw [hpc]; rfl), ho⟩
  | called hOwner =>
    rw [hpc] at hs
    cases hs
    exact ⟨h.quiet rfl rfl rfl rfl (by rw [hpc]; rfl), ho⟩

theorem Streams.step (h : Streams as es e) (ho : e.modemOpen = true) (hd : Orderly (as ++ [a])) (ha : a ≠ .sendStart)
    (hs : step sample e a = some (e', fs)) : Streams (as ++ [a]) (es ++ fs) e' ∧ e'.modemOpen = true := by
  cases a with
  | sendOnIdle dt =>
    cases hs
    exact ⟨h.quiet rfl rfl rfl rfl rfl, ho⟩
  | sendStart => exact absurd rfl ha
  | send bs =>
    cases hs
    exact ⟨h.send ho hd, by rw [send_open ho]; exact ho⟩
  | sendStop q =>
    cases hs
    exact ⟨h.sendStop ho hd, by rw [sendStop_open ho]; exact ho⟩
  | read hOwner amount =>
    obtain ⟨hpc, hr⟩ := Option.ite_none_right_eq_some.mp hs
    have hbegin : e.readBegin hOwner amount = (e', fs) := Option.some.inj hr
    unfold readBegin at hbegin
    split at hbegin
    next =>
      cases hbegin
      exact ⟨h.quiet rfl rfl rfl rfl rfl, ho⟩
    next => split at hbegin <;> cases hbegin <;> exact ⟨h.quiet rfl rfl rfl rfl (by rw [hpc]; rfl), ho⟩
  | goOn => exact h.goOn ho hs

theorem Orderly.init (hd : Orderly (as ++ [a])) : Orderly as := (List.pairwise_append.mp hd).1

/-- The out stream keeps its law through every orderly run from `SendStart` to the next one. -/
theorem run_streams {e₀ : AudioEngine} (ho : e₀.modemOpen = true) (hq : pending e₀.pc = [])
    (hr : (machine sample).Run (fun _ a => a ≠ .sendStart) e₀.sendStart.1 as es e) (hd : Orderly as) :
    Streams as es e ∧ e.modemOpen = true := by
  induction hr with
  | start =>
    have hstart : e₀.sendStart.1 = { e₀ with sendAudio := some { threshold := 1024 * 2 } } := by
      rw [AudioEngine.sendStart, ho]
      rfl
    rw [hstart]
    exact ⟨.live _ rfl rfl rfl (fun _ h => absurd h (Option.some_ne_none _).symm) hq, ho⟩
  | next _ ha hs ih =>
    obtain ⟨hstream, hmodem⟩ := ih hd.init
    exact hstream.step hmodem hd ha hs

/-- What the body of `Read` puts into the buffer: the next octets of what is sent, as many as there are and
as it wants, and silence behind them, or, once the stream has ended, the tone that is set for it. -/
theorem Streams.given {hOwner amount : Nat} {data fill : List Byte} (h : Streams as es e)
    (hg : .given data fill ∈ (e.readBody hOwner amount).2) :
    data = ((sentOf as).drop (takenOf es).length).take amount ∧ data.length + fill.length = amount ∧
      (fill = List.replicate fill.length 0 ∨
        (∃ p, endsOf es ++ pending e.pc = [p]) ∧ ∃ tone, e.toneOut = some tone ∧ fill = (tone.read amount).1) := by
  cases hl : e.isLost hOwner with
  | true =>
    rw [readBody_lost hl] at hg
    cases List.mem_singleton.mp hg
  | false =>
    cases h with
    | ended p stream sent stop ends =>
      obtain ⟨tone, out, hb, hlen, hfill⟩ := readBody_none amount hl stream
      rw [hb] at hg
      simp only [List.mem_cons, AudioSeen.given.injEq, reduceCtorEq, List.not_mem_nil, or_false] at hg
      obtain ⟨rfl, rfl⟩ := hg
      refine ⟨by rw [sent, List.drop_length, List.take_nil], by rw [List.length_nil, hlen, Nat.zero_add], ?_⟩
      rcases hfill with rfl | htone
      · exact .inl (by rw [List.length_replicate])
      · exact .inr ⟨⟨p, ends⟩, htone⟩
    | live s stream sent eof param ends =>
      have hrest : (sentOf as).drop (takenOf es).length = s.data := by rw [sent, List.drop_left]
      rw [hrest]
      by_cases hd : s.data = [] ∧ s.eof = true
      · rw [readBody_end hl stream hd.1 hd.2] at hg
        cases List.mem_singleton.mp hg
        exact ⟨by rw [hd.1, List.take_nil], by simp, .inl (by rw [List.length_replicate])⟩
      · obtain ⟨pc, fs, -, hfs, hb⟩ := readBody_data amount hl stream hd
        have hno : AudioSeen.given data fill ∉ fs := by
          rcases hfs with rfl | rfl <;> simp
        rw [hb] at hg
        rcases List.mem_cons.mp hg with heq | hmem
        · cases heq
          have hle := List.length_take_le amount s.data
          exact ⟨rfl, by rw [List.length_replicate]; omega, .inl (by rw [List.length_replicate])⟩
        · exact absurd hmem hno

/-- The first `Read` that looks for more when the stream is stopped and all of it is read ends it. -/
theorem Streams.ends {hOwner amount : Nat} (h : Streams as es e) (hpc : e.pc = .delaying hOwner amount)
    (hl : e.isLost hOwner = false) (hp : stopOf as = some p) (ht : takenOf es = sentOf as) :
    endsOf (es ++ (e.readBody hOwner amount).2) ++ pending (e.readBody hOwner amount).1.pc = [p] := by
  rw [endsOf_append]
  cases h with
  | ended q stream sent stop ends =>
    obtain ⟨tone, fill, hb, -, -⟩ := readBody_none amount hl stream
    obtain rfl : q = p := Option.some.inj (stop.symm.trans hp)
    rw [hpc] at ends
    rw [hb]
    exact (congrArg (· ++ []) (List.append_nil _)).trans ends
  | live s stream sent eof param ends =>
    have hd : s.data = [] := by
      rw [ht] at sent
      exact List.self_eq_append_right.mp sent
    rw [hpc] at ends
    rw [readBody_end hl stream hd (by rw [eof, hp]; rfl), (List.append_eq_nil_iff.mp ends).1, param p hp]
    rfl

theorem goOn_none (hn : e.sendAudio = none) (hs : e.goOn e.pc = some (e', fs)) : e'.sendAudio = none := by
  cases hpc : e.pc with
  | idle => rw [hpc] at hs; cases hs
  | delaying hOwner amount =>
    rw [hpc] at hs
    have hbody : e.readBody hOwner amount = (e', fs) := Option.some.inj hs
    cases hl : e.isLost hOwner with
    | true =>
      rw [readBody_lost hl] at hbody
      cases hbody
      exact hn
    | false =>
      obtain ⟨tone, fill, hb, -, -⟩ := readBody_none amount hl hn
      rw [hb] at hbody
      cases hbody
      exact hn
  | updating | updated | calling | called =>
    rw [hpc, AudioEngine.goOn] at hs
    first
    | cases hs; exact hn
    | split at hs <;> cases hs <;> exact hn

/-- Without `SendStart` there is no stream after there was none. -/
theorem step_none (ha : a ≠ .sendStart) (hn : e.sendAudio = none)
    (hs : AudioEngine.step sample e a = some (e', fs)) : e'.sendAudio = none := by
  cases a with
  | sendOnIdle dt => cases hs; exact hn
  | sendStart => exact absurd rfl ha
  | send bs =>
    cases hs
    unfold AudioEngine.send
    split
    · exact hn
    · exact congrArg (Option.map _) hn
  | sendStop q =>
    cases hs
    unfold AudioEngine.sendStop
    split
    · exact hn
    · exact congrArg (Option.map _) hn
  | read hOwner amount =>
    obtain ⟨-, hr⟩ := Option.ite_none_right_eq_some.mp hs
    have hbegin : e.readBegin hOwner amount = (e', fs) := Option.some.inj hr
    unfold readBegin at hbegin
    split at hbegin
    next => cases hbegin; exact hn
    next => split at hbegin <;> cases hbegin <;> exact hn
  | goOn => exact goOn_none hn hs

/-- A stream that has ended stays so. -/
theorem Streams.stays (h : Streams as es e) (ho : e.modemOpen = true) (hd : Orderly (as ++ [a])) (ha : a ≠ .sendStart)
    (hs : AudioEngine.step sample e a = some (e', fs)) (hp : endsOf es ++ pending e.pc = [p]) :
    endsOf (es ++ fs) ++ pending e'.pc = [p] := by
  cases h with
  | live s stream sent eof param ends =>
    rw [ends] at hp
    cases hp
  | ended q stream sent stop ends =>
    obtain rfl : q = p := List.singleton_inj.mp (ends.symm.trans hp)
    have hnone := step_none ha stream hs
    obtain ⟨hstep, -⟩ := (Streams.ended q stream sent stop ends).step ho hd ha hs
    cases hstep with
    | live s stream' => rw [hnone] at stream'; cases stream'
    | ended r _ _ stop' ends' =>
      rw [stopOf_snoc, stop, Option.some_or] at stop'
      cases stop'
      exact ends'

/-- Once a `Read` has looked for more behind the end, the callback is made or due for good. -/
theorem run_ends {e₀ : AudioEngine} (ho : e₀.modemOpen = true) (hq : pending e₀.pc = [])
    (hr : (machine sample).Run (fun _ a => a ≠ .sendStart) e₀.sendStart.1 as es e) (hd : Orderly as)
    {as₁ as₂ : List AudioAct} {es₁ : List AudioSeen} {e₁ : AudioEngine} {hOwner amount : Nat}
    (has : as = as₁ ++ .goOn :: as₂)
    (hr₁ : (machine sample).Run (fun _ a => a ≠ .sendStart) e₀.sendStart.1 as₁ es₁ e₁)
    (hpc : e₁.pc = .delaying hOwner amount) (hl : e₁.isLost hOwner = false) (hp : stopOf as₁ = some p)
    (ht : takenOf es₁ = sentOf as₁) : endsOf es ++ pending e.pc = [p] := by
  induction hr generalizing as₂ with
  | start => simp at has
  | @next as es e a e' fs hr ha hs ih =>
    rcases List.eq_nil_or_concat' as₂ with rfl | ⟨as₂, b, rfl⟩
    · -- the read at hand is the one that looks
      obtain ⟨rfl, hb⟩ := List.append_inj' has rfl
      cases hb
      obtain ⟨rfl, rfl⟩ := hr.unique hr₁
      have hends := (run_streams ho hq hr hd.init).1.ends hpc hl hp ht
      have hbody : e₁.readBody hOwner amount = (e', fs) := by
        have hgo : e₁.goOn e₁.pc = some (e', fs) := hs
        rw [hpc] at hgo
        exact Option.some.inj hgo
      rwa [hbody] at hends
    · have hsplit : as ++ [a] = as₁ ++ .goOn :: as₂ ++ [b] := by simpa using has
      obtain ⟨rfl, -⟩ := List.append_inj' hsplit rfl
      obtain ⟨hstream, hmodem⟩ := run_streams ho hq hr hd.init
      exact hstream.stays hmodem hd ha hs (ih hd.init rfl)

/-- From `SendStart` to the next one, in every orderly run: what is read is what is sent, in order; each
`Read` takes the next octets and fills its buffer with silence, or, after the callback, with the tone that
is set for a stream that has ended; the parameter of `SendStop` is given back after all octets have been
read, never twice, and as soon as a `Read` looks for more. -/
theorem run_streamed {e₀ : AudioEngine} (ho : e₀.modemOpen = true) (hq : pending e₀.pc = [])
    (hr : (machine sample).Run (fun _ a => a ≠ .sendStart) e₀.sendStart.1 as es e) (hd : Orderly as) :
    takenOf es <+: sentOf as ∧
    (∀ hOwner amount data fill, e.pc = .delaying hOwner amount → .given data fill ∈ (e.readBody hOwner amount).2 →
      data = ((sentOf as).drop (takenOf es).length).take amount ∧ data.length + fill.length = amount ∧
      (fill = List.replicate fill.length 0 ∨
        (∃ p, endsOf es = [p]) ∧ ∃ tone, e.toneOut = some tone ∧ fill = (tone.read amount).1)) ∧
    (endsOf es ++ pending e.pc = [] ∨
      ∃ p, endsOf es ++ pending e.pc = [p] ∧ stopOf as = some p ∧ takenOf es = sentOf as) ∧
    ∀ as₁ as₂ es₁ e₁ hOwner amount p, as = as₁ ++ .goOn :: as₂ →
      (machine sample).Run (fun _ a => a ≠ .sendStart) e₀.sendStart.1 as₁ es₁ e₁ →
      e₁.pc = .delaying hOwner amount → e₁.isLost hOwner = false → stopOf as₁ = some p →
      takenOf es₁ = sentOf as₁ → endsOf es ++ pending e.pc = [p] := by
  obtain ⟨hstream, hmodem⟩ := run_streams ho hq hr hd
  refine ⟨?_, fun hOwner amount data fill hpc hg => ?_, ?_, ?_⟩
  · cases hstream with
    | live s _ sent => exact ⟨s.data, sent.symm⟩
    | ended _ _ sent => exact ⟨[], by rw [List.append_nil, sent]⟩
  · have hgiven := hstream.given hg
    rw [hpc] at hgiven
    simpa only [pending, List.append_nil] using hgiven
  · cases hstream with
    | live s _ _ _ _ ends => exact .inl ends
    | ended p _ sent stop ends => exact .inr ⟨p, ends, stop, sent.symm⟩
  · intro as₁ as₂ es₁ e₁ hOwner amount p has hr₁ hpc hl hp ht
    exact run_ends ho hq hr hd has hr₁ hpc hl hp ht

/-- An engine that is attached, open, and has the tone of a fax caller set for its idle time. -/
def calling : AudioEngine :=
  sendOnIdle ToneGenerator.sineSample { modemOpen := true, hOwnerOut := some 1, firstOut := false } .dtCng

/-- Two octets are sent and read, the callback is made, and the tone follows. -/
def idleTone : List AudioAct :=
  [.send [5, 6], .sendStop 7, .read 1 320, .goOn, .read 1 320, .goOn, .goOn, .goOn, .read 1 16004, .goOn]

theorem run_streamed_idle : ∃ e es,
    (machine ToneGenerator.sineSample).Run (fun _ a => a ≠ .sendStart) calling.sendStart.1 idleTone es e ∧
      endsOf es = [7] ∧ takenOf es <+: sentOf idleTone := by
  obtain ⟨e, es, hr, hends⟩ : ∃ e es,
      (machine ToneGenerator.sineSample).Run (fun _ a => a ≠ .sendStart) calling.sendStart.1 idleTone es e ∧
        decide (endsOf es = [7]) = true :=
    @Machine.exec_seen _ _ _ _ _ _ _ _ (fun es => decide (endsOf es = [7])) (by decide +kernel)
  have horder : Orderly idleTone := by
    unfold Orderly idleTone
    simp [AudioAct.isSending]
  exact ⟨e, es, hr, of_decide_eq_true hends, (run_streamed (show calling.modemOpen = true from rfl) rfl hr horder).1⟩

theorem idleTone_run : ∃ e es,
    (machine ToneGenerator.sineSample).Run (fun _ a => a ≠ .sendStart) calling.sendStart.1 idleTone es e ∧
      es.any (fun o => match o with
        | .given _ fill => fill.any fun b => b != 0
        | _ => false) = true :=
  Machine.exec_seen (by decide +kernel)

end AudioEngine

end T38Modem
