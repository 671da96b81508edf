import T38Modem.Machine
import T38Modem.Udptl

namespace T38Modem

open Delivery

/-- `Originate` on one side and `Answer` on the other. `sent` are the IFP packets in the order of
their numbers, `written` the UDPTL packets the network may deliver, each with the number of the last
IFP packet before it, and `received` those it has delivered. -/
structure UdptlLink where
  tx : Originate := {}
  sent : List Ifp := []
  written : List (Nat × UDPTLPacket) := []
  rx : Answer := {}
  received : List (Nat × UDPTLPacket) := []

namespace UdptlLink

inductive Act where
  | prepared (res : Prepared)
  | deliver (i : Nat)

variable (t : T38Protocol) (codec : IfpCodec)

/-- The calls of the engine are observed, and they all succeed. -/
def step (s : UdptlLink) : Act → Option (UdptlLink × List EngineCall)
  | .prepared res =>
    match t.originate codec s.tx res with
    | none => none
    | some (tx, ifp) =>
      let sent := s.sent ++ ifp.toList
      some ({ s with tx, sent, written := s.written ++ [(sent.length - 1, tx.udptl)] }, [])
  | .deliver i =>
    match s.written[i]? with
    | none => none
    | some p =>
      let (calls, rx) := s.rx.receive codec (fun _ => true) (some p.2)
      some ({ s with rx, received := s.received ++ [p] }, calls)

def machine : Machine UdptlLink Act EngineCall := ⟨step t codec⟩

/-- The number is less than half the range away from the one expected. -/
def near (expected : Int) (n : Nat) : Prop := -0x8000 < n - expected ∧ n - expected < 0x8000

/-- IFP packets are encoded faithfully, there is no time limit before the first of them, and the
network delivers no packet that is half the range away. -/
def allowed (s : UdptlLink) : Act → Prop
  | .prepared (.packet ifp) => codec.decode (codec.encode ifp) = some ifp
  | .prepared .timeOut => 0 ≤ s.tx.seq
  | .prepared .stopped => True
  | .deliver i => ∀ p ∈ s.written[i]?, near s.rx.expectedSequenceNumber p.1

instance (s : UdptlLink) : ∀ a, Decidable (allowed codec s a)
  | .prepared (.packet ifp) => inferInstanceAs (Decidable (codec.decode (codec.encode ifp) = some ifp))
  | .prepared .timeOut => inferInstanceAs (Decidable (0 ≤ s.tx.seq))
  | .prepared .stopped => .isTrue trivial
  | .deliver i =>
    match h : s.written[i]? with
    | none => .isTrue fun p hp => by simp [h] at hp
    | some p =>
      decidable_of_iff (-0x8000 < (p.1 : Int) - s.rx.expectedSequenceNumber ∧
          (p.1 : Int) - s.rx.expectedSequenceNumber < 0x8000) <| by
        simp [allowed, near, h]

/-- The room for secondary packets behind the packet `n` when it has been sent again `k` times. -/
def room (sent : List Ifp) (n k : Nat) : Nat := ((sent[n]?.map t.redundancy).getD 0 - k).toNat

/-- A packet that is sent again keeps of its secondary packets what there is still room for. In a new packet
the one before it stands in front of them. -/
structure Secondaries (sent : List Ifp) (ps : List (Nat × UDPTLPacket)) : Prop where
  first : ∀ n p rest, ps = (n, p) :: rest → p.errorRecovery = .secondaryIfpPackets []
  next : ∀ qs n p m q rest, ps = qs ++ (n, p) :: (m, q) :: rest → ∃ xs, p.errorRecovery = .secondaryIfpPackets xs ∧
    q.errorRecovery = .secondaryIfpPackets
      (if m = n then xs.take (room t sent n (qs.countP (·.1 = n) + 1))
      else (p.primaryIfpPacket :: xs).take (room t sent n (qs.countP (·.1 = n))))

/-- The packet carries the last of the IFP packets and, as its secondary ones, those before. -/
def Stacked (sent : List Ifp) (p : UDPTLPacket) : Prop :=
  ∃ xs, p.errorRecovery = .secondaryIfpPackets xs ∧
    p.primaryIfpPacket :: xs <+: (sent.map codec.encode).reverse

variable {t codec} {s s' : UdptlLink} {es es' : List EngineCall} {sent : List Ifp} {p : UDPTLPacket}
  {xs ys : List (List Byte)} {ifp : Ifp} {n m : Int} {o o' : Originate} {res : Prepared} {a : List Byte} {j : Nat}

theorem moveLoop_eq (h : j ≤ ys.length) : moveLoop (a :: ys) j = a :: ((a :: ys).take j ++ ys.drop j) := by
  induction j generalizing ys with
  | zero => simp [moveLoop]
  | succ j ih =>
    rw [moveLoop, List.set_cons_succ, ih (by simp; omega)]
    have hj : j < ys.length := h
    have hj' : j < (a :: ys).length := Nat.lt_succ_of_lt hj
    have hset : (a :: ys.set j ((a :: ys).getD j [])).take j = (a :: ys).take j := by
      rw [← List.set_cons_succ, List.take_set_of_le (Nat.le_succ j)]
    have hdrop : (ys.set j ((a :: ys).getD j [])).drop j = (a :: ys)[j] :: ys.drop (j + 1) := by
      rw [List.drop_set, if_neg (Nat.lt_irrefl j), Nat.sub_self, List.drop_eq_getElem_cons hj,
        List.set_cons_zero, List.getD_eq_getElem?_getD, List.getElem?_eq_getElem hj', Option.getD_some]
    rw [hset, hdrop, List.take_succ_eq_append_getElem hj', List.append_assoc]
    rfl

theorem setSize_take (k : Nat) (h : k ≤ xs.length) : setSize xs k = xs.take k := by
  have : k - xs.length = 0 := by omega
  simp [setSize, this]

theorem take_toNat (xs : List (List Byte)) {n max : Int} (h : xs.length ≤ n) :
    xs.take (if (if n > max then max else n) < 0 then 0 else if n > max then max else n).toNat =
      xs.take max.toNat := by
  by_cases hl : n > max
  · rw [if_pos hl]
    congr 1
    split <;> omega
  · rw [if_neg hl]
    have h1 : ¬n < 0 := by omega
    rw [if_neg h1, List.take_of_length_le (by omega), List.take_of_length_le (by omega)]

/-- The new secondary packets are the old packet's, its primary one in front. -/
theorem nextSecondary_eq (xs : List (List Byte)) (a : List Byte) (max : Int) :
    T38Protocol.nextSecondary xs a max = (a :: xs).take max.toNat := by
  rw [← take_toNat (a :: xs) (n := (xs.length : Int) + 1) (by simp)]
  unfold T38Protocol.nextSecondary
  dsimp only
  generalize hn : (if (if (xs.length : Int) + 1 > max then max else (xs.length : Int) + 1) < 0 then 0
    else if (xs.length : Int) + 1 > max then max else (xs.length : Int) + 1) = n
  have hk : 0 ≤ n ∧ n ≤ xs.length + 1 := by
    rw [← hn]
    split <;> split <;> omega
  obtain ⟨k, rfl⟩ := Int.eq_ofNat_of_zero_le hk.1
  simp only [Int.toNat_natCast]
  cases k with
  | zero => simp [setSize]
  | succ k =>
    rw [if_pos (by omega)]
    have hkl : k ≤ xs.length := by omega
    have hlen : (setSize xs (k + 1)).length = k + 1 := by simp [setSize]; omega
    have htake : (setSize xs (k + 1)).take k = xs.take k := by
      unfold setSize
      rw [List.take_append_of_le_length (by simp; omega), List.take_take]
      congr 1
      omega
    obtain ⟨c, rest, hc⟩ := List.exists_cons_of_length_eq_add_one hlen
    rw [hc] at hlen htake ⊢
    have hrest : rest.length = k := by simpa using hlen
    rw [Nat.add_sub_cancel, moveLoop_eq (Nat.le_of_eq hrest.symm), htake, List.set_cons_zero,
      List.drop_of_length_le (Nat.le_of_eq hrest), List.append_nil]
    rfl

theorem againSecondary_eq (xs : List (List Byte)) (max : Int) :
    T38Protocol.againSecondary xs max = xs.take max.toNat := by
  rw [← take_toNat xs (Int.le_refl _)]
  unfold T38Protocol.againSecondary
  dsimp only
  refine setSize_take _ ?_
  split <;> split <;> omega

/-- The state of `Originate` after it has put in the IFP packets `sent`. -/
structure Sending (codec : IfpCodec) (sent : List Ifp) (o : Originate) : Prop where
  seq : o.seq = sent.length - 1
  first : sent = [] → o.maxRedundancy = 0 ∧ o.udptl.errorRecovery = .secondaryIfpPackets []
  later : sent ≠ [] → Stacked codec sent o.udptl
  number : sent ≠ [] → o.udptl.seqNumber = BitVec.ofInt 16 o.seq
  last : o.lastifp.isIndicator = true → o.lastifp ∈ sent

theorem Sending.next (h : Sending codec sent o) (hl : o'.seq = o.seq ∧ o'.maxRedundancy = o.maxRedundancy ∧
    o'.udptl = o.udptl) (hlast : o'.lastifp.isIndicator = true → o'.lastifp ∈ sent ++ [ifp]) :
    Sending codec (sent ++ [ifp]) (t.sendNext codec o' ifp) := by
  obtain ⟨hseq, hmax, hudptl⟩ := hl
  have hseq' : (t.sendNext codec o' ifp).seq = (sent ++ [ifp]).length - 1 := by
    have := h.seq
    simp [T38Protocol.sendNext, hseq, this]
  refine ⟨hseq', fun hn => by simp at hn, fun _ => ?_, fun _ => rfl, hlast⟩
  have hmap : ((sent ++ [ifp]).map codec.encode).reverse = codec.encode ifp :: (sent.map codec.encode).reverse := by
    simp
  by_cases hs : sent = []
  · obtain ⟨hm, hr⟩ := h.first hs
    refine ⟨[], ?_, ?_⟩
    · simp [T38Protocol.sendNext, hudptl, hr, hmax, nextSecondary_eq, hm]
    · rw [hmap]
      exact List.cons_prefix_cons.mpr ⟨rfl, List.nil_prefix⟩
  · obtain ⟨xs, hr, hpre⟩ := h.later hs
    refine ⟨(o.udptl.primaryIfpPacket :: xs).take o.maxRedundancy.toNat,
      by simp only [T38Protocol.sendNext, hudptl, hr, hmax, nextSecondary_eq], ?_⟩
    rw [hmap]
    exact List.cons_prefix_cons.mpr ⟨rfl, (List.take_prefix _ _).trans hpre⟩

theorem Sending.again (h : Sending codec sent o) (hs : sent ≠ []) :
    Sending codec sent (T38Protocol.sendAgain o) := by
  refine ⟨h.seq, fun hn => absurd hn hs, fun _ => ?_, fun _ => h.number hs, h.last⟩
  obtain ⟨xs, hr, hpre⟩ := h.later hs
  refine ⟨xs.take (if o.maxRedundancy > 0 then o.maxRedundancy - 1 else o.maxRedundancy).toNat,
    by simp only [T38Protocol.sendAgain, hr, againSecondary_eq], ?_⟩
  refine List.IsPrefix.trans ?_ hpre
  exact List.cons_prefix_cons.mpr ⟨rfl, List.take_prefix _ xs⟩

/-- A packet that carries the IFP packet `m` and those before it. -/
structure Carries (codec : IfpCodec) (sent : List Ifp) (m : Nat) (p : UDPTLPacket) : Prop where
  lt : m < sent.length
  number : p.seqNumber = BitVec.ofInt 16 m
  stacked : Stacked codec (sent.take (m + 1)) p

theorem Carries.more {m : Nat} (h : Carries codec sent m p) (more : List Ifp) : Carries codec (sent ++ more) m p := by
  refine ⟨by simp; have := h.lt; omega, h.number, ?_⟩
  rw [List.take_append_of_le_length h.lt]
  exact h.stacked

theorem getElem?_stacked {m i : Nat} {x : List Byte} (hm : m < sent.length)
    (hp : xs <+: ((sent.take (m + 1)).map codec.encode).reverse) (hx : xs[i]? = some x) :
    i ≤ m ∧ ∃ ifp, sent[m - i]? = some ifp ∧ x = codec.encode ifp := by
  have hlen : ((sent.take (m + 1)).map codec.encode).length = m + 1 := by simp; omega
  obtain ⟨hi, -⟩ := List.getElem?_eq_some_iff.mp hx
  have him : i < m + 1 := by
    have := hp.length_le
    rw [List.length_reverse, hlen] at this
    omega
  have hr := (List.prefix_iff_getElem?.mp hp) i hi
  rw [List.getElem?_reverse (by omega), hlen, List.getElem?_map, List.getElem?_take_of_lt (by omega)] at hr
  obtain ⟨ifp, hs, he⟩ := Option.map_eq_some_iff.mp hr
  refine ⟨by omega, ifp, by rwa [show m + 1 - 1 - i = m - i by omega] at hs, ?_⟩
  rw [he]
  exact (Option.some.inj ((List.getElem?_eq_getElem hi).symm.trans hx)).symm

theorem Carries.primary {m : Nat} (h : Carries codec sent m p) :
    ∃ ifp, sent[m]? = some ifp ∧ p.primaryIfpPacket = codec.encode ifp := by
  obtain ⟨xs, -, hp⟩ := h.stacked
  simpa using (getElem?_stacked (i := 0) h.lt hp rfl).2

theorem Carries.secondary {m i : Nat} {x : List Byte} (h : Carries codec sent m p)
    (hr : p.errorRecovery = .secondaryIfpPackets xs) (hx : xs[i]? = some x) :
    i + 1 ≤ m ∧ ∃ ifp, sent[m - 1 - i]? = some ifp ∧ x = codec.encode ifp := by
  obtain ⟨ys, hy, hp⟩ := h.stacked
  cases hr.symm.trans hy
  obtain ⟨hi, hs⟩ := getElem?_stacked (i := i + 1) h.lt hp hx
  exact ⟨hi, by rwa [show m - 1 - i = m - (i + 1) by omega]⟩

/-- Reports of the IFP packets `sent` with their own numbers. -/
def Genuine (sent : List Ifp) (es : List EngineCall) : Prop :=
  ∀ n ifp, .item n ifp ∈ es → 0 ≤ n ∧ sent[n.toNat]? = some ifp

theorem Genuine.append (h : Genuine sent es) (h' : Genuine sent es') : Genuine sent (es ++ es') := by
  intro n ifp hm
  rcases List.mem_append.mp hm with hm | hm
  · exact h n ifp hm
  · exact h' n ifp hm

theorem Genuine.more (h : Genuine sent es) (more : List Ifp) : Genuine (sent ++ more) es := by
  intro n ifp hm
  obtain ⟨hn, hs⟩ := h n ifp hm
  exact ⟨hn, List.getElem?_append_left (List.getElem?_eq_some_iff.mp hs).1 ▸ hs⟩

theorem handleRawIFP_encoded {m : Nat} (hf : codec.decode (codec.encode ifp) = some ifp)
    (hs : sent[m]? = some ifp) :
    Tiles m (handleRawIFP codec m (codec.encode ifp)) (m + 1) ∧ Prompt (handleRawIFP codec m (codec.encode ifp)) ∧
      Genuine sent (handleRawIFP codec m (codec.encode ifp)) ∧
      handled (handleRawIFP codec m (codec.encode ifp)) = [(m : Int)] := by
  unfold handleRawIFP
  rw [hf]
  refine ⟨⟨rfl, rfl⟩, trivial, ?_, rfl⟩
  intro n x hm
  cases List.mem_singleton.mp hm
  exact ⟨Int.natCast_nonneg m, by simpa using hs⟩

/-- The secondary packets that are used are the IFP packets right before the primary one. -/
theorem recoverLoop_tiles {m k : Nat} (hf : ∀ ifp ∈ sent, codec.decode (codec.encode ifp) = some ifp)
    (h : Carries codec sent m p) (hr : p.errorRecovery = .secondaryIfpPackets xs) (hk : k ≤ xs.length) :
    k ≤ m ∧ Tiles (m - k) (recoverLoop codec xs k (m - k)) m ∧ Prompt (recoverLoop codec xs k (m - k)) ∧
      Genuine sent (recoverLoop codec xs k (m - k)) ∧
      ∀ n : Int, m - k ≤ n → n < m → n ∈ handled (recoverLoop codec xs k (m - k)) := by
  induction k with
  | zero =>
    refine ⟨Nat.zero_le m, by simp [recoverLoop, Tiles], trivial, fun n ifp hm => ?_, fun n h1 h2 => ?_⟩
    · cases hm
    · simp at h1
      omega
  | succ k ih =>
    obtain ⟨hkm, htile, hprompt, hgen, hall⟩ := ih (by omega)
    have hx : xs[k]? = some xs[k] := List.getElem?_eq_getElem hk
    obtain ⟨hk1, ifp, hs, he⟩ := h.secondary hr hx
    have hg : xs.getD k [] = codec.encode ifp := by rw [List.getD_eq_getElem?_getD, hx, Option.getD_some, he]
    have hm : (m : Int) - ((k + 1 : Nat) : Int) = ((m - 1 - k : Nat) : Int) := by omega
    have hn : ((m - 1 - k : Nat) : Int) + 1 = m - k := by omega
    obtain ⟨ht, hp, hgn, hh⟩ := handleRawIFP_encoded (hf ifp (List.mem_of_getElem? hs)) hs
    rw [recoverLoop, hg, hm, hn]
    rw [hn] at ht
    refine ⟨hk1, ht.append htile, hp.append hprompt, hgn.append hgen, fun n h1 h2 => ?_⟩
    rw [handled_append, hh]
    by_cases hnk : n = ((m - 1 - k : Nat) : Int)
    · simp [hnk]
    · exact List.mem_append_right _ (hall n (by omega) h2)

/-- What a packet at or behind the expected number leads to: `k` of its secondary packets are used,
and all of them where they do not reach back to the expected one. -/
theorem calls_eq {m : Nat} {e : Answer} (h : Carries codec sent m p)
    (hr : p.errorRecovery = .secondaryIfpPackets xs) (hn : near e.expectedSequenceNumber m)
    (he : e.expectedSequenceNumber ≤ m) :
    ∃ k ≤ xs.length, (k : Int) ≤ m - e.expectedSequenceNumber ∧
      ((m : Int) - e.expectedSequenceNumber > k → k = xs.length) ∧
      e.calls codec p =
        (if (m : Int) - e.expectedSequenceNumber > k then [.lost (m - e.expectedSequenceNumber - k)] else []) ++
          (recoverLoop codec xs k (m - k) ++ handleRawIFP codec m p.primaryIfpPacket) := by
  unfold Answer.calls
  rw [h.number, sequenceNumber_eq hn.1 hn.2]
  generalize e.expectedSequenceNumber = a at *
  dsimp only
  rw [if_neg (by omega)]
  by_cases h0 : (m : Int) - a > 0
  · rw [if_pos h0, hr]
    unfold recoverLost
    dsimp only
    by_cases hl : (m : Int) - a > xs.length
    · refine ⟨xs.length, Nat.le_refl _, by omega, fun _ => rfl, ?_⟩
      simp only [if_pos hl]
      simp
    · obtain ⟨k, hk⟩ := Int.eq_ofNat_of_zero_le (Int.le_of_lt h0)
      have hke : ¬ (m : Int) - a > k := by omega
      refine ⟨k, by omega, by omega, fun hgt => absurd hgt hke, ?_⟩
      simp only [if_neg hl, if_neg hke]
      simp [hk]
  · rw [if_neg h0]
    refine ⟨0, Nat.zero_le _, by simpa using he, fun hgt => absurd hgt h0, ?_⟩
    rw [if_neg (by simpa using h0)]
    rfl

theorem calls_tiles {m : Nat} {e : Answer} (hf : ∀ ifp ∈ sent, codec.decode (codec.encode ifp) = some ifp)
    (h : Carries codec sent m p) (hr : p.errorRecovery = .secondaryIfpPackets xs)
    (hn : near e.expectedSequenceNumber m) (he : e.expectedSequenceNumber ≤ m) :
    Tiles e.expectedSequenceNumber (e.calls codec p) (m + 1) ∧ Prompt (e.calls codec p) ∧
      Genuine sent (e.calls codec p) ∧
      ∀ n : Int, e.expectedSequenceNumber ≤ n → m - xs.length ≤ n → n < m + 1 → n ∈ handled (e.calls codec p) := by
  obtain ⟨ifp, hs, hprim⟩ := h.primary
  obtain ⟨ht, hp, hg, hh⟩ := handleRawIFP_encoded (hf ifp (List.mem_of_getElem? hs)) hs
  obtain ⟨k, hk, hka, hall, heq⟩ := calls_eq h hr hn he
  obtain ⟨hkm, ht', hp', hg', hh'⟩ := recoverLoop_tiles hf h hr hk
  rw [hprim] at heq
  have htile := ht'.append ht
  have hprompt := hp'.append hp
  have hgen := hg'.append hg
  have hitems : ∀ n : Int, m - k ≤ n → n < m + 1 →
      n ∈ handled (recoverLoop codec xs k (m - k) ++ handleRawIFP codec m (codec.encode ifp)) := by
    intro n h1 h2
    rw [handled_append, hh]
    by_cases hnm : n = m
    · simp [hnm]
    · exact List.mem_append_left _ (hh' n h1 (by omega))
  rw [heq]
  generalize recoverLoop codec xs k (m - k) ++ handleRawIFP codec m (codec.encode ifp) = items at *
  by_cases hgt : (m : Int) - e.expectedSequenceNumber > k
  · have hkx : (k : Int) = xs.length := by rw [hall hgt]
    rw [if_pos hgt]
    refine ⟨⟨by omega, ?_⟩, ⟨?_, hprompt⟩, ?_, ?_⟩
    · rwa [show e.expectedSequenceNumber + (m - e.expectedSequenceNumber - k) = m - k by omega]
    · cases items with
      | nil => exact absurd (hitems m (by omega) (by omega)) (by simp [handled])
      | cons c rest =>
        cases c with
        | item n x => exact ⟨n, x, rest, rfl⟩
        | lost j => 
          obtain ⟨hj, hrest⟩ := htile
          have hm := hitems (m - k) (by omega) (by omega)
          have := hrest.bounds hm
          omega
    · intro n x hm
      rcases List.mem_cons.mp hm with hm | hm
      · cases hm
      · exact hgen n x hm
    · intro n h1 h2 h3
      exact hitems n (by omega) h3
  · rw [if_neg hgt]
    refine ⟨?_, hprompt, hgen, fun n h1 h2 h3 => hitems n (by omega) h3⟩
    rw [show e.expectedSequenceNumber = (m : Int) - k by omega]
    exact htile

theorem perform_all (cs : List EngineCall) : perform (fun _ => true) cs = (cs, true) := by
  induction cs with
  | nil => rfl
  | cons c cs ih => simp [perform, ih]

/-- An IFP packet is skipped when the first packet from behind it does not reach back to it. -/
def OutOfReach (received : List (Nat × UDPTLPacket)) (n : Int) : Prop :=
  ∃ (pre post : List (Nat × UDPTLPacket)) (m : Nat) (p : UDPTLPacket) (xs : List (List Byte)),
    received = pre ++ (m, p) :: post ∧ (∀ q ∈ pre, (q.1 : Int) ≤ n) ∧ n < m ∧
      p.errorRecovery = .secondaryIfpPackets xs ∧ (xs.length : Int) < m - n

theorem OutOfReach.more {received : List (Nat × UDPTLPacket)} (h : OutOfReach received n)
    (more : List (Nat × UDPTLPacket)) : OutOfReach (received ++ more) n := by
  obtain ⟨pre, post, m, p, xs, hsplit, hrest⟩ := h
  exact ⟨pre, post ++ more, m, p, xs, by rw [hsplit]; simp, hrest⟩

/-- What holds of the two sides, the packets between them and the calls of the engine. -/
structure Linked (codec : IfpCodec) (es : List EngineCall) (s : UdptlLink) : Prop where
  faithful : ∀ ifp ∈ s.sent, codec.decode (codec.encode ifp) = some ifp
  sending : Sending codec s.sent s.tx
  written : ∀ q ∈ s.written, Carries codec s.sent q.1 q.2
  tiles : Tiles 0 es s.rx.expectedSequenceNumber
  prompt : Prompt es
  genuine : Genuine s.sent es
  received : ∀ q ∈ s.received, (q.1 : Int) < s.rx.expectedSequenceNumber
  missing : ∀ n, 0 ≤ n → n < s.rx.expectedSequenceNumber → n ∉ handled es → OutOfReach s.received n

theorem start_linked : Linked codec [] {} where
  faithful := fun _ h => nomatch h
  sending := ⟨rfl, fun _ => ⟨rfl, rfl⟩, fun h => absurd rfl h, fun h => absurd rfl h, fun h => nomatch h⟩
  written := fun _ h => nomatch h
  tiles := rfl
  prompt := trivial
  genuine := fun _ _ h => nomatch h
  received := fun _ h => nomatch h
  missing := fun _ h0 hn => absurd (Int.lt_of_le_of_lt h0 hn) (Int.lt_irrefl 0)

/-- The packet that is written carries the last IFP packet put in. -/
theorem Sending.carries (h : Sending codec sent o) (hs : sent ≠ []) :
    Carries codec sent (sent.length - 1) o.udptl := by
  have hpos := List.length_pos_iff.mpr hs
  refine ⟨by omega, ?_, ?_⟩
  · rw [h.number hs, h.seq]
    congr 1
    omega
  · rw [show sent.length - 1 + 1 = sent.length by omega, List.take_length]
    exact h.later hs

theorem Linked.put (h : Linked codec es s) {tx : Originate} (more : List Ifp)
    (hf : ∀ ifp ∈ more, codec.decode (codec.encode ifp) = some ifp) (hs : Sending codec (s.sent ++ more) tx)
    (hne : s.sent ++ more ≠ []) :
    Linked codec es { s with
      tx := tx
      sent := s.sent ++ more
      written := s.written ++ [((s.sent ++ more).length - 1, tx.udptl)] } := by
  refine ⟨?_, hs, ?_, h.tiles, h.prompt, h.genuine.more more, h.received, h.missing⟩
  · exact List.forall_mem_append.mpr ⟨h.faithful, hf⟩
  · refine List.forall_mem_append.mpr ⟨fun q hq => (h.written q hq).more more, ?_⟩
    exact List.forall_mem_singleton.mpr (hs.carries hne)

theorem Linked.prepared (h : Linked codec es s) {ifp : Option Ifp} (ha : allowed codec s (.prepared res))
    (hs : t.originate codec s.tx res = some (o', ifp)) :
    Linked codec es { s with
      tx := o'
      sent := s.sent ++ ifp.toList
      written := s.written ++ [((s.sent ++ ifp.toList).length - 1, o'.udptl)] } := by
  cases res with
  | packet i =>
    cases hs
    refine h.put [i] (List.forall_mem_singleton.mpr ha) ?_ (by simp)
    exact h.sending.next ⟨rfl, rfl, rfl⟩ fun _ => by simp
  | timeOut =>
    have hseq : 0 ≤ s.tx.seq := ha
    have hne : s.sent ≠ [] := by
      intro hnil
      have := h.sending.seq
      rw [hnil] at this
      simp at this
      omega
    unfold T38Protocol.originate at hs
    dsimp only at hs
    split at hs
    next hr =>
      cases hs
      have hmem := h.sending.last hr.2
      refine h.put [s.tx.lastifp] (List.forall_mem_singleton.mpr (h.faithful _ hmem)) ?_ (by simp)
      exact h.sending.next ⟨rfl, rfl, rfl⟩ fun _ => by simp
    next =>
      cases hs
      refine h.put [] (fun _ hm => nomatch hm) ?_ (by simpa using hne)
      rw [List.append_nil]
      exact h.sending.again hne
  | stopped => cases hs

theorem Linked.deliver (h : Linked codec es s) {q : Nat × UDPTLPacket} (hq : q ∈ s.written)
    (hn : near s.rx.expectedSequenceNumber q.1) :
    Linked codec (es ++ (s.rx.receive codec (fun _ => true) (some q.2)).1)
      { s with rx := (s.rx.receive codec (fun _ => true) (some q.2)).2, received := s.received ++ [q] } := by
  obtain ⟨m, p⟩ := q
  have hc : Carries codec s.sent m p := h.written _ hq
  obtain ⟨xs, hr, -⟩ := hc.stacked
  unfold Answer.receive
  simp only [hc.number, sequenceNumber_eq hn.1 hn.2]
  by_cases hl : (m : Int) - s.rx.expectedSequenceNumber < 0
  · rw [if_pos hl, List.append_nil]
    refine ⟨h.faithful, h.sending, h.written, h.tiles, h.prompt, h.genuine, ?_, ?_⟩
    · exact List.forall_mem_append.mpr ⟨h.received, List.forall_mem_singleton.mpr (by dsimp only; omega)⟩
    · exact fun n h0 hn hm => (h.missing n h0 hn hm).more _
  · rw [if_neg hl, perform_all]
    dsimp only
    obtain ⟨htile, hprompt, hgen, hall⟩ :=
      calls_tiles (e := { s.rx with consecutiveBadPackets := 0 }) h.faithful hc hr hn (by dsimp only; omega)
    refine ⟨h.faithful, h.sending, h.written, h.tiles.append htile, h.prompt.append hprompt,
      h.genuine.append hgen, ?_, ?_⟩
    · refine List.forall_mem_append.mpr ⟨?_, List.forall_mem_singleton.mpr (by dsimp only; omega)⟩
      intro q hq
      have := h.received q hq
      dsimp only
      omega
    · intro n h0 hn hm
      rw [handled_append] at hm
      have hm1 : n ∉ handled es := fun h1 => hm (List.mem_append_left _ h1)
      have hm2 := fun h2 => hm (List.mem_append_right _ h2)
      by_cases hne : n < s.rx.expectedSequenceNumber
      · exact (h.missing n h0 hne hm1).more _
      · have hreach : n < m - xs.length := by
          by_contra hge
          exact hm2 (hall n (by dsimp only; omega) (by omega) hn)
        refine ⟨s.received, [], m, p, xs, rfl, ?_, by omega, hr, by omega⟩
        intro q hq
        have := h.received q hq
        omega

theorem step_linked {a : Act} (h : Linked codec es s) (ha : allowed codec s a)
    (hs : (machine t codec).step s a = some (s', es')) : Linked codec (es ++ es') s' := by
  cases a with
  | prepared res =>
    simp only [machine, step] at hs
    split at hs
    next => cases hs
    next o ifp heq =>
      simp only [Option.some.injEq, Prod.mk.injEq] at hs
      obtain ⟨rfl, rfl⟩ := hs
      rw [List.append_nil]
      exact h.prepared ha heq
  | deliver i =>
    simp only [machine, step] at hs
    split at hs
    next => cases hs
    next q heq =>
      simp only [Option.some.injEq, Prod.mk.injEq] at hs
      obtain ⟨rfl, rfl⟩ := hs
      exact h.deliver (List.mem_of_getElem? heq) (ha q heq)

theorem run_linked {as : List Act} (h : (machine t codec).Run (allowed codec) {} as es s) : Linked codec es s :=
  h.invariant start_linked fun _ _ _ _ _ hi hok hs => step_linked hi hok hs

theorem room_append {n k : Nat} (hn : n < sent.length) (more : List Ifp) : room t (sent ++ more) n k = room t sent n k := by
  rw [room, room, List.getElem?_append_left hn]

section

variable {ps : List (Nat × UDPTLPacket)}

theorem Secondaries.more (h : Secondaries t sent ps) (hn : ∀ q ∈ ps, q.1 < sent.length) (more : List Ifp) :
    Secondaries t (sent ++ more) ps := by
  refine ⟨h.first, fun qs n p m q rest hs => ?_⟩
  have hlt : n < sent.length := hn (n, p) (by rw [hs]; simp)
  rw [room_append hlt, room_append hlt]
  exact h.next qs n p m q rest hs

theorem Secondaries.snoc (h : Secondaries t sent ps) {m : Nat} {q : UDPTLPacket}
    (hfirst : ps = [] → q.errorRecovery = .secondaryIfpPackets [])
    (hnext : ∀ qs n p, ps = qs ++ [(n, p)] → ∃ xs, p.errorRecovery = .secondaryIfpPackets xs ∧
      q.errorRecovery = .secondaryIfpPackets
        (if m = n then xs.take (room t sent n (qs.countP (·.1 = n) + 1))
        else (p.primaryIfpPacket :: xs).take (room t sent n (qs.countP (·.1 = n))))) :
    Secondaries t sent (ps ++ [(m, q)]) := by
  refine ⟨fun n p rest hs => ?_, fun qs n p m' q' rest hs => ?_⟩
  · cases ps with
    | nil =>
      cases hs
      exact hfirst rfl
    | cons x ps =>
      cases hs
      exact h.first n p ps rfl
  · rcases List.eq_nil_or_concat' rest with rfl | ⟨rest, x, rfl⟩
    · rw [show qs ++ [(n, p), (m', q')] = (qs ++ [(n, p)]) ++ [(m', q')] by simp] at hs
      obtain ⟨hps, hx⟩ := List.append_inj' hs rfl
      cases hx
      exact hnext qs n p hps
    · rw [show qs ++ (n, p) :: (m', q') :: (rest ++ [x]) = (qs ++ (n, p) :: (m', q') :: rest) ++ [x] by simp] at hs
      exact h.next qs n p m' q' rest (List.append_inj' hs rfl).1

end

/-- `Originate` has the packet it wrote last, and as much room behind it as the settings say. -/
structure Stocked (t : T38Protocol) (s : UdptlLink) : Prop where
  secondaries : Secondaries t s.sent s.written
  start : s.written = [] → s.sent = []
  last : ∀ qs n p, s.written = qs ++ [(n, p)] → n + 1 = s.sent.length ∧ p = s.tx.udptl ∧
    s.tx.maxRedundancy.toNat = room t s.sent n (qs.countP (·.1 = n))

theorem Linked.numbered (h : Linked codec es s) : ∀ q ∈ s.written, q.1 < s.sent.length := fun q hq =>
  (h.written q hq).lt

theorem Linked.recovery (h : Linked codec es s) (hs : s.sent ≠ []) :
    ∃ xs, s.tx.udptl.errorRecovery = .secondaryIfpPackets xs := by
  obtain ⟨xs, hr, -⟩ := h.sending.later hs
  exact ⟨xs, hr⟩

/-- A new packet goes out. -/
theorem Stocked.sendNext (h : Stocked t s) (hl : Linked codec es s) (o : Originate) (ho : o.maxRedundancy = s.tx.maxRedundancy)
    (hu : o.udptl = s.tx.udptl) (ifp : Ifp) :
    Stocked t { s with
      tx := t.sendNext codec o ifp
      sent := s.sent ++ [ifp]
      written := s.written ++ [((s.sent ++ [ifp]).length - 1, (t.sendNext codec o ifp).udptl)] } := by
  have hnumber : (s.sent ++ [ifp]).length - 1 = s.sent.length := by simp
  refine ⟨(h.secondaries.more hl.numbered [ifp]).snoc (fun hnil => ?_) fun qs n p hs => ?_,
    fun hnil => absurd hnil (by simp), fun qs n p hs => ?_⟩
  · obtain ⟨hmax, hr⟩ := hl.sending.first (h.start hnil)
    simp [T38Protocol.sendNext, hu, ho, hr, hmax, nextSecondary_eq]
  · obtain ⟨hn, rfl, hmax⟩ := h.last qs n p hs
    obtain ⟨xs, hr⟩ := hl.recovery (by rintro h0; simp [h0] at hn)
    refine ⟨xs, hr, ?_⟩
    rw [hnumber, if_neg (by omega), room_append (by omega), ← hmax]
    simp only [T38Protocol.sendNext, hu, ho, hr, nextSecondary_eq]
  · obtain ⟨rfl, hx⟩ := List.append_inj' hs rfl
    obtain ⟨rfl, rfl⟩ := Prod.mk.inj (List.cons.inj hx).1
    refine ⟨by simp, rfl, ?_⟩
    have hnone : s.written.countP (·.1 = (s.sent ++ [ifp]).length - 1) = 0 := by
      rw [List.countP_eq_zero]
      intro q hq
      have hlt := hl.numbered q hq
      simp only [hnumber, decide_eq_true_eq]
      omega
    rw [hnone, hnumber, room, List.getElem?_concat_length]
    simp [T38Protocol.sendNext]

/-- The packet goes out again. -/
theorem Stocked.sendAgain (h : Stocked t s) (hl : Linked codec es s) (hne : s.sent ≠ []) (hw : s.written ≠ []) :
    Stocked t { s with
      tx := T38Protocol.sendAgain s.tx
      written := s.written ++ [(s.sent.length - 1, (T38Protocol.sendAgain s.tx).udptl)] } := by
  have hroom {qs : List (Nat × UDPTLPacket)} {n : Nat} {p : UDPTLPacket} (hs : s.written = qs ++ [(n, p)]) :
      (if s.tx.maxRedundancy > 0 then s.tx.maxRedundancy - 1 else s.tx.maxRedundancy).toNat =
        room t s.sent n (qs.countP (·.1 = n) + 1) := by
    obtain ⟨-, -, hmax⟩ := h.last qs n p hs
    rw [room] at hmax ⊢
    split <;> omega
  refine ⟨h.secondaries.snoc (fun hnil => absurd hnil hw) fun qs n p hs => ?_, fun hnil => absurd hnil (by simp),
    fun qs n p hs => ?_⟩
  · have hr := hroom hs
    obtain ⟨hn, rfl, hmax⟩ := h.last qs n p hs
    obtain ⟨xs, hx⟩ := hl.recovery hne
    refine ⟨xs, hx, ?_⟩
    rw [if_pos (by omega), ← hr]
    simp only [T38Protocol.sendAgain, hx, againSecondary_eq]
  · obtain ⟨rfl, hx⟩ := List.append_inj' hs rfl
    obtain ⟨rfl, rfl⟩ := Prod.mk.inj (List.cons.inj hx).1
    have hpos := List.length_pos_iff.mpr hne
    refine ⟨by dsimp only; omega, rfl, ?_⟩
    obtain ⟨qs, ⟨n, p⟩, hq⟩ := (List.eq_nil_or_concat' s.written).resolve_left hw
    have hr := hroom hq
    obtain ⟨hn, -, -⟩ := h.last qs n p hq
    have hnumber : s.sent.length - 1 = n := by omega
    rw [hnumber, hq, List.countP_append, List.countP_singleton, if_pos (by simp), ← hr]
    rfl

theorem Stocked.prepared (h : Stocked t s) (hl : Linked codec es s) {ifp : Option Ifp}
    (ha : allowed codec s (.prepared res)) (hs : t.originate codec s.tx res = some (o', ifp)) :
    Stocked t { s with
      tx := o'
      sent := s.sent ++ ifp.toList
      written := s.written ++ [((s.sent ++ ifp.toList).length - 1, o'.udptl)] } := by
  cases res with
  | packet i =>
    cases hs
    exact h.sendNext hl { s.tx with lastifp := i } rfl rfl i
  | timeOut =>
    have hseq : 0 ≤ s.tx.seq := ha
    have hne : s.sent ≠ [] := by
      intro hnil
      have := hl.sending.seq
      rw [hnil] at this
      simp at this
      omega
    unfold T38Protocol.originate at hs
    dsimp only at hs
    split at hs
    next hr =>
      cases hs
      exact h.sendNext hl s.tx rfl rfl s.tx.lastifp
    next =>
      cases hs
      simpa using h.sendAgain hl hne fun hnil => hne (h.start hnil)
  | stopped => cases hs

theorem step_stocked {a : Act} (h : Stocked t s) (hl : Linked codec es s) (ha : allowed codec s a)
    (hs : (machine t codec).step s a = some (s', es')) : Stocked t s' := by
  cases a with
  | prepared res =>
    simp only [machine, step] at hs
    split at hs
    next => cases hs
    next o ifp heq =>
      simp only [Option.some.injEq, Prod.mk.injEq] at hs
      obtain ⟨rfl, rfl⟩ := hs
      exact h.prepared hl ha heq
  | deliver i =>
    simp only [machine, step] at hs
    split at hs
    next => cases hs
    next q heq =>
      simp only [Option.some.injEq, Prod.mk.injEq] at hs
      obtain ⟨rfl, rfl⟩ := hs
      exact ⟨h.secondaries, h.start, h.last⟩

theorem run_stocked {as : List Act} (h : (machine t codec).Run (allowed codec) {} as es s) : Stocked t s := by
  have hinv : Linked codec es s ∧ Stocked t s := by
    refine h.invariant (I := fun es s => Linked codec es s ∧ Stocked t s) ⟨start_linked, ⟨⟨?_, ?_⟩, fun _ => rfl, ?_⟩⟩
      fun es s a s' es' hi hok hs => ⟨step_linked hi.1 hok hs, step_stocked hi.2 hi.1 hok hs⟩
    · exact fun _ _ _ hs => by cases hs
    · exact fun qs _ _ _ _ _ hs => by simp at hs
    · exact fun qs _ _ hs => by simp at hs
  exact hinv.2

/-- The redundancy does what it is for: the first two are about the packets `Originate` writes, the rest
about what `Answer` makes of those it is given. -/
structure Redundant (t : T38Protocol) (codec : IfpCodec) (es : List EngineCall) (s : UdptlLink) : Prop where
  secondaries : Secondaries t s.sent s.written
  secondary : ∀ n p, (n, p) ∈ s.written → ∃ xs, p.errorRecovery = .secondaryIfpPackets xs ∧
    ∀ i x, xs[i]? = some x → i + 1 ≤ n ∧ ∃ ifp, s.sent[n - 1 - i]? = some ifp ∧ x = codec.encode ifp
  number : ∀ n p, (n, p) ∈ s.written → near s.rx.expectedSequenceNumber n →
    (sequenceNumber s.rx.expectedSequenceNumber p.seqNumber).1 = n
  genuine : ∀ n ifp, .item n ifp ∈ es → 0 ≤ n ∧ s.sent[n.toNat]? = some ifp
  increasing : (handled es).Pairwise (· < ·)
  reached : ∀ q ∈ s.received, (q.1 : Int) < s.rx.expectedSequenceNumber
  missing : ∀ n ∈ skipped 0 s.rx.expectedSequenceNumber es, OutOfReach s.received n
  lost : ((skipped 0 s.rx.expectedSequenceNumber es).card : Int) = lostTotal es
  lost_before : ∀ pre n ifp post, es = pre ++ .item n ifp :: post → ((skipped 0 n pre).card : Int) = lostTotal pre

theorem run_redundant {as : List Act} (h : (machine t codec).Run (allowed codec) {} as es s) :
    Redundant t codec es s := by
  have hl := run_linked h
  refine ⟨(run_stocked h).secondaries, ?_, ?_, hl.genuine, hl.tiles.increasing, hl.received, ?_, hl.tiles.card_skipped, ?_⟩
  · intro n p hm
    have hc : Carries codec s.sent n p := hl.written _ hm
    obtain ⟨xs, hr, -⟩ := hc.stacked
    exact ⟨xs, hr, fun i x hx => hc.secondary hr hx⟩
  · intro n p hm hn
    have hc : Carries codec s.sent n p := hl.written _ hm
    rw [hc.number, sequenceNumber_eq hn.1 hn.2]
  · intro n hm
    obtain ⟨hi, hh⟩ := Finset.mem_sdiff.mp hm
    obtain ⟨h0, hn⟩ := Finset.mem_Ico.mp hi
    exact hl.missing n h0 hn fun hx => hh (List.mem_toFinset.mpr hx)
  · intro pre n ifp post hsplit
    have ht := hl.tiles
    rw [hsplit] at ht
    exact ht.before_item

/-- The encoding of the indicators of a call that is set up. -/
def ringCodec : IfpCodec where
  encode
    | .t30Indicator .cng => [0x02]
    | .t30Indicator .ced => [0x04]
    | .t30Indicator .v21Preamble => [0x06]
    | _ => [0x00]
  decode
    | [0x02] => some (.t30Indicator .cng)
    | [0x04] => some (.t30Indicator .ced)
    | [0x06] => some (.t30Indicator .v21Preamble)
    | [0x00] => some (.t30Indicator .noSignal)
    | _ => none

/-- Two packets are lost, and the engine is told of one of them. -/
theorem ring_redundant : ∃ as es s,
    (machine ⟨1, 1, 1, false⟩ ringCodec).Run (allowed ringCodec) {} as es s ∧
    es = [.item 0 (.t30Indicator .noSignal), .lost 1, .item 2 (.t30Indicator .cng), .item 3 (.t30Indicator .ced)] ∧
    Redundant ⟨1, 1, 1, false⟩ ringCodec es s := by
  have hr : ∃ s, (machine ⟨1, 1, 1, false⟩ ringCodec).Run (allowed ringCodec) {}
      [.prepared (.packet (.t30Indicator .noSignal)), .deliver 0, .prepared (.packet (.t30Indicator .noSignal)),
        .prepared (.packet (.t30Indicator .cng)), .prepared (.packet (.t30Indicator .ced)), .deliver 3] _ s :=
    Machine.exec_run (by rfl)
  obtain ⟨s, hr⟩ := hr
  exact ⟨_, _, s, hr, by decide +kernel, run_redundant hr⟩

end UdptlLink

end T38Modem
