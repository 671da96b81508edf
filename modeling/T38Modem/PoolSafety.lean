import T38Modem.ModemPool
import Mathlib.Data.List.Nodup
import Mathlib.Data.List.Perm.Basic

namespace T38Modem

namespace ModemEndPoint

variable {s s' : ModemEndPoint} {a : PoolAct} {as : List PoolAct} {es : List PoolSeen} {modem : String} {token : Nat}

theorem count_filterMap_erase {α : Type*} [DecidableEq α] {f : α → Option String} {x : α} {l : List α}
    (h : x ∈ l) (modem : String) :
    (l.filterMap f).count modem = (f x).toList.count modem + ((l.erase x).filterMap f).count modem := by
  have hp := ((List.perm_cons_erase h).filterMap f).count_eq modem
  rw [hp]
  cases hx : f x with
  | none => simp [hx]
  | some y => simp [hx, List.count_cons, Nat.add_comm]

theorem take_count {q : PseudoModemQ} {serves : String → Bool} (modem : String) :
    q.queue.count modem = (q.take serves).2.toList.count modem + (q.take serves).1.queue.count modem := by
  unfold PseudoModemQ.take
  split
  next => simp
  next m hm =>
    have hp := (List.perm_cons_erase (List.mem_of_find?_eq_some hm)).count_eq modem
    rw [hp]
    simp [List.count_cons, Nat.add_comm]

theorem pmFree_places (m : Option String) (modem : String) :
    (s.pmFree m).places modem = s.places modem + m.toList.count modem := by
  cases m with
  | none => simp [pmFree]
  | some m =>
    simp only [pmFree, places, PseudoModemQ.enqueue, List.count_append, Option.toList_some]
    omega

theorem connection_mem {c : ModemConnection} (h : s.connection token = some c) : c ∈ s.connections :=
  List.mem_of_find?_eq_some h

theorem dialed_places {d : Dial} {x : SetUpAnswers}
    (hr : d.made ≠ none → x.setUpConnection = true ∧ x.getConnection = true) :
    (s.dialed d x).1.places modem = s.places modem + d.inHand.toList.count modem ∧
      (s.dialed d x).2.filterMap PoolSeen.addedModem = [] := by
  cases hm : d.made with
  | none =>
    refine ⟨?_, by simp [dialed, SetUpAnswers.setUpCall, hm, PoolSeen.addedModem]⟩
    simp only [dialed, SetUpAnswers.setUpCall, hm, Dial.inHand, if_true]
    exact pmFree_places _ _
  | some token =>
    obtain ⟨hs, hc⟩ := hr (by simp [hm])
    simp [dialed, SetUpAnswers.setUpCall, hm, hs, hc, Dial.inHand, PoolSeen.addedModem]

theorem createModem_queue {q : PseudoModemQ} {t : String} : (q.createModem t).queue = q.queue := by
  unfold PseudoModemQ.createModem
  split <;> rfl

/-- A modem goes from one place to another, and is in one more only when it is added. -/
theorem step_places (hok : Routable s a) (hs : step s a = some (s', es)) (modem : String) :
    s'.places modem = s.places modem + (es.filterMap PoolSeen.addedModem).count modem := by
  cases a with
  | createModem t =>
    cases hs
    simp [places, createModem_queue]
  | addModem t =>
    cases hs
    unfold PseudoModemQ.enqueueToken
    split
    next =>
      simp only [places, PseudoModemQ.enqueue, List.count_append, if_true, List.filterMap_cons,
        PoolSeen.addedModem, List.filterMap_nil]
      omega
    next => simp [PoolSeen.addedModem, places, List.filterMap_cons]
  | dial t =>
    have ht := @take_count s.pmodem_pool (· == t) modem
    dsimp only [step, PseudoModemQ.dequeue] at hs
    split at hs
    next pool hp =>
      rw [hp] at ht
      cases hs
      simp [places, PoolSeen.addedModem, List.filterMap_cons, ht]
    next pool m hp =>
      rw [hp] at ht
      cases hs
      simp only [places, ht, Dial.inHand, List.filterMap_cons, if_true, List.count_cons, Option.toList_some,
        List.filterMap_nil, List.count_nil]
      omega
  | makeDialed d t =>
    obtain ⟨⟨hd, hm, -⟩, he⟩ := Option.ite_none_right_eq_some.mp hs
    cases he
    have hc := count_filterMap_erase (f := Dial.inHand) hd modem
    simp only [places, List.filterMap_cons, Dial.inHand, hm, if_true, Option.toList_some, List.count_cons,
      List.count_nil] at hc ⊢
    simp only [reduceCtorEq, if_false, List.filterMap_nil, List.count_nil]
    omega
  | makeConnection t =>
    obtain ⟨-, he⟩ := Option.ite_none_right_eq_some.mp hs
    cases he
    simp [places]
  | setUpReturns d x =>
    obtain ⟨hd, he⟩ := Option.ite_none_right_eq_some.mp hs
    obtain ⟨hp, hn⟩ := @dialed_places { s with dials := s.dials.erase d } modem d x hok
    have hc := count_filterMap_erase (f := Dial.inHand) hd modem
    cases hx : ({ s with dials := s.dials.erase d } : ModemEndPoint).dialed d x with
    | mk s₁ es₁ =>
      rw [hx] at he hp hn
      cases he
      rw [hp, hn]
      simp only [places, hc, List.count_nil]
      omega
  | setUpConnection t other ready =>
    obtain ⟨-, he⟩ := Option.ite_none_left_eq_some.mp hs
    split at he
    next =>
      cases he
      simp [PoolSeen.addedModem, List.filterMap_cons]
    next =>
      have ht := @take_count s.pmodem_pool (· ∈ ready) modem
      dsimp only [PseudoModemQ.dequeueWithRoute] at he
      split at he
      next pool hp =>
        rw [hp] at ht
        cases he
        simp [places, PoolSeen.addedModem, List.filterMap_cons, ht]
      next pool m hp =>
        rw [hp] at ht
        cases he
        simp only [places, ht, List.map_cons, List.count_cons, Option.toList_some, List.filterMap_nil, List.count_nil]
        omega
  | attach t m confirm =>
    obtain ⟨hm, he⟩ := Option.ite_none_right_eq_some.mp hs
    have hp := ((List.perm_cons_erase hm).map (·.2)).count_eq modem
    dsimp only at he
    split at he
    next => cases he
    next c hc =>
      split at he
      next =>
        cases he
        rw [pmFree_places]
        simp only [places, hp, List.map_cons, List.count_cons, Option.toList_some, List.count_nil,
          List.filterMap_cons, PoolSeen.addedModem, List.filterMap_nil]
        omega
      next hn =>
        cases he
        have hmem : c ∈ s.connections := connection_mem (s := { s with settingUp := s.settingUp.erase (t, m) }) hc
        have hcount := count_filterMap_erase (f := fun c : ModemConnection => c.pmodem) hmem modem
        rw [not_not.mp hn] at hcount
        simp only [places, hp, hcount, List.map_cons, List.count_cons, Option.toList_none, List.count_nil,
          List.filterMap_cons, PoolSeen.addedModem, List.filterMap_nil]
        omega
  | destroy t =>
    obtain ⟨-, he⟩ := Option.ite_none_left_eq_some.mp hs
    split at he
    next => cases he
    next c hc =>
      cases he
      have hcount := count_filterMap_erase (f := fun c : ModemConnection => c.pmodem) (connection_mem hc) modem
      rw [pmFree_places]
      simp only [places, hcount, List.filterMap_nil, List.count_nil]
      omega

/-- A dial whose connection gets no call leaves its modem in two places. -/
theorem unroutable_places {d : Dial} {x : SetUpAnswers} (hok : ¬Routable s (.setUpReturns d x))
    (hs : step s (.setUpReturns d x) = some (s', es)) : s'.places d.modem = s.places d.modem + 1 := by
  obtain ⟨hm, hr⟩ := Classical.not_imp.mp hok
  obtain ⟨hd, he⟩ := Option.ite_none_right_eq_some.mp hs
  have hfree : ({ s with dials := s.dials.erase d } : ModemEndPoint).dialed d x =
      (({ s with dials := s.dials.erase d } : ModemEndPoint).pmFree (some d.modem), [.dialed d.modem none]) := by
    obtain ⟨token, ht⟩ := Option.ne_none_iff_exists'.mp hm
    unfold dialed SetUpAnswers.setUpCall
    rw [ht]
    dsimp only
    by_cases hset : x.setUpConnection = true
    · have hc : ¬x.getConnection = true := fun hc => hr ⟨hset, hc⟩
      rw [if_pos hset, if_neg hc]
    · rw [if_neg hset]
  rw [hfree] at he
  cases he
  have hc := count_filterMap_erase (f := Dial.inHand) hd d.modem
  rw [pmFree_places]
  simp only [Dial.inHand, if_neg hm, Option.toList_none, Option.toList_some, List.count_nil,
    List.count_singleton_self, places] at hc ⊢
  omega

theorem run_places (h : machine.Run Routable {} as es s) (modem : String) :
    s.places modem = (es.filterMap PoolSeen.addedModem).count modem := by
  refine h.invariant (I := fun es s => s.places modem = (es.filterMap PoolSeen.addedModem).count modem) rfl ?_
  intro es s a s' es' ih hok hs
  rw [step_places hok hs, ih, List.filterMap_append, List.count_append]

/-- A modem that is in one place is free, or in one call, or between the two. -/
theorem exclusive_of_places (h : ∀ modem, s.places modem = (es.filterMap PoolSeen.addedModem).count modem)
    (hn : (es.filterMap PoolSeen.addedModem).Nodup) : PoolExclusive es s := by
  have one : ∀ modem, s.places modem ≤ 1 := fun modem => h modem ▸ List.nodup_iff_count_le_one.mp hn modem
  have held : ∀ modem, ∀ c ∈ s.connections, c.pmodem = some modem →
      0 < (s.connections.filterMap (·.pmodem)).count modem := fun modem c hc hm =>
    List.count_pos_iff.mpr (List.mem_filterMap.mpr ⟨c, hc, hm⟩)
  refine ⟨?_, fun modem hq c hc hm => ?_, fun modem ha => ?_, ?_⟩
  · refine List.nodup_iff_count_le_one.mpr fun modem => ?_
    have := one modem
    unfold places at this
    omega
  · have hp := one modem
    have hq := List.count_pos_iff.mpr hq
    have hc := held modem c hc hm
    unfold places at hp
    omega
  · have hp : 0 < s.places modem := by
      rw [h]
      exact List.count_pos_iff.mpr (List.mem_filterMap.mpr ⟨_, ha, rfl⟩)
    unfold places at hp
    rcases Nat.eq_zero_or_pos (s.pmodem_pool.queue.count modem) with hq | hq
    · rcases Nat.eq_zero_or_pos ((s.connections.filterMap (·.pmodem)).count modem) with hc | hc
      · rcases Nat.eq_zero_or_pos ((s.dials.filterMap Dial.inHand).count modem) with hd | hd
        · obtain ⟨⟨token, m⟩, hm, rfl⟩ := List.mem_map.mp
            (List.count_pos_iff.mp (show 0 < (s.settingUp.map (·.2)).count modem by omega))
          exact .inr (.inr (.inr ⟨token, hm⟩))
        · obtain ⟨⟨m, made⟩, hm, he⟩ := List.mem_filterMap.mp (List.count_pos_iff.mp hd)
          obtain ⟨rfl, he⟩ := Option.ite_none_right_eq_some.mp he
          cases he
          exact .inr (.inr (.inl hm))
      · obtain ⟨c, hm, he⟩ := List.mem_filterMap.mp (List.count_pos_iff.mp hc)
        exact .inr (.inl ⟨c, hm, he⟩)
    · exact .inl (List.count_pos_iff.mp hq)
  · have hnodup : (s.connections.filterMap (·.pmodem)).Nodup := by
      refine List.nodup_iff_count_le_one.mpr fun modem => ?_
      have := one modem
      unfold places at this
      omega
    refine (List.pairwise_filterMap.mp hnodup).imp fun hcc modem hm hm' => ?_
    exact hcc modem hm modem hm' rfl

/-- While every dial that makes a connection gets its call, the modems that were added once are never
shared and never lost. -/
theorem run_poolExclusive (h : machine.Run Routable {} as es s) (hn : (es.filterMap PoolSeen.addedModem).Nodup) :
    PoolExclusive es s :=
  exclusive_of_places (run_places h) hn

instance (s : ModemEndPoint) (a : PoolAct) : Decidable (Routable s a) :=
  match a with
  | .setUpReturns .. => inferInstanceAs (Decidable (_ → _))
  | .createModem _ | .addModem _ | .dial _ | .makeDialed .. | .makeConnection _ | .setUpConnection .. | .attach ..
  | .destroy _ => .isTrue trivial

def twoModems : List PoolAct :=
  [.createModem "ttyx0", .createModem "ttyx1", .addModem "ttyx0", .addModem "ttyx1"]

/-- A routed dial, a call from elsewhere that the other modem refuses, one that finds no modem, and
their ends. -/
def routed : List PoolAct :=
  twoModems ++ [.dial "ttyx0", .makeDialed ⟨"ttyx0", none⟩ 0, .makeConnection 1, .setUpConnection 1 true ["ttyx1"],
    .setUpReturns ⟨"ttyx0", some 0⟩ ⟨true, true, true⟩, .attach 1 "ttyx1" false, .makeConnection 2,
    .setUpConnection 2 true ["ttyx1"], .destroy 1, .destroy 2, .destroy 0]

theorem routed_poolExclusive : ∃ es s, machine.Run Routable {} routed es s ∧ PoolExclusive es s := by
  obtain ⟨s, hr⟩ : ∃ s, machine.Run Routable {} routed
      [.added "ttyx0", .added "ttyx1", .dialed "ttyx0" (some 0), .setUp 1 false, .setUp 2 false] s :=
    Machine.exec_run (by decide +kernel)
  exact ⟨_, s, hr, run_poolExclusive hr (by decide)⟩

/-- A dial that is not routed: the callback gives the modem back, and so does the connection. -/
def unrouted : List PoolAct :=
  [.createModem "ttyx0", .addModem "ttyx0", .dial "ttyx0", .makeDialed ⟨"ttyx0", none⟩ 0,
    .setUpReturns ⟨"ttyx0", some 0⟩ ⟨false, false, false⟩, .destroy 0]

theorem unrouted_twice : ¬∀ as es s, machine.Run (fun _ _ => True) {} as es s →
    (es.filterMap PoolSeen.addedModem).Nodup → PoolExclusive es s := by
  intro h
  have hx : machine.exec (fun _ _ => True) {} unrouted =
      some (⟨⟨["ttyx0"], ["ttyx0", "ttyx0"]⟩, [], [], []⟩, [.added "ttyx0", .dialed "ttyx0" none]) := by
    decide +kernel
  have hp := h _ _ _ (Machine.run_of_exec hx) (by decide)
  exact absurd hp.once (by decide)

end ModemEndPoint

end T38Modem
