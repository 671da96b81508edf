import T38Modem.CallSafety

namespace T38Modem

open ModemEngineBody

def BodyPc.isDialing : BodyPc → Bool
  | .dialing _ => true
  | _ => false

def BodyPc.isClearing : BodyPc → Bool
  | .clearing _ => true
  | _ => false

/-- The modem beside the calls of the endpoint: the one that is live, and the one that was made in the
callback of the dial that is going on. -/
structure LiveModem extends Modem where
  live : Option String := none
  made : Option String := none

inductive LiveAct where
  | modem (act : ModemAct)
  /-- The endpoint makes the call that it is asked for. -/
  | newCall (token : String)

namespace LiveModem

/-- The live call when a request, or the end of a callback, has come to the modem. -/
def settle (l : LiveModem) : ModemAct → Option String
  | .request a (.call token) => if (l.body.request a (.call token)).2 then some token else l.live
  | .request _ (.clearcall token _) => if l.live = some token then none else l.live
  | .resume _ none => if l.pc.isDialing then none else l.live
  | _ => l.live

/-- The call made for the dial that is going on. -/
def stillMade (l : LiveModem) : ModemAct → Option String
  | .resume .. => none
  | _ => l.made

def step (l : LiveModem) : LiveAct → Option (LiveModem × List ModemSeen)
  | .modem act => (l.toModem.step act).map fun r =>
    ({ toModem := r.1, live := if r.1.pc.isClearing then none else l.settle act, made := l.stillMade act }, r.2)
  | .newCall token =>
    if l.pc.isDialing ∧ l.made = none then some ({ l with live := some token, made := some token }, []) else none

def machine : Machine LiveModem LiveAct ModemSeen := ⟨step⟩

/-- What the endpoint does: its calls have names, and a dial that it confirms has made a call. -/
def Proper (l : LiveModem) : LiveAct → Prop
  | .modem (.request _ r) => r.token ≠ ""
  | .modem (.resume _ (some token)) => l.pc.isDialing = true → l.made = some token
  | .newCall token => token ≠ ""
  | _ => True

/-- The token of the modem is asked for. -/
def heard (b : ModemEngineBody) : Request → Bool
  | .call _ => false
  | .alerting _ => b.callState = .cstDialing && b.off_hook
  | .established _ =>
    (b.callState = .cstDialing || b.callState = .cstAlerted || b.callState = .cstAnswering) && b.off_hook
  | .clearcall .. => b.callState != .cstCleared && b.callState != .cstReleasing

/-- A dial is confirmed before its call is cleared, and while the modem has no token only the live call
is asked about. -/
def InTime (l : LiveModem) : LiveAct → Prop
  | .modem (.request _ r) => l.body.callToken = "" → heard l.body r = true → l.live = some r.token
  | .modem (.resume _ (some _)) =>
    l.pc.isDialing = true → l.body.callState ≠ .cstCleared ∧ l.body.callState ≠ .cstReleasing
  | _ => True

/-- The token is that of the live call, and only that call is listened to. -/
structure TokenLive (l : LiveModem) : Prop where
  cleared : l.body.callState = .cstCleared → l.body.callToken = ""
  live : l.body.callToken ≠ "" → l.live = some l.body.callToken
  own : ∀ r : Request, l.live = some r.token → l.body.inUseBy r.token = true
  strangers : ∀ a r, l.pc = .idle ∨ InTime l (.modem (.request a r)) → (∀ token, r ≠ .call token) →
    l.live ≠ some r.token → l.body.request a r = (l.body, false)

/-- What is said of the token when `live` is the live call. -/
def tokenRule (live : Option String) : TokenRule where
  hung c token := (token ≠ "" → live = some token) ∧ (c = .cstCleared ∨ c = .cstReleasing → token = "")
  calm c token := (token ≠ "" → live = some token) ∧ (c = .cstCleared ∨ c = .cstReleasing ↔ token = "")
  dialing _ token := token = ""
  hang h := ⟨h.1, h.2.mp⟩
  giveUp h := ⟨fun hn => absurd h hn, fun _ => h⟩
  cleared := ⟨fun hn => absurd rfl hn, by simp⟩
  stays h := ⟨h.1, ⟨h.2, fun _ => .inl rfl⟩⟩
  answer h := by simpa using h
  dial h := h.2.mp (.inl rfl)

variable {a : Answers} {b : ModemEngineBody} {r : Request} {l l' : LiveModem} {act : LiveAct} {as : List LiveAct}
  {es : List ModemSeen} {live : Option String} {pc : BodyPc}

theorem needAudio_call : (b.needAudio a).callState = b.callState ∧ (b.needAudio a).callToken = b.callToken :=
  have hq := (needAudio_quiet (a := a) (b := b)).same
  ⟨congrArg CallLine.callState hq, congrArg CallLine.callToken hq⟩

theorem cleared_or_releasing : (b.beginClear a).endClear.callState = .cstCleared ∨
    (b.beginClear a).endClear.callState = .cstReleasing := by
  have hr : (b.beginClear a).callState = .cstReleasing := by
    have := congrArg CallLine.callState (beginClear_quiet (a := a) (b := b)).same
    simpa [line] using this
  unfold endClear
  dsimp only
  split
  next => exact .inl rfl
  next => exact .inr hr

theorem clear_token : (b.beginClear a).endClear.callToken = b.callToken := by
  have ht : (b.beginClear a).callToken = b.callToken := by
    have := congrArg CallLine.callToken (beginClear_quiet (a := a) (b := b)).same
    simpa [line] using this
  unfold endClear
  dsimp only
  split <;> exact ht

/-- What a request can do: nothing, bring a call, or what it asks for of the call of the modem. -/
theorem request_cases (a : Answers) (b : ModemEngineBody) (r : Request) :
    (b.request a r = (b, false) ∧ ¬(heard b r = true ∧ b.inUseBy r.token = true)) ∨
    (∃ token, r = .call token ∧ b.callState = .cstCleared ∧ b.off_hook = false ∧ (b.request a r).2 = true ∧
      (b.request a r).1.callState = .cstCalled ∧ (b.request a r).1.callToken = token) ∨
    (heard b r = true ∧ b.inUseBy r.token = true ∧
      ((∀ token next, r ≠ .call token ∧ r ≠ .clearcall token next) ∧ (b.request a r).1.callState ≠ .cstCleared ∧
          (b.request a r).1.callState ≠ .cstReleasing ∧ (b.request a r).1.callToken = b.callToken ∨
        (∃ token next, r = .clearcall token next) ∧ (b.request a r).1.callToken = "" ∧
          ((b.request a r).1.callState = .cstCleared ∨ (b.request a r).1.callState = .cstReleasing))) := by
  cases r with
  | call token =>
    dsimp only [request]
    split
    next => exact .inl ⟨rfl, nofun⟩
    next hn =>
      obtain ⟨hc, ho⟩ := not_or.mp hn
      exact .inr (.inl ⟨token, rfl, not_not.mp hc, by simpa using ho, rfl, rfl, rfl⟩)
  | alerting token =>
    dsimp only [request]
    split
    next hn => exact .inl ⟨rfl, fun h => by simp_all [heard]⟩
    next hn =>
      split
      next hu =>
        refine .inr (.inr ⟨by simpa [heard] using hn, hu, .inl ⟨fun _ _ => ⟨nofun, nofun⟩, ?_⟩⟩)
        split
        next =>
          dsimp only
          rw [needAudio_call.1, needAudio_call.2]
          exact ⟨nofun, nofun, rfl⟩
        next => exact ⟨nofun, nofun, rfl⟩
      next hu => exact .inl ⟨rfl, fun h => hu h.2⟩
  | established token =>
    dsimp only [request]
    split
    next hn => exact .inl ⟨rfl, fun h => by simp_all [heard]⟩
    next hn =>
      split
      next hu =>
        refine .inr (.inr ⟨?_, hu, .inl ⟨fun _ _ => ⟨nofun, nofun⟩, ?_⟩⟩)
        · dsimp only [heard]
          revert hn
          cases b.callState <;> cases b.off_hook <;> decide
        · split <;> exact ⟨nofun, nofun, rfl⟩
      next hu => exact .inl ⟨rfl, fun h => hu h.2⟩
  | clearcall token next =>
    dsimp only [request]
    split
    next hn => exact .inl ⟨rfl, fun h => by simp_all [heard]⟩
    next hn =>
      split
      next hu =>
        refine .inr (.inr ⟨by simpa [heard] using hn, hu, .inr ⟨⟨token, next, rfl⟩, ?_⟩⟩)
        split
        next => exact ⟨rfl, .inl rfl⟩
        next => exact ⟨clear_token, cleared_or_releasing⟩
      next hu => exact .inl ⟨rfl, fun h => hu h.2⟩

theorem holds_token (h : b.Holds (tokenRule live) pc) :
    (b.callToken ≠ "" → live = some b.callToken) ∧
      (b.callState = .cstCleared ∨ b.callState = .cstReleasing → b.callToken = "") := by
  have hno : b.callToken = "" → (b.callToken ≠ "" → live = some b.callToken) ∧
      (b.callState = .cstCleared ∨ b.callState = .cstReleasing → b.callToken = "") :=
    fun h => ⟨fun hn => absurd h hn, fun _ => h⟩
  cases pc with
  | idle | handling | sending | requestingMode | delaying =>
    have ht := CallLine.Calm.token h
    exact ⟨ht.1, ht.2.mp⟩
  | answering => exact ⟨h.1.token.1, h.1.token.2.mp⟩
  | detaching => exact CallLine.Hung.token h
  | clearing => exact hno (CallLine.Clearing.token h)
  | dialing => exact hno (CallLine.Calling.token h)

section TokenRule

variable {live' : Option String} {c c' : CallState} {token : String}

theorem tokenRule_at_relive (h : (tokenRule live).at pc c token) (hl : token ≠ "" → live' = some token) :
    (tokenRule live').at pc c token := by
  cases pc with
  | idle | handling | sending | requestingMode | delaying | answering => exact ⟨hl, h.2⟩
  | detaching => exact ⟨hl, h.2⟩
  | clearing => trivial
  | dialing => exact h

theorem tokenRule_at_cleared (hc : c = .cstCleared ∨ c = .cstReleasing) : (tokenRule live).at pc c "" := by
  cases pc with
  | idle | handling | sending | requestingMode | delaying | answering => exact ⟨fun hn => absurd rfl hn, by simp [hc]⟩
  | detaching => exact ⟨fun hn => absurd rfl hn, fun _ => rfl⟩
  | clearing => trivial
  | dialing => rfl

theorem tokenRule_at_going (h : (tokenRule live).at pc c token) (hc : ¬(c = .cstCleared ∨ c = .cstReleasing))
    (hc' : ¬(c' = .cstCleared ∨ c' = .cstReleasing)) : (tokenRule live).at pc c' token := by
  cases pc with
  | idle | handling | sending | requestingMode | delaying | answering =>
    exact ⟨h.1, (iff_of_false hc' fun ht => hc (h.2.mpr ht))⟩
  | detaching => exact ⟨h.1, fun hd => absurd hd hc'⟩
  | clearing => trivial
  | dialing => exact h

end TokenRule

theorem holds_at {R : TokenRule} (h : b.Holds R pc) : R.at pc b.callState b.callToken := by
  cases pc with
  | idle | handling | sending | requestingMode | delaying => exact CallLine.Calm.token h
  | answering => exact h.1.token
  | detaching => exact CallLine.Hung.token h
  | clearing => trivial
  | dialing => exact CallLine.Calling.token h

theorem heard_going (hh : heard b r = true) : ¬(b.callState = .cstCleared ∨ b.callState = .cstReleasing) := by
  rintro (hc | hc) <;> cases r <;> simp [heard, hc] at hh

theorem inUseBy_eq {token : String} (hn : b.callToken ≠ "") : b.inUseBy token = true ↔ b.callToken = token := by
  simp [inUseBy, hn]

theorem settle_of_other (hne : ∀ token next, r ≠ .call token ∧ r ≠ .clearcall token next) :
    l.settle (.request a r) = l.live := by
  cases r with
  | call token => exact absurd rfl (hne token true).1
  | clearcall token next => exact absurd rfl (hne token next).2
  | _ => rfl

/-- A request keeps the rule, for the call that is live afterwards. -/
theorem request_token {m : Modem} (h : m.body.Holds (tokenRule live) m.pc) (hn : r.token ≠ "") :
    (tokenRule (settle { toModem := m, live } (.request a r))).at m.pc (m.body.request a r).1.callState
      (m.body.request a r).1.callToken := by
  obtain ⟨hown, hcl⟩ := holds_token h
  rcases request_cases a m.body r with ⟨hs, hno⟩ | ⟨token, rfl, hc, ho, hr, hc', ht'⟩ |
    ⟨hh, hu, ⟨hne, hc1, hc2, ht'⟩ | ⟨⟨token, next, rfl⟩, ht', hc'⟩⟩
  · rw [hs]
    refine tokenRule_at_relive (holds_at h) fun ht => ?_
    cases r with
    | call token =>
      simp only [settle, hs]
      exact hown ht
    | alerting token => exact hown ht
    | established token => exact hown ht
    | clearcall token next =>
      -- the call of the modem would have been heard
      dsimp only [settle]
      split
      next hl =>
        have he : m.body.callToken = token := Option.some.inj ((hown ht).symm.trans hl)
        refine absurd ⟨?_, (inUseBy_eq ht).mpr he⟩ hno
        have hgo : ¬(m.body.callState = .cstCleared ∨ m.body.callState = .cstReleasing) := fun hd => ht (hcl hd)
        simpa [heard, not_or] using hgo
      next => exact hown ht
  · rw [hc', ht']
    simp only [settle, hr, if_true]
    cases hpc : m.pc with
    | idle | handling | sending | requestingMode | delaying | answering =>
      exact ⟨fun _ => rfl, iff_of_false (by simp) hn⟩
    | detaching => exact ⟨fun _ => rfl, by simp⟩
    | clearing => trivial
    | dialing =>
      rw [hpc] at h
      exact absurd (ho.symm.trans (CallLine.Calling.offHook h)) nofun
  · rw [ht']
    rw [settle_of_other hne]
    exact tokenRule_at_going (holds_at h) (heard_going hh) (by simp [hc1, hc2])
  · rw [ht']
    exact tokenRule_at_cleared hc'

/-- The invariant: the token rule, and that the call made for a dial is live until it is cleared. -/
structure Kept (l : LiveModem) : Prop where
  holds : l.body.Holds (tokenRule l.live) l.pc
  none : l.pc.isDialing = false → l.made = none
  named : l.made ≠ some ""
  made : l.body.callState ≠ .cstCleared → l.body.callState ≠ .cstReleasing → ∀ token, l.made = some token →
    l.live = some token

theorem Holds.isClearing {R R' : TokenRule} (hc : pc.isClearing = true) (h : b.Holds R pc) : b.Holds R' pc := by
  cases pc with
  | clearing => exact h
  | _ => cases hc

theorem Holds.isDialing {live' : Option String} (hd : pc.isDialing = true) (h : b.Holds (tokenRule live) pc) :
    b.Holds (tokenRule live') pc := by
  cases pc with
  | dialing => exact ⟨h.toRest, h.offHook, h.token⟩
  | _ => cases hd

/-- A step of the modem keeps the rule, but for the modem's own clearing of the call. -/
theorem step_settled {act : ModemAct} {m' : Modem} (h : Kept l) (hp : Proper l (.modem act)) (ht : InTime l (.modem act))
    (hs : Modem.machine.step l.toModem act = some (m', es)) : m'.body.Holds (tokenRule (l.settle act)) m'.pc := by
  have hh := h.holds
  cases act with
  | request a r =>
    cases hs
    exact request_holds hp hh (request_token hh hp)
  | resume a reply =>
    cases reply with
    | none =>
      dsimp only [settle]
      split
      next hd => exact Modem.step_holds hs (Holds.isDialing hd hh) trivial trivial
      next => exact Modem.step_holds hs hh trivial trivial
    | some token =>
      refine Modem.step_holds hs hh trivial fun resp hpc => ?_
      have hd : l.pc.isDialing = true := by rw [hpc]; rfl
      have hmade := hp hd
      obtain ⟨hc, hr⟩ := ht hd
      refine ⟨fun _ => h.made hc hr token hmade, iff_of_false (by simp [hc, hr]) fun htok => ?_⟩
      exact h.named (htok ▸ hmade)
  | _ => exact Modem.step_holds hs hh trivial trivial

theorem made_of_stillMade {act : ModemAct} {token : String} (h : l.stillMade act = some token) :
    l.made = some token := by
  cases act with
  | resume => cases h
  | _ => exact h

/-- While the callback of a dial goes on the modem's thread does nothing. -/
theorem step_dialing {act : ModemAct} {m' : Modem} (hd : l.pc.isDialing = true)
    (hs : Modem.machine.step l.toModem act = some (m', es)) :
    (∃ a reply, act = .resume a reply) ∨ m'.pc = l.pc ∧ ((∃ a r, act = .request a r ∧ m'.body = (l.body.request a r).1) ∨
      m'.body.callState = l.body.callState ∧ l.settle act = l.live) := by
  have hidle : l.pc ≠ .idle := by
    intro he
    rw [he] at hd
    cases hd
  cases act with
  | command a c => simp [Modem.machine, Modem.step, hidle] at hs
  | handleData bs => simp [Modem.machine, Modem.step, hidle] at hs
  | checkState a => simp [Modem.machine, Modem.step, hidle] at hs
  | resume a reply => exact .inl ⟨a, reply, rfl⟩
  | request a r =>
    cases hs
    exact .inr ⟨rfl, .inl ⟨a, r, rfl, rfl⟩⟩
  | newPtrEngine a mce =>
    cases hs
    exact .inr ⟨rfl, .inr ⟨congrArg CallLine.callState (attachEngine_quiet mce).same, rfl⟩⟩
  | onOutBufEmpty =>
    cases hs
    exact .inr ⟨rfl, .inr ⟨congrArg CallLine.callState onOutBufEmpty_quiet.same, rfl⟩⟩
  | onSeq =>
    cases hs
    exact .inr ⟨rfl, .inr ⟨congrArg CallLine.callState onSeq_quiet.same, rfl⟩⟩
  | onTimeout timer =>
    cases timer <;> (cases hs; exact .inr ⟨rfl, .inr ⟨rfl, rfl⟩⟩)

/-- A request in the callback of a dial that leaves the call alive leaves it the live one. -/
theorem request_made (h : Kept l) (hd : l.pc.isDialing = true) {token : String} (hm : l.made = some token)
    (hc : (l.body.request a r).1.callState ≠ .cstCleared) (hr : (l.body.request a r).1.callState ≠ .cstReleasing) :
    l.settle (.request a r) = some token := by
  obtain ⟨m, live, made⟩ := l
  have hpc : ∃ resp, m.pc = .dialing resp := by
    cases he : m.pc with
    | dialing resp => exact ⟨resp, rfl⟩
    | _ => simp [he, BodyPc.isDialing] at hd
  obtain ⟨resp, hpc⟩ := hpc
  have hdial : CallLine.Calling (tokenRule live) m.body.line := by
    have hh := h.holds
    rw [hpc] at hh
    exact hh
  rcases request_cases a m.body r with ⟨hs, hno⟩ | ⟨_, rfl, -, ho, -⟩ |
    ⟨hh, -, ⟨hne, -⟩ | ⟨-, -, hc' | hc'⟩⟩
  · rw [hs] at hc hr
    have hlive : live = some token := h.made hc hr token hm
    cases r with
    | call t => simpa [settle, hs] using hlive
    | alerting t => exact hlive
    | established t => exact hlive
    | clearcall t next =>
      -- there is no token yet that could be another one
      have hu : m.body.inUseBy t = true := by
        have ht : m.body.callToken = "" := hdial.token
        simp [inUseBy, ht]
      refine absurd ⟨?_, hu⟩ hno
      simpa [heard] using ⟨hc, hr⟩
  · exact absurd (ho.symm.trans hdial.offHook) nofun
  · rw [settle_of_other hne]
    have hgo := not_or.mp (heard_going hh)
    exact h.made hgo.1 hgo.2 token hm
  · exact absurd hc' hc
  · exact absurd hc' hr

theorem step_kept (h : Kept l) (hp : Proper l act) (ht : InTime l act) (hs : machine.step l act = some (l', es)) :
    Kept l' := by
  cases act with
  | newCall token =>
    simp only [machine, step, Option.ite_none_right_eq_some, Option.some.injEq, Prod.mk.injEq] at hs
    obtain ⟨⟨hd, -⟩, rfl, -⟩ := hs
    refine ⟨Holds.isDialing hd h.holds, fun hn => absurd (hd.symm.trans hn) nofun, fun hn => ?_, fun _ _ _ hm => hm⟩
    exact hp (Option.some.inj hn)
  | modem act =>
    obtain ⟨⟨m', seen⟩, hm, he⟩ := Option.map_eq_some_iff.mp hs
    cases he
    have hset := step_settled h hp ht hm
    refine ⟨?_, ?_, ?_, ?_⟩
    · dsimp only
      split
      next hc => exact Holds.isClearing hc hset
      next => exact hset
    · intro hn
      cases hd : l.pc.isDialing with
      | false =>
        have hnone := h.none hd
        cases hmade : l.stillMade act with
        | none => rfl
        | some token => exact absurd (hnone.symm.trans (made_of_stillMade hmade)) nofun
      | true =>
        rcases step_dialing hd hm with ⟨a, reply, rfl⟩ | ⟨hpc, -⟩
        · rfl
        · exact absurd ((hpc ▸ hn).symm.trans hd) nofun
    · exact fun hn => h.named (made_of_stillMade hn)
    · intro hc hr token hmade
      have hmade' := made_of_stillMade hmade
      have hd : l.pc.isDialing = true := by
        by_contra hd
        exact absurd ((h.none (by simpa using hd)).symm.trans hmade') nofun
      rcases step_dialing hd hm with ⟨a, reply, rfl⟩ | ⟨hpc, hcase⟩
      · cases hmade
      · have hn : m'.pc.isClearing ≠ true := by
          rw [hpc]
          intro hcl
          cases he : l.pc with
          | clearing => simp [he, BodyPc.isDialing] at hd
          | _ => simp [he, BodyPc.isClearing] at hcl
        dsimp only
        rw [if_neg hn]
        rcases hcase with ⟨a, r, rfl, hb⟩ | ⟨hcs, hset⟩
        · dsimp only at hc hr
          rw [hb] at hc hr
          exact request_made h hd hmade' hc hr
        · rw [hset]
          exact h.made (hcs ▸ hc) (hcs ▸ hr) token hmade'

theorem Kept.tokenLive (h : Kept l) : TokenLive l := by
  obtain ⟨hown, hcl⟩ := holds_token h.holds
  refine ⟨fun hc => hcl (.inl hc), hown, fun r hl => ?_, fun a r hok hcall hl => ?_⟩
  · by_cases ht : l.body.callToken = ""
    · simp [inUseBy, ht]
    · exact (inUseBy_eq ht).mpr (Option.some.inj ((hown ht).symm.trans hl))
  · have hno : ¬(heard l.body r = true ∧ l.body.inUseBy r.token = true) := by
      rintro ⟨hh, hu⟩
      by_cases ht : l.body.callToken = ""
      · rcases hok with hpc | hin
        · have hc := CallLine.Calm.token (R := tokenRule l.live) (l := l.body.line) (by
            have hh := h.holds
            rw [hpc] at hh
            exact hh)
          exact heard_going hh (hc.2.mpr ht)
        · exact hl (hin ht hh)
      · have he := (inUseBy_eq ht).mp hu
        exact hl (he ▸ hown ht)
    rcases request_cases a l.body r with ⟨hs, -⟩ | ⟨token, hr, -⟩ | ⟨hh, hu, -⟩
    · exact hs
    · exact absurd hr (hcall token)
    · exact absurd ⟨hh, hu⟩ hno

/-- In a run in which every dial is confirmed in time, and only the live call is asked about while the
modem has no token, the token is always that of the live call. -/
theorem run_tokenLive (h : machine.Run (fun l act => Proper l act ∧ InTime l act) {} as es l) : TokenLive l := by
  refine Kept.tokenLive (h.state_invariant (I := Kept) ?_ ?_)
  · exact ⟨Modem.start_holds, fun _ => rfl, nofun, nofun⟩
  · exact fun _ _ _ _ hk hok hs => step_kept hk hok.1 hok.2 hs

instance (l : LiveModem) (act : LiveAct) : Decidable (Proper l act) :=
  match act with
  | .modem (.request _ r) => inferInstanceAs (Decidable (r.token ≠ ""))
  | .modem (.resume _ (some token)) => inferInstanceAs (Decidable (l.pc.isDialing = true → l.made = some token))
  | .newCall token => inferInstanceAs (Decidable (token ≠ ""))
  | .modem (.resume _ none) | .modem (.command ..) | .modem (.handleData _) | .modem (.checkState _)
  | .modem (.newPtrEngine ..) | .modem .onOutBufEmpty | .modem .onSeq | .modem (.onTimeout _) => .isTrue trivial

instance (l : LiveModem) (act : LiveAct) : Decidable (InTime l act) :=
  match act with
  | .modem (.request _ r) =>
    inferInstanceAs (Decidable (l.body.callToken = "" → heard l.body r = true → l.live = some r.token))
  | .modem (.resume _ (some _)) =>
    inferInstanceAs (Decidable
      (l.pc.isDialing = true → l.body.callState ≠ .cstCleared ∧ l.body.callState ≠ .cstReleasing))
  | .newCall _ | .modem (.resume _ none) | .modem (.command ..) | .modem (.handleData _) | .modem (.checkState _)
  | .modem (.newPtrEngine ..) | .modem .onOutBufEmpty | .modem .onSeq | .modem (.onTimeout _) => .isTrue trivial

def voiceDial : DialString := { err := false, semicolon := false, forceFax := false, tone := false }

/-- A call that fails after its dial was confirmed, and the next one. -/
def retried : List LiveAct :=
  [.modem (.command {} (.dial voiceDial)), .modem (.checkState {}), .newCall "T1", .modem (.resume {} (some "T1")),
    .modem (.request {} (.clearcall "T1" true)), .modem (.checkState {}), .newCall "T2",
    .modem (.request {} (.established "T2")), .modem (.resume {} (some "T2"))]

theorem retried_tokenLive :
    ∃ es l, machine.Run (fun l act => Proper l act ∧ InTime l act) {} retried es l ∧ TokenLive l := by
  obtain ⟨l, hr⟩ : ∃ l, machine.Run (fun l act => Proper l act ∧ InTime l act) {} retried
      [.out (.callback .dial), .response (.clearcall "T1" true) true, .out (.callback .dial),
        .response (.established "T2") true] l := Machine.exec_run (by decide +kernel)
  exact ⟨_, l, hr, run_tokenLive hr⟩

/-- A call that fails before its dial is confirmed. -/
def outrun : List LiveAct :=
  [.modem (.command {} (.dial voiceDial)), .modem (.checkState {}), .newCall "T1",
    .modem (.request {} (.clearcall "T1" true)), .modem (.resume {} (some "T1"))]

/-- The token of the call that is over stays, and the next call is refused. -/
theorem outrun_stale :
    (∃ es l, machine.Run Proper {} outrun es l ∧ l.pc = .idle ∧ l.body.callState = .cstCleared ∧
      l.body.callToken = "T1" ∧ l.live = none) ∧
    ∃ l, machine.Run Proper {}
      (outrun ++ [.modem (.checkState {}), .newCall "T2", .modem (.request {} (.established "T2"))])
      [.out (.callback .dial), .response (.clearcall "T1" true) true, .out (.callback .dial),
        .response (.established "T2") false] l := by
  refine ⟨?_, Machine.exec_run (by decide +kernel)⟩
  have hx : (machine.exec Proper {} outrun).map
      (fun r => (r.1.pc, r.1.body.callState, r.1.body.callToken, r.1.live)) = some (.idle, .cstCleared, "T1", none) := by
    decide +kernel
  obtain ⟨⟨l, es⟩, hx, he⟩ := Option.map_eq_some_iff.mp hx
  simp only [Prod.mk.injEq] at he
  exact ⟨es, l, Machine.run_of_exec hx, he.1, he.2.1, he.2.2.1, he.2.2.2⟩

end LiveModem

end T38Modem
