import T38Modem.SenderSteps
import T38Modem.MachinePath

namespace T38Modem

namespace OutPc

def isBody : OutPc → Bool
  | .body _ => true
  | _ => false

/-- The steps the thread has to take until what it has made of its round is behind it. -/
def roundRank (pc : OutPc) : Nat :=
  if pc.idle then 0
  else
    match pc with
    | .calling .. => 3
    | .called .. => 2
    | _ => 1

/-- The steps it has to take from there to the body of `PreparePacket` when no delay is left. -/
def bodyRank : OutPc → Nat
  | .calling _ _ _ .wait => 10
  | .called _ .wait => 9
  | .wait _ => 8
  | .waiting _ _ _ => 7
  | .out => 6
  | .calling _ _ _ .begin => 5
  | .called _ .begin => 4
  | .begin => 3
  | .period _ => 2
  | .delay _ | .woken _ => 1
  | _ => 0

variable {hOwner : Owner} {e : T38Engine} {now : Int} {pc : OutPc}

theorem dataSwitch_rank (l : Locals) (count : Option (List Byte)) :
    (ofOutcome (e.dataSwitch now l count)).2.1.roundRank ≤ 1 := by
  unfold T38Engine.dataSwitch
  split
  · dsimp only
    split <;> simp [ofOutcome, roundRank, idle, pending]
  · split
    · simp [ofOutcome, roundRank, idle, pending]
    · split
      · simp [ofOutcome, roundRank, idle, pending]
      · split <;> simp [ofOutcome, roundRank, idle, pending]
  · dsimp only
    split <;> simp [ofOutcome, roundRank, idle, pending]

theorem Moves.round {r : T38Engine × OutPc × List Event} (hm : Moves e now pc r) (hi : pc.idle = false) :
    r.2.1.roundRank < pc.roundRank := by
  cases hm with
  | quiet _ _ _ _ hi' => simp [hi'] at hi
  | prepare l => cases hi
  | calls kind extra l after =>
    have hi' : (OutPc.called l after).idle = false := hi
    simp [roundRank, hi, hi']
  | @redo l l' after ha hr hp =>
    have hi' : (OutPc.leave l').idle = false := rfl
    simp [roundRank, hi, hi']
  | data l count =>
    have hr : (ofOutcome (e.dataSwitch now l count)).2.1.roundRank ≤ 1 := dataSwitch_rank l count
    have hcalled : roundRank (.called l (.data count)) = 2 := rfl
    omega
  | leaves l => simp [roundRank, idle, pending]
  | again hr => simp [roundRank, idle, pending]
  | packet hr => simp [roundRank, idle, pending]

/-- The thread does not wait for anything but the signal that it has got. -/
def Awake (e : T38Engine) (pc : OutPc) : Prop := 7 ≤ pc.bodyRank → e.outDataReady = true

theorem step_bodyRank (ho : e.lostOut hOwner = false) (hd : e.timeDelayEndOut ≤ now) (hw : Awake e pc)
    (hi : pc.idle = true) (hb : pc.isBody = false) :
    (pc.step hOwner e now).2.1.bodyRank < pc.bodyRank ∧ (pc.step hOwner e now).2.1.idle = true := by
  have hd' : e.timeDelayEndOut - now ≤ 0 := by omega
  cases pc with
  | out =>
    simp only [step, ho, Bool.false_eq_true, if_false]
    split
    · exact ⟨by simp [bodyRank], rfl⟩
    · exact ⟨by simp [bodyRank], rfl⟩
  | begin =>
    simp only [step]
    split
    · exact ⟨by simp [bodyRank], rfl⟩
    · exact ⟨by simp [bodyRank], rfl⟩
  | period l =>
    simp only [step, ho, Bool.false_eq_true, if_false]
    exact ⟨by simp [bodyRank], rfl⟩
  | delay l =>
    simp only [step, if_pos hd']
    split
    · exact ⟨by simp [bodyRank], rfl⟩
    · exact ⟨by simp [bodyRank], rfl⟩
  | body l => cases hb
  | calling kind extra l after =>
    cases after with
    | begin => exact ⟨by simp [step, bodyRank], rfl⟩
    | wait => exact ⟨by simp [step, bodyRank], rfl⟩
    | _ => cases hi
  | called l after =>
    simp only [step, ho, Bool.false_eq_true, if_false]
    cases after with
    | begin => exact ⟨by simp [resume, bodyRank], rfl⟩
    | wait => exact ⟨by simp [resume, bodyRank], rfl⟩
    | _ => cases hi
  | wait l =>
    simp only [step]
    split
    · split
      · exact ⟨by simp [bodyRank], rfl⟩
      · exact ⟨by simp [bodyRank], rfl⟩
    · split
      · split
        · exact ⟨by simp [bodyRank], rfl⟩
        · exact ⟨by simp [bodyRank], rfl⟩
      · exact ⟨by simp [bodyRank], rfl⟩
  | waiting l timeout fails =>
    have hready := hw (by simp [bodyRank])
    simp only [step, hready, if_true]
    exact ⟨by simp [bodyRank], rfl⟩
  | woken l =>
    simp only [step, ho, Bool.false_eq_true, if_false]
    exact ⟨by simp [bodyRank], rfl⟩
  | leave l => cases hi

/-- The thread waits for nothing but a signal that is there, unless the body makes it wait. -/
theorem step_awake (now : Int) (ho : e.lostOut hOwner = false) (hw : Awake e pc)
    (hb : pc.isBody = false) (hd : ∀ c, pc.pending ≠ .data c) : Awake (pc.step hOwner e now).1 (pc.step hOwner e now).2.1 := by
  have low {e' : T38Engine} {pc' : OutPc} (h : pc'.bodyRank < 7) : Awake e' pc' := fun h7 => by omega
  cases pc with
  | out =>
    simp only [step, ho, Bool.false_eq_true, if_false]
    split <;> exact low (by simp [bodyRank])
  | begin =>
    simp only [step]
    split <;> exact low (by simp [bodyRank])
  | period l =>
    simp only [step, ho, Bool.false_eq_true, if_false]
    exact low (by simp [bodyRank])
  | delay l =>
    simp only [step, ho, Bool.false_eq_true, if_false]
    split
    · split
      · exact low (by simp [bodyRank])
      · split <;> exact low (by simp [bodyRank])
    · exact low (by simp [bodyRank])
  | body l => cases hb
  | calling kind extra l after =>
    cases after with
    | wait => exact fun _ => hw (by simp [bodyRank])
    | _ => exact low (by simp [step, bodyRank])
  | called l after =>
    simp only [step, ho, Bool.false_eq_true, if_false]
    cases after with
    | wait => exact fun _ => hw (by simp [bodyRank])
    | data c => exact absurd rfl (hd c)
    | _ => exact low (by simp [resume, bodyRank])
  | wait l =>
    have hready := hw (by simp [bodyRank])
    simp only [step]
    split
    · split
      · exact fun _ => hready
      · exact fun _ => hready
    · split
      · split
        · exact fun _ => hready
        · exact fun _ => hready
      · exact fun _ => hready
  | waiting l timeout fails =>
    have hready := hw (by simp [bodyRank])
    simp only [step, hready, if_true]
    exact low (by simp [bodyRank])
  | woken l =>
    simp only [step, ho, Bool.false_eq_true, if_false]
    exact low (by simp [bodyRank])
  | leave l =>
    simp only [step]
    split <;> exact low (by simp [bodyRank])

theorem Moves.delay_same {r : T38Engine × OutPc × List Event} (hm : Moves e now pc r) (hi : pc.idle = true)
    (hb : pc.isBody = false) : r.1.timeDelayEndOut = e.timeDelayEndOut := by
  cases hm with
  | quiet => rfl
  | prepare l => cases hb
  | data l count => cases hi
  | again hr => cases hi
  | packet hr => cases hi
  | _ => rfl

theorem Moves.idle_of_idle {r : T38Engine × OutPc × List Event} (hm : Moves e now pc r) (hi : pc.idle = true)
    (hb : pc.isBody = false) : r.2.1.idle = true := by
  cases hm with
  | quiet _ _ _ _ _ hi' => exact hi'
  | prepare l => cases hb
  | calls kind extra l after => exact hi
  | redo ha => rcases ha with rfl | rfl <;> cases hi
  | data l count => cases hi
  | leaves l => cases hi
  | again hr => cases hi
  | packet hr => cases hi

end OutPc

namespace Sys

variable {s s' : Sys} {a : Act} {es : List Event}

theorem sendStart_delay (e : T38Engine) (dataType : DataType) (param : Int) :
    (e.sendStart dataType param).2.timeDelayEndOut = e.timeDelayEndOut := by
  unfold T38Engine.sendStart
  split
  · rfl
  · split
    · rfl
    · dsimp only
      split
      · split <;> rfl
      · split <;> rfl

/-- The other threads leave the thread in `PreparePacket` where it is. -/
theorem Steps.others (h : Steps s a s' es) (ha : a ≠ .out) :
    s'.out = s.out ∧ s'.e.timeDelayEndOut = s.e.timeDelayEndOut ∧ s.now ≤ s'.now := by
  cases h with
  | tick ms => exact ⟨rfl, rfl, by dsimp only; omega⟩
  | out => exact absurd rfl ha
  | setPreparePacketTimeout timeout period =>
    unfold T38Engine.setPreparePacketTimeout
    split <;> exact ⟨rfl, rfl, Int.le_refl _⟩
  | receives _ hr =>
    exact ⟨hr.out, congrArg (·.timeDelayEndOut) hr.engine.outSide, Int.le_of_eq hr.now.symm⟩
  | sendStart dataType param hm => exact ⟨rfl, sendStart_delay s.e dataType param, Int.le_refl _⟩
  | _ => exact ⟨rfl, rfl, Int.le_refl _⟩

theorem Steps.clock (h : Steps s a s' es) : s.now ≤ s'.now := by
  by_cases ha : a = .out
  · subst ha
    cases h with
    | out => exact Int.le_refl _
    | receives ha => cases ha
  · exact (h.others ha).2.2

/-- In an endless run the thread in `PreparePacket` runs again and again, and the clock goes on. -/
structure Lively {ok : Sys → Act → Prop} (p : Machine.Path machine ok) : Prop where
  often : p.Often (· = .out)
  time : ∀ t, ∃ n, t ≤ (p.state n).now

namespace Lively

variable {ok : Sys → Act → Prop} {p : Machine.Path machine ok} {n : Nat}

theorem steps (p : Machine.Path machine ok) (n : Nat) : Steps (p.state n) (p.act n) (p.state (n + 1)) (p.seen n) :=
  step_cases (p.next n)

theorem clock_mono (p : Machine.Path machine ok) {m : Nat} (h : n ≤ m) : (p.state n).now ≤ (p.state m).now := by
  induction h with
  | refl => exact Int.le_refl _
  | step _ ih => exact Int.le_trans ih (steps p _).clock

theorem roundRank_zero {pc : OutPc} (h : pc.roundRank = 0) : pc.idle = true := by
  unfold OutPc.roundRank at h
  split at h
  next hi => exact hi
  next => split at h <;> cases h

theorem out_moves {m : Nat} (att : (p.state m).Attached) (ha : p.act m = .out) :
    ∃ r, OutPc.Moves (p.state m).e (p.state m).now (p.state m).out r ∧
      r = (p.state m).out.step hOwnerOut (p.state m).e (p.state m).now ∧
      p.state (m + 1) = { p.state m with e := r.1, out := r.2.1 } ∧ p.seen m = r.2.2 := by
  have hs := steps p m
  rw [ha] at hs
  generalize p.state (m + 1) = s' at hs ⊢
  generalize p.seen m = es at hs ⊢
  cases hs with
  | @out r hr => exact ⟨r, hr ▸ att.moves, hr.symm, rfl, rfl⟩
  | receives ha => cases ha

/-- What the thread has in its hands comes out of them. -/
theorem idle_again (h : Lively p) (att : ∀ m, n ≤ m → (p.state m).Attached) :
    ∃ m, n ≤ m ∧ (p.state m).out.idle = true := by
  by_contra hne
  have busy : ∀ m, n ≤ m → (p.state m).out.idle = false := by
    intro m hm
    by_contra hi
    exact hne ⟨m, hm, by simpa using hi⟩
  have lower : ∀ m, n ≤ m → p.act m = .out →
      (p.state (m + 1)).out.roundRank < (p.state m).out.roundRank := by
    intro m hm ha
    obtain ⟨r, hmv, -, hs, -⟩ := out_moves (att m hm) ha
    rw [hs]
    exact hmv.round (busy m hm)
  have keep : ∀ m, n ≤ m → (p.state (m + 1)).out.roundRank ≤ (p.state m).out.roundRank := by
    intro m hm
    by_cases ha : p.act m = .out
    · exact Nat.le_of_lt (lower m hm ha)
    · exact Nat.le_of_eq (congrArg OutPc.roundRank ((steps p m).others ha).1)
  obtain ⟨m, hm, h0⟩ := p.descends (f := fun s => s.out.roundRank) h.often keep fun m hm ha _ => lower m hm ha
  exact hne ⟨m, hm, roundRank_zero h0⟩

theorem bodyRank_zero {pc : OutPc} (hi : pc.idle = true) (h : pc.bodyRank = 0) : pc.isBody = true := by
  cases pc with
  | body l => rfl
  | calling _ _ _ after =>
    cases after with
    | begin | wait => cases h
    | _ => cases hi
  | called _ after =>
    cases after with
    | begin | wait => cases h
    | _ => cases hi
  | leave l => cases hi
  | _ => cases h

/-- The body of `PreparePacket` is run again and again, however late it is. -/
theorem body_again (h : Lively p) (att : ∀ m, n ≤ m → (p.state m).Attached)
    (awake : ∀ m, n ≤ m → OutPc.Awake (p.state m).e (p.state m).out) (t : Int) :
    ∃ m, n ≤ m ∧ t ≤ (p.state m).now ∧ p.act m = .out ∧ (p.state m).out.isBody = true := by
  obtain ⟨n₁, hn₁⟩ := h.time t
  obtain ⟨n₂, hn₂, hidle⟩ := h.idle_again (n := max n n₁) fun m hm => att m (by omega)
  have late : ∀ m, n₂ ≤ m → t ≤ (p.state m).now := fun m hm =>
    Int.le_trans hn₁ (clock_mono p (by omega))
  by_contra hne
  have never : ∀ m, n₂ ≤ m → p.act m = .out → (p.state m).out.isBody = false := by
    intro m hm ha
    by_contra hb
    exact hne ⟨m, by omega, late m hm, ha, by simpa using hb⟩
  -- without the body the thread stays between its rounds, and the end of its delay stays where it is
  have still : ∀ m, n₂ ≤ m → (p.state m).out.idle = true ∧
      (p.state m).e.timeDelayEndOut = (p.state n₂).e.timeDelayEndOut := by
    intro m hm
    induction hm with
    | refl => exact ⟨hidle, rfl⟩
    | @step m hm ih =>
      have hm : n₂ ≤ m := hm
      by_cases ha : p.act m = .out
      · obtain ⟨r, hmv, -, hs, -⟩ := out_moves (att m (by omega)) ha
        rw [hs]
        have hb := never m hm ha
        exact ⟨hmv.idle_of_idle ih.1 hb, (hmv.delay_same ih.1 hb).trans ih.2⟩
      · obtain ⟨ho, hd, -⟩ := (steps p m).others ha
        rw [ho, hd]
        exact ih
  obtain ⟨n₃, hn₃⟩ := h.time (p.state n₂).e.timeDelayEndOut
  have lower : ∀ m, max n₂ n₃ ≤ m → p.act m = .out →
      (p.state (m + 1)).out.bodyRank < (p.state m).out.bodyRank := by
    intro m hm ha
    obtain ⟨r, -, hr, hs, -⟩ := out_moves (att m (by omega)) ha
    obtain ⟨hi, hd⟩ := still m (by omega)
    have hdelay : (p.state m).e.timeDelayEndOut ≤ (p.state m).now := by
      rw [hd]
      exact Int.le_trans hn₃ (clock_mono p (by omega))
    rw [hs, hr]
    exact (OutPc.step_bodyRank (att m (by omega)).lostOut hdelay (awake m (by omega)) hi
      (never m (by omega) ha)).1
  have keep : ∀ m, max n₂ n₃ ≤ m → (p.state (m + 1)).out.bodyRank ≤ (p.state m).out.bodyRank := by
    intro m hm
    by_cases ha : p.act m = .out
    · exact Nat.le_of_lt (lower m hm ha)
    · exact Nat.le_of_eq (congrArg OutPc.bodyRank ((steps p m).others ha).1)
  obtain ⟨m, hm, h0⟩ := p.descends (f := fun s => s.out.bodyRank) h.often keep fun m hm ha _ => lower m hm ha
  -- the thread is in front of the body, where the other threads leave it until it runs
  have front : ∀ k, m ≤ k → (p.state k).out.bodyRank = 0 := fun k hk =>
    Nat.le_zero.mp (h0 ▸ p.le_of_steps (f := fun s => s.out.bodyRank) (n := m) (fun i hi => keep i (by omega)) hk)
  obtain ⟨k, hk, ha⟩ := h.often m
  have hb := bodyRank_zero (still k (by omega)).1 (front k hk)
  exact absurd hb (by simp [never k (by omega) ha])

end Lively

end Sys

end T38Modem
