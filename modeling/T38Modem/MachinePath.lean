import T38Modem.Machine

namespace Machine

variable {σ α ε : Type*} {M : Machine σ α ε} {ok : σ → α → Prop}

/-- An endless run all of whose steps are allowed by `ok`. -/
structure Path (M : Machine σ α ε) (ok : σ → α → Prop) where
  state : Nat → σ
  act : Nat → α
  seen : Nat → List ε
  allowed : ∀ n, ok (state n) (act n)
  next : ∀ n, M.step (state n) (act n) = some (state (n + 1), seen n)

namespace Path

section

variable (act : Nat → α) (next : ∀ s n, ok s (act n) ∧ (M.step s (act n)).isSome = true) (s₀ : σ)

/-- The states of the machine that takes its actions as they come. -/
def follows : Nat → σ
  | 0 => s₀
  | n + 1 => ((M.step (follows n) (act n)).get (next (follows n) n).2).1

/-- The run of the machine that takes its actions as they come, where each is possible and allowed. -/
def follow : Path M ok where
  state := follows act next s₀
  act := act
  seen n := ((M.step (follows act next s₀ n) (act n)).get (next (follows act next s₀ n) n).2).2
  allowed n := (next _ n).1
  next _ := (Option.some_get _).symm

end

variable (p : Path M ok)

/-- A path whose steps meet another condition too. -/
def mono {good : σ → α → Prop} (h : ∀ s a, ok s a → good s a) : Path M good :=
  { p with allowed := fun n => h _ _ (p.allowed n) }

/-- The observations of the first `n` steps. -/
def events (n : Nat) : List ε := (List.range n).flatMap p.seen

theorem run (n : Nat) : Run M ok (p.state 0) ((List.range n).map p.act) (p.events n) (p.state n) := by
  induction n with
  | zero => exact .start
  | succ n ih =>
    have hs := Run.next ih (p.allowed n) (p.next n)
    simpa [events, List.range_succ] using hs

theorem events_succ (n : Nat) : p.events (n + 1) = p.events n ++ p.seen n := by
  simp [events, List.range_succ]

/-- What every allowed step keeps is kept for ever. -/
theorem holds {I : σ → Prop} (step : ∀ s a s' es, I s → ok s a → M.step s a = some (s', es) → I s')
    {n m : Nat} (hn : I (p.state n)) (hm : n ≤ m) : I (p.state m) := by
  induction hm with
  | refl => exact hn
  | step _ ih => exact step _ _ _ _ ih (p.allowed _) (p.next _)

/-- Some action of the kind `helpful` is taken again and again. -/
def Often (helpful : α → Prop) : Prop := ∀ n, ∃ m, n ≤ m ∧ helpful (p.act m)

theorem le_of_steps {f : σ → Nat} {n : Nat} (hle : ∀ m, n ≤ m → f (p.state (m + 1)) ≤ f (p.state m)) {m : Nat}
    (hm : n ≤ m) : f (p.state m) ≤ f (p.state n) := by
  induction hm with
  | refl => exact Nat.le_refl _
  | step hm ih => exact Nat.le_trans (hle _ hm) ih

/-- A measure that no step raises is not lowered again and again. -/
theorem not_lowered_often {f : σ → Nat} {n : Nat} (hle : ∀ m, n ≤ m → f (p.state (m + 1)) ≤ f (p.state m))
    (hlt : ∀ k, n ≤ k → ∃ m, k ≤ m ∧ f (p.state (m + 1)) < f (p.state m)) : False := by
  induction hk : f (p.state n) using Nat.strongRecOn generalizing n with
  | _ k ih =>
    obtain ⟨m, hm, hless⟩ := hlt n (Nat.le_refl n)
    have hmn := p.le_of_steps hle hm
    exact ih (f (p.state (m + 1))) (by omega) (fun i hi => hle i (by omega)) (fun i hi => hlt i (by omega)) rfl

/-- A measure that no step raises and every helpful step lowers comes down to zero. -/
theorem descends {helpful : α → Prop} (fair : p.Often helpful) {f : σ → Nat} {n : Nat}
    (hle : ∀ m, n ≤ m → f (p.state (m + 1)) ≤ f (p.state m))
    (hlt : ∀ m, n ≤ m → helpful (p.act m) → 0 < f (p.state m) → f (p.state (m + 1)) < f (p.state m)) :
    ∃ m, n ≤ m ∧ f (p.state m) = 0 := by
  induction hk : f (p.state n) using Nat.strongRecOn generalizing n with
  | _ k ih =>
    obtain ⟨m, hm, ha⟩ := fair n
    have hmn := p.le_of_steps hle hm
    by_cases h0 : f (p.state m) = 0
    · exact ⟨m, hm, h0⟩
    · have hless := hlt m hm ha (Nat.pos_of_ne_zero h0)
      obtain ⟨m', hm', h'⟩ := ih (f (p.state (m + 1))) (by omega) (fun i hi => hle i (by omega))
        (fun i hi => hlt i (by omega)) rfl
      exact ⟨m', by omega, h'⟩

end Path

end Machine
