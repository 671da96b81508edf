import Mathlib.Data.List.Basic
import Mathlib.Logic.Function.Basic

/-- A machine that takes one action at a time. A step may be impossible (`none`), and it reports
what an observer sees of it. -/
structure Machine (σ α ε : Type*) where
  step : σ → α → Option (σ × List ε)

namespace Machine

variable {σ α ε : Type*} {M : Machine σ α ε} {ok ok' : σ → α → Prop}

/-- Finite runs all of whose steps are allowed by `ok`, with their actions and observations. -/
inductive Run (M : Machine σ α ε) (ok : σ → α → Prop) (s₀ : σ) : List α → List ε → σ → Prop
  | start : Run M ok s₀ [] [] s₀
  | next {as es s a s' es'} : Run M ok s₀ as es s → ok s a → M.step s a = some (s', es') →
      Run M ok s₀ (as ++ [a]) (es ++ es') s'

/-- What holds at the start and is kept by every allowed step holds after every run. -/
theorem Run.invariant {s₀ s : σ} {as : List α} {es : List ε} {I : List ε → σ → Prop}
    (h : Run M ok s₀ as es s) (start : I [] s₀)
    (step : ∀ es s a s' es', I es s → ok s a → M.step s a = some (s', es') → I (es ++ es') s') :
    I es s := by
  induction h with
  | start => exact start
  | next _ hok hs ih => exact step _ _ _ _ _ ih hok hs

/-- The rule for invariants of the state alone. -/
theorem Run.state_invariant {s₀ s : σ} {as : List α} {es : List ε} {I : σ → Prop}
    (h : Run M ok s₀ as es s) (start : I s₀)
    (step : ∀ s a s' es', I s → ok s a → M.step s a = some (s', es') → I s') : I s :=
  h.invariant (I := fun _ s => I s) start fun _ s a s' es' hi hok hs => step s a s' es' hi hok hs

theorem Run.mono {s₀ s : σ} {as : List α} {es : List ε} (h : Run M ok s₀ as es s)
    (hm : ∀ s a, ok s a → ok' s a) : Run M ok' s₀ as es s := by
  induction h with
  | start => exact .start
  | next _ hok hs ih => exact .next ih (hm _ _ hok) hs

theorem Run.trans {s₀ s s' : σ} {as as' : List α} {es es' : List ε}
    (h : Run M ok s₀ as es s) (h' : Run M ok s as' es' s') :
    Run M ok s₀ (as ++ as') (es ++ es') s' := by
  induction h' with
  | start => simpa using h
  | next _ hok hs ih => simpa [List.append_assoc] using Run.next ih hok hs

theorem Run.one {s s' : σ} {a : α} {es : List ε} (hok : ok s a) (h : M.step s a = some (s', es)) :
    Run M ok s [a] es s' := by
  simpa using Run.next Run.start hok h

theorem Run.snoc_inv {s₀ s : σ} {as : List α} {a : α} {es : List ε} (h : Run M ok s₀ (as ++ [a]) es s) :
    ∃ t es' es'', Run M ok s₀ as es' t ∧ M.step t a = some (s, es'') ∧ es = es' ++ es'' := by
  generalize ha : as ++ [a] = as' at h
  cases h with
  | start => simp at ha
  | next h _ hs =>
    obtain ⟨rfl, hl⟩ := List.append_inj' ha rfl
    cases hl
    exact ⟨_, _, _, h, hs, rfl⟩

theorem Run.nil_inv {s₀ s : σ} {es : List ε} (h : Run M ok s₀ [] es s) : es = [] ∧ s = s₀ := by
  generalize ha : ([] : List α) = as at h
  cases h with
  | start => exact ⟨rfl, rfl⟩
  | next => simp at ha

/-- What is done says what is seen and where it ends. -/
theorem Run.unique {s₀ s s' : σ} {as : List α} {es es' : List ε} (h : Run M ok s₀ as es s)
    (h' : Run M ok' s₀ as es' s') : es' = es ∧ s' = s := by
  induction h generalizing es' s' with
  | start => exact h'.nil_inv
  | next _ _ hs ih =>
    obtain ⟨t, es₁, es₂, h₁, hs₁, rfl⟩ := h'.snoc_inv
    obtain ⟨rfl, rfl⟩ := ih h₁
    cases hs.symm.trans hs₁
    exact ⟨rfl, rfl⟩

/-- A list of actions that are possible and allowed everywhere can be run. -/
theorem exists_run {as : List α} (h : ∀ a ∈ as, ∀ s, ok s a ∧ (M.step s a).isSome = true) (s : σ) :
    ∃ es s', Run M ok s as es s' := by
  induction as generalizing s with
  | nil => exact ⟨[], s, .start⟩
  | cons a as ih =>
    obtain ⟨hok, hs⟩ := h a List.mem_cons_self s
    obtain ⟨⟨s', es⟩, hs⟩ := Option.isSome_iff_exists.mp hs
    obtain ⟨es', t, hr⟩ := ih (fun b hb => h b (List.mem_cons_of_mem a hb)) s'
    exact ⟨es ++ es', t, (Run.one hok hs).trans hr⟩

/-- Run a list of actions, each of them only where it is allowed. -/
def exec (M : Machine σ α ε) (ok : σ → α → Prop) [∀ s a, Decidable (ok s a)] :
    σ → List α → Option (σ × List ε)
  | s, [] => some (s, [])
  | s, a :: as =>
    if ok s a then
      match M.step s a with
      | none => none
      | some (s', es) =>
        match exec M ok s' as with
        | none => none
        | some (s'', es') => some (s'', es ++ es')
    else none

theorem run_of_exec [∀ s a, Decidable (ok s a)] {s s' : σ} {as : List α} {es : List ε}
    (h : exec M ok s as = some (s', es)) : Run M ok s as es s' := by
  induction as generalizing s es with
  | nil =>
    simp only [exec, Option.some.injEq, Prod.mk.injEq] at h
    obtain ⟨rfl, rfl⟩ := h
    exact .start
  | cons a as ih =>
    rw [exec] at h
    split at h
    next hok =>
      split at h
      next => cases h
      next s₁ es₁ hs =>
        split at h
        next => cases h
        next s₂ es₂ ht =>
          simp only [Option.some.injEq, Prod.mk.injEq] at h
          obtain ⟨rfl, rfl⟩ := h
          simpa using (Run.one hok hs).trans (ih ht)
    next => cases h

/-- The run of a list of actions whose observations are known. -/
theorem exec_run [∀ s a, Decidable (ok s a)] {s : σ} {as : List α} {es : List ε}
    (h : (exec M ok s as).map Prod.snd = some es) : ∃ s', Run M ok s as es s' := by
  obtain ⟨⟨s', es'⟩, hx, rfl⟩ := Option.map_eq_some_iff.mp h
  exact ⟨s', run_of_exec hx⟩

/-- The run of a list of actions that passes a test. -/
theorem exec_passes [∀ s a, Decidable (ok s a)] {s : σ} {as : List α} {test : σ × List ε → Bool}
    (h : (exec M ok s as).any test = true) : ∃ s' es, Run M ok s as es s' ∧ test (s', es) = true := by
  obtain ⟨⟨s', es⟩, hx, ht⟩ := (Option.any_eq_true _ _).mp h
  exact ⟨s', es, run_of_exec hx, ht⟩

/-- The run of a list of actions that ends where a test says. -/
theorem exec_test [∀ s a, Decidable (ok s a)] {s : σ} {as : List α} {es : List ε} [DecidableEq ε] {test : σ → Bool}
    (h : (exec M ok s as).any (fun r => decide (r.2 = es) && test r.1) = true) :
    ∃ s', Run M ok s as es s' ∧ test s' = true := by
  obtain ⟨s', es', hr, ht⟩ := exec_passes h
  simp only [Bool.and_eq_true, decide_eq_true_eq] at ht
  obtain ⟨rfl, ht⟩ := ht
  exact ⟨s', hr, ht⟩

/-- The run of a list of actions whose observations pass a test. -/
theorem exec_seen [∀ s a, Decidable (ok s a)] {s : σ} {as : List α} {test : List ε → Bool}
    (h : (exec M ok s as).any (fun r => test r.2) = true) : ∃ s' es, Run M ok s as es s' ∧ test es = true :=
  exec_passes h

/-- The part of what happens in a family that happens in one of its members. -/
def mine {ι β : Type*} [DecidableEq ι] (i : ι) (x : ι × β) : Option β := if x.1 = i then some x.2 else none

/-- Machines side by side, each of which takes its own actions. -/
def family {ι : Type*} [DecidableEq ι] (M : ι → Machine σ α ε) : Machine (ι → σ) (ι × α) (ι × ε) where
  step s a := ((M a.1).step (s a.1) a.2).map fun r => (Function.update s a.1 r.1, r.2.map (Prod.mk a.1))

/-- A run of the family is a run of each of its members. -/
theorem Run.member {ι : Type*} [DecidableEq ι] {M : ι → Machine σ α ε} (ok : ι → σ → α → Prop)
    {s₀ s : ι → σ} {as : List (ι × α)} {es : List (ι × ε)}
    (h : (family M).Run (fun s a => ok a.1 (s a.1) a.2) s₀ as es s) (i : ι) :
    (M i).Run (ok i) (s₀ i) (as.filterMap (mine i)) (es.filterMap (mine i)) (s i) := by
  induction h with
  | start => exact .start
  | @next as es s a s' es' _ hok hs ih =>
    obtain ⟨j, a⟩ := a
    obtain ⟨⟨t, fs⟩, ht, he⟩ := Option.map_eq_some_iff.mp hs
    cases he
    dsimp only at ht hok ⊢
    rw [List.filterMap_append, List.filterMap_append, List.filterMap_map]
    by_cases hj : j = i
    · subst hj
      have hall : fs.filterMap (mine j ∘ Prod.mk j) = fs := by simp [Function.comp_def, mine]
      simpa [mine, hall] using ih.next hok ht
    · have hnone : fs.filterMap (mine i ∘ Prod.mk j) = [] := by simp [Function.comp_def, mine, hj]
      simpa [mine, hj, hnone, Function.update_of_ne (Ne.symm hj)] using ih

/-- The machine with a variable beside it that follows what is seen. The machine does not read it. -/
def watched {ω : Type*} (M : Machine σ α ε) (f : σ → ω → ε → ω) : Machine (σ × ω) α ε where
  step x a := (M.step x.1 a).map fun r => ((r.1, r.2.foldl (f x.1) x.2), r.2)

theorem watched_step {ω : Type*} {f : σ → ω → ε → ω} {x x' : σ × ω} {a : α} {es : List ε}
    (h : (M.watched f).step x a = some (x', es)) :
    M.step x.1 a = some (x'.1, es) ∧ x'.2 = es.foldl (f x.1) x.2 := by
  obtain ⟨⟨s', es'⟩, hs, he⟩ := Option.map_eq_some_iff.mp h
  obtain ⟨rfl, rfl⟩ := Prod.mk.inj he
  exact ⟨hs, rfl⟩

end Machine
