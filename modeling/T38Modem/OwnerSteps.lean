import T38Modem.Ownership

namespace T38Modem

namespace Direction

variable {side : Side} {sees : EngineSees} {d d' : Direction} {h : HOwner} {t : Nat} {a : OwnerAct}
  {es es' : List OwnerSeen}

/-- The owner and the flags of the direction are left as they are. -/
structure Same (d d' : Direction) : Prop where
  hOwner : d'.hOwner = d.hOwner
  isFakeOwner : d'.isFakeOwner = d.isFakeOwner
  isEnableFake : d'.isEnableFake = d.isEnableFake

/-- What a step can do to the owner. -/
inductive Move (d : Direction) (a : OwnerAct) (d' : Direction) : List OwnerSeen → Prop
  | rests : Same d d' → Move d a d' []
  | opens (h : HOwner) : d.hOwner = none → d'.hOwner = some h → d'.isFakeOwner = h.isFake →
      d'.isEnableFake = d.isEnableFake →
      (∀ t, h = .fake t → a = .fakeOpen t ∧ d.begun t = false ∧ d'.begun t = true) → Move d a d' [.opened h]
  | displaces (h g : HOwner) : h.isFake = false → d.hOwner = some g → d'.hOwner = none →
      d'.isEnableFake = d.isEnableFake → Move d a d' [.displaced h g]
  | closes (g : HOwner) : d.hOwner = some g → d'.hOwner = none →
      (d.isEnableFake = false → d'.isEnableFake = false) → Move d a d' [.closed g]
  | uses (g : HOwner) : d.hOwner = some g → Same d d' → Move d a d' [.used g]
  | enables : d'.hOwner = d.hOwner → d'.isFakeOwner = d.isFakeOwner → d'.isEnableFake = true →
      Move d a d' [.enabled]
  | disables : d'.hOwner = d.hOwner → d'.isFakeOwner = d.isFakeOwner → d'.isEnableFake = false →
      (∀ t, d.hOwner = some (.fake t) → d.isEnableFake = false) → Move d a d' [.disabled]
  | drops (g : HOwner) : d.hOwner = some g → d'.hOwner = none → d'.isEnableFake = false →
      Move d a d' [.disabled, .dropped g]

/-- The record of a direction: its flag tells who owns it, and who waits to open it is real. -/
structure Kept (d : Direction) : Prop where
  flag : ∀ h, d.hOwner = some h → d.isFakeOwner = h.isFake
  opening : ∀ h ∈ d.opening, h.isFake = false
  begun : ∀ t, d.hOwner = some (.fake t) → d.begun t = true

theorem onChangeEnableFake_same : Same d (d.onChangeEnableFake side sees) := by
  unfold onChangeEnableFake
  dsimp only
  split
  next => exact ⟨rfl, rfl, rfl⟩
  next => split <;> split <;> exact ⟨rfl, rfl, rfl⟩

theorem onChangeEnableFake_opening : (d.onChangeEnableFake side sees).opening = d.opening := by
  unfold onChangeEnableFake
  dsimp only
  split
  next => rfl
  next => split <;> split <;> rfl

theorem begun_append (h : d.begun t = true) :
    ({ d with threads := d.threads ++ [.started] } : Direction).begun t = true := by
  unfold begun at h ⊢
  rcases Nat.lt_or_ge t d.threads.length with hl | hl
  · simpa [List.getElem?_append_left hl] using h
  · simp [List.getElem?_eq_none hl] at h

theorem begun_set {n : Nat} {x : FakeThread} (hx : x ≠ .started) (h : d.begun t = true) :
    ({ d with threads := d.threads.set n x } : Direction).begun t = true := by
  unfold begun at h ⊢
  dsimp only
  by_cases hn : n = t
  · subst hn
    cases ht : d.threads[n]? with
    | none => simp [ht] at h
    | some y =>
      have hl := (List.getElem?_eq_some_iff.mp ht).1
      rw [List.getElem?_set_self hl]
      cases x <;> first | rfl | exact absurd rfl hx
  · rwa [List.getElem?_set_ne hn]

theorem onChangeEnableFake_begun (h : d.begun t = true) : (d.onChangeEnableFake side sees).begun t = true := by
  unfold onChangeEnableFake
  dsimp only
  split
  next => exact h
  next =>
    split
    all_goals
      split
      · exact begun_append h
      · exact h

theorem openBy_move {d₀ : Direction} {fake : Bool} (hs : Same d₀ d) (hf : fake = h.isFake)
    (hb : ∀ t, h = .fake t → a = .fakeOpen t ∧ d₀.begun t = false ∧ d.begun t = true) :
    Move d₀ a (d.openBy h fake).1 (d.openBy h fake).2 := by
  unfold openBy
  split
  next g hg =>
    split
    next => exact .rests hs
    next =>
      split
      next => exact .rests hs
      next hr => exact .displaces h g (by simpa [hf] using hr) (hs.hOwner ▸ hg) rfl hs.isEnableFake
  next hn => exact .opens h (hs.hOwner ▸ hn) rfl hf hs.isEnableFake hb

theorem closeBy_move {d₀ : Direction} (hs : Same d₀ d) :
    Move d₀ a (d.closeBy h).1 (d.closeBy h).2 := by
  unfold closeBy
  split
  next ho => exact .closes h (hs.hOwner ▸ ho) rfl fun hf => by simp [hs.isEnableFake.trans hf]
  next => exact .rests hs

theorem useBy_move {d₀ : Direction} (hs : Same d₀ d) :
    Move d₀ a d (if d.useBy h then [.used h] else []) := by
  unfold useBy
  split
  next ho => exact .uses h (hs.hOwner ▸ of_decide_eq_true ho) hs
  next => exact .rests hs

theorem enableFake_move (hk : Kept d) (enable : Bool) :
    Move d a (d.enableFake side sees enable).1 (d.enableFake side sees enable).2 := by
  unfold enableFake
  dsimp only
  split
  next he =>
    cases enable with
    | true => exact .enables rfl rfl he
    | false => exact .disables rfl rfl he fun _ _ => he
  next he =>
    have hs := @onChangeEnableFake_same side sees { d with isEnableFake := enable }
    split
    next g hg =>
      split
      next hc =>
        obtain ⟨rfl, -⟩ := hc
        exact .drops g hg rfl rfl
      next hc =>
        cases enable with
        | true => exact .enables hs.hOwner hs.isFakeOwner hs.isEnableFake
        | false =>
          refine .disables hs.hOwner hs.isFakeOwner hs.isEnableFake fun t ht => ?_
          exact absurd ⟨rfl, hk.flag _ ht⟩ hc
    next hn =>
      cases enable with
      | true => exact .enables hs.hOwner hs.isFakeOwner hs.isEnableFake
      | false =>
        refine .disables hs.hOwner hs.isFakeOwner hs.isEnableFake fun t ht => ?_
        exact absurd (hn.symm.trans ht) nofun

theorem begun_running (ht : d.threads[t]? = some .started) : d.begun t = false ∧
    ({ d with threads := d.threads.set t .running } : Direction).begun t = true := by
  have hl := (List.getElem?_eq_some_iff.mp ht).1
  constructor
  · rw [begun, ht]
  · rw [begun, List.getElem?_set_self hl]

theorem Move.of_eq {r : Direction × List OwnerSeen} (hr : some r = some (d', es)) (hm : Move d a r.1 r.2) :
    Move d a d' es := by
  cases hr
  exact hm

/-- A step is one of these moves. -/
theorem step_move (hk : Kept d) (hs : step side d a = some (d', es)) : Move d a d' es := by
  have hself : Same d d := ⟨rfl, rfl, rfl⟩
  cases a with
  | «open» n => exact .of_eq hs (openBy_move hself rfl nofun)
  | reopen h =>
    obtain ⟨hm, he⟩ := Option.ite_none_right_eq_some.mp hs
    have hr := hk.opening h hm
    exact .of_eq he (openBy_move ⟨rfl, rfl, rfl⟩ hr.symm fun t ht => by simp [ht, HOwner.isFake] at hr)
  | close n => exact .of_eq hs (closeBy_move hself)
  | use n => exact .of_eq hs (useBy_move hself)
  | enableFake enable sees => exact .of_eq hs (enableFake_move hk enable)
  | changed sees =>
    obtain ⟨-, he⟩ := Option.ite_none_left_eq_some.mp hs
    have hq := @onChangeEnableFake_same side sees { d with changing := d.changing - 1 }
    exact .of_eq he (.rests ⟨hq.hOwner, hq.isFakeOwner, hq.isEnableFake⟩)
  | fakeOpen t =>
    obtain ⟨ht, he⟩ := Option.ite_none_right_eq_some.mp hs
    refine .of_eq he (openBy_move ⟨rfl, rfl, rfl⟩ rfl fun t' he => ?_)
    cases he
    exact ⟨rfl, begun_running ht⟩
  | fakeUse t =>
    obtain ⟨-, he⟩ := Option.ite_none_right_eq_some.mp hs
    split at he
    next ho => exact .of_eq he (.uses _ (of_decide_eq_true ho) hself)
    next => exact .of_eq he (.rests ⟨rfl, rfl, rfl⟩)
  | fakeClose t =>
    obtain ⟨-, he⟩ := Option.ite_none_right_eq_some.mp hs
    exact .of_eq he (closeBy_move ⟨rfl, rfl, rfl⟩)

theorem openBy_threads {fake : Bool} : (d.openBy h fake).1.threads = d.threads := by
  unfold openBy
  split
  next => split <;> [rfl; split <;> rfl]
  next => rfl

theorem closeBy_threads : (d.closeBy h).1.threads = d.threads := by
  unfold closeBy
  split <;> rfl

theorem begun_of_threads (he : d'.threads = d.threads) : d'.begun t = d.begun t := by
  unfold begun
  rw [he]

/-- A thread that has come to its `Open*` does not come to it again. -/
theorem step_begun (hs : step side d a = some (d', es)) (h : d.begun t = true) : d'.begun t = true := by
  have of_eq {r : Direction × List OwnerSeen} (hr : some r = some (d', es)) (hb : r.1.begun t = true) :
      d'.begun t = true := by
    cases hr
    exact hb
  cases a with
  | «open» n => exact of_eq hs ((begun_of_threads openBy_threads).trans h)
  | reopen g =>
    obtain ⟨-, he⟩ := Option.ite_none_right_eq_some.mp hs
    exact of_eq he ((begun_of_threads openBy_threads).trans h)
  | close n => exact of_eq hs ((begun_of_threads closeBy_threads).trans h)
  | use n => exact of_eq hs h
  | enableFake enable sees =>
    refine of_eq hs ?_
    unfold enableFake
    dsimp only
    split
    next => exact h
    next =>
      have hq : ({ d with isEnableFake := enable } : Direction).begun t = true := h
      split
      next =>
        split
        next => exact h
        next => exact onChangeEnableFake_begun hq
      next => exact onChangeEnableFake_begun hq
  | changed sees =>
    obtain ⟨-, he⟩ := Option.ite_none_left_eq_some.mp hs
    exact of_eq he (onChangeEnableFake_begun (d := { d with changing := d.changing - 1 }) h)
  | fakeOpen n =>
    obtain ⟨-, he⟩ := Option.ite_none_right_eq_some.mp hs
    exact of_eq he ((begun_of_threads openBy_threads).trans (begun_set nofun h))
  | fakeUse n =>
    obtain ⟨-, he⟩ := Option.ite_none_right_eq_some.mp hs
    split at he
    next => exact of_eq he h
    next => exact of_eq he (begun_set nofun h)
  | fakeClose n =>
    obtain ⟨-, he⟩ := Option.ite_none_right_eq_some.mp hs
    exact of_eq he ((begun_of_threads closeBy_threads).trans (begun_set nofun h))

theorem openBy_opening {fake : Bool} (hf : fake = h.isFake) (hd : ∀ g ∈ d.opening, g.isFake = false) :
    ∀ g ∈ (d.openBy h fake).1.opening, g.isFake = false := by
  unfold openBy
  split
  next =>
    split
    next => exact hd
    next =>
      split
      next => exact hd
      next hr => exact List.forall_mem_cons.mpr ⟨by simpa [hf] using hr, hd⟩
  next => exact hd

theorem closeBy_opening : (d.closeBy h).1.opening = d.opening := by
  unfold closeBy
  split <;> rfl

theorem enableFake_opening {enable : Bool} : (d.enableFake side sees enable).1.opening = d.opening := by
  unfold enableFake
  dsimp only
  split
  next => rfl
  next =>
    split
    next => split <;> [rfl; exact onChangeEnableFake_opening]
    next => exact onChangeEnableFake_opening

theorem step_opening (hk : Kept d) (hs : step side d a = some (d', es)) : ∀ g ∈ d'.opening, g.isFake = false := by
  have of_eq {r : Direction × List OwnerSeen} (hr : some r = some (d', es))
      (ho : ∀ g ∈ r.1.opening, g.isFake = false) : ∀ g ∈ d'.opening, g.isFake = false := by
    cases hr
    exact ho
  have of_same {r : Direction × List OwnerSeen} (hr : some r = some (d', es))
      (ho : r.1.opening = d.opening) : ∀ g ∈ d'.opening, g.isFake = false :=
    of_eq hr fun g hg => hk.opening g (ho ▸ hg)
  cases a with
  | «open» n => exact of_eq hs (openBy_opening rfl hk.opening)
  | reopen g =>
    obtain ⟨hm, he⟩ := Option.ite_none_right_eq_some.mp hs
    exact of_eq he (openBy_opening (hk.opening g hm).symm fun x hx => hk.opening x (List.mem_of_mem_erase hx))
  | close n => exact of_same hs closeBy_opening
  | use n => exact of_same hs rfl
  | enableFake enable sees => exact of_same hs enableFake_opening
  | changed sees =>
    obtain ⟨-, he⟩ := Option.ite_none_left_eq_some.mp hs
    exact of_same he onChangeEnableFake_opening
  | fakeOpen n =>
    obtain ⟨-, he⟩ := Option.ite_none_right_eq_some.mp hs
    exact of_eq he (openBy_opening rfl hk.opening)
  | fakeUse n =>
    obtain ⟨-, he⟩ := Option.ite_none_right_eq_some.mp hs
    split at he
    next => exact of_same he rfl
    next => exact of_same he rfl
  | fakeClose n =>
    obtain ⟨-, he⟩ := Option.ite_none_right_eq_some.mp hs
    exact of_same he closeBy_opening

theorem step_kept (hk : Kept d) (hs : step side d a = some (d', es)) : Kept d' := by
  have hb : ∀ t, d.begun t = true → d'.begun t = true := fun t => step_begun hs
  have same (ho : d'.hOwner = d.hOwner) (hf : d'.isFakeOwner = d.isFakeOwner) : Kept d' :=
    ⟨fun h hh => hf.trans (hk.flag h (ho ▸ hh)), step_opening hk hs, fun t ht => hb t (hk.begun t (ho ▸ ht))⟩
  have free (ho : d'.hOwner = none) : Kept d' :=
    ⟨fun h hh => absurd (ho.symm.trans hh) nofun, step_opening hk hs, fun t ht => absurd (ho.symm.trans ht) nofun⟩
  cases step_move hk hs with
  | rests h => exact same h.hOwner h.isFakeOwner
  | opens h _ ho hf _ ht =>
    refine ⟨fun g hg => ?_, step_opening hk hs, fun t hg => ?_⟩
    · cases Option.some.inj (ho.symm.trans hg)
      exact hf
    · exact (ht t (Option.some.inj (ho.symm.trans hg))).2.2
  | displaces _ _ _ _ ho _ => exact free ho
  | closes _ _ ho _ => exact free ho
  | uses _ _ h => exact same h.hOwner h.isFakeOwner
  | enables ho hf _ => exact same ho hf
  | disables ho hf _ _ => exact same ho hf
  | drops _ _ ho _ => exact free ho

end Direction

end T38Modem
