import T38Modem.OwnerSteps

namespace T38Modem

namespace Direction

variable {side : Side} {d d' : Direction} {h : HOwner} {t : Nat} {a : OwnerAct} {es es' : List OwnerSeen}

/-- What has been seen so far agrees with the owner. -/
structure Seen (es : List OwnerSeen) (d : Direction) : Prop where
  handed : es.foldlM handover none = some d.hOwner
  never : ∀ t g, .displaced (.fake t) g ∉ es
  gone : es.Pairwise fun e e' => ∀ h t, e = .displaced h (.fake t) → e' ≠ .used (.fake t) ∧ e' ≠ .opened (.fake t)
  lost : ∀ h t, .displaced h (.fake t) ∈ es → d.begun t = true ∧ d.hOwner ≠ some (.fake t)
  off : disabledBy es = true → d.isEnableFake = false

theorem disabledBy_append : disabledBy (es ++ es') = es'.foldl (fun off e => match e with
    | .disabled => true
    | .enabled => false
    | _ => off) (disabledBy es) := List.foldl_append

/-- What a step has to keep to: whoever was displaced is not seen again. -/
theorem Seen.next (hs : Seen es d) (hb : ∀ t, d.begun t = true → d'.begun t = true)
    (hh : es'.foldlM handover d.hOwner = some d'.hOwner) (hv : ∀ t g, .displaced (.fake t) g ∉ es')
    (hp : es'.Pairwise fun e e' => ∀ h t, e = .displaced h (.fake t) → e' ≠ .used (.fake t) ∧ e' ≠ .opened (.fake t))
    (hd : ∀ h t, .displaced h (.fake t) ∈ es' → d.hOwner = some (.fake t) ∧ d.begun t = true ∧ d'.hOwner = none)
    (hn : ∀ t, d.begun t = true → d.hOwner ≠ some (.fake t) →
      .used (.fake t) ∉ es' ∧ .opened (.fake t) ∉ es' ∧ d'.hOwner ≠ some (.fake t))
    (ho : disabledBy (es ++ es') = true → d'.isEnableFake = false) : Seen (es ++ es') d' where
  handed := by rw [List.foldlM_append, hs.handed]; exact hh
  never t g := fun hm => (List.mem_append.mp hm).elim (hs.never t g) (hv t g)
  gone := by
    refine List.pairwise_append.mpr ⟨hs.gone, hp, fun e he e' he' h t heq => ?_⟩
    obtain ⟨hbt, hl⟩ := hs.lost h t (heq ▸ he)
    obtain ⟨hu, hop, -⟩ := hn t hbt hl
    exact ⟨fun hx => hu (hx ▸ he'), fun hx => hop (hx ▸ he')⟩
  lost h t hm := by
    rcases List.mem_append.mp hm with hm | hm
    · obtain ⟨hbt, hl⟩ := hs.lost h t hm
      exact ⟨hb t hbt, (hn t hbt hl).2.2⟩
    · obtain ⟨-, hbt, hno⟩ := hd h t hm
      exact ⟨hb t hbt, fun ht => absurd (hno.symm.trans ht) nofun⟩
  off := ho

theorem step_seen (hk : Kept d) (hs : Seen es d) (h : step side d a = some (d', es')) : Seen (es ++ es') d' := by
  have hb : ∀ t, d.begun t = true → d'.begun t = true := fun t => step_begun h
  have free (ho : d'.hOwner = none) : ∀ t, d'.hOwner ≠ some (.fake t) := fun t ht => absurd (ho.symm.trans ht) nofun
  cases step_move hk h with
  | rests hq =>
    refine hs.next hb (by simp [hq.hOwner]) (by simp) .nil (by simp) (fun t _ hl => ?_) fun hoff => ?_
    · exact ⟨nofun, nofun, hq.hOwner ▸ hl⟩
    · exact hq.isEnableFake.trans (hs.off (by simpa using hoff))
  | opens g hn ho _ he ht =>
    refine hs.next hb (by simp [hn, ho, handover]) (by simp) (List.pairwise_singleton ..) (by simp)
      (fun t hbt _ => ?_) fun hoff => ?_
    · -- a thread comes to its `Open*` once
      have hne : g ≠ .fake t := fun hx => absurd (hbt.symm.trans (ht t hx).2.1) nofun
      exact ⟨by simp, by simpa using hne.symm, by simpa [ho] using hne⟩
    · exact he.trans (hs.off (by simpa [disabledBy_append] using hoff))
  | displaces g x hr hg ho he =>
    refine hs.next hb (by simp [hg, ho, handover]) (fun t y hm => ?_) (List.pairwise_singleton ..)
      (fun y t hm => ?_) (fun t _ _ => ⟨by simp, by simp, free ho t⟩) fun hoff => ?_
    · cases List.mem_singleton.mp hm
      cases hr
    · cases List.mem_singleton.mp hm
      exact ⟨hg, hk.begun t hg, ho⟩
    · exact he.trans (hs.off (by simpa [disabledBy_append] using hoff))
  | closes g hg ho he =>
    refine hs.next hb (by simp [hg, ho, handover]) (by simp) (List.pairwise_singleton ..) (by simp)
      (fun t _ _ => ⟨by simp, by simp, free ho t⟩) fun hoff => ?_
    exact he (hs.off (by simpa [disabledBy_append] using hoff))
  | uses g hg hq =>
    refine hs.next hb (by simp [hg, hq.hOwner, handover]) (by simp) (List.pairwise_singleton ..) (by simp)
      (fun t _ hl => ⟨?_, by simp, hq.hOwner ▸ hl⟩) fun hoff => ?_
    · intro hm
      cases List.mem_singleton.mp hm
      exact hl hg
    · exact hq.isEnableFake.trans (hs.off (by simpa [disabledBy_append] using hoff))
  | enables ho _ he =>
    refine hs.next hb ?_ (by simp) (List.pairwise_singleton ..) (by simp)
      (fun t _ hl => ⟨by simp, by simp, ho ▸ hl⟩) fun hoff => ?_
    · cases hd : d.hOwner <;> simp [ho, hd, handover]
    · simp [disabledBy_append] at hoff
  | disables ho _ he _ =>
    refine hs.next hb ?_ (by simp) (List.pairwise_singleton ..) (by simp)
      (fun t _ hl => ⟨by simp, by simp, ho ▸ hl⟩) fun _ => he
    cases hd : d.hOwner <;> simp [ho, hd, handover]
  | drops g hg ho he =>
    exact hs.next hb (by simp [hg, ho, handover]) (by simp) (by simp) (by simp)
      (fun t _ _ => ⟨by simp, by simp, free ho t⟩) fun _ => he

theorem step_wanted (hk : Kept d) (hw : ∀ t, d.hOwner = some (.fake t) → d.isEnableFake = true)
    (hok : d.Wanted a) (h : step side d a = some (d', es)) :
    ∀ t, d'.hOwner = some (.fake t) → d'.isEnableFake = true := by
  intro t ht
  cases step_move hk h with
  | rests hq => exact hq.isEnableFake.trans (hw t (hq.hOwner ▸ ht))
  | opens g hn ho _ he hf =>
    obtain ⟨rfl, -⟩ := hf t (Option.some.inj (ho.symm.trans ht))
    exact he.trans (hok hn)
  | displaces _ _ _ _ ho _ => exact absurd (ho.symm.trans ht) nofun
  | closes _ _ ho _ => exact absurd (ho.symm.trans ht) nofun
  | uses _ _ hq => exact hq.isEnableFake.trans (hw t (hq.hOwner ▸ ht))
  | enables _ _ he => exact he
  | disables ho _ _ hd =>
    have hg := ho ▸ ht
    exact absurd ((hd t hg).symm.trans (hw t hg)) nofun
  | drops _ _ ho _ => exact absurd (ho.symm.trans ht) nofun

theorem openBy_fake (n : Nat) (h : d.hOwner = some (.fake t)) : ∃ d',
    step side d (.open n) = some (d', [.displaced (.real n) (.fake t)]) ∧ d'.hOwner = none := by
  refine ⟨{ d with hOwner := none, opening := .real n :: d.opening }, ?_, rfl⟩
  simp [step, openBy, h]

theorem closeBy_other (h : HOwner) (hn : d.hOwner ≠ some h) : d.closeBy h = (d, []) := if_neg hn

/-- All but the last promise, however late a fake thread comes. -/
theorem run_kept {ok : Direction → OwnerAct → Prop} {as : List OwnerAct} (h : (machine side).Run ok {} as es d) :
    Kept d ∧ Seen es d := by
  refine h.invariant (I := fun es d => Kept d ∧ Seen es d) ⟨⟨nofun, nofun, nofun⟩, ?_⟩ ?_
  · exact ⟨rfl, nofun, .nil, nofun, fun hoff => absurd hoff nofun⟩
  · exact fun es d a d' es' hi _ hs => ⟨step_kept hi.1 hs, step_seen hi.1 hi.2 hs⟩

theorem run_wanted {as : List OwnerAct} (h : (machine side).Run Wanted {} as es d) :
    ∀ t, d.hOwner = some (.fake t) → d.isEnableFake = true := by
  refine (h.state_invariant (I := fun d => Kept d ∧ ∀ t, d.hOwner = some (.fake t) → d.isEnableFake = true)
    ⟨⟨nofun, nofun, nofun⟩, nofun⟩ ?_).2
  exact fun d a d' es hi hok hs => ⟨step_kept hi.1 hs, step_wanted hi.1 hi.2 hok hs⟩

theorem run_exclusive {as : List OwnerAct} (h : (machine side).Run Wanted {} as es d) : Exclusive side es d := by
  obtain ⟨-, hs⟩ := run_kept h
  refine ⟨hs.handed, closeBy_other, hs.never, fun n t => openBy_fake n, hs.gone, fun hoff t ht => ?_⟩
  exact absurd ((hs.off hoff).symm.trans (run_wanted h t ht)) nofun

/-- A fake thread that nobody wants any more gets the direction all the same. -/
theorem unwanted_opens (hw : ¬d.Wanted (.fakeOpen t)) (hs : step side d (.fakeOpen t) = some (d', es)) :
    d'.hOwner = some (.fake t) ∧ d'.isEnableFake = false := by
  obtain ⟨ho, he⟩ := Classical.not_imp.mp hw
  obtain ⟨-, hr⟩ := Option.ite_none_right_eq_some.mp hs
  simp only [openBy, ho, Option.some.injEq, Prod.mk.injEq] at hr
  obtain ⟨rfl, -⟩ := hr
  exact ⟨rfl, by simpa using he⟩

/-- The four directions of the engines of a modem. -/
def engines : Machine (Side → Direction) (Side × OwnerAct) (Side × OwnerSeen) := .family machine

/-- Each direction has one owner, and no fake one that is not wanted. -/
theorem run_exclusive_sides {s : Side → Direction} {as : List (Side × OwnerAct)} {es : List (Side × OwnerSeen)}
    (h : engines.Run (fun s a => (s a.1).Wanted a.2) (fun _ => {}) as es s) :
    ∀ side, Exclusive side (es.filterMap (Machine.mine side)) (s side) :=
  fun side => run_exclusive (h.member (fun _ => Wanted) side)

instance (d : Direction) (a : OwnerAct) : Decidable (d.Wanted a) :=
  match a with
  | .fakeOpen _ => inferInstanceAs (Decidable (_ → _))
  | .open _ | .reopen _ | .close _ | .use _ | .enableFake .. | .changed _ | .fakeUse _ | .fakeClose _ => .isTrue trivial

def sending : EngineSees := ⟨.stmOutMoreData, true, true⟩

/-- A fake reader makes way for a real one, which leaves, and a writer beside them comes late. -/
def relieved : List (Side × OwnerAct) :=
  [(.audioOut, .enableFake true sending), (.audioIn, .enableFake true sending), (.audioOut, .fakeOpen 0),
    (.audioOut, .fakeUse 0), (.audioOut, .open 7), (.audioIn, .open 7), (.audioOut, .reopen (.real 7)),
    (.audioOut, .fakeUse 0), (.audioIn, .fakeOpen 0), (.audioOut, .fakeClose 0), (.audioOut, .use 7),
    (.audioOut, .close 7), (.audioOut, .enableFake false sending)]

theorem relieved_exclusive : ∃ es s, engines.Run (fun s a => (s a.1).Wanted a.2) (fun _ => {}) relieved es s ∧
    ∀ side, Exclusive side (es.filterMap (Machine.mine side)) (s side) := by
  obtain ⟨s, hr⟩ : ∃ s, engines.Run (fun s a => (s a.1).Wanted a.2) (fun _ => {}) relieved
      [(.audioOut, .enabled), (.audioIn, .enabled), (.audioOut, .opened (.fake 0)), (.audioOut, .used (.fake 0)),
        (.audioOut, .displaced (.real 7) (.fake 0)), (.audioIn, .opened (.real 7)), (.audioOut, .opened (.real 7)),
        (.audioOut, .used (.real 7)), (.audioOut, .closed (.real 7)), (.audioOut, .disabled)] s :=
    Machine.exec_run (by decide +kernel)
  exact ⟨_, s, hr, run_exclusive_sides hr⟩

/-- The reader is scheduled when it is not wanted any more. -/
theorem late_fake_owner : ¬∀ as es s, engines.Run (fun _ _ => True) (fun _ => {}) as es s →
    ∀ side, Exclusive side (es.filterMap (Machine.mine side)) (s side) := by
  intro h
  obtain ⟨s, hr⟩ : ∃ s, engines.Run (fun _ _ => True) (fun _ => {})
      [(.audioOut, .enableFake true sending), (.audioOut, .enableFake false sending), (.audioOut, .fakeOpen 0)]
      [(.audioOut, .enabled), (.audioOut, .disabled), (.audioOut, .opened (.fake 0))] s :=
    Machine.exec_run (by decide +kernel)
  have hx := h _ _ s hr .audioOut
  have hh := hx.handed
  exact hx.off rfl 0 (Option.some.inj hh.symm)

end Direction

end T38Modem
