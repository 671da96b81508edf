import T38Modem.StreamForm

namespace T38Modem

open ModStream (Formed Trims)

/-- The buffers of a stream that may be missing. -/
def idsOf (o : Option ModStream) : List BufId := o.elim [] ModStream.ids

/-- Two streams of which at most one is filled, whose buffers were made before the one numbered `n`. -/
structure Pair (i o : Option ModStream) (n : BufId) : Prop where
  left : ∀ m, i = some m → Formed m
  right : ∀ m, o = some m → Formed m
  old : ∀ j ∈ idsOf i ++ idsOf o, j < n
  apart : (idsOf i).Disjoint (idsOf o)
  one : T38Engine.isOpen i = false ∨ T38Engine.isOpen o = false

/-- A stream is kept and loses buffers, or it is deleted. -/
def Trimmed (o o' : Option ModStream) : Prop := ∀ m', o' = some m' → ∃ m, o = some m ∧ Trims m m'

namespace Trimmed

variable {o o' o'' : Option ModStream} {f : ModStream → ModStream}

theorem refl (o : Option ModStream) : Trimmed o o := fun m hm => ⟨m, hm, .refl m⟩

theorem gone : Trimmed o none := fun m' hm => absurd hm.symm (Option.some_ne_none m')

theorem kept {m m' : ModStream} (ht : Trims m m') : Trimmed (some m) (some m') := by
  intro x hx
  rw [← Option.some.inj hx]
  exact ⟨m, rfl, ht⟩

theorem map (hf : ∀ m, Trims m (f m)) : Trimmed o (o.map f) := by
  intro m' hm'
  obtain ⟨m, hm, rfl⟩ := Option.map_eq_some_iff.mp hm'
  exact ⟨m, hm, hf m⟩

theorem ids (h : Trimmed o o') : idsOf o' ⊆ idsOf o := by
  cases o' with
  | none => exact List.nil_subset _
  | some m' =>
    obtain ⟨m, rfl, ht⟩ := h m' rfl
    exact ht.ids

theorem isOpen (h : Trimmed o o') (ho : T38Engine.isOpen o' = true) : T38Engine.isOpen o = true := by
  cases o' with
  | none => cases ho
  | some m' =>
    obtain ⟨m, rfl, ht⟩ := h m' rfl
    exact ht.isOpen ho

theorem isOpen_false (h : Trimmed o o') (ho : T38Engine.isOpen o = false) : T38Engine.isOpen o' = false := by
  by_contra hn
  exact absurd (h.isOpen (by simpa using hn)) (by simp [ho])

theorem formed (h : Trimmed o o') (ho : ∀ m, o = some m → Formed m) : ∀ m, o' = some m → Formed m := by
  intro m' hm'
  obtain ⟨m, hm, ht⟩ := h m' hm'
  exact ht.formed (ho m hm)

end Trimmed

namespace Pair

variable {i i' o o' : Option ModStream} {n : BufId} {m other : ModStream}

theorem swap (h : Pair i o n) : Pair o i n :=
  ⟨h.right, h.left, fun j hj => h.old j (List.mem_append.mpr (List.mem_append.mp hj).symm),
    fun _ hj hj' => h.apart hj' hj, h.one.symm⟩

theorem trim (h : Pair i o n) (hi : Trimmed i i') (ho : Trimmed o o') : Pair i' o' n := by
  refine ⟨hi.formed h.left, ho.formed h.right, fun j hj => h.old j ?_, fun j hj hj' => h.apart (hi.ids hj) (ho.ids hj'), ?_⟩
  · rcases List.mem_append.mp hj with hj | hj
    · exact List.mem_append_left _ (hi.ids hj)
    · exact List.mem_append_right _ (ho.ids hj)
  · rcases h.one with hc | hc
    · exact .inl (hi.isOpen_false hc)
    · exact .inr (ho.isOpen_false hc)

/-- A new stream takes the place of one of the two. -/
theorem new (h : Pair i o n) (junk : Hdlc) (modPars : ModPars) : Pair (some (ModStream.new junk modPars)) o n := by
  refine ⟨fun m hm => ?_, h.right, fun j hj => h.old j (List.mem_append_right _ hj),
    fun _ hj => absurd hj List.not_mem_nil, .inl rfl⟩
  rw [← Option.some.inj hm]
  exact ModStream.new_formed junk modPars

/-- A buffer that is not yet there is put behind a stream, which is closed again or the only one to be filled. -/
theorem put {m' : ModStream} (h : Pair (some m) o n) (hm : m.isOpen = false) (ht : Trims (m.pushBuf n) m')
    (hone : m'.isOpen = false ∨ T38Engine.isOpen o = false) : Pair (some m') o (n + 1) := by
  have hn : n ∉ m.ids := fun hj => Nat.lt_irrefl n (h.old n (List.mem_append_left _ hj))
  have hids : idsOf (some m') ⊆ m.ids ++ [n] := fun j hj => ModStream.pushBuf_ids ▸ ht.ids hj
  refine ⟨fun x hx => ?_, h.right, fun j hj => ?_, fun j hj hj' => ?_, hone⟩
  · rw [← Option.some.inj hx]
    exact ht.formed (ModStream.pushBuf_formed (h.left m rfl) hm hn)
  · rcases List.mem_append.mp hj with hj | hj
    · rcases List.mem_append.mp (hids hj) with hj | hj
      · exact Nat.lt_succ_of_lt (h.old j (List.mem_append_left _ hj))
      · exact List.mem_singleton.mp hj ▸ Nat.lt_succ_self n
    · exact Nat.lt_succ_of_lt (h.old j (List.mem_append_right _ hj))
  · rcases List.mem_append.mp (hids hj) with hj | hj
    · exact h.apart hj hj'
    · have hlt := h.old j (List.mem_append_right _ hj')
      exact absurd (List.mem_singleton.mp hj) (Nat.ne_of_lt hlt)

/-- A stream gets a buffer that is closed at once, to tell the DTE why it gets nothing. -/
theorem putClosed (h : Pair (some m) o n) (hm : m.isOpen = false) (d : Diag) :
    Pair (some ((m.pushBuf n).putEof d)) o (n + 1) :=
  h.put hm ModStream.putEof_trims (.inl ModStream.putEof_isOpen)

/-- The one stream takes over the buffers of the other. -/
theorem move (h : Pair (some m) (some other) n) (hm : m.isOpen = false) : Pair (some (m.move other)) none n := by
  have hids : idsOf (some (m.move other)) = m.ids ++ other.ids := ModStream.move_ids
  refine ⟨fun x hx => ?_, fun x hx => absurd hx.symm (Option.some_ne_none x), fun j hj => ?_,
    fun j _ hj' => absurd hj' List.not_mem_nil, .inr rfl⟩
  · rw [← Option.some.inj hx]
    exact ModStream.move_formed (h.left m rfl) (h.right other rfl) hm h.apart
  · rw [hids] at hj
    exact h.old j (by simpa [idsOf] using hj)

end Pair

end T38Modem
