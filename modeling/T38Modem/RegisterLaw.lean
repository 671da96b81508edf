import Mathlib.Data.List.Induction
import T38Modem.RegisterFile

namespace T38Modem

namespace ProfileOp

variable {p p' : Profile} {op : ProfileOp} {r i : Nat}

/-- The register and the bit numbers are those of the array. -/
def InRange : ProfileOp → Prop
  | setBit r b _ | getBit r b => r < 60 ∧ b ≤ 7
  | setReg r _ | getReg r => r < 60
  | setBits r bl bh _ | getBits r bl bh => r < 60 ∧ bl ≤ 7 ∧ bh ≤ 7 ∧ bl ≤ bh
  | setVoiceProfile _ | assign _ => True

/-- What the operation writes to a bit. -/
def writes : ProfileOp → Nat → Nat → Option Bool
  | setBit r b val, r', i => if r < 60 ∧ b ≤ 7 ∧ r' = r ∧ i = b then some val else none
  | setReg r val, r', i => if r < 60 ∧ r' = r then some (val.getLsbD i) else none
  | setBits r bl bh val, r', i =>
    if (r < 60 ∧ bl ≤ 7 ∧ bh ≤ 7 ∧ bl ≤ bh) ∧ r' = r ∧ bl ≤ i ∧ i ≤ bh then some (val.getLsbD (i - bl)) else none
  | setVoiceProfile q, r', i => if 50 ≤ r' ∧ r' < 60 then some (q.bit r' i) else none
  | assign q, r', i => if r' < 60 then some (q.bit r' i) else none
  | getBit _ _, _, _ | getReg _, _, _ | getBits _ _ _, _, _ => none

/-- The field that is read: its register, its first bit and its width. -/
def reads : ProfileOp → Option (Nat × Nat × Nat)
  | getBit r b => some (r, b, 1)
  | getReg r => some (r, 0, 8)
  | getBits r bl bh => some (r, bl, bh + 1 - bl)
  | _ => none

/-- The operation stays inside the array, is refused if it is out of range and there alone, writes what
it is told to and nothing else, and reads what is there. -/
def Obeys (p : Profile) (op : ProfileOp) : Prop :=
  ∃ ok val p', op.apply p = some (ok, val, p') ∧ (ok = true ↔ op.InRange) ∧
    (∀ r i, p'.bit r i = (op.writes r i).getD (p.bit r i)) ∧
    ∀ r lo w, op.reads = some (r, lo, w) → op.InRange → ∀ j, val.getLsbD j = (decide (j < w) && p.bit r (lo + j))

/-- No profile is assigned as a whole, and a field is set by its bits only where the register is to
be zero behind. -/
def Meets (p : Profile) : ProfileOp → Prop
  | assign _ => False
  | setBits r bl bh val => r < 60 ∧ bl ≤ 7 ∧ bh ≤ 7 ∧ bl ≤ bh →
    (∀ i, bl ≤ i → i ≤ bh → val.getLsbD (i - bl) = false) ∧ ∀ i, ¬(bl ≤ i ∧ i ≤ bh) → p.bit r i = false
  | _ => True

/-- A read leaves the profile as it is. -/
theorem Obeys.of_read {ok : Bool} {val : Byte} (h : op.apply p = some (ok, val, p)) (hok : ok = true ↔ op.InRange)
    (hw : ∀ r i, op.writes r i = none)
    (hr : ∀ r lo w, op.reads = some (r, lo, w) → op.InRange →
      ∀ j, val.getLsbD j = (decide (j < w) && p.bit r (lo + j))) : op.Obeys p :=
  ⟨ok, val, p, h, hok, fun r i => by rw [hw, Option.getD_none], hr⟩

theorem Obeys.of_write {ok : Bool} {q : Profile} (h : op.apply p = some (ok, 0, q)) (hok : ok = true ↔ op.InRange)
    (hr : op.reads = none) (hw : ∀ r i, q.bit r i = (op.writes r i).getD (p.bit r i)) : op.Obeys p :=
  ⟨ok, 0, q, h, hok, hw, fun _ _ _ h => absurd h (by rw [hr]; exact (Option.some_ne_none _).symm)⟩

/-- A refused operation leaves the profile as it is. -/
theorem Obeys.of_refused {v : Byte} (h : op.apply p = some (false, v, p)) (hin : ¬op.InRange)
    (hw : ∀ r i, op.writes r i = none) : op.Obeys p :=
  ⟨false, v, p, h, iff_of_false Bool.false_ne_true hin, fun r i => by rw [hw, Option.getD_none],
    fun _ _ _ _ h => absurd h hin⟩

theorem setBit_obeys (p : Profile) (r b : Nat) (x : Bool) : (setBit r b x).Obeys p := by
  by_cases h : r < 60 ∧ b ≤ 7
  · obtain ⟨p', he, hbit⟩ := p.setBit_bit h.1 h.2 x
    refine .of_write (q := p') (by rw [apply, he]; rfl) (iff_of_true rfl h) rfl fun r' i => ?_
    rw [hbit, writes]
    simp only [h, true_and]
    split <;> rfl
  · refine .of_refused (v := 0) ?_ h fun r' i => if_neg (by tauto)
    rw [apply, Profile.setBit, Bool.eq_false_iff.mpr (mt Profile.chkRB_iff.mp h)]
    rfl

theorem setReg_obeys (p : Profile) (r : Nat) (v : Byte) : (setReg r v).Obeys p := by
  by_cases h : r < 60
  · obtain ⟨p', he, hbit⟩ := p.setReg_bit (v := v) h
    refine .of_write (q := p') (by rw [apply, he]; rfl) (iff_of_true rfl h) rfl fun r' i => ?_
    rw [hbit, writes]
    simp only [h, true_and]
    split <;> rfl
  · refine .of_refused (v := 0) ?_ h fun r' i => if_neg fun hw => h hw.1
    rw [apply, Profile.setReg, show Profile.chkR r = false from decide_eq_false h]
    rfl

theorem getBit_obeys (p : Profile) (r b : Nat) : (getBit r b).Obeys p := by
  by_cases h : r < 60 ∧ b ≤ 7
  · have he := p.getBit_bit h.1 h.2
    refine .of_read (by rw [apply, he]; rfl) (iff_of_true rfl h) (fun _ _ => rfl) ?_
    rintro _ _ _ ⟨⟩ - j
    cases j with
    | zero => cases p.bit r b <;> rfl
    | succ j =>
      rw [decide_eq_false (by omega), Bool.false_and]
      cases p.bit r b <;> simp
  · refine .of_refused (v := 0) ?_ h fun _ _ => rfl
    rw [apply, Profile.getBit, Bool.eq_false_iff.mpr (mt Profile.chkRB_iff.mp h)]
    rfl

theorem getReg_obeys (p : Profile) (r : Nat) : (getReg r).Obeys p := by
  by_cases h : r < 60
  · obtain ⟨v, he, hbit⟩ := p.getReg_bit h
    refine .of_read (by rw [apply, he]; rfl) (iff_of_true rfl h) (fun _ _ => rfl) ?_
    rintro _ _ _ ⟨⟩ - j
    rw [hbit, Nat.zero_add]
    rcases Nat.lt_or_ge j 8 with hj | hj
    · rw [decide_eq_true hj, Bool.true_and]
    · rw [Profile.bit_ge hj, Bool.and_false]
  · refine .of_refused (v := 0) ?_ h fun _ _ => rfl
    rw [apply, Profile.getReg, show Profile.chkR r = false from decide_eq_false h]
    rfl

theorem getBits_obeys (p : Profile) (r bl bh : Nat) : (getBits r bl bh).Obeys p := by
  by_cases h : r < 60 ∧ bl ≤ 7 ∧ bh ≤ 7 ∧ bl ≤ bh
  · obtain ⟨v, he, hbit⟩ := p.getBits_bit h.1 h.2.1 h.2.2.1 h.2.2.2
    refine .of_read (by rw [apply, he]; rfl) (iff_of_true rfl h) (fun _ _ => rfl) ?_
    rintro _ _ _ ⟨⟩ - j
    exact hbit j
  · refine .of_refused (v := 0) ?_ h fun _ _ => rfl
    rw [apply, Profile.getBits, Bool.eq_false_iff.mpr (mt Profile.chkRBB_iff.mp h)]
    rfl

theorem setVoiceProfile_obeys (p q : Profile) : (setVoiceProfile q).Obeys p := by
  have hmem : ∀ r, r ∈ List.range' minRegVoice (profileSize - minRegVoice) ↔ 50 ≤ r ∧ r < 60 := fun r =>
    List.mem_range'_1
  obtain ⟨p', he, hbit⟩ := p.copyRegs_bit (q := q) fun r hr => ((hmem r).mp hr).2
  refine .of_write (q := p') (by rw [apply, Profile.setVoiceProfile, he]; rfl) (iff_of_true rfl trivial) rfl ?_
  intro r i
  rw [hbit, writes]
  simp only [hmem]
  split <;> rfl

/-- The cleared register is what is asked for only if nothing is to stay in it and nothing to come. -/
theorem setBits_obeys_iff (p : Profile) (r bl bh : Nat) (v : Byte) :
    (setBits r bl bh v).Obeys p ↔ (setBits r bl bh v).Meets p := by
  by_cases h : r < 60 ∧ bl ≤ 7 ∧ bh ≤ 7 ∧ bl ≤ bh
  · obtain ⟨p', he, hbit⟩ := p.setBits_bit (v := v) h.1 h.2.1 h.2.2.1 h.2.2.2
    have hwrite : ∀ i, (setBits r bl bh v).writes r i =
        if bl ≤ i ∧ i ≤ bh then some (v.getLsbD (i - bl)) else none := fun i => by simp [writes, h]
    constructor
    · rintro ⟨ok, val, p₂, hp, -, hw, -⟩ -
      rw [apply, he] at hp
      cases hp
      have hz : ∀ i, false = ((setBits r bl bh v).writes r i).getD (p.bit r i) := fun i => by
        rw [← hw, hbit, if_pos rfl]
      refine ⟨fun i hl hh => ?_, fun i hi => ?_⟩
      · have hzi := hz i
        rw [hwrite, if_pos ⟨hl, hh⟩] at hzi
        exact hzi.symm
      · have hzi := hz i
        rw [hwrite, if_neg hi] at hzi
        exact hzi.symm
    · intro hm
      obtain ⟨hval, hrest⟩ := hm h
      refine .of_write (q := p') (by rw [apply, he]; rfl) (iff_of_true rfl h) rfl fun r' i => ?_
      rw [hbit]
      by_cases hr : r' = r
      · subst hr
        rw [if_pos rfl, hwrite]
        by_cases hi : bl ≤ i ∧ i ≤ bh
        · rw [if_pos hi, hval i hi.1 hi.2]
          rfl
        · rw [if_neg hi, hrest i hi]
          rfl
      · rw [if_neg hr, writes, if_neg fun hw => hr hw.2.1, Option.getD_none]
  · refine iff_of_true (.of_refused (v := 0) ?_ h fun r' i => if_neg fun hw => h hw.1) fun hin => absurd hin h
    rw [apply, Profile.setBits, Bool.eq_false_iff.mpr (mt Profile.chkRBB_iff.mp h)]
    rfl

theorem obeys_iff (p : Profile) (op : ProfileOp) : op.Obeys p ↔ op.Meets p := by
  cases op with
  | setBit r b x => exact iff_of_true (setBit_obeys p r b x) trivial
  | setReg r v => exact iff_of_true (setReg_obeys p r v) trivial
  | setBits r bl bh v => exact setBits_obeys_iff p r bl bh v
  | getBit r b => exact iff_of_true (getBit_obeys p r b) trivial
  | getReg r => exact iff_of_true (getReg_obeys p r) trivial
  | getBits r bl bh => exact iff_of_true (getBits_obeys p r bl bh) trivial
  | setVoiceProfile q => exact iff_of_true (setVoiceProfile_obeys p q) trivial
  | assign q =>
    refine iff_of_false ?_ id
    rintro ⟨ok, val, p', hp, -⟩
    rw [apply, Profile.assign_none] at hp
    cases hp

end ProfileOp

namespace Profile

variable {p p₁ p₂ : Profile} {ops done : List ProfileOp} {op : ProfileOp} {r i : Nat}

/-- What was written last to a bit. -/
def written (ops : List ProfileOp) (r i : Nat) : Option Bool :=
  ops.foldl (fun w op => (op.writes r i).or w) none

/-- Every operation of the list stays inside the array, is refused if it is out of range and there alone,
reads what was written last and leaves in every bit what was written last to it. -/
def Lawful (p : Profile) (ops : List ProfileOp) : Prop :=
  ∀ done op rest, ops = done ++ op :: rest →
    ∃ ok val p₁ p₂, p.applyAll done = some p₁ ∧ op.apply p₁ = some (ok, val, p₂) ∧ (ok = true ↔ op.InRange) ∧
      (∀ r i, p₂.bit r i = (written (done ++ [op]) r i).getD (p.bit r i)) ∧
      ∀ r lo w, op.reads = some (r, lo, w) → op.InRange →
        ∀ j, val.getLsbD j = (decide (j < w) && (written done r (lo + j)).getD (p.bit r (lo + j)))

/-- Every operation of the list meets its condition where it is made. -/
def Careful (p : Profile) (ops : List ProfileOp) : Prop :=
  ∀ done op rest p₁, ops = done ++ op :: rest → p.applyAll done = some p₁ → op.Meets p₁

theorem written_snoc : written (ops ++ [op]) r i = (op.writes r i).or (written ops r i) := by
  rw [written, List.foldl_append]
  rfl

theorem applyAll_snoc (h : p.applyAll ops = some p₁) :
    p.applyAll (ops ++ [op]) = (op.apply p₁).map fun x => x.2.2 := by
  rw [applyAll] at h ⊢
  rw [List.foldlM_append, h]
  simp

theorem getD_or {a b : Option Bool} {c : Bool} : (a.or b).getD c = a.getD (b.getD c) := by
  cases a <;> rfl

/-- Operations that do as they are told leave what was written last. -/
theorem Careful.state (h : p.Careful ops) {rest : List ProfileOp} (hd : ops = done ++ rest) :
    ∃ p₁, p.applyAll done = some p₁ ∧ ∀ r i, p₁.bit r i = (written done r i).getD (p.bit r i) := by
  induction done using List.reverseRecOn generalizing rest with
  | nil => exact ⟨p, rfl, fun _ _ => rfl⟩
  | append_singleton done op ih =>
    have hsplit : ops = done ++ op :: rest := by simpa using hd
    obtain ⟨p₁, hp₁, hbit₁⟩ := ih hsplit
    obtain ⟨ok, val, p₂, hp₂, -, hbit₂, -⟩ := (ProfileOp.obeys_iff p₁ op).mpr (h done op rest p₁ hsplit hp₁)
    refine ⟨p₂, by rw [applyAll_snoc hp₁, hp₂, Option.map_some], fun r i => ?_⟩
    rw [hbit₂, hbit₁, written_snoc, getD_or]

theorem Lawful.state (h : p.Lawful ops) {rest : List ProfileOp} (hd : ops = done ++ rest)
    (hp : p.applyAll done = some p₁) (r i : Nat) : p₁.bit r i = (written done r i).getD (p.bit r i) := by
  rcases List.eq_nil_or_concat' done with rfl | ⟨done, op, rfl⟩
  · cases hp
    rfl
  · obtain ⟨ok, val, p₂, p₃, hp₂, hp₃, -, hbit, -⟩ := h done op rest (by simpa using hd)
    rw [applyAll_snoc hp₂, hp₃] at hp
    cases hp
    exact hbit r i

/-- The register file keeps its law, but for the assignment of a whole profile, which goes past the end
of both arrays, and for `SetBits`, which clears the whole register. -/
theorem lawful_iff (p : Profile) (ops : List ProfileOp) : p.Lawful ops ↔ p.Careful ops := by
  constructor
  · intro h done op rest p₁ hd hp
    obtain ⟨ok, val, p₂, p₃, hp₂, hp₃, hok, hbit, hread⟩ := h done op rest hd
    cases hp.symm.trans hp₂
    have hstate := h.state hd hp
    refine (ProfileOp.obeys_iff p₁ op).mp ⟨ok, val, p₃, hp₃, hok, fun r i => ?_, fun r lo w hr hin j => ?_⟩
    · rw [hbit, written_snoc, getD_or, hstate]
    · rw [hread r lo w hr hin, hstate]
  · intro h done op rest hd
    obtain ⟨p₁, hp₁, hbit₁⟩ := h.state hd
    obtain ⟨ok, val, p₂, hp₂, hok, hbit₂, hread⟩ := (ProfileOp.obeys_iff p₁ op).mpr (h done op rest p₁ hd hp₁)
    refine ⟨ok, val, p₁, p₂, hp₁, hp₂, hok, fun r i => ?_, fun r lo w hr hin j => ?_⟩
    · rw [hbit₂, hbit₁, written_snoc, getD_or]
    · rw [hread r lo w hr hin, hbit₁]

/-- After `AT&H1` the three bits of register 27 read as zero, and `AT&F` writes behind the array. -/
theorem init_unlawful :
    ∃ p, init = some p ∧ ¬p.Lawful [.setBits 27 3 5 1] ∧ ¬p.Lawful [.assign p] := by
  obtain ⟨p, hp⟩ := Option.isSome_iff_exists.mp (by decide : init.isSome = true)
  refine ⟨p, hp, fun h => ?_, fun h => ?_⟩
  · obtain ⟨ok, val, p₁, p₂, hp₁, hp₂, -, hbit, -⟩ := h [] _ [] rfl
    obtain ⟨p', hp', hclear⟩ := p₁.setBits_bit (v := 1) (show 27 < 60 by decide) (show 3 ≤ 7 by decide)
      (show 5 ≤ 7 by decide) (by decide)
    rw [ProfileOp.apply, hp'] at hp₂
    cases hp₂
    have hset : written ([] ++ [ProfileOp.setBits 27 3 5 1]) 27 3 = some true := by decide
    have hbit₃ := hbit 27 3
    rw [hclear, hset] at hbit₃
    cases hbit₃
  · obtain ⟨ok, val, p₁, p₂, -, hp₂, -⟩ := h [] _ [] rfl
    rw [ProfileOp.apply, assign_none] at hp₂
    cases hp₂

end Profile

end T38Modem
