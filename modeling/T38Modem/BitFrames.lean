import T38Modem.BitList
import T38Modem.BitStuffing

namespace BitStuffing

variable {xs ys acc : List Bool} {k : Nat}

/-- The bits in front of each flag, zero-bit deletion done. Of the flag found last `skip` bits are still to be passed, and
`acc` are the bits since. -/
def pieces : Nat → Nat → List Bool → List Bool → List (List Bool)
  | _, _, _, [] => []
  | skip + 1, ones, acc, _ :: rest => pieces skip ones acc rest
  | 0, ones, acc, b :: rest =>
    if (b :: rest).take 8 = flag then acc :: pieces 7 0 [] rest
    else pieces 0 (nextOnes ones b) (destuffBit ones acc b) rest

/-- The frames on a line: what stands between two flags, of which there may be more than one between two frames. -/
def deframe (xs : List Bool) : List (List Bool) := (pieces 0 0 [] xs).tail.filter (· ≠ [])

theorem pieces_skip (n ones : Nat) (acc xs : List Bool) : pieces n ones acc xs = pieces 0 ones acc (xs.drop n) := by
  induction xs generalizing n with
  | nil => cases n <;> rfl
  | cons b xs ih =>
    cases n with
    | zero => rfl
    | succ n => exact ih n

theorem pieces_found {ones : Nat} {a rest : List Bool} (h : scan ones acc xs = .found a rest) :
    pieces 0 ones acc xs = a :: pieces 0 0 [] rest := by
  induction xs generalizing ones acc with
  | nil => cases h
  | cons b xs ih =>
    rw [scan] at h
    rw [pieces]
    split at h
    next => cases h
    next =>
      split at h
      next hf =>
        obtain ⟨rfl, rfl⟩ := Scan.found.inj h
        rw [if_pos hf, pieces_skip]
      next hf =>
        rw [if_neg hf]
        exact ih h

theorem pieces_short {ones : Nat} (h : xs.length < 8) : pieces 0 ones acc xs = [] := by
  induction xs generalizing ones acc with
  | nil => rfl
  | cons b xs ih =>
    have hlen : ((b :: xs).take 8).length < flag.length := by
      simp only [List.length_take, List.length_cons, flag] at h ⊢
      omega
    have hne : (b :: xs).take 8 ≠ flag := fun he => by
      rw [he] at hlen
      omega
    rw [pieces, if_neg hne]
    refine ih ?_
    simp only [List.length_cons] at h
    omega

/-- What has been found stays, whatever comes behind it. -/
theorem pieces_append (n ones : Nat) (acc xs ys : List Bool) : pieces n ones acc xs <+: pieces n ones acc (xs ++ ys) := by
  induction xs generalizing n ones acc with
  | nil => exact List.nil_prefix
  | cons b xs ih =>
    cases n with
    | succ n => exact ih n ones acc
    | zero =>
      rw [List.cons_append, pieces, pieces]
      by_cases hl : (b :: xs).length < 8
      · have hs : pieces 0 ones acc (b :: xs) = [] := pieces_short hl
        rw [pieces] at hs
        rw [hs]
        exact List.nil_prefix
      · have ht : (b :: (xs ++ ys)).take 8 = (b :: xs).take 8 := by
          rw [← List.cons_append, List.take_append_of_le_length (by omega)]
        rw [ht]
        split
        · exact List.cons_prefix_cons.mpr ⟨rfl, ih 7 0 []⟩
        · exact ih 0 _ _

theorem deframe_append (xs ys : List Bool) : deframe xs <+: deframe (xs ++ ys) := by
  have hp := pieces_append 0 0 [] xs ys
  have htail : (pieces 0 0 [] xs).tail <+: (pieces 0 0 [] (xs ++ ys)).tail := by
    obtain ⟨more, hmore⟩ := hp
    cases hx : pieces 0 0 [] xs with
    | nil => exact List.nil_prefix
    | cons x rest =>
      rw [hx] at hmore
      rw [← hmore]
      exact List.prefix_append rest more
  exact htail.filter _

theorem pieces_flag (rest : List Bool) : pieces 0 0 [] (flag ++ rest) = [] :: pieces 0 0 [] rest :=
  pieces_found (scan_flag 0 [] rest)

theorem pieces_flags (n : Nat) (rest : List Bool) :
    pieces 0 0 [] (flags n ++ rest) = List.replicate n [] ++ pieces 0 0 [] rest := by
  induction n with
  | zero => rfl
  | succ n ih => rw [flags_succ_append, pieces_flag, ih, List.replicate_succ, List.cons_append]

theorem pieces_stuff (xs rest : List Bool) :
    pieces 0 0 [] (stuff 0 xs ++ flag ++ rest) = xs :: pieces 0 0 [] rest := by
  refine pieces_found ?_
  rw [scan_stuff (by omega), List.nil_append]

/-- A line of frames, each of them with a flag behind it and one more in front of the next, or of what is `last`. -/
def frameLine (n : Nat) (fs : List (List Bool)) (last : List Bool) : List Bool :=
  flags n ++ (fs.flatMap fun x => stuff 0 x ++ flag ++ flag) ++ last

theorem pieces_frames (fs : List (List Bool)) (rest : List Bool) :
    pieces 0 0 [] ((fs.flatMap fun x => stuff 0 x ++ flag ++ flag) ++ rest) =
      (fs.flatMap fun x => [x, []]) ++ pieces 0 0 [] rest := by
  induction fs with
  | nil => rfl
  | cons x fs ih =>
    rw [List.flatMap_cons, List.flatMap_cons, List.append_assoc, List.append_assoc (stuff 0 x ++ flag), pieces_stuff,
      pieces_flag, ih]
    rfl

/-- The frames are found on the line as they are. -/
theorem deframe_frameLine {n : Nat} (hn : 0 < n) {fs : List (List Bool)} (hne : ∀ x ∈ fs, x ≠ []) (last : List Bool) :
    deframe (frameLine n fs last) = fs ++ (pieces 0 0 [] last).filter (· ≠ []) := by
  obtain ⟨m, rfl⟩ := Nat.exists_eq_succ_of_ne_zero (Nat.pos_iff_ne_zero.mp hn)
  have hfs : (fs.flatMap fun x => [x, []]).filter (· ≠ []) = fs := by
    induction fs with
    | nil => rfl
    | cons x fs ih =>
      obtain ⟨hx, hfs⟩ := List.forall_mem_cons.mp hne
      rw [List.flatMap_cons, List.filter_append, ih hfs]
      simp [hx]
  unfold deframe frameLine
  rw [List.append_assoc, pieces_flags, pieces_frames, List.replicate_succ, List.cons_append, List.tail_cons,
    List.filter_append, List.filter_append, hfs]
  simp

end BitStuffing

namespace BitList

/-- An octet of eight bits, the high one first. -/
def octet (b₇ b₆ b₅ b₄ b₃ b₂ b₁ b₀ : Bool) : BitVec 8 := BitVec.ofBoolListBE [b₇, b₆, b₅, b₄, b₃, b₂, b₁, b₀]

theorem octet_lowBits (b : BitVec 8) : octet (b.getLsbD 7) (b.getLsbD 6) (b.getLsbD 5) (b.getLsbD 4) (b.getLsbD 3)
    (b.getLsbD 2) (b.getLsbD 1) (b.getLsbD 0) = b := by
  have hall : ∀ b : BitVec 8, octet (b.getLsbD 7) (b.getLsbD 6) (b.getLsbD 5) (b.getLsbD 4) (b.getLsbD 3)
      (b.getLsbD 2) (b.getLsbD 1) (b.getLsbD 0) = b := by decide
  exact hall b

/-- The octets of a string of bits; bits that are no whole octet are left out. -/
def readOctets : List Bool → List (BitVec 8)
  | b₇ :: b₆ :: b₅ :: b₄ :: b₃ :: b₂ :: b₁ :: b₀ :: rest => octet b₇ b₆ b₅ b₄ b₃ b₂ b₁ b₀ :: readOctets rest
  | _ => []

theorem readOctets_octetBits (bs : List (BitVec 8)) : readOctets (octetBits bs) = bs := by
  induction bs with
  | nil => rfl
  | cons b bs ih => exact congrArg₂ List.cons (octet_lowBits b) ih

end BitList
