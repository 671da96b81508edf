import Mathlib.Data.List.Basic

namespace T38Modem

abbrev Byte := BitVec 8
abbrev Word := BitVec 16
abbrev DWord := BitVec 32

/-- The diagnostics of a received signal, an `int` used as a set of bits. -/
abbrev Diag := BitVec 32

def diagNoCarrier : Diag := 0x0001
def diagOutOfOrder : Diag := 0x0100
def diagDiffSig : Diag := 0x0400
def diagBadFcs : Diag := 0x0800
def diagError : Diag := 0x8000
def diagErrorMask : Diag := 0xFF00

inductive DataType where
  | dtNone | dtRing | dtBusy | dtCed | dtCng | dtSilence | dtHdlc | dtRaw
  deriving DecidableEq, Repr, Inhabited

/-- A stream of bytes. The chunks it is kept in are not seen from outside: `busy` is the length of
`data`. -/
structure DataStream where
  data : List Byte := []
  threshold : Nat := 0
  eof : Bool := false
  diag : Diag := 0
  deriving DecidableEq, Repr, Inhabited

namespace DataStream

/-- The number of bytes taken, or `none` for the result -1. -/
def putData (s : DataStream) (bs : List Byte) : Option Nat × DataStream :=
  if s.eof then (none, s) else (some bs.length, { s with data := s.data ++ bs })

/-- The bytes put into the caller's buffer, or `none` for the result -1. -/
def getData (s : DataStream) (count : Nat) : Option (List Byte) × DataStream :=
  if s.data = [] then
    if s.eof then (none, s) else (some [], s)
  else (some (s.data.take count), { s with data := s.data.drop count })

def putEof (s : DataStream) : DataStream := { s with eof := true }

def setDiag (s : DataStream) (diag : Diag) : DataStream := { s with diag := diag }

def isFull (s : DataStream) : Bool := s.threshold != 0 && s.threshold < s.data.length

/-- The threshold belongs to the object and is not cleaned. -/
def clean (s : DataStream) : DataStream := { threshold := s.threshold }

variable {s s' : DataStream} {bs : List Byte} {n : Nat}

@[simp] theorem putData_open (h : s.eof = false) :
    s.putData bs = (some bs.length, { s with data := s.data ++ bs }) := by
  simp [putData, h]

@[simp] theorem putData_closed (h : s.eof = true) : s.putData bs = (none, s) := by
  simp [putData, h]

theorem putData_eof : (s.putData bs).2.eof = s.eof := by
  unfold putData
  split <;> rfl

theorem getData_eof : (s.getData n).2.eof = s.eof := by
  unfold getData
  split
  next => split <;> rfl
  next => rfl

theorem getData_diag : (s.getData n).2.diag = s.diag := by
  unfold getData
  split
  next => split <;> rfl
  next => rfl

theorem getData_threshold : (s.getData n).2.threshold = s.threshold := by
  unfold getData
  split
  next => split <;> rfl
  next => rfl

theorem getData_same (s : DataStream) (n : Nat) :
    (s.getData n).2.eof = s.eof ∧ (s.getData n).2.diag = s.diag ∧
      (s.getData n).2.threshold = s.threshold :=
  ⟨getData_eof, getData_diag, getData_threshold⟩

/-- The result -1 is given on the empty closed stream and there alone. -/
theorem getData_none : (s.getData n).1 = none ↔ s.data = [] ∧ s.eof = true := by
  unfold getData
  split
  next hd => split <;> simp_all
  next hd => simp [hd]

theorem getData_none_state (h : (s.getData n).1 = none) : (s.getData n).2 = s := by
  obtain ⟨hd, he⟩ := getData_none.mp h
  simp [getData, hd, he]

/-- What is read and what stays are together what was pending. -/
theorem getData_some (h : (s.getData n).1 = some bs) :
    bs ++ (s.getData n).2.data = s.data ∧ bs.length ≤ n := by
  unfold getData at h ⊢
  split at h
  next hd =>
    split at h
    next => cases h
    next he =>
      cases Option.some.inj h
      simp [hd, he]
  next hd =>
    cases Option.some.inj h
    rw [if_neg hd]
    exact ⟨List.take_append_drop n s.data, List.length_take_le n s.data⟩

theorem getData_rest (h : (s.getData n).1 = some bs) :
    ∃ rest, s.data = bs ++ rest ∧ s.getData n = (some bs, { s with data := rest }) := by
  obtain ⟨heof, hdiag, hthr⟩ := getData_same s n
  obtain ⟨hsplit, -⟩ := getData_some h
  refine ⟨_, hsplit.symm, Prod.ext h ?_⟩
  rw [← heof, ← hdiag, ← hthr]

/-- Nothing is read, though room is left, from the empty open stream alone. -/
theorem getData_some_nil (hn : 0 < n) (h : (s.getData n).1 = some []) :
    s.data = [] ∧ s.eof = false := by
  unfold getData at h
  split at h
  next hd =>
    split at h
    next => cases h
    next he => exact ⟨hd, by simpa using he⟩
  next hd =>
    rcases List.take_eq_nil_iff.mp (Option.some.inj h) with h0 | h0
    · omega
    · exact absurd h0 hd

/-- Less is read than asked for only when nothing stays. -/
theorem getData_short (h : (s.getData n).1 = some bs) (hn : bs.length < n) :
    (s.getData n).2.data = [] := by
  unfold getData at h ⊢
  split at h
  next hd => split at h <;> simp_all
  next hd =>
    cases Option.some.inj h
    simp only [List.length_take] at hn
    simp only [if_neg hd, List.drop_eq_nil_iff]
    omega

end DataStream

end T38Modem
