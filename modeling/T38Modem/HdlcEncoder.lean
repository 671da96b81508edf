import T38Modem.HdlcLine
import T38Modem.Machine

namespace T38Modem

open BitList BitStuffing

/-- A complete frame in a buffer of its own. -/
def frameBuf (f : List Byte) : DataStream := { data := f, eof := true }

/-- An `HDLC` object that makes a raw stream of frames: `left` are those not yet drained, the one
in work first, and `raw` is the stream so far. -/
structure Encoder where
  hdlc : Hdlc
  inp : DataStream
  left : List (List Byte)
  raw : List Byte

namespace Encoder

/-- `PutHdlcData` and `GetRawStart` for the next frame. -/
def begin (h : Hdlc) (flags : Nat) (raw : List Byte) : List (List Byte) → Encoder
  | [] => ⟨h, {}, [], raw⟩
  | f :: fs => ⟨(h.putHdlcData 0).getRawStart flags, frameBuf f, f :: fs, raw⟩

def start (junk : Hdlc) (flags : Nat) (fs : List (List Byte)) : Encoder := begin (Hdlc.new junk) flags [] fs

/-- `GetData` with room for `n` octets. After -1 the next frame begins. -/
def get (e : Encoder) (n : Nat) : Encoder :=
  match e.left with
  | [] => e
  | _ :: fs =>
    match e.hdlc.getData e.inp n with
    | (some bs, h, inp) => { e with hdlc := h, inp := inp, raw := e.raw ++ bs }
    | (none, h, _) => begin h 0 e.raw fs

def machine : Machine Encoder Nat Unit := ⟨fun e n => some (e.get n, [])⟩

end Encoder

/-- The number of reads that ask for anything. -/
def asked (ns : List Nat) : Nat := ns.countP (0 < ·)

/-- All the bits of a stream of frames. -/
def streamBits (fs : List (List Byte)) : List Bool := fs.flatMap (frameBits · 0)

namespace Encoder

/-- The bits the encoder puts out in front of the frames: the flags, if there is a frame at all. -/
def leadBits (flags : Nat) (fs : List (List Byte)) : List Bool :=
  if fs = [] then [] else BitStuffing.flags flags

/-- What is put out and what is to come are together the flags and the frames. -/
inductive Sending (all : List Bool) (e : Encoder) : Prop
  | busy (f : List Byte) (fs : List (List Byte)) (left : e.left = f :: fs) (encoding : e.hdlc.Encoding)
      (line : octetBits e.raw ++ e.hdlc.line e.inp.data 0 ++ streamBits fs = all)
      (eof : e.inp.eof = true) (diag : e.inp.diag = 0)
  | done (left : e.left = []) (len : e.hdlc.rawByteLen < 8)
      (line : octetBits e.raw ++ lowBits e.hdlc.rawByte e.hdlc.rawByteLen = all)

@[simp] theorem begin_left (h : Hdlc) (flags : Nat) (raw : List Byte) (fs : List (List Byte)) :
    (begin h flags raw fs).left = fs := by
  cases fs <;> rfl

@[simp] theorem begin_raw (h : Hdlc) (flags : Nat) (raw : List Byte) (fs : List (List Byte)) :
    (begin h flags raw fs).raw = raw := by
  cases fs <;> rfl

@[simp] theorem leadBits_zero (fs : List (List Byte)) : leadBits 0 fs = [] := by
  simp [leadBits]

theorem begin_sending {h : Hdlc} (hl : h.rawByteLen < 8) (ho : h.rawOnes = 0) (flags : Nat)
    (raw : List Byte) (fs : List (List Byte)) :
    Sending (octetBits raw ++ lowBits h.rawByte h.rawByteLen ++
      leadBits flags fs ++ streamBits fs) (begin h flags raw fs) := by
  cases fs with
  | nil => exact .done rfl hl (by simp [streamBits, leadBits, begin])
  | cons f fs =>
    obtain ⟨he, -, -, hline⟩ := Hdlc.getRawStart_line hl ho 0 flags
    refine .busy f fs rfl he ?_ rfl rfl
    simp [begin, frameBuf, hline, streamBits, leadBits]

/-- A read leaves the stream as a whole alone, and one that asks for octets brings it on. -/
theorem get_sending {all : List Bool} {e : Encoder} (hs : Sending all e) (n : Nat) :
    Sending all (e.get n) ∧ (e.get n).left.length + e.raw.length +
      (if 0 < n ∧ e.left ≠ [] then 1 else 0) ≤ (e.get n).raw.length + e.left.length := by
  rcases hs with ⟨f, fs, hleft, he, hline, heof, hdiag⟩ | ⟨hleft, hl, hline⟩
  · have hgd : e.hdlc.getData e.inp n = e.hdlc.getRawData e.inp n := by
      simp only [Hdlc.getData, he.outType]
    obtain ⟨new, hread, hres⟩ := Hdlc.getRawData_reads he e.inp n
    unfold get
    rw [hleft, hgd]
    have hall := hread.line [] e.inp.diag (fun _ _ => ⟨rfl, rfl⟩)
    rw [List.append_nil, List.append_nil, hdiag] at hall
    have hsame := hread.same
    have hend := hread.encoding.detached
    have hshort := hread.short
    generalize e.hdlc.getRawData e.inp n = r at hread hres hall hsame hend hshort
    obtain ⟨res, g, i⟩ := r
    rw [List.nil_append] at hres
    dsimp only at hres hall hsame hend hshort
    cases res with
    | some bs =>
      have hnew : bs = new := by
        simp only [Hdlc.rawResult] at hres
        split at hres
        · cases hres
        · exact Option.some.inj hres
      refine ⟨.busy f fs rfl hread.encoding ?_ (hsame.1.trans heof) (hsame.2.1.trans hdiag), ?_⟩
      · rw [octetBits_append, hnew, List.append_assoc (octetBits e.raw), hall, hline]
      · have hgrow : 0 < n → 0 < bs.length := fun h0 => by
          by_contra hnil
          have hb : new.length < n := by
            rw [← hnew]
            omega
          obtain ⟨hd, hi⟩ := hshort hb
          have hin : g.inData = none := by
            by_contra hin
            simp [heof] at hi
            exact hin hi
          simp [Hdlc.rawResult, ← hnew, List.length_pos_iff.not_left.mp hnil, hin, hd] at hres
        simp only [List.length_append, List.length_cons]
        split
        next h0 =>
          have := hgrow h0.1
          omega
        next => omega
    | none =>
      have hnone : new = [] ∧ g.inData = none ∧ g.outData.data = [] := by
        simp only [Hdlc.rawResult] at hres
        split at hres
        next h0 => exact h0
        next => cases hres
      obtain ⟨rfl, hin, hd⟩ := hnone
      refine ⟨?_, by simp only [begin_left, begin_raw, List.length_cons]; split <;> omega⟩
      have hb := begin_sending hread.encoding.len (hend hin).2 0 e.raw fs
      convert hb using 1
      rw [← hline, ← hall, Hdlc.line_detached hin]
      simp [Hdlc.sentBits, hd]
  · have hg : e.get n = e := by
      unfold get
      rw [hleft]
    rw [hg]
    exact ⟨.done hleft hl hline, by simp [hleft]⟩

theorem run_sending {junk : Hdlc} {flags : Nat} {fs : List (List Byte)} {ns : List Nat} {es : List Unit}
    {e : Encoder} (hr : machine.Run (fun _ _ => True) (start junk flags fs) ns es e) :
    Sending (leadBits flags fs ++ streamBits fs) e ∧
      (e.left = [] ∨ asked ns + e.left.length ≤ e.raw.length + fs.length) := by
  induction hr with
  | start =>
    have hb := begin_sending (h := Hdlc.new junk) (by simp [Hdlc.new]) rfl flags [] fs
    exact ⟨by simpa [Hdlc.new, lowBits, start] using hb, .inr (by simp [start, asked])⟩
  | @next ns es e n e' es' _ _ hstep ih =>
    obtain ⟨hs, hcount⟩ := ih
    have he : e' = e.get n := by
      simp only [machine, Option.some.injEq, Prod.mk.injEq] at hstep
      exact hstep.1.symm
    obtain ⟨hs', hprog⟩ := get_sending hs n
    subst he
    refine ⟨hs', ?_⟩
    have hask : asked (ns ++ [n]) = asked ns + if 0 < n then 1 else 0 := by
      by_cases h0 : 0 < n <;> simp [asked, h0]
    rcases hcount with hl | hc
    · exact .inl (by simp [get, hl])
    · by_cases hl : e.left = []
      · exact .inl (by simp [get, hl])
      · right
        simp only [hl, ne_eq, not_false_eq_true, and_true] at hprog
        omega

/-- What is put out never exceeds the stream. -/
theorem Sending.length {all : List Bool} {e : Encoder} (hs : Sending all e) : e.raw.length ≤ all.length := by
  rcases hs with ⟨f, fs, -, -, hline, -, -⟩ | ⟨-, -, hline⟩
  · simp [← hline]
    omega
  · simp [← hline]
    omega

/-- Enough reads that ask for octets drain all the frames. -/
theorem run_done {junk : Hdlc} {flags : Nat} {fs : List (List Byte)} {ns : List Nat} {es : List Unit}
    {e : Encoder} (hr : machine.Run (fun _ _ => True) (start junk flags fs) ns es e)
    (hn : (leadBits flags fs ++ streamBits fs).length + fs.length < asked ns) : e.left = [] := by
  obtain ⟨hs, hl | hc⟩ := run_sending hr
  · exact hl
  · have := hs.length
    omega

end Encoder

end T38Modem
