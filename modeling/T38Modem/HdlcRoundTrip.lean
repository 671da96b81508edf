import T38Modem.HdlcEncoder
import T38Modem.HdlcFrames

namespace T38Modem

open BitList BitStuffing

/-- An `HDLC` object that reads a raw stream of frames: `fed` is what has been put in its input so
far, `got` are the octets of the frame in work and `frames` those read, with `isFcsOK` for each. -/
structure Decoder where
  hdlc : Hdlc
  inp : DataStream
  fed : List Byte
  got : List Byte
  frames : List (List Byte × Bool)

namespace Decoder

inductive Act where
  | put (bs : List Byte)
  | eof
  | get (n : Nat)

def start (junk : Hdlc) : Decoder := ⟨((Hdlc.new junk).putRawData 0).getHdlcStart true, {}, [], [], []⟩

/-- `GetData` with room for `n` octets. After -1 the next frame begins with `GetHdlcStart(FALSE)`. -/
def get (d : Decoder) (n : Nat) : Decoder :=
  match d.hdlc.getData d.inp n with
  | (some bs, h, inp) => { d with hdlc := h, inp := inp, got := d.got ++ bs }
  | (none, h, inp) =>
    { d with hdlc := h.getHdlcStart false, inp := inp, got := [], frames := d.frames ++ [(d.got, h.isFcsOK)] }

def step (d : Decoder) : Act → Option (Decoder × List Unit)
  | .put bs => if d.inp.eof then none else some ({ d with inp := (d.inp.putData bs).2, fed := d.fed ++ bs }, [])
  | .eof => if d.inp.eof then none else some ({ d with inp := d.inp.putEof }, [])
  | .get n => some (d.get n, [])

def machine : Machine Decoder Act Unit := ⟨step⟩

/-- Nothing but the raw stream `raw` is put in the input, and the whole of it before the end. -/
def feeds (raw : List Byte) (d : Decoder) : Act → Prop
  | .put bs => d.fed ++ bs <+: raw
  | .eof => d.fed = raw
  | .get _ => True

/-- The number of reads that ask for anything. -/
def asked (as : List Act) : Nat := as.countP fun a => match a with
  | .get n => 0 < n
  | _ => false

/-- What a reader of the frames gets: each of them with a correct check sequence, and one empty
frame without, when it reads on behind the end. -/
def expected (fs : List (List Byte)) : List (List Byte × Bool) := fs.map (·, true) ++ [([], false)]

/-- The bits between the flags of a frame. -/
def frameInner (f : List Byte) : List Bool := octetBits (f ++ Hdlc.endOctets (Fcs.build {} f) 0)

theorem streamBits_cons (f : List Byte) (fs : List (List Byte)) :
    streamBits (f :: fs) = stuff 0 (frameInner f) ++ flag ++ (flag ++ streamBits fs) := by
  simp [streamBits, frameBits, frameInner]

theorem frameInner_ne (f : List Byte) : frameInner f ≠ [] := by
  intro h
  have := congrArg List.length h
  simp [frameInner, Hdlc.endOctets] at this

/-- Where a reader of the frames `fs` is, when `later` are the bits its `HDLC` object has not got. -/
inductive Serving (fs : List (List Byte)) (later : List Bool) (d : Decoder) : Prop
  | reading (done : List (List Byte)) (f : List Byte) (more : List (List Byte))
      (split : fs = done ++ f :: more) (frames : d.frames = done.map (·, true))
      (bits : Hdlc.Reading (frameInner f) (flag ++ streamBits more) d.hdlc d.got later)
  | trailing (frames : d.frames = fs.map (·, true)) (got : d.got = []) (bits : Hdlc.Trailing d.hdlc later)
  | past (frames : d.frames = expected fs) (got : d.got = [])
      (inType : d.hdlc.inDataType = .dtRaw) (outType : d.hdlc.outDataType = .dtHdlc)
      (detached : d.hdlc.inData = none) (out : d.hdlc.outData.data = []) (open_ : d.hdlc.outData.eof = false)

/-- The bits that are still to come to the `HDLC` object, `tail` being those behind the stream. -/
def later (raw : List Byte) (tail : List Bool) (d : Decoder) : List Bool :=
  octetBits d.inp.data ++ (octetBits (raw.drop d.fed.length) ++ tail)

/-- The octets and the ends of frames a reader has been given. -/
def served (d : Decoder) : Nat := (d.frames.map (·.1.length + 1)).sum + d.got.length

theorem getData_hdlc {h : Hdlc} (ht : h.outDataType = .dtHdlc) (inp : DataStream) (n : Nat) :
    h.getData inp n = h.getHdlcData inp n := by
  simp only [Hdlc.getData, ht]

theorem Serving.next {done : List (List Byte)} {f : List Byte} {more fs : List (List Byte)}
    {later : List Bool} {d : Decoder} {h : Hdlc} {inp : DataStream}
    (hsplit : fs = done ++ f :: more) (hf : f ≠ []) (hframes : d.frames = done.map (·, true))
    (hr : Hdlc.Reading (frameInner f) (flag ++ streamBits more) h d.got later)
    (hs : h.hdlcState = .stEof) (hd : h.outData.data = []) :
    Serving fs later
      { d with hdlc := h.getHdlcStart false, inp := inp, got := [], frames := d.frames ++ [(d.got, h.isFcsOK)] } := by
  obtain ⟨hgot, hlen, hchunk, hbits⟩ := hr.complete hf rfl hs hd
  have hok : h.isFcsOK = true := by
    rw [Hdlc.isFcsOK_iff hlen, hchunk, hr.fcs, hgot]
    exact (Hdlc.endOctets_fcs _ _).mpr (by decide)
  rw [hok, hgot]
  cases more with
  | nil =>
    refine .trailing (by simp [hframes, hsplit]) rfl (hr.last_frame ?_)
    rw [hbits]
    simp [streamBits]
  | cons f' more =>
    refine .reading (done ++ [f]) f' more (by simp [hsplit]) (by simp [hframes]) (hr.next_frame ⟨1, ?_⟩)
    rw [hbits, streamBits_cons, flags_succ, flags_zero, List.append_nil]

/-- A read serves the frames in their order, and one that asks for octets serves more, once the
input has ended. -/
theorem get_serving {fs : List (List Byte)} {rest : List Bool} {d : Decoder} (hne : ∀ f ∈ fs, f ≠ [])
    (hs : Serving fs (octetBits d.inp.data ++ rest) d) (hl : d.inp.eof = true → rest.length < 8) (n : Nat) :
    Serving fs (octetBits (d.get n).inp.data ++ rest) (d.get n) ∧ (d.get n).inp.eof = d.inp.eof ∧
      (d.get n).fed = d.fed ∧ d.served ≤ (d.get n).served ∧
      (0 < n → d.inp.eof = true → (d.get n).frames = expected fs ∨ d.served < (d.get n).served) := by
  rcases hs with ⟨done, f, more, hsplit, hframes, hr⟩ | ⟨hframes, hgot, ht⟩ | ⟨hframes, hgot, hi, ho, hin, hd, hop⟩
  · obtain ⟨new, g, rest', hg, hgr, -, hend⟩ :=
      Hdlc.getHdlcData_reading n hr (frameInner_ne f) (List.prefix_append _ _) hl
    unfold get
    rw [getData_hdlc hr.outType, hg]
    by_cases hnone : new = [] ∧ g.hdlcState = .stEof ∧ g.outData.data = []
    · rw [show Hdlc.hdlcResult new g = none from if_pos hnone]
      obtain ⟨rfl, hst, hd⟩ := hnone
      have hf : f ≠ [] := hne f (by simp [hsplit])
      rw [List.append_nil] at hgr
      exact ⟨Serving.next hsplit hf hframes hgr hst hd, rfl, rfl, by simp [served], fun _ _ => .inr (by simp [served])⟩
    · rw [show Hdlc.hdlcResult new g = some new from if_neg hnone]
      refine ⟨.reading done f more hsplit hframes hgr, rfl, rfl, by simp [served], fun h0 he => .inr ?_⟩
      have hnew : new ≠ [] := fun hnil => by
        rcases hend h0 hnil with hst | hop
        · exact hnone ⟨hnil, hst⟩
        · simp [he] at hop
      have := List.length_pos_iff.mpr hnew
      simp [served]
      omega
  · unfold get
    rw [getData_hdlc ht.outType]
    rcases Hdlc.getHdlcData_trailing n ht with ⟨g, hg, hgt, he⟩ | ⟨g, hg, he, hi, ho, hin, hok⟩
    · rw [hg]
      exact ⟨.trailing hframes (by simpa using hgot) (by simpa using hgt), rfl, rfl, by simp [served],
        fun _ h => by simp [he] at h⟩
    · rw [hg]
      have hstart : g.getHdlcStart false =
          { g with outDataType := .dtHdlc, outData := g.outData.clean, fcs := {}, hdlcChunkLen := 0, rawOnes := 0,
                   hdlcState := .stSkipFlags } := by
        unfold Hdlc.getHdlcStart
        rw [if_pos (by exact hi)]
        rfl
      dsimp only
      rw [hstart]
      exact ⟨.past (by simp [expected, hframes, hgot, hok]) rfl hi rfl hin rfl rfl, rfl, rfl, by simp [served],
        fun _ _ => .inr (by simp [served])⟩
  · have hg : d.hdlc.getHdlcData d.inp n = (some [], d.hdlc, d.inp) := by
      unfold Hdlc.getHdlcData
      split
      case h_1 hi' => cases hi'.symm.trans hi
      case h_3 hi' => exact absurd hi hi'
      rw [if_pos (.inl hin)]
      simp [DataStream.getData, hd, hop]
    unfold get
    rw [getData_hdlc ho, hg]
    exact ⟨.past hframes (by simpa using hgot) hi ho hin hd hop, rfl, rfl, by simp [served],
      fun _ _ => .inl hframes⟩

/-- A reader that has been given a beginning of the stream `raw`, or the whole of it and its end. -/
structure Fed (raw : List Byte) (tail : List Bool) (fs : List (List Byte)) (d : Decoder) : Prop where
  prefix_raw : d.fed <+: raw
  ended : d.inp.eof = true → d.fed = raw
  serving : Serving fs (later raw tail d) d

variable {raw bs : List Byte} {tail : List Bool} {fs : List (List Byte)} {d d' : Decoder} {es : List Unit}

theorem start_fed (junk : Hdlc) {k : Nat} (hk : 0 < k)
    (hraw : octetBits raw ++ tail = Encoder.leadBits k fs ++ streamBits fs) : Fed raw tail fs (start junk) := by
  refine ⟨List.nil_prefix, by simp [start], ?_⟩
  have hlater : later raw tail (start junk) = Encoder.leadBits k fs ++ streamBits fs := by
    simp [later, start, hraw]
  rw [hlater]
  cases fs with
  | nil => exact .trailing rfl rfl (Hdlc.Trailing.no_frame junk 0)
  | cons f more =>
    obtain ⟨m, rfl⟩ := Nat.exists_eq_succ_of_ne_zero (Nat.pos_iff_ne_zero.mp hk)
    refine .reading [] f more rfl rfl (.first_frame junk 0 (n := m) ?_)
    rw [streamBits_cons]
    rfl

theorem later_put (hf : d.fed ++ bs <+: raw) :
    later raw tail d = octetBits (d.inp.data ++ bs) ++ (octetBits (raw.drop (d.fed.length + bs.length)) ++ tail) := by
  obtain ⟨rest, rfl⟩ := hf
  unfold later
  rw [List.append_assoc, List.drop_left, ← List.append_assoc d.fed, ← List.length_append, List.drop_left]
  simp

theorem Serving.input {l : List Bool} (hs : Serving fs l d) (inp : DataStream) (fed : List Byte) :
    Serving fs l { d with inp := inp, fed := fed } := by
  rcases hs with ⟨done, f, more, hsplit, hframes, hr⟩ | ⟨hframes, hgot, ht⟩ | ⟨hframes, hgot, hi, ho, hin, hd, hop⟩
  · exact .reading done f more hsplit hframes hr
  · exact .trailing hframes hgot ht
  · exact .past hframes hgot hi ho hin hd hop

theorem step_fed (hne : ∀ f ∈ fs, f ≠ []) (ht : tail.length < 8) {a : Act} (hf : Fed raw tail fs d)
    (ha : feeds raw d a) (hs : machine.step d a = some (d', es)) : Fed raw tail fs d' := by
  cases a with
  | put bs =>
    simp only [machine, step] at hs
    split at hs
    next => cases hs
    next he =>
      simp only [Option.some.injEq, Prod.mk.injEq] at hs
      obtain ⟨rfl, -⟩ := hs
      have hop : d.inp.eof = false := by simpa using he
      refine ⟨ha, fun h => by simp [hop] at h, ?_⟩
      have hserv := hf.serving
      rw [later_put ha] at hserv
      simpa [later, hop] using hserv.input (d.inp.putData bs).2 (d.fed ++ bs)
  | eof =>
    simp only [machine, step] at hs
    split at hs
    next => cases hs
    next he =>
      simp only [Option.some.injEq, Prod.mk.injEq] at hs
      obtain ⟨rfl, -⟩ := hs
      exact ⟨hf.prefix_raw, fun _ => ha, hf.serving.input d.inp.putEof d.fed⟩
  | get n =>
    simp only [machine, step, Option.some.injEq, Prod.mk.injEq] at hs
    obtain ⟨rfl, -⟩ := hs
    obtain ⟨hserv, heof, hfed, -⟩ := get_serving hne hf.serving (fun he => by simp [hf.ended he, ht]) n
    exact ⟨hfed ▸ hf.prefix_raw, fun he => hfed.trans (hf.ended (heof ▸ he)), by
      rw [later, hfed]
      exact hserv⟩

theorem served_frames (gs : List (List Byte)) (c : Nat) :
    ((gs.map (·, true)).map (fun p : List Byte × Bool => p.1.length + 1)).sum + c ≤
      (gs.map (·.length + 3)).sum + c := by
  induction gs with
  | nil => simp
  | cons g gs ih =>
    simp only [List.map_cons, List.sum_cons]
    omega

theorem Fed.bound (hf : Fed raw tail fs d) :
    d.frames = expected fs ∨ d.served ≤ (fs.map (·.length + 3)).sum := by
  rcases hf.serving with ⟨done, f, more, hsplit, hframes, hr⟩ | ⟨hframes, hgot, -⟩ | ⟨hframes, -⟩
  · right
    have hlen := hr.handed_prefix.length_le
    simp [frameInner, Hdlc.endOctets] at hlen
    have := served_frames done d.got.length
    simp only [served, hframes, hsplit, List.map_append, List.map_cons, List.sum_append, List.sum_cons] at this ⊢
    omega
  · right
    simpa [served, hframes, hgot] using served_frames fs 0
  · exact .inl hframes

/-- The frames that have been read are the first of those expected. -/
theorem Fed.frames_prefix (hf : Fed raw tail fs d) : d.frames <+: expected fs := by
  rcases hf.serving with ⟨done, f, more, hsplit, hframes, -⟩ | ⟨hframes, -⟩ | ⟨hframes, -⟩
  · refine ⟨(f :: more).map (·, true) ++ [([], false)], ?_⟩
    simp [expected, hframes, hsplit]
  · exact ⟨_, by rw [hframes]; rfl⟩
  · exact hframes ▸ List.prefix_refl _

theorem run_fed (hne : ∀ f ∈ fs, f ≠ []) (ht : tail.length < 8) {as : List Act} (hf : Fed raw tail fs d)
    (hr : machine.Run (feeds raw) d as es d') : Fed raw tail fs d' :=
  hr.state_invariant hf fun _ _ _ _ h hok hs => step_fed hne ht h hok hs

theorem get_frames (d : Decoder) (n : Nat) : d.frames <+: (d.get n).frames := by
  unfold get
  split
  next => exact List.prefix_refl _
  next => exact List.prefix_append _ _

/-- Once the input has ended, every read that asks for octets serves some, or all is served. -/
theorem run_served (hne : ∀ f ∈ fs, f ≠ []) (ht : tail.length < 8) {as : List Act} (hf : Fed raw tail fs d)
    (he : d.inp.eof = true) (hr : machine.Run (feeds raw) d as es d') :
    Fed raw tail fs d' ∧ d'.inp.eof = true ∧ (d'.frames = expected fs ∨ asked as ≤ d'.served) := by
  induction hr with
  | start => exact ⟨hf, he, .inr (by simp [asked])⟩
  | @next as es s a s' es' _ hok hs ih =>
    obtain ⟨hfs, hes, hserved⟩ := ih
    have hfs' := step_fed hne ht hfs hok hs
    cases a with
    | put bs => simp [machine, step, hes] at hs
    | eof => simp [machine, step, hes] at hs
    | get n =>
      simp only [machine, step, Option.some.injEq, Prod.mk.injEq] at hs
      obtain ⟨rfl, -⟩ := hs
      obtain ⟨-, heof, -, hle, hlt⟩ :=
        get_serving hne hfs.serving (fun he => by simp [hfs.ended he, ht]) n
      refine ⟨hfs', heof.trans hes, ?_⟩
      rcases hserved with hall | hcount
      · have hp : s.frames <+: (s.get n).frames := s.get_frames n
        rw [hall] at hp
        exact .inl (hfs'.frames_prefix.eq_of_length_le hp.length_le)
      · by_cases h0 : 0 < n
        · rcases hlt h0 hes with hall | hlt
          · exact .inl hall
          · right
            simp only [asked, List.countP_append, List.countP_singleton, h0] at hcount ⊢
            simp
            omega
        · right
          simp only [asked, List.countP_append, List.countP_singleton, h0] at hcount ⊢
          simp
          omega

end Decoder

/-- Frames that one `HDLC` object sends behind `k` flags are read back by another one as they are,
whatever the sizes of the reads are and wherever the raw stream is cut. -/
theorem hdlc_roundTrip (junk junk' : Hdlc) {k : Nat} (hk : 0 < k) {fs : List (List Byte)}
    (hne : ∀ f ∈ fs, f ≠ []) :
    (∃ N, ∀ ns es e, Encoder.machine.Run (fun _ _ => True) (Encoder.start junk k fs) ns es e →
      N ≤ asked ns → e.left = []) ∧
    ∀ ns es e, Encoder.machine.Run (fun _ _ => True) (Encoder.start junk k fs) ns es e → e.left = [] →
      ∀ as es' d, Decoder.machine.Run (Decoder.feeds e.raw) (Decoder.start junk') as es' d →
        d.frames <+: Decoder.expected fs ∧
        ∃ N, d.inp.eof = true → ∀ cs es'' d', Decoder.machine.Run (Decoder.feeds e.raw) d cs es'' d' →
          N ≤ Decoder.asked cs → d'.frames = Decoder.expected fs := by
  refine ⟨⟨_, fun ns es e hr hn => Encoder.run_done hr hn⟩, fun ns es e he hleft as es' d hd => ?_⟩
  obtain ⟨hs, -⟩ := Encoder.run_sending he
  rcases hs with ⟨f, more, hl, -⟩ | ⟨-, hlen, hline⟩
  · simp [hleft] at hl
  · have ht : (lowBits e.hdlc.rawByte e.hdlc.rawByteLen).length < 8 := by simpa using hlen
    have hf := Decoder.run_fed hne ht (Decoder.start_fed junk' hk hline) hd
    refine ⟨hf.frames_prefix, (fs.map (·.length + 3)).sum + 1, fun heof cs es'' d' hr hn => ?_⟩
    obtain ⟨hf', -, hall | hc⟩ := Decoder.run_served hne ht hf heof hr
    · exact hall
    · rcases hf'.bound with hall | hb
      · exact hall
      · omega

/-- Two frames that need stuffing, read three octets at a time on either side and cut in the first flag. -/
theorem two_roundTrip : ∃ ns es e,
    Encoder.machine.Run (fun _ _ => True) (Encoder.start default 1 [[0xff, 0xff], [0x7e, 0x1f]]) ns es e ∧ e.left = [] ∧
      ∃ as es' d, Decoder.machine.Run (Decoder.feeds e.raw) (Decoder.start default) as es' d ∧
        d.frames = [([0xff, 0xff], true), ([0x7e, 0x1f], true), ([], false)] := by
  obtain ⟨⟨N, hN⟩, hdec⟩ := hdlc_roundTrip default default (k := 1) (by decide)
    (show ∀ f ∈ [[0xff, 0xff], [0x7e, 0x1f]], f ≠ [] by decide)
  obtain ⟨es, e, he⟩ : ∃ es e, Encoder.machine.Run (fun _ _ => True) (Encoder.start default 1 [[0xff, 0xff], [0x7e, 0x1f]])
      (List.replicate N 3) es e := Machine.exists_run (fun _ _ _ => ⟨trivial, rfl⟩) _
  have hleft := hN _ es e he (by simp [asked, List.countP_replicate])
  have hput : Decoder.machine.Run (Decoder.feeds e.raw) (Decoder.start default) [.put (e.raw.take 1)] [] _ :=
    .one (List.take_prefix 1 e.raw) rfl
  have hrest := hput.next (a := Decoder.Act.put (e.raw.drop 1))
    (show e.raw.take 1 ++ e.raw.drop 1 <+: e.raw from ⟨[], by rw [List.append_nil, List.take_append_drop]⟩) rfl
  have hfed := hrest.next (a := Decoder.Act.eof) (List.take_append_drop 1 e.raw) rfl
  obtain ⟨-, N', hall⟩ := hdec _ es e he hleft _ _ _ hfed
  have hget : ∀ a ∈ List.replicate N' (Decoder.Act.get 3), ∀ s,
      Decoder.feeds e.raw s a ∧ (Decoder.machine.step s a).isSome = true := fun a ha s => by
    rw [List.eq_of_mem_replicate ha]
    exact ⟨trivial, rfl⟩
  obtain ⟨es', d, hd⟩ := Machine.exists_run hget _
  exact ⟨_, es, e, he, hleft, _, _, d, hfed.trans hd, hall rfl _ es' d hd (by simp [Decoder.asked, List.countP_replicate])⟩

end T38Modem
