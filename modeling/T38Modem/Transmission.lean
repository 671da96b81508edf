import T38Modem.SenderGrammar

namespace T38Modem

def Ifp.fields : Ifp → List DataField
  | .data _ (some fs) => fs
  | _ => []

/-- What the packets of one signal say: the frames closed so far, each with what its check sequence is
to be, and the octets since. -/
structure Heard where
  begun : Bool := false
  frames : List (List Byte × Bool) := []
  data : List Byte := []
  ended : Bool := false
  deriving DecidableEq, Repr

namespace Heard

def field (h : Heard) (f : DataField) : Heard :=
  match f.fieldType with
  | .hdlcData | .t4NonEcmData => { h with data := h.data ++ f.fieldData.getD [] }
  | .hdlcFcsOK => { h with frames := h.frames ++ [(h.data, true)], data := [] }
  | .hdlcFcsBAD => { h with frames := h.frames ++ [(h.data, false)], data := [] }
  | .hdlcSigEnd | .t4NonEcmSigEnd => { h with ended := true }
  | _ => h

/-- The signal begins with the indicator `ind`. -/
def packet (ind : Indicator) (h : Heard) : Option Ifp → Heard
  | none => h
  | some p =>
    if p = t38indicator ind then { h with begun := true }
    else if h.begun then p.fields.foldl field h
    else h

end Heard

def heard (ind : Indicator) (ps : List (Option Ifp)) : Heard := ps.foldl (Heard.packet ind) {}

theorem heard_append {ind : Indicator} {ps qs : List (Option Ifp)} :
    heard ind (ps ++ qs) = qs.foldl (Heard.packet ind) (heard ind ps) := List.foldl_append

theorem heard_concat {ind : Indicator} {ps : List (Option Ifp)} {p : Option Ifp} :
    heard ind (ps ++ [p]) = (heard ind ps).packet ind p := heard_append

/-- What the modem has got in: the data up to each `SendStop` with the parameter `moreFrames` of it, and
the data since. -/
structure Accepted where
  frames : List (List Byte × Bool) := []
  data : List Byte := []
  deriving DecidableEq, Repr

def Accepted.event (a : Accepted) : Event → Accepted
  | .send bs (some n) => { a with data := a.data ++ bs.take n }
  | .sendStop moreFrames _ true => { a with frames := a.frames ++ [(a.data, moreFrames)], data := [] }
  | _ => a

def accepted (es : List Event) : Accepted := es.foldl Accepted.event {}

theorem accepted_append {es es' : List Event} : accepted (es ++ es') = es'.foldl Accepted.event (accepted es) :=
  List.foldl_append

theorem accepted_same {es es' : List Event} (h : ∀ ev ∈ es', ∀ a : Accepted, a.event ev = a) :
    accepted (es ++ es') = accepted es := by
  rw [accepted_append]
  generalize accepted es = a
  induction es' with
  | nil => rfl
  | cons ev es' ih =>
    rw [List.foldl_cons, h ev List.mem_cons_self]
    exact ih fun ev' hev => h ev' (List.mem_cons_of_mem ev hev)

/-- The frames that are to be sent for the data of `fs`. -/
def closed (fs : List (List Byte × Bool)) : List (List Byte × Bool) :=
  ((fs.map Prod.fst).filter (· ≠ [])).map (·, true)

theorem closed_append (fs gs : List (List Byte × Bool)) : closed (fs ++ gs) = closed fs ++ closed gs := by
  simp [closed]

theorem closed_nil (more : Bool) : closed [([], more)] = [] := rfl

theorem closed_one {bs : List Byte} (h : bs ≠ []) (more : Bool) : closed [(bs, more)] = [(bs, true)] := by
  simp [closed, h]

theorem closed_good {fs : List (List Byte × Bool)} {f : List Byte × Bool} (h : f ∈ closed fs) : f.2 = true := by
  obtain ⟨bs, -, rfl⟩ := List.mem_map.mp h
  rfl

def Accepted.bytes (a : Accepted) : List Byte := (a.frames.map Prod.fst).flatten ++ a.data

/-- The frames heard are the first of those accepted, and the octets behind them the beginning of the next. -/
inductive Begins (h : Heard) (a : Accepted) : Prop
  | frame (hd : h.data = []) (hf : h.frames <+: closed (a.frames ++ [(a.data, true)]))
  | data (rest : List Byte) (hf : h.frames ++ [(h.data ++ rest, true)] <+: closed (a.frames ++ [(a.data, true)]))

/-- All that was accepted is heard. Only the last stop was one behind which no frames follow. -/
inductive Delivered (h : Heard) (a : Accepted) : DataType → Prop
  | hdlc (done : List (List Byte × Bool)) (last : List Byte) (ha : a = ⟨done ++ [(last, false)], []⟩)
      (more : ∀ f ∈ done, f.2 = true) (hf : h.frames = closed a.frames) (hd : h.data = []) : Delivered h a .dtHdlc
  | raw (last : List Byte) (more : Bool) (ha : a = ⟨[(last, more)], []⟩) (hf : h.frames = []) (hd : h.data = last) :
      Delivered h a .dtRaw

/-- What a signal has sent is what the modem has got in. -/
structure Conveyed (t : DataType) (h : Heard) (a : Accepted) : Prop where
  frames : t = .dtHdlc → Begins h a
  bytes : t = .dtRaw → h.frames = [] ∧ h.data <+: a.bytes
  ended : h.ended = true → Delivered h a t

theorem Begins.of_field {h : Heard} {f : DataField} {a : Accepted} (hb : Begins (h.field f) a) : Begins h a := by
  have good {fs : List (List Byte × Bool)} {x : List Byte} {more : Bool}
      (hp : fs ++ [(x, false)] <+: closed (a.frames ++ [(a.data, more)])) : False := by
    have hmem := hp.subset (List.mem_append_right fs (List.mem_singleton.mpr rfl))
    exact absurd (closed_good hmem) (by simp)
  unfold Heard.field at hb
  split at hb
  · rcases hb with ⟨hd, hf⟩ | ⟨rest, hf⟩
    · exact .frame (List.append_eq_nil_iff.mp hd).1 hf
    · exact .data _ (by simpa using hf)
  · rcases hb with ⟨hd, hf⟩ | ⟨rest, hf⟩
    · exact .frame (List.append_eq_nil_iff.mp hd).1 hf
    · exact .data _ (by simpa using hf)
  · rcases hb with ⟨-, hf⟩ | ⟨rest, hf⟩
    · exact .data [] (by simpa using hf)
    · exact .data [] (by simpa using (List.prefix_append _ _).trans hf)
  · rcases hb with ⟨-, hf⟩ | ⟨rest, hf⟩
    · exact (good hf).elim
    · exact (good ((List.prefix_append _ _).trans hf)).elim
  · rcases hb with ⟨hd, hf⟩ | ⟨rest, hf⟩
    · exact .frame hd hf
    · exact .data rest hf
  · rcases hb with ⟨hd, hf⟩ | ⟨rest, hf⟩
    · exact .frame hd hf
    · exact .data rest hf
  · exact hb

/-- The property of fields is one of the packets. -/
theorem Heard.of_packet {P : Heard → Prop} (field : ∀ (h : Heard) (f : DataField), P (h.field f) → P h)
    (begun : ∀ h : Heard, P { h with begun := true } → P h) {ind : Indicator} {h : Heard} {p : Option Ifp}
    (hp : P (h.packet ind p)) : P h := by
  have fields (fs : List DataField) (h : Heard) (hp : P (fs.foldl Heard.field h)) : P h := by
    induction fs generalizing h with
    | nil => exact hp
    | cons f fs ih => exact field h f (ih _ hp)
  unfold Heard.packet at hp
  split at hp
  · exact hp
  · split at hp
    · exact begun h hp
    · split at hp
      · exact fields _ h hp
      · exact hp

theorem Begins.of_packet {ind : Indicator} {h : Heard} {p : Option Ifp} {a : Accepted}
    (hb : Begins (h.packet ind p) a) : Begins h a := by
  refine Heard.of_packet (P := fun h => Begins h a) (fun _ _ => Begins.of_field) (fun h hb => ?_) hb
  rcases hb with ⟨hd, hf⟩ | ⟨rest, hf⟩
  · exact .frame hd hf
  · exact .data rest hf

theorem bytes_of_packet {ind : Indicator} {h : Heard} {p : Option Ifp} {bs : List Byte}
    (hb : (h.packet ind p).frames = [] ∧ (h.packet ind p).data <+: bs) : h.frames = [] ∧ h.data <+: bs := by
  refine Heard.of_packet (P := fun h => h.frames = [] ∧ h.data <+: bs) (fun h f hb => ?_) (fun h hb => hb) hb
  unfold Heard.field at hb
  split at hb
  · exact ⟨hb.1, (List.prefix_append _ _).trans hb.2⟩
  · exact ⟨hb.1, (List.prefix_append _ _).trans hb.2⟩
  · simp at hb
  · simp at hb
  · exact hb
  · exact hb
  · exact hb

/-- The end of a signal stays heard. -/
theorem ended_packet {ind : Indicator} {h : Heard} {p : Option Ifp} (he : h.ended = true) :
    (h.packet ind p).ended = true := by
  have field (h : Heard) (f : DataField) (he : h.ended = true) : (h.field f).ended = true := by
    unfold Heard.field
    split <;> first | exact he | rfl
  have fields (fs : List DataField) (h : Heard) (he : h.ended = true) : (fs.foldl Heard.field h).ended = true := by
    induction fs generalizing h with
    | nil => exact he
    | cons f fs ih => exact ih _ (field h f he)
  unfold Heard.packet
  split
  · exact he
  · split
    · exact he
    · split
      · exact fields _ h he
      · exact he

end T38Modem
