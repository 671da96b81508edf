import T38Modem.BitFrames
import T38Modem.HdlcFrames
import T38Modem.HdlcLine
import T38Modem.SignalTape

namespace T38Modem

open BitList BitStuffing

/-- A frame as a receiver takes it off the line: its octets but for the last two, and whether these are its check
sequence. -/
def lineFrame (xs : List Bool) : List Byte × Bool :=
  let bs := readOctets xs
  let front := bs.take (bs.length - 2)
  (front, bs.drop (bs.length - 2) == Hdlc.endOctets (Fcs.build {} front) 0)

/-- The frames of a raw stream. -/
def rawFrames (raw : List Byte) : List (List Byte × Bool) := (deframe (octetBits raw)).map lineFrame

/-- The frames that have octets besides their check sequence. -/
def withData (fs : List (List Byte × Bool)) : List (List Byte × Bool) := fs.filter (·.1 ≠ [])

/-- The bits of a raw stream that is made of the records of a signal. -/
def imageLine (rs : List (List Byte × Diag)) : List Bool := flags 10 ++ rs.flatMap fun r => frameBits r.1 r.2

/-- A record as it comes out of the raw stream. -/
def sentFrame (r : List Byte × Diag) : List Byte × Bool := (r.1, r.2 &&& diagErrorMask == 0)

variable {rs rs' : List (List Byte × Diag)} {raw : List Byte} {r : List Byte × Diag}

theorem imageLine_snoc (rs : List (List Byte × Diag)) (r : List Byte × Diag) :
    imageLine (rs ++ [r]) = imageLine rs ++ frameBits r.1 r.2 := by
  simp [imageLine]

theorem imageLine_mono (h : rs <+: rs') : imageLine rs <+: imageLine rs' := by
  obtain ⟨more, rfl⟩ := h
  unfold imageLine
  rw [List.flatMap_append, ← List.append_assoc]
  exact List.prefix_append _ _

theorem endOctets_length (f : Fcs) (diag : Diag) : (Hdlc.endOctets f diag).length = 2 := rfl

/-- The check sequence of a frame is spoilt when its diagnostics say so. -/
theorem endOctets_eq (f : Fcs) (diag : Diag) :
    Hdlc.endOctets f diag = Hdlc.endOctets f 0 ↔ diag &&& diagErrorMask = 0 := by
  have hgood : octetBits (Hdlc.endOctets f 0) = lowBits f.toWord 16 := (Hdlc.endOctets_fcs f 0).mpr (by decide)
  constructor
  · intro he
    rw [← he] at hgood
    exact (Hdlc.endOctets_fcs f diag).mp hgood
  · intro hd
    refine octetBits_inj ?_
    rw [hgood]
    exact (Hdlc.endOctets_fcs f diag).mpr hd

/-- The bits of a frame between its flags. -/
def innerBits (r : List Byte × Diag) : List Bool := octetBits (r.1 ++ Hdlc.endOctets (Fcs.build {} r.1) r.2)

theorem innerBits_ne (r : List Byte × Diag) : innerBits r ≠ [] := by
  intro h
  have hlen := congrArg List.length h
  simp [innerBits, endOctets_length] at hlen

theorem lineFrame_innerBits (r : List Byte × Diag) : lineFrame (innerBits r) = sentFrame r := by
  have hlen : (r.1 ++ Hdlc.endOctets (Fcs.build {} r.1) r.2).length - 2 = r.1.length := by
    rw [List.length_append, endOctets_length, Nat.add_sub_cancel]
  unfold lineFrame innerBits
  rw [readOctets_octetBits]
  dsimp only
  rw [hlen, List.take_left, List.drop_left, sentFrame]
  congr 1
  rw [Bool.eq_iff_iff, beq_iff_eq, beq_iff_eq]
  exact endOctets_eq _ _

theorem imageLine_frames (rs : List (List Byte × Diag)) : imageLine rs = frameLine 10 (rs.map innerBits) [] := by
  unfold imageLine frameLine
  rw [List.flatMap_map, List.append_nil]
  rfl

theorem deframe_imageLine (rs : List (List Byte × Diag)) : deframe (imageLine rs) = rs.map innerBits := by
  have hne : ∀ x ∈ rs.map innerBits, x ≠ [] := by
    intro x hx
    obtain ⟨r, -, rfl⟩ := List.mem_map.mp hx
    exact innerBits_ne r
  rw [imageLine_frames, deframe_frameLine (by omega) hne]
  exact List.append_nil _

theorem map_lineFrame (rs : List (List Byte × Diag)) : (rs.map innerBits).map lineFrame = rs.map sentFrame := by
  rw [List.map_map]
  exact List.map_congr_left fun r _ => lineFrame_innerBits r

/-- A beginning of the stream has a beginning of the frames. -/
theorem rawFrames_begun (h : octetBits raw <+: imageLine rs) : rawFrames raw <+: rs.map sentFrame := by
  obtain ⟨more, hmore⟩ := h
  have hd := deframe_append (octetBits raw) more
  rw [hmore, deframe_imageLine] at hd
  rw [rawFrames, ← map_lineFrame]
  exact hd.map lineFrame

/-- The last flag need not be there: the one in front of it ends the last frame. -/
theorem rawFrames_whole {tail : List Bool} (h : octetBits raw ++ tail = imageLine (rs ++ [r])) (ht : tail.length < 8) :
    rawFrames raw = (rs ++ [r]).map sentFrame := by
  have hne : ∀ x ∈ rs.map innerBits, x ≠ [] := by
    intro x hx
    obtain ⟨r, -, rfl⟩ := List.mem_map.mp hx
    exact innerBits_ne r
  -- the stream without its last flag
  have hcut : imageLine (rs ++ [r]) = frameLine 10 (rs.map innerBits) (stuff 0 (innerBits r) ++ flag ++ []) ++ flag := by
    rw [imageLine_snoc, imageLine_frames]
    simp [frameLine, frameBits, innerBits]
  have hfront : deframe (frameLine 10 (rs.map innerBits) (stuff 0 (innerBits r) ++ flag ++ [])) =
      (rs ++ [r]).map innerBits := by
    rw [deframe_frameLine (by omega) hne, pieces_stuff, List.filter_cons_of_pos (by simp [innerBits_ne])]
    simp [pieces]
  have hle : (frameLine 10 (rs.map innerBits) (stuff 0 (innerBits r) ++ flag ++ [])).length ≤ (octetBits raw).length := by
    have hlen := congrArg List.length (h.trans hcut)
    rw [List.length_append, List.length_append] at hlen
    have hflag : flag.length = 8 := rfl
    omega
  obtain ⟨more, hmore⟩ :=
    List.prefix_of_prefix_length_le (hcut ▸ List.prefix_append _ flag) (h ▸ List.prefix_append _ tail) hle
  have hsub := deframe_append (frameLine 10 (rs.map innerBits) (stuff 0 (innerBits r) ++ flag ++ [])) more
  rw [hmore, hfront] at hsub
  have hsup := deframe_append (octetBits raw) tail
  rw [h, deframe_imageLine] at hsup
  rw [rawFrames, ← map_lineFrame, hsup.eq_of_length_le hsub.length_le]

/-- Of the records of a signal the raw stream has the frames, and one without octets at the end. -/
theorem withData_records (frames : List (List Byte × Bool)) :
    withData ((frames.map frameRecord ++ [([], diagNoCarrier)]).map sentFrame) = withData frames := by
  have hframe (f : List Byte × Bool) : sentFrame (frameRecord f) = f := by
    obtain ⟨bs, ok⟩ := f
    have hmark : ∀ ok : Bool, ((if ok then 0 else diagBadFcs) &&& diagErrorMask == 0) = ok := by decide
    exact congrArg (Prod.mk bs) (hmark ok)
  have hmap : (frames.map frameRecord).map sentFrame = frames := by
    rw [List.map_map]
    exact (List.map_congr_left fun f _ => hframe f).trans (List.map_id frames)
  unfold withData
  rw [List.map_append, hmap, List.filter_append]
  simp [sentFrame]

end T38Modem
