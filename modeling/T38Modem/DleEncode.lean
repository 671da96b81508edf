import T38Modem.DleDecode
import T38Modem.Machine

namespace T38Modem

open Escape

namespace DLEData

def turn (bitRev : Bool) : Byte → Byte := if bitRev then BitVec.reverse else id

/-- The encoding of `bs` without its end. -/
def body (bitRev : Bool) (bs : List Byte) : List Byte := stuff DLE (bs.map (turn bitRev))

/-- The whole encoding of `bs`. -/
def encoded (bitRev : Bool) (bs : List Byte) : List Byte := body bitRev bs ++ [DLE, ETX]

variable {d : DLEData} {bs out : List Byte} {n count : Nat} {rev : Bool}

@[simp] theorem turn_turn (b : Byte) : turn rev (turn rev b) = b := by
  cases rev <;> simp [turn, ← bitRevTable_eq]

theorem flatMap_encode (bs : List Byte) : bs.flatMap d.encode = body d.bitRev bs := by
  induction bs with
  | nil => rfl
  | cons b bs ih =>
    have hb : d.encode b = if turn d.bitRev b = DLE then [DLE, turn d.bitRev b] else [turn d.bitRev b] := by
      unfold encode turn
      rw [← bitRevTable_ext]
      cases d.bitRev <;> rfl
    rw [List.flatMap_cons, ih, hb]
    unfold body
    rw [List.map_cons, stuff]
    split
    next h => rw [h]; rfl
    next => rfl

theorem body_append (bs cs : List Byte) : body rev (bs ++ cs) = body rev bs ++ body rev cs := by
  simp [body, stuff_append]

theorem length_body (rev : Bool) (bs : List Byte) : bs.length ≤ (body rev bs).length ∧ (body rev bs).length ≤ 2 * bs.length := by
  have h1 : (bs.map (turn rev)).length ≤ (body rev bs).length := length_le_stuff
  have h2 : (body rev bs).length ≤ 2 * (bs.map (turn rev)).length := length_stuff_le
  rw [List.length_map] at h1 h2
  exact ⟨h1, h2⟩

/-- What `GetDleData` does with the room it has: it hands out the encoding of what it reads, and of
the end when all is read. -/
theorem getLoop_cases (hn : count ≤ out.length + n) (hl : out.length ≤ count) :
    (∃ bs rest, d.data = bs ++ rest ∧
      getLoop count n d out = (out ++ body d.bitRev bs, { d with data := rest }) ∧
      (out ++ body d.bitRev bs).length ≤ count ∧
      (4 ≤ count - out.length → d.eof = true ∨ d.data ≠ [] → bs ≠ [])) ∨
    (d.eof = true ∧ (out ++ encoded d.bitRev d.data).length ≤ count ∧
      getLoop count n d out = (out ++ encoded d.bitRev d.data, { d with data := [], recvEtx := true })) := by
  induction n generalizing d out with
  | zero =>
    left
    exact ⟨[], d.data, rfl, by simp [getLoop, body, stuff], by simpa [body, stuff] using hl, fun h => by omega⟩
  | succ n ih =>
    unfold getLoop
    by_cases h4 : count - out.length ≥ 4
    · rw [if_pos h4]
      dsimp only
      generalize hg : (if (count - out.length - 2) / 2 > 1024 then 1024 else (count - out.length - 2) / 2) = cGet
      have hc : 0 < cGet ∧ 2 * cGet + 2 ≤ count - out.length := by
        rw [← hg]
        split <;> omega
      cases hr : (d.getData cGet).1 with
      | none =>
        obtain ⟨hd, he⟩ := DataStream.getData_none.mp hr
        have hs : (d.getData cGet).2 = d.toDataStream := DataStream.getData_none_state hr
        rw [show d.getData cGet = (none, d.toDataStream) from Prod.ext hr hs]
        right
        refine ⟨he, ?_, ?_⟩
        · simp [encoded, body, stuff, hd]
          omega
        · simp [encoded, body, stuff, hd]
          rw [← hd]
      | some cs =>
        obtain ⟨hsplit, hlen⟩ := DataStream.getData_some hr
        obtain ⟨rest, hdata, hq⟩ := DataStream.getData_rest hr
        rw [hq]
        cases cs with
        | nil =>
          obtain ⟨hd, he⟩ := DataStream.getData_some_nil hc.1 hr
          left
          refine ⟨[], rest, hdata, by simp [body, stuff], by simpa [body, stuff] using hl, ?_⟩
          rintro - (h | h)
          · exact absurd (h.symm.trans he) (by simp)
          · exact absurd hd h
        | cons c cs =>
          dsimp only
          have hb := length_body d.bitRev (c :: cs)
          have hl' : (out ++ body d.bitRev (c :: cs)).length ≤ count := by
            rw [List.length_append]
            omega
          have hn' : count ≤ (out ++ body d.bitRev (c :: cs)).length + n := by
            rw [List.length_append]
            simp only [List.length_cons] at hb
            omega
          rw [flatMap_encode]
          rcases ih (d := { d with data := rest }) hn' hl' with
            ⟨bs, rest', hrest, heq, hle, -⟩ | ⟨he, hle, heq⟩
          · left
            refine ⟨c :: cs ++ bs, rest', ?_, ?_, ?_, by simp⟩
            · dsimp only at hrest
              rw [hdata, hrest, List.append_assoc]
            · rw [heq, body_append, List.append_assoc]
            · rwa [body_append, ← List.append_assoc]
          · right
            have hx : encoded d.bitRev d.data = body d.bitRev (c :: cs) ++ encoded d.bitRev rest := by
              rw [encoded, encoded, hdata, body_append, List.append_assoc]
            refine ⟨he, ?_, ?_⟩
            · rwa [hx, ← List.append_assoc]
            · rw [heq, hx, List.append_assoc]
    · rw [if_neg h4]
      left
      exact ⟨[], d.data, rfl, by simp [body, stuff], by simpa [body, stuff] using hl, fun h => absurd h h4⟩

theorem getDleData_ended (h : d.recvEtx = true) (n : Nat) : d.getDleData n = (none, d) := by
  simp [getDleData, h]

/-- A call that is asked for at least four octets goes on, or ends the encoding. -/
theorem getDleData_cases (h : d.recvEtx = false) (hn : 4 ≤ n) :
    (∃ bs rest, d.data = bs ++ rest ∧
      d.getDleData n = (some (body d.bitRev bs), { d with data := rest }) ∧
      (body d.bitRev bs).length ≤ n ∧ (d.eof = true ∨ d.data ≠ [] → bs ≠ [])) ∨
    (d.eof = true ∧ (encoded d.bitRev d.data).length ≤ n ∧
      d.getDleData n = (some (encoded d.bitRev d.data), { d with data := [], recvEtx := true })) := by
  unfold getDleData
  rw [if_neg (by simp [h])]
  have hf : n ≤ ([] : List Byte).length + n := by simp
  have hl : ([] : List Byte).length ≤ n := Nat.zero_le n
  rcases getLoop_cases (d := d) hf hl with
    ⟨bs, rest, hd, heq, hle, hpos⟩ | ⟨he, hle, heq⟩
  · exact .inl ⟨bs, rest, hd, by rw [heq]; rfl, hle, hpos hn⟩
  · exact .inr ⟨he, hle, by rw [heq]; rfl⟩

end DLEData

open DLEData

/-- A `DLEData` that is filled and read: `fed` is what has been put in it. -/
structure DleSource where
  d : DLEData
  fed : List Byte

namespace DleSource

inductive Act where
  | put (bs : List Byte)
  | eof
  | get (n : Nat)

def start (rev : Bool) : DleSource := ⟨{ bitRev := rev }, []⟩

/-- What is seen of `GetDleData` are the octets asked for and the result. -/
def step (s : DleSource) : Act → Option (DleSource × List (Nat × Option (List Byte)))
  | .put bs => if s.d.eof then none else some (⟨s.d.put bs, s.fed ++ bs⟩, [])
  | .eof => if s.d.eof then none else some ({ s with d := s.d.putEnd }, [])
  | .get n => some ({ s with d := (s.d.getDleData n).2 }, [(n, (s.d.getDleData n).1)])

def machine : Machine DleSource Act (Nat × Option (List Byte)) := ⟨step⟩

/-- Every call asks for four octets at least. -/
def roomy (_ : DleSource) : Act → Prop
  | .get n => 4 ≤ n
  | _ => True

instance (s : DleSource) : ∀ a, Decidable (roomy s a)
  | .get n => inferInstanceAs (Decidable (4 ≤ n))
  | .put _ => .isTrue trivial
  | .eof => .isTrue trivial

def returned (es : List (Nat × Option (List Byte))) : List Byte := es.flatMap fun e => e.2.getD []

def calls (as : List Act) : Nat := as.countP fun a => match a with
  | .get _ => true
  | _ => false

/-- What has been returned and what is still to come are the encoding of what was put in. -/
structure Sent (rev : Bool) (es : List (Nat × Option (List Byte))) (s : DleSource) : Prop where
  bitRev : s.d.bitRev = rev
  sizes : ∀ e ∈ es, (e.2.getD []).length ≤ e.1
  going : s.d.recvEtx = false → returned es ++ body rev s.d.data = body rev s.fed
  ended : s.d.recvEtx = true → s.d.eof = true ∧ returned es = encoded rev s.fed

variable {rev : Bool} {es es' : List (Nat × Option (List Byte))} {s s' : DleSource} {a : Act} {as : List Act} {n : Nat}

theorem returned_append : returned (es ++ es') = returned es ++ returned es' := by
  simp [returned]

theorem Sent.get (h : Sent rev es s) (hn : 4 ≤ n) :
    Sent rev (es ++ [(n, (s.d.getDleData n).1)]) { s with d := (s.d.getDleData n).2 } ∧
      (s.d.getDleData n).2.eof = s.d.eof ∧
      (s.d.eof = true → s.d.recvEtx = false → (s.d.getDleData n).1 ≠ some []) := by
  cases hr : s.d.recvEtx with
  | true =>
    rw [getDleData_ended hr]
    refine ⟨⟨h.bitRev, ?_, fun hf => by simp [hr] at hf, fun _ => ?_⟩, rfl, fun _ hf => by cases hf⟩
    · exact List.forall_mem_append.mpr ⟨h.sizes, List.forall_mem_singleton.mpr (Nat.zero_le n)⟩
    · simpa [returned] using h.ended hr
  | false =>
    have hgo := h.going hr
    rcases getDleData_cases hr hn with ⟨bs, rest, hd, heq, hle, hpos⟩ | ⟨he, hle, heq⟩
    · rw [heq]
      refine ⟨⟨h.bitRev, ?_, fun _ => ?_, fun hf => by simp [hr] at hf⟩, rfl, fun he _ hf => ?_⟩
      · exact List.forall_mem_append.mpr ⟨h.sizes, List.forall_mem_singleton.mpr hle⟩
      · rw [hd, body_append, ← List.append_assoc] at hgo
        simpa [returned, h.bitRev] using hgo
      · have hb := (length_body s.d.bitRev bs).1
        rw [Option.some.inj hf] at hb
        exact hpos (.inl he) (List.eq_nil_of_length_eq_zero (Nat.le_zero.mp hb))
    · rw [heq]
      refine ⟨⟨h.bitRev, ?_, fun hf => by simp at hf, fun _ => ⟨he, ?_⟩⟩, rfl, fun _ _ hf => ?_⟩
      · exact List.forall_mem_append.mpr ⟨h.sizes, List.forall_mem_singleton.mpr hle⟩
      · have hall : encoded rev s.fed = returned es ++ encoded rev s.d.data := by
          rw [encoded, encoded, ← hgo, List.append_assoc]
        rw [returned_append, h.bitRev, hall]
        simp [returned]
      · simp [encoded] at hf

theorem step_sent (h : Sent rev es s) (ha : roomy s a) (hs : machine.step s a = some (s', es')) :
    Sent rev (es ++ es') s' := by
  cases a with
  | put bs =>
    simp only [machine, step] at hs
    split at hs
    next => cases hs
    next he =>
      simp only [Option.some.injEq, Prod.mk.injEq] at hs
      obtain ⟨rfl, rfl⟩ := hs
      have he : s.d.eof = false := by simpa using he
      rw [put_eq he, List.append_nil]
      refine ⟨h.bitRev, h.sizes, fun hr => ?_, fun hr => by simpa [he] using (h.ended hr).1⟩
      dsimp only
      rw [body_append, body_append, ← List.append_assoc, h.going hr]
  | eof =>
    simp only [machine, step] at hs
    split at hs
    next => cases hs
    next he =>
      simp only [Option.some.injEq, Prod.mk.injEq] at hs
      obtain ⟨rfl, rfl⟩ := hs
      rw [List.append_nil]
      exact ⟨h.bitRev, h.sizes, h.going, fun hr => ⟨rfl, (h.ended hr).2⟩⟩
  | get n =>
    simp only [machine, step, Option.some.injEq, Prod.mk.injEq] at hs
    obtain ⟨rfl, rfl⟩ := hs
    exact (h.get ha).1

theorem start_sent (rev : Bool) : Sent rev [] (start rev) := by
  refine ⟨rfl, by simp, fun _ => rfl, fun h => ?_⟩
  cases h

theorem run_sent (h : machine.Run roomy (start rev) as es s) : Sent rev es s :=
  h.invariant (start_sent rev) fun _ _ _ _ _ hi hok hs => step_sent hi hok hs

theorem Sent.returned_prefix (h : Sent rev es s) : returned es <+: encoded rev s.fed := by
  cases hr : s.d.recvEtx with
  | true => rw [(h.ended hr).2]
  | false =>
    rw [encoded, ← h.going hr, List.append_assoc]
    exact List.prefix_append _ _

/-- The encoding is complete exactly when the object has handed out its end. -/
theorem Sent.complete_iff (h : Sent rev es s) : returned es = encoded rev s.fed ↔ s.d.recvEtx = true := by
  constructor
  · intro hc
    by_contra hr
    have hgo := h.going (by simpa using hr)
    have := congrArg List.length hgo
    rw [hc, encoded] at this
    simp at this
  · exact fun hr => (h.ended hr).2

theorem Sent.none_iff (h : Sent rev es s) (n : Nat) :
    (s.d.getDleData n).1 = none ↔ returned es = encoded rev s.fed := by
  rw [h.complete_iff]
  unfold getDleData
  split <;> simp_all

/-- After the end of the content every call brings the encoding on, until it is complete. -/
theorem run_returned (h : Sent rev es s) (he : s.d.eof = true) {as : List Act} (hr : machine.Run roomy s as es' s') :
    Sent rev (es ++ es') s' ∧ s'.d.eof = true ∧ s'.fed = s.fed ∧
      (returned (es ++ es') = encoded rev s.fed ∨ calls as ≤ (returned (es ++ es')).length) := by
  induction hr with
  | start => exact ⟨by simpa using h, he, rfl, .inr (by simp [calls])⟩
  | @next as es' s₁ a s₂ es'' _ hok hs ih =>
    obtain ⟨hs₁, he₁, hf₁, hc₁⟩ := ih
    have hs₂ := step_sent hs₁ hok hs
    rw [← List.append_assoc]
    cases a with
    | put bs => simp [machine, step, he₁] at hs
    | eof => simp [machine, step, he₁] at hs
    | get n =>
      simp only [machine, step, Option.some.injEq, Prod.mk.injEq] at hs
      obtain ⟨rfl, rfl⟩ := hs
      obtain ⟨-, heof, hpos⟩ := hs₁.get hok
      refine ⟨hs₂, heof.trans he₁, hf₁, ?_⟩
      cases hx : s₁.d.recvEtx with
      | true =>
        left
        rw [getDleData_ended hx]
        have := (hs₁.ended hx).2
        rw [hf₁] at this
        rw [returned_append, this]
        simp [returned]
      | false =>
        have hne := hpos he₁ hx
        have hlt : calls as ≤ (returned (es ++ es')).length := by
          rcases hc₁ with hall | hle
          · rw [← hf₁, hs₁.complete_iff, hx] at hall
            cases hall
          · exact hle
        right
        rw [returned_append]
        cases hg : (s₁.d.getDleData n).1 with
        | none =>
          rw [hs₁.none_iff, hs₁.complete_iff, hx] at hg
          cases hg
        | some bs =>
          have hb : 0 < bs.length := List.length_pos_iff.mpr fun hnil => hne (by rw [hg, hnil])
          simp only [calls, List.countP_append, List.countP_singleton] at hlt ⊢
          simp [returned] at hlt ⊢
          omega

/-- What is given back of an encoding that is cut into pieces no longer than the buffer. -/
structure Restores (rev : Bool) (content : List Byte) (cs : List (List Byte)) : Prop where
  data : (putAll { bitRev := rev } cs).data = content
  eof : (putAll { bitRev := rev } cs).eof = true
  results : ∀ pre c post, cs = pre ++ c :: post → c ≠ [] →
    ((putAll { bitRev := rev } pre).putDleData c).1 = some c.length

theorem Restores.of_encoded {content : List Byte} {cs : List (List Byte)}
    (hc : cs.flatten = encoded rev content) (hl : ∀ c ∈ cs, c.length ≤ 1024) : Restores rev content cs := by
  have hd : Decodes rev cs := .of_periodic fun _ => periodic_of_chunks hl
  have hscan : scan DLE ETX false cs.flatten = ⟨content.map (turn rev), false, true, []⟩ := by
    rw [hc]
    exact scan_stuff_stop (by decide)
  refine ⟨?_, ?_, ?_⟩
  · rw [hd.data, hscan]
    have hm : (content.map (turn rev)).map (turn rev) = content := by simp [Function.comp_def]
    exact hm
  · rw [hd.eof, hscan]
  · intro pre c post hsplit hne
    have hrest : (scan DLE ETX false (pre.flatten ++ (c ++ post.flatten))).rest = [] := by
      have : cs.flatten = pre.flatten ++ (c ++ post.flatten) := by simp [hsplit]
      rw [← this, hscan]
    have hstop := (scan_rest_append hrest).2 (by simp [hne])
    rw [← List.append_assoc] at hrest
    have htaken := (scan_rest_append hrest).1
    rw [hd.results pre c post hsplit, hstop]
    simp [taken, htaken]

/-- What is said of a run of an object that is filled and read. -/
structure Encodes (rev : Bool) (es : List (Nat × Option (List Byte))) (s : DleSource) : Prop where
  sizes : ∀ e ∈ es, (e.2.getD []).length ≤ e.1
  so_far : returned es <+: encoded rev s.fed
  none_iff : ∀ n, (s.d.getDleData n).1 = none ↔ returned es = encoded rev s.fed
  after_end : returned es = encoded rev s.fed → s.d.eof = true ∧ ∀ n, s.d.getDleData n = (none, s.d)
  complete : s.d.eof = true → ∃ N, ∀ as es' s', machine.Run roomy s as es' s' → N ≤ calls as →
    s'.fed = s.fed ∧ returned (es ++ es') = encoded rev s.fed
  restored : returned es = encoded rev s.fed → ∀ cs, cs.flatten = returned es →
    (∀ c ∈ cs, c.length ≤ 1024) → Restores rev s.fed cs

theorem dle_roundTrip (h : machine.Run roomy (start rev) as es s) : Encodes rev es s := by
  have hs := run_sent h
  refine ⟨hs.sizes, hs.returned_prefix, hs.none_iff, ?_, ?_, ?_⟩
  · intro hc
    have hx := hs.complete_iff.mp hc
    exact ⟨(hs.ended hx).1, getDleData_ended hx⟩
  · intro he
    refine ⟨(encoded rev s.fed).length, ?_⟩
    intro as' es' s' hr hn
    obtain ⟨hs', -, hf, hc⟩ := run_returned hs he hr
    refine ⟨hf, ?_⟩
    rcases hc with hc | hc
    · exact hc
    · have hp := hs'.returned_prefix
      rw [hf] at hp
      exact hp.eq_of_length_le (Nat.le_trans hn hc)
  · intro hc cs hcs hl
    exact Restores.of_encoded (hcs.trans hc) hl

theorem small_roundTrip : ∃ as es s, machine.Run roomy (start true) as es s ∧
    returned es = [0x10, 0x10, 0x80, 0x03, 0x10, 0x03] ∧ Encodes true es s := by
  have hr : ∃ s, machine.Run roomy (start true)
      [.put [0x08, 0x01], .get 4, .put [0xC0], .eof, .get 5, .get 6, .get 4]
      [(4, some [0x10, 0x10]), (5, some [0x80, 0x03]), (6, some [0x10, 0x03]), (4, none)] s :=
    Machine.exec_run (by decide +kernel)
  obtain ⟨s, hr⟩ := hr
  exact ⟨_, _, s, hr, rfl, dle_roundTrip hr⟩

end DleSource

end T38Modem
