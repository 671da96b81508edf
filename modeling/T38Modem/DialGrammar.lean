import Mathlib.Data.List.DropRight
import Mathlib.Data.List.Induction
import Mathlib.Data.List.TakeWhile
import T38Modem.DialString

namespace T38Modem

namespace DialGrammar

open Dialing

/-! The characters of a dial string and what they stand for, as the ReadMe has it. -/

/-- The modifiers that begin a calling number and that end it. -/
def ends (c : Char) : Bool := c = 'T' || c = 'P' || c = 'D' || c = '@'

/-- A calling number is begun and not yet ended. -/
def collecting (p : List Char) : Bool := p.foldl (fun open_ c => if c = 'L' then true else if ends c then false else open_) false

/-- A dial string without its calling numbers, in or behind one of which it begins. -/
def outside : Bool → List Char → List Char
  | _, [] => []
  | false, c :: s => if c = 'L' then outside true s else c :: outside false s
  | true, c :: s => if c = '@' then c :: outside false s else outside (!ends c) s

def beforeFirst (x : Char) (s : List Char) : List Char := s.takeWhile (· ≠ x)

def afterLast (x : Char) (s : List Char) : List Char := s.rtakeWhile (· ≠ x)

def isDigit (c : Char) : Bool := c ∈ dialDigits

def dialable (c : Char) : Bool := isDigit c || c = 'A' || c = 'B' || c = 'C' || c = 'D'

def inNumber (c : Char) : Bool := dialable c || c = '+'

def inTones (c : Char) : Bool := dialable c || c = ','

/-- A `+` counts when it is the first. -/
def plusFirst : List Char → List Char
  | [] => []
  | c :: s => c :: s.filter (· ≠ '+')

def calledNumber (s : List Char) : List Char :=
  plusFirst ((beforeFirst '@' (outside false s)).filter inNumber)

/-- The DTMF string, with its pauses. -/
def tones (s : List Char) : List Char :=
  if '@' ∈ s then (afterLast '@' (outside false s)).filter inTones else []

def callingNumber (s : List Char) : List Char :=
  if 'L' ∈ s then ((afterLast 'L' s).takeWhile fun c => !ends c).filter isDigit else []

def forced (s : List Char) : Bool := (s.filter fun c => c = 'F' || c = 'V').getLast? = some 'F'

variable {s p : List Char} {c x : Char}

theorem collecting_snoc : collecting (p ++ [c]) = if c = 'L' then true else if ends c then false else collecting p := by
  simp [collecting]

theorem afterLast_snoc : afterLast x (p ++ [c]) = if c = x then [] else afterLast x p ++ [c] := by
  by_cases h : c = x <;> simp [afterLast, h]

theorem outside_append (b : Bool) (q : List Char) :
    outside b (p ++ q) = outside b p ++
      outside (p.foldl (fun open_ c => if c = 'L' then true else if ends c then false else open_) b) q := by
  induction p generalizing b with
  | nil => rfl
  | cons c p ih =>
    cases b with
    | false =>
      simp only [List.cons_append, outside, List.foldl_cons]
      by_cases hl : c = 'L'
      · simp only [hl, if_true]
        exact ih true
      · simp only [hl, if_false, List.cons_append]
        rw [ih false]
        cases ends c <;> simp
    | true =>
      simp only [List.cons_append, outside, List.foldl_cons]
      by_cases ha : c = '@'
      · subst ha
        simp only [if_true, List.cons_append]
        rw [ih false]
        rfl
      · simp only [ha, if_false]
        rw [ih]
        by_cases hl : c = 'L'
        · subst hl
          rfl
        · simp only [hl, if_false]
          cases ends c <;> simp

theorem outside_snoc : outside false (p ++ [c]) = outside false p ++
    (if collecting p then if c = '@' then [c] else [] else if c = 'L' then [] else [c]) := by
  rw [outside_append]
  cases h : collecting p <;> rw [collecting] at h <;> rw [h]
  · by_cases hl : c = 'L' <;> simp [outside, hl]
  · by_cases ha : c = '@' <;> simp [outside, ha]

theorem mem_outside : '@' ∈ outside false p ↔ '@' ∈ p := by
  induction p using List.reverseRecOn with
  | nil => rfl
  | append_singleton p c ih =>
    rw [outside_snoc, List.mem_append, ih, List.mem_append]
    by_cases ha : c = '@'
    · subst ha
      cases collecting p <;> simp
    · cases collecting p <;> by_cases hl : c = 'L' <;> simp [ha, hl, Ne.symm ha]

theorem beforeFirst_of_not_mem (h : x ∉ s) : beforeFirst x s = s :=
  List.takeWhile_eq_self_iff.mpr fun c hc => by simpa using fun he : c = x => h (he ▸ hc)

theorem beforeFirst_append (q : List Char) (h : x ∈ s) : beforeFirst x (s ++ q) = beforeFirst x s := by
  induction s with
  | nil => cases h
  | cons c s ih =>
    by_cases hc : c = x
    · simp [beforeFirst, hc]
    · have hm : x ∈ s := (List.mem_cons.mp h).resolve_left (Ne.symm hc)
      have ih' := ih hm
      simp only [beforeFirst] at ih' ⊢
      rw [List.cons_append, List.takeWhile_cons_of_pos (by simpa using hc), List.takeWhile_cons_of_pos (by simpa using hc),
        ih']

theorem plusFirst_snoc : plusFirst (s ++ [c]) =
    if s = [] then [c] else if c = '+' then plusFirst s else plusFirst s ++ [c] := by
  cases s with
  | nil => rfl
  | cons a s => by_cases hc : c = '+' <;> simp [plusFirst, hc]

theorem plusFirst_eq_nil : plusFirst s = [] ↔ s = [] := by
  cases s <;> simp [plusFirst]

/-- The octets of the called number, before the rule for `+`. -/
def calledChars (s : List Char) : List Char := (beforeFirst '@' (outside false s)).filter inNumber

theorem calledChars_snoc : calledChars (p ++ [c]) = calledChars p ++
    (if '@' ∉ p ∧ collecting p = false ∧ inNumber c = true then [c] else []) := by
  unfold calledChars
  rw [outside_snoc]
  by_cases hp : '@' ∈ p
  · rw [beforeFirst_append _ (mem_outside.mpr hp), if_neg fun h => h.1 hp, List.append_nil]
  · have ho : '@' ∉ outside false p := fun h => hp (mem_outside.mp h)
    rw [beforeFirst_of_not_mem ho]
    by_cases ha : c = '@'
    · subst ha
      have hstop : beforeFirst '@' (outside false p ++ ['@']) = outside false p := by
        rw [beforeFirst, List.takeWhile_append_of_pos]
        · simp
        · intro a hm
          simpa using fun he : a = '@' => ho (he ▸ hm)
      cases collecting p <;> simp [hstop, inNumber, dialable, isDigit, dialDigits]
    · have hno : '@' ∉ outside false p ++ (if collecting p then if c = '@' then [c] else [] else if c = 'L' then [] else [c]) := by
        intro h
        rcases List.mem_append.mp h with h | h
        · exact ho h
        · cases hcol : collecting p <;> simp only [hcol, if_true, if_false, Bool.false_eq_true, ha] at h
          · split at h
            next => cases h
            next => exact ha (List.mem_singleton.mp h).symm
          · cases h
      rw [beforeFirst_of_not_mem hno, List.filter_append]
      congr 1
      cases hcol : collecting p
      · by_cases hl : c = 'L'
        · subst hl
          simp [inNumber, dialable, isDigit, dialDigits]
        · simp only [hl, hp, not_false_eq_true, true_and, Bool.false_eq_true, if_false]
          cases hc : inNumber c <;> simp [hc]
      · simp [ha]

theorem tones_snoc : tones (p ++ [c]) =
    if c = '@' then [] else if '@' ∈ p ∧ collecting p = false ∧ inTones c = true then tones p ++ [c]
      else tones p := by
  unfold tones
  rw [outside_snoc]
  by_cases ha : c = '@'
  · subst ha
    cases collecting p <;> simp [afterLast_snoc]
  · by_cases hp : '@' ∈ p
    · have hm : '@' ∈ p ++ [c] := List.mem_append_left _ hp
      rw [if_pos hm, if_neg ha, if_pos hp]
      cases hcol : collecting p
      · by_cases hl : c = 'L'
        · subst hl
          simp [inTones, dialable, isDigit, dialDigits]
        · simp only [hl, hp, true_and, Bool.false_eq_true, if_false, afterLast_snoc, ha, List.filter_append]
          cases hc : inTones c <;> simp [hc]
      · simp [ha]
    · have hm : '@' ∉ p ++ [c] := by simp [hp, Ne.symm ha]
      rw [if_neg hm, if_neg ha, if_neg hp, if_neg fun h => hp h.1]

theorem collecting_iff : collecting p = true ↔ 'L' ∈ p ∧ ∀ c ∈ afterLast 'L' p, ends c = false := by
  induction p using List.reverseRecOn with
  | nil => simp [collecting]
  | append_singleton p c ih =>
    rw [collecting_snoc, afterLast_snoc]
    by_cases hl : c = 'L'
    · simp [hl]
    · simp only [hl, if_false, List.mem_append, List.mem_singleton, Ne.symm hl, or_false]
      cases he : ends c
      · simp only [Bool.false_eq_true, if_false, ih]
        refine and_congr_right fun _ => ⟨fun h a ha => ?_, fun h a ha => h a (.inl ha)⟩
        rcases ha with ha | rfl
        · exact h a ha
        · exact he
      · simp only [if_true, Bool.false_eq_true, false_iff]
        rintro ⟨-, h⟩
        exact Bool.false_ne_true ((h c (.inr rfl)).symm.trans he)

theorem isDigit_of_ends (h : ends c = true) : isDigit c = false := by
  have hc : c = 'T' ∨ c = 'P' ∨ c = 'D' ∨ c = '@' := by simpa [ends, or_assoc] using h
  rcases hc with rfl | rfl | rfl | rfl <;> rfl

theorem callingNumber_snoc : callingNumber (p ++ [c]) =
    if c = 'L' then [] else if collecting p = true ∧ isDigit c = true then callingNumber p ++ [c] else callingNumber p := by
  unfold callingNumber
  rw [afterLast_snoc]
  by_cases hl : c = 'L'
  · simp [hl]
  · by_cases hp : 'L' ∈ p
    · have hm : 'L' ∈ p ++ [c] := List.mem_append_left _ hp
      rw [if_pos hm, if_neg hl, if_neg hl, if_pos hp]
      by_cases hcol : collecting p = true
      · have hall := (collecting_iff.mp hcol).2
        have hself : (afterLast 'L' p).takeWhile (fun c => !ends c) = afterLast 'L' p :=
          List.takeWhile_eq_self_iff.mpr fun a ha => by simp [hall a ha]
        rw [List.takeWhile_append_of_pos fun a ha => by simp [hall a ha], hself]
        cases he : ends c
        · rw [List.takeWhile_cons_of_pos (by simp [he]), List.takeWhile_nil, List.filter_append]
          cases hd : isDigit c <;> simp [hcol, hd]
        · have hd : isDigit c = false := isDigit_of_ends he
          rw [List.takeWhile_cons_of_neg (by simp [he]), List.append_nil, if_neg (by simp [hd])]
      · rw [if_neg fun h => hcol h.1]
        have hex : ∃ a ∈ afterLast 'L' p, ends a = true := by
          by_contra hn
          exact hcol (collecting_iff.mpr ⟨hp, fun a ha => Bool.eq_false_iff.mpr fun he => hn ⟨a, ha, he⟩⟩)
        have hlen : ((afterLast 'L' p).takeWhile fun c => !ends c).length ≠ (afterLast 'L' p).length := by
          intro hlen
          obtain ⟨a, ha, he⟩ := hex
          have hself := (List.takeWhile_prefix (p := fun c => !ends c) (l := afterLast 'L' p)).eq_of_length hlen
          have := List.takeWhile_eq_self_iff.mp hself a ha
          simp [he] at this
        rw [List.takeWhile_append, if_neg hlen]
    · have hm : 'L' ∉ p ++ [c] := by simp [hp, Ne.symm hl]
      have hcol : ¬collecting p = true := fun h => hp (collecting_iff.mp h).1
      rw [if_neg hm, if_neg hl, if_neg hp, if_neg fun h => hcol h.1]

theorem forced_snoc : forced (p ++ [c]) = if c = 'F' then true else if c = 'V' then false else forced p := by
  unfold forced
  rw [List.filter_append]
  by_cases hf : c = 'F'
  · simp [hf]
  · by_cases hv : c = 'V'
    · simp [hv]
    · simp [hf, hv]

/-- A pause is read in a calling number, behind an `@`. -/
def StrayPause (s : List Char) : Prop := ∃ p q, s = p ++ ',' :: q ∧ collecting p = true ∧ '@' ∈ p

theorem StrayPause.append (q : List Char) (h : StrayPause p) : StrayPause (p ++ q) := by
  obtain ⟨p', q', rfl, hc, ha⟩ := h
  exact ⟨p', q' ++ q, by simp, hc, ha⟩

/-- Where the loop is behind a part of the dial string. The tones are not those of the grammar when a
stray pause is among them. -/
structure Follows (p : List Char) (d : Dialing) : Prop where
  err : d.err = false
  isLocal : d.isLocal = collecting p
  addNumTone : d.addNumTone = decide ('@' ∈ p)
  num : d.num = plusFirst (calledChars p)
  numTone : ¬StrayPause p → d.numTone = tones p
  LocalPartyName : d.LocalPartyName = callingNumber p
  setForceFaxMode : d.setForceFaxMode = forced p

theorem digit_facts (h : c ∈ dialDigits) :
    isDigit c = true ∧ ends c = false ∧ c ≠ 'L' ∧ c ≠ '+' ∧ c ≠ ',' ∧ c ≠ '@' ∧ c ≠ 'F' ∧ c ≠ 'V' := by
  refine ⟨by simpa [isDigit] using h, ?_⟩
  simp only [dialDigits, List.mem_cons, List.not_mem_nil, or_false] at h
  rcases h with rfl | rfl | rfl | rfl | rfl | rfl | rfl | rfl | rfl | rfl | rfl | rfl <;> decide

variable {d : Dialing}

theorem dialChar_isLocal :
    (dialChar false d c).isLocal = if c = 'L' then true else if ends c then false else d.isLocal := by
  unfold dialChar
  split
  next hd =>
    obtain ⟨-, he, hl, -⟩ := digit_facts hd
    cases hloc : d.isLocal <;> simp [he, hl, hloc]
  next => split <;> (try split) <;> simp_all [ends]

theorem dialChar_addNumTone : (dialChar false d c).addNumTone = (d.addNumTone || c = '@') := by
  unfold dialChar
  split
  next hd =>
    obtain ⟨-, -, -, -, -, ha, -⟩ := digit_facts hd
    cases d.isLocal <;> simp [ha]
  next => split <;> (try split) <;> simp_all

theorem dialChar_LocalPartyName : (dialChar false d c).LocalPartyName =
    if c = 'L' then [] else if d.isLocal = true ∧ isDigit c = true then d.LocalPartyName ++ [c] else d.LocalPartyName := by
  unfold dialChar
  split
  next hd =>
    obtain ⟨hdig, -, hl, -⟩ := digit_facts hd
    cases d.isLocal <;> simp [hdig, hl]
  next hd => split <;> (try split) <;> simp_all [isDigit]

theorem dialChar_setForceFaxMode :
    (dialChar false d c).setForceFaxMode = if c = 'F' then true else if c = 'V' then false else d.setForceFaxMode := by
  unfold dialChar
  split
  next hd =>
    obtain ⟨-, -, -, -, -, -, hf, hv⟩ := digit_facts hd
    cases d.isLocal <;> simp [hf, hv]
  next hd => split <;> (try split) <;> simp_all

theorem dialChar_num : (dialChar false d c).num =
    if d.addNumTone = false ∧ d.isLocal = false ∧ inNumber c = true ∧ (c = '+' → d.num = []) then d.num ++ [c]
    else d.num := by
  unfold dialChar
  split
  next hd =>
    obtain ⟨hdig, -, -, hp, -⟩ := digit_facts hd
    cases d.isLocal <;> cases hadd : d.addNumTone <;> simp [add, hadd, inNumber, dialable, hdig, hp]
  next hd =>
    cases hadd : d.addNumTone <;> cases hloc : d.isLocal <;> split <;> (try split) <;>
      simp_all [add, inNumber, dialable, isDigit]

/-- A pause alone gets among the tones from a calling number. -/
theorem dialChar_numTone : (dialChar false d c).numTone =
    if c = '@' then [] else if d.addNumTone = true ∧ (d.isLocal = false ∧ dialable c = true ∨ c = ',') then d.numTone ++ [c]
    else d.numTone := by
  unfold dialChar
  split
  next hd =>
    obtain ⟨hdig, -, -, -, hp, ha, -⟩ := digit_facts hd
    cases d.isLocal <;> cases hadd : d.addNumTone <;> simp [add, hadd, dialable, hdig, ha, hp]
  next hd =>
    cases hadd : d.addNumTone <;> split <;> (try split) <;> simp_all [add, dialable, isDigit]

/-- The loop follows the grammar, but for stray pauses. -/
theorem dialChar_follows (h : Follows p d) : Follows (p ++ [c]) (dialChar false d c) := by
  obtain ⟨herr, hloc, hadd, hnum, htone, hcall, hforce⟩ := h
  refine ⟨dialChar_err c herr, ?_, ?_, ?_, ?_, ?_, ?_⟩
  · rw [dialChar_isLocal, collecting_snoc, hloc]
  · rw [dialChar_addNumTone, hadd]
    simp [eq_comm]
  · rw [dialChar_num, calledChars_snoc, hadd, hloc, hnum]
    by_cases hc : '@' ∉ p ∧ collecting p = false ∧ inNumber c = true
    · rw [if_pos hc, plusFirst_snoc]
      have hne : plusFirst (calledChars p) = [] ↔ calledChars p = [] := plusFirst_eq_nil
      by_cases hnil : calledChars p = []
      · simp [hc, hnil, plusFirst]
      · by_cases hp : c = '+' <;> simp [hc, hnil, hne, hp]
    · rw [if_neg hc, List.append_nil, if_neg]
      rintro ⟨ha, hl, hi, -⟩
      exact hc ⟨by simpa using ha, hl, hi⟩
  · intro hs
    have hp : ¬StrayPause p := fun hp => hs (hp.append [c])
    have hpause : c = ',' → collecting p = true → '@' ∉ p := by
      rintro rfl hc ha
      exact hs ⟨p, [], rfl, hc, ha⟩
    rw [dialChar_numTone, tones_snoc, hadd, hloc, htone hp]
    by_cases ha : c = '@'
    · rw [if_pos ha, if_pos ha]
    · rw [if_neg ha, if_neg ha]
      refine if_congr ?_ rfl rfl
      rw [decide_eq_true_iff, inTones, Bool.or_eq_true, decide_eq_true_iff]
      refine and_congr_right fun hm => ⟨?_, ?_⟩
      · rintro (⟨hl, hd⟩ | hc)
        · exact ⟨hl, .inl hd⟩
        · exact ⟨Bool.eq_false_iff.mpr fun hl => hpause hc hl hm, .inr hc⟩
      · rintro ⟨hl, hd | hc⟩
        · exact .inl ⟨hl, hd⟩
        · exact .inr hc
  · rw [dialChar_LocalPartyName, callingNumber_snoc, hloc, hcall]
  · rw [dialChar_setForceFaxMode, forced_snoc, hforce]

theorem dialled_follows (h : ';' ∉ s) : Follows s (dialled s) := by
  induction s using List.reverseRecOn with
  | nil => exact ⟨rfl, rfl, rfl, rfl, fun _ => rfl, rfl, rfl⟩
  | append_singleton p c ih =>
    rw [dialled_snoc h]
    exact dialChar_follows (ih fun hm => h (List.mem_append_left _ hm))

/-- The dial string is understood: the numbers and the mode are those of the grammar, and what is read
in a calling number touches neither the called number nor the tones. -/
structure Interpreted (s : List Char) : Prop where
  num : (dialled s).num = calledNumber s
  numTone : (dialled s).numTone = tones s
  LocalPartyName : (dialled s).LocalPartyName = callingNumber s
  setForceFaxMode : (dialled s).setForceFaxMode = forced s
  kept : ∀ p c q, s = p ++ c :: q → collecting p = true → ends c = false →
    (dialled (p ++ [c])).num = (dialled p).num ∧ (dialled (p ++ [c])).numTone = (dialled p).numTone

theorem interpreted_iff (h : ';' ∉ s) :
    Interpreted s ↔ ∀ p q, s = p ++ ',' :: q → collecting p = true → '@' ∉ p := by
  have hread : ∀ p c q, s = p ++ c :: q → ';' ∉ p ++ [c] ∧ Follows p (dialled p) := by
    rintro p c q rfl
    have hpc : ';' ∉ p ++ [c] := fun hm => h (by simpa using (List.mem_append.mp hm).imp id (by simp; exact .inl))
    exact ⟨hpc, dialled_follows fun hm => hpc (List.mem_append_left _ hm)⟩
  constructor
  · intro hi p q hs hc ha
    obtain ⟨hpc, hf⟩ := hread p ',' q hs
    have hkept := (hi.kept p ',' q hs hc rfl).2
    rw [dialled_snoc hpc, dialChar_numTone, hf.addNumTone] at hkept
    simp [ha] at hkept
  · intro hp
    have hf := dialled_follows h
    have hstray : ¬StrayPause s := fun ⟨p, q, hs, hc, ha⟩ => hp p q hs hc ha
    refine ⟨hf.num, hf.numTone hstray, hf.LocalPartyName, hf.setForceFaxMode, ?_⟩
    intro p c q hs hc he
    obtain ⟨hpc, hf⟩ := hread p c q hs
    have hloc : (dialled p).isLocal = true := hf.isLocal.trans hc
    rw [dialled_snoc hpc, dialChar_num, dialChar_numTone, hloc, hf.addNumTone]
    have hat : c ≠ '@' := by
      rintro rfl
      cases he
    have hcomma : c = ',' → '@' ∉ p := by
      rintro rfl
      exact hp p q hs hc
    simpa [hat] using fun ha hc => absurd ha (hcomma hc)

theorem plain_interpreted : Interpreted "12@34L5".toList :=
  (interpreted_iff (by decide)).mpr fun p q hs => by
    have hm : ',' ∈ "12@34L5".toList := hs ▸ List.mem_append_right p List.mem_cons_self
    exact absurd hm (by decide)

/-- A calling number with a pause, read while the tones are. -/
theorem paused_not_interpreted : (dialled "1@L2,3".toList).numTone = [','] ∧ tones "1@L2,3".toList = [] ∧
    ¬Interpreted "1@L2,3".toList :=
  ⟨by decide +kernel, by decide +kernel, fun h => absurd h.numTone (by decide +kernel)⟩

/-- The modem goes into a call in the mode that its dial string forces. -/
theorem dial_forced {a : Answers} {b : ModemEngineBody} (hb : b.callToken = "") (h : ';' ∉ s) :
    (b.dial a (dialled s).toDialString).1.forceFaxMode = forced s ∧
      (b.dial a (dialled s).toDialString).1.state = .stDial := by
  have hf := dialled_follows h
  simp [ModemEngineBody.dial, ModemEngineBody.offHook, ModemEngineBody.setState, ModemEngineBody.done, toDialString,
    hb, hf.err, hf.setForceFaxMode]

end DialGrammar

end T38Modem
