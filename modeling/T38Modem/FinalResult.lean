import T38Modem.CommandRounds

namespace T38Modem

namespace CmdLine

def isBlank (ch : Char) : Bool := ch = ' ' || ch = ';'

/-- A text of the response, in which there is no result. -/
def Texts (ps : List Piece) : Prop := ∀ p ∈ ps, p.isText = true

/-- The response holds a result at its end at most. -/
def AtMostOne (s : CmdLine) : Prop := ∃ ts ps, s.resp = ts ++ ps ∧ Texts ts ∧ ps.length ≤ 1

def EndsWithResult (s : CmdLine) : Prop := ∃ ts code t, s.resp = ts ++ [.result code t] ∧ Texts ts

/-- A command of the line has raised the error or answered with a result. -/
def Failed (s : CmdLine) : Prop := s.err = true ∨ ∃ p ∈ s.resp, p.isText = false

/-- A command is executed in this round. -/
def Executes (s : CmdLine) : Prop := s.Goes ∧ ∃ ch, s.read = some ch ∧ isBlank ch = false

/-- The response holds one result at most, at its end, and one when the modem takes the next line, and no
command is executed behind one that has failed. -/
def OneResult (w : Nat → World) (s : CmdLine) : Prop :=
  (∃ u, s.handleCmdRest w = some u ∧ u.AtMostOne ∧ (u.body.state = .stCommand → u.EndsWithResult)) ∧
  ∀ t, Rounds w s.start t → t.Failed → ¬t.Executes

/-- Behind the dial strings whose response is BUSY there are but blanks and semicolons. -/
def NothingBehindBusy (w : Nat → World) (s : CmdLine) : Prop :=
  ∀ t, Rounds w s.start t → t.Goes → t.DialsBusy w → ∀ ch ∈ (t.behind w).dialing.cmdRest, isBlank ch = true

variable {w : Nat → World} {s t u : CmdLine} {ps : List Piece} {ch : Char}

theorem Texts.append {ts : List Piece} (h : Texts ts) (h' : Texts ps) : Texts (ts ++ ps) := by
  intro p hp
  rcases List.mem_append.mp hp with hp | hp
  · exact h p hp
  · exact h' p hp

theorem texts_text (t : String) : Texts [.text t] := by
  intro p hp
  rw [List.mem_singleton.mp hp]
  rfl

theorem Adds.texts (h : Adds s t ps) (hs : Texts s.resp) : ∃ ts, t.resp = ts ++ ps ∧ Texts ts := by
  obtain ⟨ts, hr, ht⟩ := h
  exact ⟨s.resp ++ ts, hr, hs.append ht⟩

theorem Adds.nil_texts (h : Adds s t []) (hs : Texts s.resp) : Texts t.resp := by
  obtain ⟨ts, hr, ht⟩ := h.texts hs
  rw [hr, List.append_nil]
  exact ht

/-- Between the rounds the response holds texts, until the line ends with an error, with the state of the
modem or with a result. -/
inductive Sound (s : CmdLine) : Prop
  | goes (err : s.err = false) (ok : s.ok = true) (resp : Texts s.resp)
  | fails (err : s.err = true) (resp : Texts s.resp)
  | ends (err : s.err = false) (ok : s.ok = false) (state : s.body.state ≠ .stCommand) (resp : Texts s.resp)
  | connects (err : s.err = false) (ok : s.ok = false) (crlf : s.crlf = false) (state : s.body.state ≠ .stCommand)
      {ts : List Piece} {t : String} (resp : s.resp = ts ++ [.result .connect t]) (texts : Texts ts)
  | busy (err : s.err = false) (ok : s.ok = false) (crlf : s.crlf = false)
      {ts : List Piece} {t : String} (resp : s.resp = ts ++ [.result .busy t]) (texts : Texts ts)
      (rest : ∀ ch ∈ s.rest, isBlank ch = true)

theorem sound_start (s : CmdLine) : s.start.Sound := .goes rfl rfl nofun

theorem Leaves.sound (h : Leaves s t) (hs : Texts s.resp) : t.Sound := by
  cases h with
  | fails read resp err => exact .fails err (resp.nil_texts hs)
  | ends read resp err ok state => exact .ends err ok state (resp.nil_texts hs)
  | connects read resp err ok crlf state =>
    obtain ⟨ts, hr, ht⟩ := resp.texts hs
    exact .connects err ok crlf state hr ht

/-- A blank and a semicolon are skipped. -/
theorem round_blank (hr : s.read = some ch) (hb : isBlank ch = true) : s.round w = some (s.behind w) := by
  unfold round Cmd.command Cmd.switch
  dsimp only
  rw [hr]
  rcases (by simpa [isBlank] using hb : ch = ' ' ∨ ch = ';') with rfl | rfl <;> rfl

theorem Goes.rest (hg : s.Goes) : ∃ ch, s.read = some ch ∧ s.rest = ch :: (s.behind w).rest := by
  obtain ⟨_, _, ch, hread, hnul⟩ := hg
  exact ⟨ch, hread, Cursor.rest_cons hread hnul⟩

theorem Sound.round (h : s.Sound) (hg : s.Goes) (hr : s.round w = some t)
    (hb : s.DialsBusy w → ∀ ch ∈ (s.behind w).dialing.cmdRest, isBlank ch = true) : t.Sound := by
  cases h with
  | goes err ok resp =>
    obtain ⟨t', ht', h⟩ := round_some (w := w) hg
    cases Option.some.inj (hr.symm.trans ht')
    rcases h with ⟨hd, hbusy⟩ | ⟨_, hdone⟩
    · obtain ⟨a, ha⟩ := hbusy.resp
      obtain ⟨ts, hts, htext⟩ := ha.texts resp
      exact .busy hbusy.err hbusy.ok hbusy.crlf hts htext (hbusy.rest ▸ hb hd)
    · cases hdone with
      | stays read hresp hok state =>
        cases he : t.err with
        | false => exact .goes he (hok.trans ok) (hresp.nil_texts resp)
        | true => exact .fails he (hresp.nil_texts resp)
      | leaves h => exact h.sound resp
  | fails err resp => exact absurd hg.2.1 (by simp [err])
  | ends err ok state resp => exact absurd hg.1 state
  | connects err ok crlf state resp texts => exact absurd hg.1 state
  | busy err ok crlf resp texts rest =>
    obtain ⟨ch, hread, hrest⟩ := hg.rest (w := w)
    rw [hrest] at rest
    cases Option.some.inj (hr.symm.trans (round_blank hread (rest ch List.mem_cons_self)))
    exact .busy err ok crlf resp texts fun c hc => rest c (List.mem_cons_of_mem _ hc)

theorem Rounds.sound (h : Rounds w s.start t) (hb : s.NothingBehindBusy w) : t.Sound := by
  induction h with
  | refl => exact s.sound_start
  | next h hg hr ih => exact ih.round hg hr (hb _ h hg)

/-- What stands in front of the result that ends the line. -/
def front (s : CmdLine) : List Piece :=
  (if s.crlf then s.resp ++ [.text "\r\n"] else s.resp) ++ if s.crlf then [] else [s.rcPref]

theorem front_texts (h : Texts s.resp) : Texts s.front := by
  unfold front
  split
  · exact (h.append (texts_text _)).append nofun
  · exact h.append (texts_text _)

theorem finish_error (he : s.err = true) : s.finish.resp = s.front ++ [s.rc .error] := by
  unfold finish
  simp only [he, ↓reduceIte]
  rfl

theorem finish_ok (he : s.err = false) (ho : s.ok = true) : s.finish.resp = s.front ++ [s.rc .ok] := by
  unfold finish
  simp only [he, ho, Bool.false_eq_true, ↓reduceIte]
  rfl

theorem finish_neither (he : s.err = false) (ho : s.ok = false) :
    s.finish.resp = if s.crlf then s.resp ++ [.text "\r\n"] else s.resp := by
  unfold finish
  simp only [he, ho, Bool.false_eq_true, ↓reduceIte]

theorem finish_state : s.finish.body = s.body := by
  unfold finish
  dsimp only
  split
  · rfl
  · split <;> rfl

theorem EndsWithResult.atMostOne (h : s.EndsWithResult) : s.AtMostOne := by
  obtain ⟨ts, code, t, hr, ht⟩ := h
  exact ⟨ts, _, hr, ht, Nat.le_refl 1⟩

theorem Sound.finish (h : s.Sound) :
    s.finish.AtMostOne ∧ (s.finish.body.state = .stCommand → s.finish.EndsWithResult) := by
  have hone (h : s.finish.EndsWithResult) :
      s.finish.AtMostOne ∧ (s.finish.body.state = .stCommand → s.finish.EndsWithResult) := ⟨h.atMostOne, fun _ => h⟩
  cases h with
  | goes err ok resp => exact hone ⟨_, _, _, finish_ok err ok, front_texts resp⟩
  | fails err resp => exact hone ⟨_, _, _, finish_error err, front_texts resp⟩
  | ends err ok state resp =>
    refine ⟨⟨_, [], (List.append_nil _).symm, ?_, Nat.zero_le _⟩, fun h => absurd (finish_state ▸ h) state⟩
    rw [finish_neither err ok]
    split
    · exact resp.append (texts_text _)
    · exact resp
  | connects err ok crlf state resp texts =>
    have hr := finish_neither err ok
    rw [crlf] at hr
    exact hone ⟨_, _, _, hr.trans resp, texts⟩
  | busy err ok crlf resp texts rest =>
    have hr := finish_neither err ok
    rw [crlf] at hr
    exact hone ⟨_, _, _, hr.trans resp, texts⟩

theorem Sound.executes (h : s.Sound) (hf : s.Failed) : ¬s.Executes := by
  rintro ⟨hg, ch, hread, hb⟩
  have htexts : ¬Texts s.resp := by
    intro ht
    rcases hf with he | ⟨p, hp, hr⟩
    · rw [hg.2.1] at he
      cases he
    · rw [ht p hp] at hr
      cases hr
  cases h with
  | goes err ok resp => exact htexts resp
  | fails err resp => exact htexts resp
  | ends err ok state resp => exact htexts resp
  | connects err ok crlf state resp texts => exact state hg.1
  | busy err ok crlf resp texts rest =>
    obtain ⟨c, hc, hrest⟩ := hg.rest (w := fun _ => {})
    cases Option.some.inj (hread.symm.trans hc)
    rw [rest ch (hrest ▸ List.mem_cons_self)] at hb
    cases hb

theorem Rounds.trans (h : Rounds w s t) (h' : Rounds w t u) : Rounds w s u := by
  induction h' with
  | refl => exact h
  | next _ hg hr ih => exact .next ih hg hr

/-- The loop reads on, over blanks, to a command that is behind a result. -/
theorem executes_behind (hs : s.body.state = .stCommand) (he : s.err = false) (hin : s.Inside)
    (hf : ∃ p ∈ s.resp, p.isText = false) (hch : ch ∈ s.rest) (hb : isBlank ch = false) :
    ∃ t, Rounds w s t ∧ t.Failed ∧ t.Executes := by
  generalize hr : s.rest = r at hch
  induction r generalizing s with
  | nil => cases hch
  | cons c r ih =>
    have hread : s.read = some c := by rw [Cursor.read_rest hin, hr]; rfl
    have hnul : c ≠ Cursor.nul := by
      intro hc
      refine s.noNul (List.mem_of_mem_drop (i := s.pos) ?_)
      rw [show s.line.drop s.pos = _ from hr, hc]
      exact List.mem_cons_self
    have hg : s.Goes := ⟨hs, he, c, hread, hnul⟩
    cases hc : isBlank c with
    | false => exact ⟨s, .refl, .inr hf, hg, c, hread, hc⟩
    | true =>
      have hrest := (Cursor.rest_cons hread hnul).symm.trans hr
      have hmem : ch ∈ r := by
        rcases List.mem_cons.mp hch with rfl | h
        · rw [hb] at hc
          cases hc
        · exact h
      obtain ⟨t, ht, hft, het⟩ := ih (s := s.behind w) ((ModemEngineBody.others_command _).mpr hs) he
        (Cursor.skip_inside hread hnul) hf (List.cons.inj hrest).2 hmem
      exact ⟨t, ht.cons hg (round_blank hread hc), hft, het⟩

/-- A line is answered with one result if and only if nothing follows a dial string whose response is
BUSY. -/
theorem oneResult_iff (w : Nat → World) (s : CmdLine) : s.OneResult w ↔ s.NothingBehindBusy w := by
  constructor
  · intro h t ht hg hd ch hch
    by_contra hb
    obtain ⟨u, hu, hbusy⟩ := round_some (w := w) hg
    have hbusy : Busy (t.behind w) u := by
      rcases hbusy with ⟨_, hbusy⟩ | ⟨hn, _⟩
      · exact hbusy
      · exact absurd hd hn
    obtain ⟨a, ts, hresp, _⟩ := hbusy.resp
    have hin : u.Inside := by simpa [hbusy.err] using hbusy.read.inside
    obtain ⟨v, hv, hf, he⟩ := executes_behind (w := w) hbusy.state hbusy.err hin
      ⟨.result .busy a, by simp [hresp], rfl⟩ (hbusy.rest ▸ hch) (by simpa using hb)
    exact h.2 v ((Rounds.next ht hg hu).trans hv) hf he
  · intro hb
    obtain ⟨u, hu, hr, _⟩ := handleCmdRest_some w s
    exact ⟨⟨_, hu, (hr.sound hb).finish⟩, fun t ht => (ht.sound hb).executes⟩

/-- A modem that rings, with the registers as they are at the start. -/
def ringing : CmdLine where
  line := "D1;O".toList
  pos := 0
  noNul := by decide
  body := { callToken := "1", callState := .cstCalled }
  P := Profile.init.getD { S := Vector.replicate 60 0, modemClass := "", modemClassId := .mcUndefined }

theorem ringing_resp : (ringing.handleCmdRest fun _ => {}).map CmdLine.resp =
    some [.text "\r\n", .result .busy "BUSY\r\n", .text "\r\n", .result .error "ERROR\r\n"] := by
  decide +kernel

/-- The command behind BUSY is executed, and ERROR follows. -/
theorem ringing_two_results : ¬ringing.OneResult fun _ => {} := by
  rintro ⟨⟨u, hu, ⟨ts, ps, hr, ht, hp⟩, _⟩, _⟩
  have hresp := ringing_resp
  rw [hu] at hresp
  have hresp := Option.some.inj hresp
  rw [hr] at hresp
  have hlen := congrArg List.length hresp
  simp only [List.length_append, List.length_cons, List.length_nil] at hlen
  have hbusy : Piece.result .busy "BUSY\r\n" ∈ ts := by
    have hget : (ts ++ ps)[1]? = some (.result .busy "BUSY\r\n") := by rw [hresp]; rfl
    rw [List.getElem?_append_left (by omega)] at hget
    exact List.mem_of_getElem? hget
  exact absurd (ht _ hbusy) nofun

end CmdLine

end T38Modem
