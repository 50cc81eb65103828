import OnePass.Proofs.Lexical.Lexeme

/-!
# Scanning follows the lexical grammar

Main theorem `scan_iff`: a text is scanned into tokens if and only if it can be cut into segments of
the grammar that bear these tokens, and it is refused for a cause at a place if and only if it can
be cut up to that place, where the grammar gives the cause.
-/

namespace OnePass

/-! ## Positions -/

namespace Position

theorem of_concat (text : List Char) (c : Char) : of (text ++ [c]) = (of text).after c := by
  unfold of after
  split_ifs with line
  · simp [line, Nat.add_assoc]
  · simp [line, Nat.add_comm]

theorem afterAll_of (before text : List Char) :
    (of before).afterAll text = of (before ++ text) := by
  induction text generalizing before with
  | nil => rw [afterAll_nil, List.append_nil]
  | cons c text ih => rw [afterAll_cons, ← of_concat, ih, List.append_assoc, List.singleton_append]

theorem Before.trans {p q r : Position} (h : p.Before q) (h' : q.Before r) : p.Before r := by
  unfold Before at *
  omega

theorem before_after (p : Position) (c : Char) : p.Before (p.after c) := by
  unfold Before after
  split_ifs <;> simp

/-- More text ends later. -/
theorem of_before (text : List Char) {more : List Char} (h : more ≠ []) :
    (of text).Before (of (text ++ more)) := by
  induction more using List.reverseRecOn with
  | nil => exact absurd rfl h
  | append_singleton cs c ih =>
    rw [← List.append_assoc, of_concat]
    by_cases none : cs = []
    · rw [none, List.append_nil]
      exact before_after _ c
    · exact (ih none).trans (before_after _ c)

end Position

namespace Lexical

open Lexeme

/-! ## Blanks and comments -/

/-- The text begins with neither blank nor comment. -/
def Visible (rest : List Char) : Prop :=
  (∀ c ∈ rest.head?, isBlank c = false) ∧ ¬ ['/', '/'] <+: rest

theorem Visible.gap_eq {rest : List Char} (h : Visible rest) :
    (Gap.ofChars false rest).text = [] ∧ (Gap.ofChars false rest).rest = rest := by
  cases rest with
  | nil => exact ⟨rfl, rfl⟩
  | cons c cs =>
    have noComment : ¬ (c = '/' ∧ cs.head? = some '/') := by
      rintro ⟨rfl, next⟩
      obtain ⟨cs, rfl⟩ := List.head?_eq_some_iff.1 next
      exact h.2 ⟨cs, rfl⟩
    simp only [Gap.ofChars, h.1 c rfl, noComment, Bool.false_eq_true, if_false]
    exact ⟨rfl, rfl⟩

/-- A comment is skipped up to the end of its line. -/
theorem gap_comment {text : List Char} (line : '\n' ∉ text) (cs : List Char) :
    (Gap.ofChars true (text ++ cs)).text = text ++ (Gap.ofChars true cs).text ∧
      (Gap.ofChars true (text ++ cs)).rest = (Gap.ofChars true cs).rest := by
  induction text with
  | nil => exact ⟨rfl, rfl⟩
  | cons c text ih =>
    obtain ⟨other, line⟩ := not_or.1 (List.mem_cons.not.1 line)
    have on : decide (c ≠ '\n') = true := decide_eq_true (Ne.symm other)
    obtain ⟨read, rest⟩ := ih line
    simp only [List.cons_append, Gap.ofChars, if_true, on, Gap.cons, read, rest, and_self]

theorem gap_slashes (cs : List Char) :
    Gap.ofChars false ('/' :: '/' :: cs) = ((Gap.ofChars true cs).cons '/').cons '/' := by
  simp [Gap.ofChars, show isBlank '/' = false by decide]

/-- All trivia before a visible text are skipped. -/
theorem gap_eq {gap rest : List Char} (visible : Visible rest) (trivia : Trivia rest.isEmpty gap) :
    (Gap.ofChars false (gap ++ rest)).text = gap ∧
      (Gap.ofChars false (gap ++ rest)).rest = rest := by
  induction trivia with
  | nil => exact visible.gap_eq
  | blank white _ ih =>
    simp only [List.cons_append, Gap.ofChars, white, Bool.false_eq_true, if_false, if_true,
      Gap.cons, ih, and_self]
  | @comment text cs line _ ih =>
    obtain ⟨read, behind⟩ := gap_comment line ('\n' :: (cs ++ rest))
    have fed : Gap.ofChars true ('\n' :: (cs ++ rest)) =
        (Gap.ofChars false (cs ++ rest)).cons '\n' := rfl
    rw [List.append_assoc, List.cons_append, List.cons_append, List.cons_append, gap_slashes]
    simp only [Gap.cons, read, behind, fed, ih]
    simp
  | @lastComment text line last =>
    obtain rfl := List.isEmpty_iff.1 last
    obtain ⟨read, behind⟩ := gap_comment line []
    rw [List.append_nil] at read behind ⊢
    rw [gap_slashes]
    simp only [Gap.cons, read, behind, Gap.ofChars, Gap.none, List.append_nil, and_self]

/-- Every text begins with trivia, up to its end or to a visible character. -/
theorem exists_trivia (cs : List Char) :
    ∃ gap rest, cs = gap ++ rest ∧ Trivia rest.isEmpty gap ∧ Visible rest := by
  match cs with
  | [] => exact ⟨[], [], rfl, .nil, by simp [Visible]⟩
  | c :: cs =>
    by_cases white : isBlank c = true
    · obtain ⟨gap, rest, rfl, trivia, visible⟩ := exists_trivia cs
      exact ⟨c :: gap, rest, rfl, .blank white trivia, visible⟩
    by_cases comment : ['/', '/'] <+: c :: cs
    · obtain ⟨text, split⟩ := comment
      cases split
      by_cases feed : '\n' ∈ text
      · obtain ⟨text, cs, rfl, line⟩ := List.eq_append_cons_of_mem feed
        obtain ⟨gap, rest, rfl, trivia, visible⟩ := exists_trivia cs
        exact ⟨_, rest, by simp, .comment line trivia, visible⟩
      · exact ⟨_, [], (List.append_nil _).symm, .lastComment feed rfl, by simp [Visible]⟩
    · exact ⟨[], _, rfl, .nil, by simpa using white, comment⟩
termination_by cs.length

/-! ## Visible characters -/

theorem isBlank_of_continuesWord {c : Char} (h : continuesWord c = true) : isBlank c = false := by
  have bounds : 48 ≤ c.toNat ∧ c.toNat ≤ 122 := by
    rcases Bool.or_eq_true_iff.1 h with alphanum | underscore
    · rcases Bool.or_eq_true_iff.1 alphanum with alpha | digit
      · exact ⟨(by decide : 48 ≤ 65).trans (toNat_of_isAlpha alpha).1, (toNat_of_isAlpha alpha).2⟩
      · have within := Char.isDigit_iff_toNat.1 digit
        exact ⟨within.1, within.2.trans (by decide)⟩
    · obtain rfl := of_decide_eq_true underscore
      decide
  simp only [isBlank, Bool.or_eq_false_iff, Bool.and_eq_false_iff, decide_eq_false_iff_not,
    beq_eq_false_iff_ne]
  omega

theorem continuesWord_of_startsWord {c : Char} (h : startsWord c = true) :
    continuesWord c = true := by
  simp only [startsWord, continuesWord, Char.isAlphanum, Bool.or_eq_true] at h ⊢
  tauto

theorem continuesWord_of_isDigit {c : Char} (h : c.isDigit = true) : continuesWord c = true := by
  simp [continuesWord, Char.isAlphanum, h]

theorem IsQuote.isBlank_eq {c : Char} (h : IsQuote c) : isBlank c = false ∧ c ≠ '/' := by
  rcases h with rfl | rfl <;> decide

theorem Spells.isBlank_eq {c : Char} {l : List Char} {m : Except LexError.Cause Token.Kind}
    (h : Spells (c :: l) m) : isBlank c = false := by
  rcases h.by_first with ⟨word, -⟩ | ⟨digit, -⟩ | ⟨quote, -⟩ | ⟨text, known, split, -⟩
  · exact isBlank_of_continuesWord (continuesWord_of_startsWord word)
  · exact isBlank_of_continuesWord (continuesWord_of_isDigit digit)
  · exact quote.isBlank_eq.1
  · exact (symbol_lead known split).2.2.2.2

theorem symbol_isBlank {text : String} (known : text ∈ Token.longSymbols ++ Token.shortSymbols) :
    ∀ c ∈ text.toList, isBlank c = false := by
  have all : (Token.longSymbols ++ Token.shortSymbols).all
      (fun text => text.toList.all fun c => !isBlank c) = true := by
    decide +kernel
  simpa using List.all_eq_true.1 all text known

/-- Only literals have blanks inside. -/
theorem Spells.isBlank_of_mem {c : Char} {l : List Char} {m : Except LexError.Cause Token.Kind}
    (h : Spells (c :: l) m) (unquoted : ¬ IsQuote c) : ∀ d ∈ c :: l, isBlank d = false := by
  refine List.forall_mem_cons.2 ⟨h.isBlank_eq, ?_⟩
  have digits : ∀ l : List Char, (∀ d ∈ l, d.isDigit = true) → ∀ d ∈ l, isBlank d = false :=
    fun l all d mem => isBlank_of_continuesWord (continuesWord_of_isDigit (all d mem))
  rcases h.by_first with ⟨-, further, -⟩ | ⟨-, number⟩ | ⟨quote, -⟩ | ⟨text, known, split, -⟩
  · exact fun d mem => isBlank_of_continuesWord (further d mem)
  · rcases number with ⟨further, -⟩ | ⟨whole, d, ds, rfl, further, fraction, -⟩
    · exact digits l further
    · refine List.forall_mem_append.2 ⟨digits whole further, ?_⟩
      exact List.forall_mem_cons.2 ⟨by decide, digits _ fraction⟩
  · exact absurd quote unquoted
  · have free := symbol_isBlank known
    rw [split] at free
    exact (List.forall_mem_cons.1 free).2

theorem visible_cons {c : Char} {cs : List Char} (white : isBlank c = false) (slash : c ≠ '/') :
    Visible (c :: cs) := by
  refine ⟨by simpa using white, fun comment => ?_⟩
  exact slash (List.cons_prefix_cons.1 comment).1.symm

/-- What cannot be read on is neither blank nor a comment. -/
theorem Fails.exists_visible {rest : List Char} {cause : LexError.Cause} (h : Fails rest cause) :
    ∃ c cs, rest = c :: cs ∧ Visible (c :: cs) := by
  cases h with
  | @invalidCharacter c cs white _ none =>
    refine ⟨c, cs, rfl, visible_cons white ?_⟩
    rintro rfl
    have slash : String.ofList ['/'] ∈ Token.longSymbols ++ Token.shortSymbols := by decide
    exact none ['/'] _ (spells_ofList slash) ⟨cs, rfl⟩
  | unterminated isQuote =>
    exact ⟨_, _, rfl, visible_cons isQuote.isBlank_eq.1 isQuote.isBlank_eq.2⟩
  | unknownEscape isQuote =>
    exact ⟨_, _, rfl, visible_cons isQuote.isBlank_eq.1 isQuote.isBlank_eq.2⟩
  | @meaningless l rest cause spells =>
    obtain ⟨c, l, rfl⟩ := List.exists_cons_of_ne_nil spells.ne_nil
    refine ⟨c, l ++ rest, rfl, visible_cons spells.isBlank_eq ?_⟩
    rcases spells.by_first with ⟨-, -, means⟩ | ⟨digit, -⟩ | ⟨quote, -⟩ | ⟨_, _, _, means⟩
    · cases means
    · rintro rfl
      exact absurd digit (by decide)
    · exact quote.isBlank_eq.2
    · cases means

/-! ## Steps of the scan -/

theorem scanFrom_nil {pos : Position} {cs : List Char} (h : (Gap.ofChars false cs).rest = []) :
    scanFrom pos cs = .ok [⟨.eof, pos.afterAll (Gap.ofChars false cs).text⟩] := by
  rw [scanFrom]
  split
  · rename_i found
    rw [found]
  · rename_i found
    rw [found] at h
    cases h

theorem scanFrom_cons {pos : Position} {c : Char} {cs rest : List Char}
    (h : (Gap.ofChars false cs).rest = c :: rest) :
    scanFrom pos cs =
      match ofChars c rest with
      | .error cause => .error ⟨pos.afterAll (Gap.ofChars false cs).text, cause⟩
      | .ok lexeme =>
        (scanFrom ((pos.afterAll (Gap.ofChars false cs).text).afterAll lexeme.text)
          lexeme.rest).map (⟨lexeme.value, pos.afterAll (Gap.ofChars false cs).text⟩ :: ·) := by
  rw [scanFrom]
  split
  · rename_i found
    rw [found] at h
    cases h
  · rename_i found
    rw [found] at h ⊢
    cases h
    rfl

/-- Trivia up to the end of the text leave the end of the input. -/
theorem scanFrom_trivia {before last : List Char} (trivia : Trivia true last) :
    scanFrom (.of before) last = .ok [⟨.eof, .of (before ++ last)⟩] := by
  have empty : Visible [] := by simp [Visible]
  obtain ⟨read, behind⟩ := gap_eq empty trivia
  rw [List.append_nil] at read behind
  rw [scanFrom_nil behind, read, Position.afterAll_of]

/-- A segment that fits gives its token. -/
theorem scanFrom_segment {before after : List Char} {s : Segment} (fits : s.Fits before after) :
    scanFrom (.of before) (s.gap ++ s.lexeme ++ after) =
      (scanFrom (.of (before ++ s.gap ++ s.lexeme)) after).map (s.token :: ·) := by
  obtain ⟨gap, lexeme, kind, pos⟩ := s
  obtain ⟨trivia, spells, longest, noComment, place⟩ := fits
  dsimp only at *
  obtain ⟨c, l, rfl⟩ := List.exists_cons_of_ne_nil spells.ne_nil
  have visible : Visible (c :: l ++ after) := ⟨by simpa using spells.isBlank_eq, noComment⟩
  obtain ⟨skipped, behind⟩ := gap_eq visible trivia
  obtain ⟨r, read, value, text, rest⟩ := eq_ok_of_view (view_ofChars spells longest rfl)
  rw [List.append_assoc, scanFrom_cons behind, skipped]
  simp only [read, value, text, rest, Position.afterAll_of, place]

/-- Where the grammar gives a cause, the scan ends with it. -/
theorem scanFrom_fails {before gap rest : List Char} {cause : LexError.Cause}
    (trivia : Trivia false gap) (fails : Fails rest cause) :
    scanFrom (.of before) (gap ++ rest) = .error ⟨.of (before ++ gap), cause⟩ := by
  obtain ⟨c, cs, rfl, visible⟩ := fails.exists_visible
  obtain ⟨read, behind⟩ := gap_eq visible trivia
  rw [scanFrom_cons behind, ofChars_of_fails fails rfl, read, Position.afterAll_of]

/-! ## Whole texts -/

/-- Segments that fit give their tokens, one after another. -/
theorem scanFrom_cut {before after : List Char} {segments : List Segment}
    (cut : Cut before segments after) :
    scanFrom (.of before) (textOf segments ++ after) =
      (scanFrom (.of (before ++ textOf segments)) after).map (segments.map (·.token) ++ ·) := by
  induction segments generalizing before with
  | nil =>
    simp only [textOf, List.flatMap_nil, List.nil_append, List.append_nil, List.map_nil]
    cases scanFrom (.of before) after <;> rfl
  | cons s segments ih =>
    obtain ⟨fits, cut⟩ := cut
    have text : textOf (s :: segments) = s.gap ++ s.lexeme ++ textOf segments := rfl
    rw [text, List.append_assoc, scanFrom_segment fits, ih cut]
    simp only [List.append_assoc]
    cases scanFrom _ after <;> rfl

/-- Every text can be cut into segments up to its end, or up to a place where the grammar says why
there are no more. -/
theorem exists_cut (before cs : List Char) :
    (∃ segments last, cs = textOf segments ++ last ∧ Cut before segments last ∧ Trivia true last) ∨
    ∃ segments gap rest cause, cs = textOf segments ++ gap ++ rest ∧
      Cut before segments (gap ++ rest) ∧ Trivia false gap ∧ Fails rest cause := by
  obtain ⟨gap, rest, rfl, trivia, visible⟩ := exists_trivia cs
  cases rest with
  | nil => exact .inl ⟨[], gap, by simp [textOf], trivial, trivia⟩
  | cons c rest =>
    rcases exists_lexeme rest (visible.1 c rfl) with
      ⟨lexeme, kind, after, split, spells, longest⟩ | ⟨cause, fails⟩
    · have shorter : after.length < (gap ++ c :: rest).length := by
        have := List.length_pos_iff.2 spells.ne_nil
        rw [split, List.length_append, List.length_append]
        omega
      rw [split] at longest visible ⊢
      let s : Segment := ⟨gap, lexeme, kind, .of (before ++ gap)⟩
      have fits : s.Fits before after := ⟨trivia, spells, longest, visible.2, rfl⟩
      rcases exists_cut (before ++ gap ++ lexeme) after with
        ⟨segments, last, rfl, cut, ends⟩ | ⟨segments, gap', rest', cause, rfl, cut, ends, fails⟩
      · exact .inl ⟨s :: segments, last, by simp [textOf, s], ⟨fits, cut⟩, ends⟩
      · refine .inr ⟨s :: segments, gap', rest', cause, by simp [textOf, s], ⟨?_, cut⟩, ends, fails⟩
        rwa [← List.append_assoc]
    · exact .inr ⟨[], gap, c :: rest, cause, by simp [textOf], trivial, trivia, fails⟩
termination_by cs.length

/-- Each of the segments behind a text fits somewhere behind it. -/
theorem Cut.fits {before after : List Char} {segments : List Segment}
    (cut : Cut before segments after) {s : Segment} (mem : s ∈ segments) :
    ∃ text rest, s.Fits (before ++ text) rest := by
  induction segments generalizing before with
  | nil => cases mem
  | cons first segments ih =>
    obtain ⟨fits, cut⟩ := cut
    rcases List.mem_cons.1 mem with rfl | mem
    · exact ⟨[], _, by rwa [List.append_nil]⟩
    · obtain ⟨text, rest, fits⟩ := ih cut mem
      exact ⟨first.gap ++ first.lexeme ++ text, rest, by simpa using fits⟩

/-- The positions of tokens increase, up to a place behind them. -/
theorem Cut.increasing {before after : List Char} {segments : List Segment}
    (cut : Cut before segments after) (more : List Char) :
    (segments.map (·.token.pos) ++ [Position.of (before ++ textOf segments ++ more)]).Pairwise
      Position.Before := by
  induction segments generalizing before with
  | nil => simp
  | cons s segments ih =>
    obtain ⟨fits, cut⟩ := cut
    have text : before ++ textOf (s :: segments) =
        before ++ s.gap ++ s.lexeme ++ textOf segments := by
      simp [textOf]
    rw [text, List.map_cons, List.cons_append, List.pairwise_cons]
    refine ⟨fun p mem => ?_, ih cut⟩
    rw [fits.pos]
    have later : ∀ text, (Position.of (before ++ s.gap)).Before
        (.of (before ++ s.gap ++ s.lexeme ++ text)) := by
      intro text
      rw [List.append_assoc (before ++ s.gap)]
      exact Position.of_before _ (by simp [fits.spells.ne_nil])
    rcases List.mem_append.1 mem with mem | mem
    · obtain ⟨s', inside, rfl⟩ := List.mem_map.1 mem
      obtain ⟨text, rest, fits'⟩ := cut.fits inside
      rw [fits'.pos, List.append_assoc _ text]
      exact later _
    · rw [List.mem_singleton.1 mem, List.append_assoc _ (textOf segments)]
      exact later _

section

variable {source : String} {segments : List Segment}

theorem scan_of_cut {last : List Char} (split : source.toList = textOf segments ++ last)
    (cut : Cut [] segments last) (trivia : Trivia true last) :
    scan source = .ok (segments.map (·.token) ++ [⟨.eof, .of source.toList⟩]) := by
  rw [scan, show Position.start = .of [] from rfl, split, scanFrom_cut cut, scanFrom_trivia trivia]
  rfl

theorem scan_of_fails {gap rest : List Char} {cause : LexError.Cause}
    (split : source.toList = textOf segments ++ gap ++ rest) (cut : Cut [] segments (gap ++ rest))
    (trivia : Trivia false gap) (fails : Fails rest cause) :
    scan source = .error ⟨.of (textOf segments ++ gap), cause⟩ := by
  rw [scan, show Position.start = .of [] from rfl, split, List.append_assoc, scanFrom_cut cut,
    scanFrom_fails trivia fails]
  rfl

theorem exists_cut_of_scan {ts : List Token} (h : scan source = .ok ts) :
    ∃ segments last, source.toList = textOf segments ++ last ∧ Cut [] segments last ∧
      Trivia true last ∧ ts = segments.map (·.token) ++ [⟨.eof, .of source.toList⟩] := by
  rcases exists_cut [] source.toList with
    ⟨segments, last, split, cut, trivia⟩ | ⟨segments, gap, rest, cause, split, cut, trivia, fails⟩
  · cases h.symm.trans (scan_of_cut split cut trivia)
    exact ⟨segments, last, split, cut, trivia, rfl⟩
  · cases h.symm.trans (scan_of_fails split cut trivia fails)

/-- The positions of the tokens of a text increase. -/
theorem increasing_of_scan {ts : List Token} (h : scan source = .ok ts) :
    (ts.map (·.pos)).Pairwise Position.Before := by
  obtain ⟨segments, last, split, cut, -, rfl⟩ := exists_cut_of_scan h
  have increasing := cut.increasing last
  rw [List.nil_append, ← split] at increasing
  rw [List.map_append, List.map_map]
  exact increasing

theorem exists_fails_of_scan {e : LexError} (h : scan source = .error e) :
    ∃ segments gap rest, source.toList = textOf segments ++ gap ++ rest ∧
      Cut [] segments (gap ++ rest) ∧ Trivia false gap ∧ Fails rest e.cause ∧
      e.pos = .of (textOf segments ++ gap) := by
  rcases exists_cut [] source.toList with
    ⟨segments, last, split, cut, trivia⟩ | ⟨segments, gap, rest, cause, split, cut, trivia, fails⟩
  · cases h.symm.trans (scan_of_cut split cut trivia)
  · cases h.symm.trans (scan_of_fails split cut trivia fails)
    exact ⟨segments, gap, rest, split, cut, trivia, fails, rfl⟩

end

/-- **Scanning follows the grammar.** A text is scanned into tokens if and only if it consists of
segments that bear them and trivia at the end; a last token marks the end of the text. It is refused
if and only if behind some segments and trivia the grammar gives the cause, and this place is the
position of the error. No character is lost, and the positions increase. -/
theorem scan_iff (source : String) :
    (∀ ts, scan source = .ok ts ↔
      ∃ segments last, source.toList = textOf segments ++ last ∧ Cut [] segments last ∧
        Trivia true last ∧ ts = segments.map (·.token) ++ [⟨.eof, .of source.toList⟩] ∧
        (ts.map (·.pos)).Pairwise Position.Before) ∧
    ∀ e, scan source = .error e ↔
      ∃ segments gap rest, source.toList = textOf segments ++ gap ++ rest ∧
        Cut [] segments (gap ++ rest) ∧ Trivia false gap ∧ Fails rest e.cause ∧
        e.pos = .of (textOf segments ++ gap) ∧
        (segments.map (·.token.pos) ++ [e.pos]).Pairwise Position.Before := by
  refine ⟨fun ts => ⟨fun h => ?_, ?_⟩, fun e => ⟨fun h => ?_, ?_⟩⟩
  · obtain ⟨segments, last, split, cut, trivia, rfl⟩ := exists_cut_of_scan h
    have increasing := cut.increasing last
    rw [List.nil_append, ← split] at increasing
    refine ⟨segments, last, split, cut, trivia, rfl, ?_⟩
    rw [List.map_append, List.map_map]
    exact increasing
  · rintro ⟨segments, last, split, cut, trivia, rfl, -⟩
    exact scan_of_cut split cut trivia
  · obtain ⟨segments, gap, rest, split, cut, trivia, fails, pos⟩ := exists_fails_of_scan h
    refine ⟨segments, gap, rest, split, cut, trivia, fails, pos, ?_⟩
    rw [pos]
    exact cut.increasing gap
  · rintro ⟨segments, gap, rest, split, cut, trivia, fails, pos, -⟩
    rw [scan_of_fails split cut trivia fails, ← pos]

end Lexical

end OnePass
