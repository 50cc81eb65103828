import OnePass.Proofs.Lexical.Scan

/-!
# Scanning line by line

No lexeme goes on behind a line feed, and no comment. So a text that ends before a line feed is read
as if it stood alone, and what follows is read as if a text began there, only further down. Main
theorem `scan_joined`.
-/

namespace OnePass

/-! ## Further down -/

def Position.below (d : Nat) (p : Position) : Position := ⟨p.line + d, p.column⟩

def Token.below (d : Nat) (t : Token) : Token := ⟨t.kind, t.pos.below d⟩

/-- The same lexical error, some lines further down. -/
def LexError.below (d : Nat) (e : LexError) : LexError := ⟨e.pos.below d, e.cause⟩

namespace Position

theorem after_below (d : Nat) (p : Position) (c : Char) :
    (p.below d).after c = (p.after c).below d := by
  unfold below after
  split_ifs
  · rw [Nat.add_right_comm]
  · rfl

theorem afterAll_below (d : Nat) (p : Position) (cs : List Char) :
    (p.below d).afterAll cs = (p.afterAll cs).below d := by
  induction cs generalizing p with
  | nil => rfl
  | cons c cs ih => rw [afterAll_cons, afterAll_cons, after_below, ih]

/-- A line feed leads to the first column, below all lines before it. -/
theorem of_feed (text : List Char) : of (text ++ ['\n']) = start.below (1 + text.count '\n') := by
  rw [of_concat, after, if_pos rfl]
  exact congrArg (Position.mk · 1) (Nat.add_comm _ 1)

end Position

namespace Lexical

/-- What a scan gives, some lines further down. -/
def below (d : Nat) : Except LexError (List Token) → Except LexError (List Token)
  | .ok ts => .ok (ts.map (·.below d))
  | .error e => .error (e.below d)

/-- Where a text begins decides on nothing but the positions. -/
theorem scanFrom_below (d : Nat) (p : Position) (cs : List Char) :
    scanFrom (p.below d) cs = below d (scanFrom p cs) := by
  match found : (Gap.ofChars false cs).rest with
  | [] =>
    rw [scanFrom_nil found, scanFrom_nil found, Position.afterAll_below]
    rfl
  | c :: rest =>
    rw [scanFrom_cons found, scanFrom_cons found, Position.afterAll_below]
    cases read : Lexeme.ofChars c rest with
    | error cause => rfl
    | ok lexeme =>
      have shorter : lexeme.rest.length < cs.length := by
        have := lexeme.length_rest_lt
        have split := congrArg List.length (Gap.ofChars false cs).split
        rw [found, List.length_append] at split
        omega
      simp only [Position.afterAll_below]
      rw [scanFrom_below d _ lexeme.rest]
      cases scanFrom _ lexeme.rest <;> rfl
termination_by cs.length

/-! ## Behind a line feed -/

section

variable {l text more : List Char} {m : Except LexError.Cause Token.Kind}

theorem Encodes.not_mem_feed {quote : Char} (h : Encodes quote l text) : '\n' ∉ l := by
  induction h with
  | nil => exact List.not_mem_nil
  | plain _ _ line _ ih => simpa [ih] using Ne.symm line
  | @escape e c cs text known _ ih =>
    have escaped : '\n' ≠ e := by
      rintro rfl
      simp [escapes] at known
    simp [ih, escaped]

/-- A lexeme stands on one line. -/
theorem Spells.not_mem_feed (h : Spells l m) : '\n' ∉ l := by
  obtain ⟨c, l, rfl⟩ := List.exists_cons_of_ne_nil h.ne_nil
  by_cases quote : IsQuote c
  · obtain ⟨cs, text, encodes, rfl, -⟩ := h.of_isQuote quote
    have other : '\n' ≠ c := by rcases quote with rfl | rfl <;> decide
    simp [encodes.not_mem_feed, other]
  · intro mem
    have visible := h.isBlank_of_mem quote _ mem
    exact absurd visible (by decide)

/-- What stands on one line and begins before a line feed ends before it. -/
theorem prefix_of_feed (line : '\n' ∉ l) (isPrefix : l <+: text ++ '\n' :: more) : l <+: text := by
  have fed : text ++ ['\n'] <+: text ++ '\n' :: more := ⟨more, by simp⟩
  rcases List.prefix_or_prefix_of_prefix isPrefix fed with short | long
  · rcases List.prefix_concat_iff.1 short with rfl | short
    · exact absurd (by simp) line
    · exact short
  · exact absurd (long.subset (by simp)) line

theorem IsLongest.feed (h : IsLongest l text) (more : List Char) :
    IsLongest l (text ++ '\n' :: more) :=
  fun l' m spells isPrefix => h l' m spells (prefix_of_feed spells.not_mem_feed isPrefix)

end

/-- Trivia up to the end of a text go on behind a line feed. -/
theorem Trivia.feed {last : List Char} (h : Trivia true last) {ends : Bool} {gap : List Char}
    (trivia : Trivia ends gap) : Trivia ends (last ++ '\n' :: gap) := by
  induction h with
  | nil => exact .blank (by decide) trivia
  | blank white _ ih => exact .blank white ih
  | @comment text cs line _ ih =>
    have more := Trivia.comment line ih
    simpa using more
  | lastComment line => exact .comment line trivia

/-- Trivia up to the end of a text are left behind with the line feed. -/
theorem scanFrom_feed {last : List Char} (h : Trivia true last) (p : Position) (cs : List Char) :
    scanFrom p (last ++ '\n' :: cs) = scanFrom (p.afterAll (last ++ ['\n'])) cs := by
  obtain ⟨gap, rest, rfl, trivia, visible⟩ := exists_trivia cs
  obtain ⟨skipped, behind⟩ := gap_eq visible trivia
  obtain ⟨skipped', behind'⟩ := gap_eq visible (h.feed trivia)
  rw [List.append_assoc, List.cons_append] at skipped' behind'
  have place : p.afterAll (last ++ '\n' :: gap) =
      (p.afterAll (last ++ ['\n'])).afterAll gap := by
    rw [← Position.afterAll_append, List.append_assoc, List.singleton_append]
  cases rest with
  | nil => rw [scanFrom_nil behind, scanFrom_nil behind', skipped, skipped', place]
  | cons c rest => rw [scanFrom_cons behind, scanFrom_cons behind', skipped, skipped', place]

theorem Segment.Fits.feed {before after : List Char} {s : Segment} (h : s.Fits before after)
    (more : List Char) : s.Fits before (after ++ '\n' :: more) where
  trivia := h.trivia
  spells := h.spells
  longest := by
    rw [← List.append_assoc]
    exact h.longest.feed more
  noComment := by
    rw [← List.append_assoc]
    exact fun comment => h.noComment (prefix_of_feed (by decide) comment)
  pos := h.pos

/-- Segments before a line feed fit whatever follows it. -/
theorem Cut.feed {before after : List Char} {segments : List Segment}
    (h : Cut before segments after) (more : List Char) :
    Cut before segments (after ++ '\n' :: more) := by
  induction segments generalizing before with
  | nil => trivial
  | cons s segments ih =>
    obtain ⟨fits, cut⟩ := h
    refine ⟨?_, ih cut⟩
    rw [← List.append_assoc]
    exact fits.feed more

/-- What cannot be read is not made readable by further lines. Only the cause can be another one: a
backslash at the end of the text then stands before a line feed. -/
theorem Fails.feed {rest : List Char} {cause : LexError.Cause} (h : Fails rest cause)
    (more : List Char) : ∃ cause', Fails (rest ++ '\n' :: more) cause' := by
  cases h with
  | invalidCharacter visible unquoted none =>
    exact ⟨_, .invalidCharacter visible unquoted fun l m spells isPrefix =>
      none l m spells (prefix_of_feed spells.not_mem_feed isPrefix)⟩
  | @unterminated quote cs text rest isQuote encodes ends =>
    rw [List.append_assoc]
    rcases ends with rfl | rfl | line
    · exact ⟨_, .unterminated isQuote encodes (.inr (.inr rfl))⟩
    · exact ⟨_, .unknownEscape isQuote encodes (by simp [escapes])⟩
    · refine ⟨_, .unterminated isQuote encodes (.inr (.inr ?_))⟩
      rw [List.head?_append, line, Option.some_or]
  | unknownEscape isQuote encodes unknown =>
    rw [List.append_assoc]
    exact ⟨_, .unknownEscape isQuote encodes unknown⟩
  | meaningless spells longest =>
    have longest' := longest.feed more
    rw [List.append_assoc] at longest' ⊢
    exact ⟨_, .meaningless spells longest'⟩

/-! ## The lines of a message -/

theorem linesFrom_feed (open_ text more : List Char) :
    ∃ first, linesFrom open_ (text ++ '\n' :: more) = first ++ linesFrom [] more ∧
      first.length = 1 + text.count '\n' := by
  induction text generalizing open_ with
  | nil => exact ⟨[dropReturn open_.reverse], by simp [linesFrom], rfl⟩
  | cons c text ih =>
    by_cases feed : c = '\n'
    · obtain ⟨first, split, length⟩ := ih []
      refine ⟨dropReturn open_.reverse :: first, ?_, ?_⟩
      · rw [List.cons_append, linesFrom, if_pos feed, split, List.cons_append]
      · rw [List.length_cons, length, feed, List.count_cons_self, Nat.add_assoc]
    · obtain ⟨first, split, length⟩ := ih (c :: open_)
      refine ⟨first, ?_, ?_⟩
      · rw [List.cons_append, linesFrom, if_neg feed, split]
      · rw [length, List.count_cons_of_ne feed]

/-- The excerpt of a message does not depend on what stands in the lines before. -/
theorem atPosition_below (a b : String) {p : Position} (inside : 1 ≤ p.line) :
    Excerpt.atPosition (a ++ "\n" ++ b) (p.below (1 + a.toList.count '\n')) =
      Excerpt.atPosition b p := by
  obtain ⟨first, split, length⟩ := linesFrom_feed [] a.toList b.toList
  have joined : lines (a ++ "\n" ++ b) = first ++ lines b := by
    rw [lines, lines, ← split]
    simp
  have line : (lines (a ++ "\n" ++ b))[p.line + (1 + a.toList.count '\n') - 1]? =
      (lines b)[p.line - 1]? := by
    rw [joined, List.getElem?_append_right (by omega), length]
    congr 1
    omega
  simp only [Excerpt.atPosition, Position.below, line]

/-- **Scanning goes line by line.** Let two texts be joined by a line feed, and `d` be the number of
lines that the first text takes. If the first text is scanned, then the joined text is scanned if
and only if the second one is: its tokens are those of the first text but for the end of the input,
and then those of the second text, `d` lines further down. If the second text is refused, the joined
one is refused for the same cause, `d` lines further down, in the same column and with the same
excerpt. If the first text is refused, the joined one is refused at the same place. -/
theorem scan_joined (a b : String) :
    (∀ ts, scan a = .ok ts → ∃ front last, ts = front ++ [⟨.eof, last⟩] ∧
      (∀ ts', scan b = .ok ts' → scan (a ++ "\n" ++ b) =
        .ok (front ++ ts'.map (·.below (1 + a.toList.count '\n')))) ∧
      ∀ e, scan b = .error e →
        scan (a ++ "\n" ++ b) = .error (e.below (1 + a.toList.count '\n')) ∧
        Excerpt.atPosition (a ++ "\n" ++ b) (e.below (1 + a.toList.count '\n')).pos =
          Excerpt.atPosition b e.pos) ∧
    ∀ e, scan a = .error e → ∃ e', scan (a ++ "\n" ++ b) = .error e' ∧ e'.pos = e.pos := by
  have text : (a ++ "\n" ++ b).toList = a.toList ++ '\n' :: b.toList := by simp
  refine ⟨fun ts scanned => ?_, fun e refused => ?_⟩
  · obtain ⟨segments, last, split, cut, trivia, rfl⟩ := exists_cut_of_scan scanned
    -- behind the segments of the first text, its trivia and the line feed, the second text is read
    have joined : scan (a ++ "\n" ++ b) =
        (below (1 + a.toList.count '\n') (scan b)).map (segments.map (·.token) ++ ·) := by
      rw [scan, text, split, List.append_assoc, show Position.start = .of [] from rfl,
        scanFrom_cut (cut.feed b.toList), List.nil_append, scanFrom_feed trivia,
        Position.afterAll_of, ← List.append_assoc, ← split, Position.of_feed, scanFrom_below, scan]
    refine ⟨segments.map (·.token), _, rfl, fun ts' scanned' => ?_, fun e refused => ?_⟩
    · rw [joined, scanned']
      rfl
    · obtain ⟨_, _, _, -, -, -, -, pos⟩ := exists_fails_of_scan refused
      refine ⟨by rw [joined, refused]; rfl, atPosition_below a b ?_⟩
      rw [pos]
      exact Nat.le_add_right 1 _
  · obtain ⟨segments, gap, rest, split, cut, trivia, fails, pos⟩ := exists_fails_of_scan refused
    obtain ⟨cause, fails⟩ := fails.feed b.toList
    have cut := cut.feed b.toList
    rw [List.append_assoc] at cut
    refine ⟨_, scan_of_fails ?_ cut trivia fails, pos.symm⟩
    rw [text, split, List.append_assoc]

theorem scan_joined_comment :
    scan "if // once\r" = .ok [⟨.keyword "if", ⟨1, 1⟩⟩, ⟨.eof, ⟨1, 12⟩⟩] ∧
    scan "\t9 $" = .error ⟨⟨1, 4⟩, .invalidCharacter '$'⟩ ∧
    scan ("if // once\r" ++ "\n" ++ "\t9 $") = .error ⟨⟨2, 4⟩, .invalidCharacter '$'⟩ ∧
    Excerpt.atPosition ("if // once\r" ++ "\n" ++ "\t9 $") ⟨2, 4⟩ =
      Excerpt.atPosition "\t9 $" ⟨1, 4⟩ := by
  have scanned : scan "if // once\r" = .ok [⟨.keyword "if", ⟨1, 1⟩⟩, ⟨.eof, ⟨1, 12⟩⟩] := by
    decide +kernel
  have refused : scan "\t9 $" = .error ⟨⟨1, 4⟩, .invalidCharacter '$'⟩ := by decide +kernel
  obtain ⟨_, _, -, -, joined⟩ := (scan_joined "if // once\r" "\t9 $").1 _ scanned
  exact ⟨scanned, refused, joined _ refused⟩

end Lexical

end OnePass
