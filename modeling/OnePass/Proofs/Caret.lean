import OnePass.Proofs.Layout
import OnePass.Proofs.Lexical.Lines

/-!
# The caret

The scan counts lines and columns while it reads on, and an excerpt splits the source into lines
anew. Main theorem `caret_below_first_character`: they agree. What is shown below a message is the
line that it speaks of, and the caret stands below the first character of the token, or of what is
no token; below the end of the input it stands right behind the line.
-/

namespace OnePass

/-- The line of a text with a number, counted from one. A text is split at its line feeds, and a
carriage return directly before one of them does not belong to the line. -/
def lineOf (text : List Char) (number : Nat) : List Char :=
  let parts := text.splitOn '\n'
  let part := parts[number - 1]?.getD []
  if number < parts.length ∧ part.getLast? = some '\r' then part.dropLast else part

/-- The line of a position, and a caret below its column. -/
def Excerpt.caretAt (source : String) (p : Position) : Excerpt :=
  ⟨String.ofList (lineOf source.toList p.line),
   String.ofList (List.replicate (p.column - 1) ' ' ++ ['^'])⟩

/-! ## Lines -/

theorem length_splitOn (text : List Char) :
    (text.splitOn '\n').length = text.count '\n' + 1 := by
  induction text with
  | nil => rfl
  | cons c text ih =>
    by_cases feed : c = '\n'
    · simp [List.splitOn_cons_eq_if_modifyHead, feed, ih]
    · simp [List.splitOn_cons_eq_if_modifyHead, feed, ih]

theorem takeWhile_line {line : List Char} (h : '\n' ∉ line) (rest : List Char) :
    (line ++ rest).takeWhile (· ≠ '\n') = line ++ rest.takeWhile (· ≠ '\n') := by
  refine List.takeWhile_append_of_pos fun c mem => decide_eq_true ?_
  rintro rfl
  exact h mem

theorem takeWhile_feed (rest : List Char) : ('\n' :: rest).takeWhile (· ≠ '\n') = [] := rfl

theorem getElem?_zero_splitOn (text : List Char) :
    (text.splitOn '\n')[0]? = some (text.takeWhile (· ≠ '\n')) := by
  by_cases feed : '\n' ∈ text
  · obtain ⟨first, more, rfl, line⟩ := List.eq_append_cons_of_mem feed
    rw [List.splitOn_append_cons_self_of_not_mem line, takeWhile_line line, takeWhile_feed,
      List.append_nil, List.getElem?_cons_zero]
  · have whole := takeWhile_line feed []
    rw [List.append_nil, List.takeWhile_nil, List.append_nil] at whole
    rw [List.splitOn_eq_singleton feed, whole, List.getElem?_cons_zero]

theorem linesFrom_line {line : List Char} (h : '\n' ∉ line) (open_ rest : List Char) :
    linesFrom open_ (line ++ rest) = linesFrom (line.reverse ++ open_) rest := by
  induction line generalizing open_ with
  | nil => rfl
  | cons c line ih =>
    obtain ⟨other, h⟩ := not_or.1 (List.mem_cons.not.1 h)
    rw [List.cons_append, linesFrom, if_neg (Ne.symm other), ih h]
    simp

/-- Both ways to split a text into lines agree. -/
theorem getD_linesFrom (text : List Char) (i : Nat) :
    (linesFrom [] text)[i]?.getD [] = lineOf text (i + 1) := by
  by_cases feed : '\n' ∈ text
  · obtain ⟨first, more, rfl, line⟩ := List.eq_append_cons_of_mem feed
    have parts := List.splitOn_append_cons_self_of_not_mem line more
    have split : linesFrom [] (first ++ '\n' :: more) = dropReturn first :: linesFrom [] more := by
      rw [linesFrom_line line, linesFrom, if_pos rfl]
      simp
    rw [split]
    cases i with
    | zero => simp [lineOf, parts, dropReturn, length_splitOn]
    | succ i =>
      rw [List.getElem?_cons_succ, getD_linesFrom more i]
      simp [lineOf, parts]
  · have split : linesFrom [] text = if text.isEmpty then [] else [text] := by
      have whole := linesFrom_line feed [] []
      rw [List.append_nil, List.append_nil, linesFrom] at whole
      simpa using whole
    rw [split, lineOf, List.splitOn_eq_singleton feed]
    cases text <;> cases i <;> simp
termination_by text.length
decreasing_by
  all_goals simp [*]
  all_goals omega

/-! ## Columns -/

/-- A position tells the line that the text before it ends with, whatever follows on that line. -/
theorem exists_last_line (before : List Char) :
    ∃ line, (Position.of before).column = 1 + line.length ∧
      ∀ after, ((before ++ after).splitOn '\n')[(Position.of before).line - 1]? =
        some (line ++ after.takeWhile (· ≠ '\n')) := by
  by_cases feed : '\n' ∈ before.reverse
  · obtain ⟨line, earlier, split, h⟩ := List.eq_append_cons_of_mem feed
    have h' : '\n' ∉ line.reverse := by simpa using h
    have split' : before = earlier.reverse ++ '\n' :: line.reverse := by
      simpa using congrArg List.reverse split
    refine ⟨line.reverse, ?_, fun after => ?_⟩
    · rw [Position.of, split, takeWhile_line h, takeWhile_feed, List.append_nil,
        List.length_reverse]
    · have number : (Position.of before).line - 1 = (earlier.reverse.splitOn '\n').length + 0 := by
        simp [Position.of, split', length_splitOn, List.count_eq_zero.2 h]
      rw [number, split', List.append_assoc, List.cons_append, List.splitOn_append_cons_self,
        List.getElem?_append_right (Nat.le_add_right _ _), Nat.add_sub_cancel_left,
        getElem?_zero_splitOn, takeWhile_line h']
  · have h : '\n' ∉ before := by simpa using feed
    refine ⟨before, ?_, fun after => ?_⟩
    · have whole := takeWhile_line feed []
      rw [List.append_nil, List.takeWhile_nil, List.append_nil] at whole
      rw [Position.of, whole, List.length_reverse]
    · have number : (Position.of before).line - 1 = 0 := by
        simp [Position.of, List.count_eq_zero.2 h]
      rw [number, getElem?_zero_splitOn, takeWhile_line h]

/-- A visible character stands in its line where its position says. -/
theorem getElem?_lineOf {c : Char} (visible : isBlank c = false) (before rest : List Char) :
    (lineOf (before ++ c :: rest) (Position.of before).line)[(Position.of before).column - 1]? =
      some c := by
  obtain ⟨line, column, parts⟩ := exists_last_line before
  have other : c ≠ '\n' ∧ c ≠ '\r' := by
    constructor <;> rintro rfl <;> exact absurd visible (by decide)
  have part := parts (c :: rest)
  rw [List.takeWhile_cons, if_pos (decide_eq_true other.1)] at part
  rw [lineOf, part, column, Nat.add_sub_cancel_left, Option.getD_some]
  generalize rest.takeWhile (· ≠ '\n') = more
  split_ifs with dropped
  · -- what is dropped is the last character, and this one is no carriage return
    cases more with
    | nil => simp [other.2] at dropped
    | cons d more => simp [List.dropLast_append_of_ne_nil]
  · simp

/-- The last line ends with the text. -/
theorem length_lineOf (text : List Char) :
    (Position.of text).column - 1 = (lineOf text (Position.of text).line).length := by
  obtain ⟨line, column, parts⟩ := exists_last_line text
  have part := parts []
  rw [List.append_nil, List.takeWhile_nil, List.append_nil] at part
  have last : ¬ (Position.of text).line < (text.splitOn '\n').length := by
    simp [Position.of, length_splitOn, Nat.add_comm]
  simp [lineOf, part, last, column]

/-- An excerpt is not clipped where the line reaches as far as the column. -/
theorem Excerpt.atPosition_eq {source : String} {p : Position} (line : 1 ≤ p.line)
    (column : p.column - 1 ≤ (lineOf source.toList p.line).length) :
    atPosition source p = caretAt source p := by
  have same : (lines source)[p.line - 1]?.getD [] = lineOf source.toList p.line := by
    rw [lines, getD_linesFrom, Nat.sub_add_cancel line]
  simp only [atPosition, caretAt, same, Nat.min_eq_left column]

theorem Excerpt.atPosition_of_visible {source : String} {before rest : List Char} {c : Char}
    (split : source.toList = before ++ c :: rest) (visible : isBlank c = false) :
    atPosition source (.of before) = caretAt source (.of before) := by
  refine atPosition_eq (Nat.le_add_right 1 _) (Nat.le_of_lt ?_)
  rw [split]
  exact (List.getElem?_eq_some_iff.1 (getElem?_lineOf visible before rest)).1

theorem Excerpt.atPosition_of_end (source : String) :
    atPosition source (.of source.toList) = caretAt source (.of source.toList) :=
  atPosition_eq (Nat.le_add_right 1 _) (length_lineOf source.toList).le

/-! ## Tokens -/

namespace Lexical

/-- Where a segment stands in a text that is cut. -/
theorem Cut.exists_split {before after : List Char} {segments : List Segment}
    (cut : Cut before segments after) {s : Segment} (mem : s ∈ segments) :
    ∃ front back, textOf segments ++ after = front ++ s.gap ++ s.lexeme ++ back ∧
      s.Fits (before ++ front) back := by
  induction segments generalizing before with
  | nil => cases mem
  | cons first segments ih =>
    obtain ⟨fits, cut⟩ := cut
    have text : textOf (first :: segments) ++ after =
        first.gap ++ first.lexeme ++ (textOf segments ++ after) := by
      simp [textOf]
    rcases List.mem_cons.1 mem with rfl | mem
    · exact ⟨[], _, by simpa using text, by rwa [List.append_nil]⟩
    · obtain ⟨front, back, split, fits⟩ := ih cut mem
      refine ⟨first.gap ++ first.lexeme ++ front, back, ?_, by simpa using fits⟩
      rw [text, split]
      simp

theorem Means.ne_eof {word : String} {kind : Token.Kind} (h : Means word kind) : kind ≠ .eof := by
  rintro rfl
  cases h

theorem Spells.ne_eof {l : List Char} {kind : Token.Kind} (h : Spells l (.ok kind)) :
    kind ≠ .eof := by
  rintro rfl
  cases h with
  | word _ _ means => exact means.ne_eof rfl

/-- Every token but the end of the input is spelled by the longest lexeme at its position. -/
theorem exists_lexeme_of_mem {source : String} {ts : List Token} (scanned : scan source = .ok ts)
    {t : Token} (mem : t ∈ ts) :
    t = ⟨.eof, .of source.toList⟩ ∨
    ∃ before lexeme after, source.toList = before ++ lexeme ++ after ∧ t.pos = .of before ∧
      Spells lexeme (.ok t.kind) ∧ IsLongest lexeme (lexeme ++ after) := by
  obtain ⟨segments, last, split, cut, -, rfl⟩ := exists_cut_of_scan scanned
  rcases List.mem_append.1 mem with mem | mem
  · obtain ⟨s, inside, rfl⟩ := List.mem_map.1 mem
    obtain ⟨front, back, place, fits⟩ := cut.exists_split inside
    exact .inr ⟨front ++ s.gap, s.lexeme, back, split.trans place, fits.pos, fits.spells,
      fits.longest⟩
  · exact .inl (List.mem_singleton.1 mem)

end Lexical

/-- Every diagnostic stands at a token. -/
theorem exists_token_of_diagnostic {source : String} {ts : List Token}
    (scanned : scan source = .ok ts) {structural : Severity} {host : String → Option ValueType}
    {c : Compilation} (compiled : compile source structural { host } = .ok c) :
    ∀ d ∈ c.diagnostics, ∃ t ∈ ts, d.pos = t.pos := by
  obtain ⟨c', compiled', -, -, reports⟩ := compile_of_scan scanned structural { host }
  cases compiled.symm.trans compiled'
  -- the program is compared with itself
  have fresh : (Transfer.between ts ts).Fresh := ⟨rfl, rfl, rfl⟩
  have hosts : ∀ name, host ((Transfer.between ts ts).name name) = host name := fun _ => rfl
  obtain ⟨paired, -⟩ := Pass.run_carried fresh rfl structural (fun _ _ => rfl) hosts
    (carried_of_kinds_eq scanned rfl)
  rw [← reports] at paired
  refine ((List.forall₂_and_left _ _).1 (paired.imp fun d d' same => ⟨?_, same⟩)).1
  obtain ⟨i, t, -, found, -, pos, -⟩ := same.pos
  exact ⟨t, List.mem_of_getElem? found, pos⟩

/-- **The caret stands below the first character.** Let a source have a lexical error, or a
diagnostic for any severity and host. The excerpt shown with it is the line of its position, split
off at line feeds and without the carriage return before them, and a caret below its column, which
is never clipped. In that line and column stands the first character of what is no token, or of the
token that the diagnostic is about; if that is the end of the input, the column is the one behind
the line. -/
theorem caret_below_first_character (source : String) :
    (∀ e, scan source = .error e →
      Excerpt.atPosition source e.pos = Excerpt.caretAt source e.pos ∧
      ∃ before c rest, source.toList = before ++ c :: rest ∧ e.pos = .of before ∧
        Lexical.Fails (c :: rest) e.cause ∧
        (lineOf source.toList e.pos.line)[e.pos.column - 1]? = some c) ∧
    ∀ structural host c, compile source structural { host } = .ok c →
      ∃ ts, scan source = .ok ts ∧ ∀ d ∈ c.diagnostics,
        Excerpt.atPosition source d.pos = Excerpt.caretAt source d.pos ∧
        ∃ t ∈ ts, d.pos = t.pos ∧
          (t.kind = .eof → d.pos.column - 1 = (lineOf source.toList d.pos.line).length) ∧
          (t.kind ≠ .eof → ∃ before lexeme after, source.toList = before ++ lexeme ++ after ∧
            d.pos = .of before ∧ Lexical.Spells lexeme (.ok t.kind) ∧
            Lexical.IsLongest lexeme (lexeme ++ after) ∧
            ∃ c, lexeme.head? = some c ∧
              (lineOf source.toList d.pos.line)[d.pos.column - 1]? = some c) := by
  refine ⟨fun e refused => ?_, fun structural host c compiled => ?_⟩
  · obtain ⟨segments, gap, rest, split, -, -, fails, pos⟩ := Lexical.exists_fails_of_scan refused
    obtain ⟨c, rest, rfl, visible⟩ := fails.exists_visible
    have visible : isBlank c = false := visible.1 c rfl
    rw [pos]
    refine ⟨Excerpt.atPosition_of_visible split visible, _, c, rest, split, rfl, fails, ?_⟩
    rw [split]
    exact getElem?_lineOf visible _ rest
  · have scanned : ∃ ts, scan source = .ok ts := by
      unfold compile at compiled
      split at compiled
      · cases compiled
      · exact ⟨_, by assumption⟩
    obtain ⟨ts, scanned⟩ := scanned
    refine ⟨ts, scanned, fun d mem => ?_⟩
    obtain ⟨t, inside, pos⟩ := exists_token_of_diagnostic scanned compiled d mem
    rw [pos]
    rcases Lexical.exists_lexeme_of_mem scanned inside with
      rfl | ⟨before, lexeme, after, split, place, spells, longest⟩
    · exact ⟨Excerpt.atPosition_of_end source, _, inside, rfl,
        fun _ => length_lineOf source.toList, fun other => absurd rfl other⟩
    · obtain ⟨c, lexeme, rfl⟩ := List.exists_cons_of_ne_nil spells.ne_nil
      have split' : source.toList = before ++ c :: (lexeme ++ after) := by simpa using split
      have shown := Excerpt.atPosition_of_visible split' spells.isBlank_eq
      have found := getElem?_lineOf spells.isBlank_eq before (lexeme ++ after)
      rw [← split', ← place] at found
      rw [← place] at shown
      exact ⟨shown, t, inside, rfl, fun same => absurd same spells.ne_eof, fun _ =>
        ⟨before, _, after, split, place, spells, longest, c, rfl, found⟩⟩

/-- A program that assigns to a name without a declaration, in a block without its end. -/
def openSource : String := "\x7b\r\n\ty = 1;\r\n  "

/-- Whether a source text is compiled and has diagnostics at these positions. -/
def reportsAt (source : String) (positions : List Position) : Bool :=
  match compile source with
  | .ok c => c.diagnostics.map (·.pos) = positions
  | .error _ => false

theorem caret_below_openSource :
    (scan "int\r\n\t$\r\n" = .error ⟨⟨2, 2⟩, .invalidCharacter '$'⟩ ∧
      Excerpt.atPosition "int\r\n\t$\r\n" ⟨2, 2⟩ = ⟨"\t$", " ^"⟩) ∧
    ∃ c, compile openSource = .ok c ∧ c.diagnostics.map (·.pos) = [⟨2, 2⟩, ⟨3, 3⟩] ∧
      Excerpt.atPosition openSource ⟨2, 2⟩ = ⟨"\ty = 1;", " ^"⟩ ∧
      Excerpt.atPosition openSource ⟨3, 3⟩ = ⟨"  ", "  ^"⟩ := by
  have refused : scan "int\r\n\t$\r\n" = .error ⟨⟨2, 2⟩, .invalidCharacter '$'⟩ := by
    decide +kernel
  have shown := ((caret_below_first_character _).1 _ refused).1
  refine ⟨⟨refused, shown.trans rfl⟩, ?_⟩
  have reports : reportsAt openSource [⟨2, 2⟩, ⟨3, 3⟩] = true := by decide +kernel
  unfold reportsAt at reports
  split at reports
  · rename_i c compiled
    have positions := of_decide_eq_true reports
    obtain ⟨ts, -, carets⟩ :=
      (caret_below_first_character openSource).2 .error (fun _ => none) c compiled
    have caret : ∀ p ∈ c.diagnostics.map (·.pos),
        Excerpt.atPosition openSource p = Excerpt.caretAt openSource p := by
      intro p mem
      obtain ⟨d, reported, rfl⟩ := List.mem_map.1 mem
      exact (carets d reported).1
    rw [positions] at caret
    exact ⟨c, compiled, positions, (caret _ (by simp)).trans rfl, (caret _ (by simp)).trans rfl⟩
  · cases reports

end OnePass
