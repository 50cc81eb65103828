import OnePass.Proofs.Grammar
import OnePass.Proofs.Lexical.Scan

/-!
# Tokens as they are shown

A token is shown by a lexeme that means it, but for fractions, negative numbers, the end of the
input and characters that are shown by their code points. A blank behind a lexeme ends it. So tokens
that are shown with blanks between them are read again: main theorem `scan_shown`.
-/

namespace OnePass

open Lexical

/-- What a token shows can be read again: its words, symbols and names are those of source texts,
its number is not negative, and none of its characters is shown by its code point. -/
def Token.Kind.Readable : Token.Kind → Prop
  | .keyword word => word ∈ Token.keywords
  | .symbol text => text ∈ Token.longSymbols ++ Token.shortSymbols
  | .ident name => Token.Kind.Scannable (.ident name)
  | .int value => 0 ≤ value.toInt
  | .bool _ => True
  | .char c => Quoted.escape '\x27' c ≠ Quoted.codePoint c
  | .string s => ∀ c ∈ s.toList, Quoted.escape '"' c ≠ Quoted.codePoint c
  | .double _ | .eof => False

/-! ## Texts between quotes -/

namespace Lexical

section

variable {quote : Char}

/-- A character is shown by one of its encodings, or by its code point. -/
theorem encodes_escape (isQuote : IsQuote quote) {c : Char}
    (shown : Quoted.escape quote c ≠ Quoted.codePoint c) {cs text : List Char}
    (rest : Encodes quote cs text) : Encodes quote (Quoted.escape quote c ++ cs) (c :: text) := by
  unfold Quoted.escape at shown ⊢
  split_ifs at shown ⊢ with zero tab ret line backslash closes
  · exact .escape (by simp [escapes, zero]) rest
  · exact .escape (by simp [escapes, tab]) rest
  · exact .escape (by simp [escapes, ret]) rest
  · exact .escape (by simp [escapes, line]) rest
  · exact .escape (by simp [escapes, backslash]) rest
  · subst closes
    refine .escape ?_ rest
    rcases isQuote with rfl | rfl <;> simp [escapes]
  · exact absurd rfl shown
  · exact .plain closes backslash line rest

theorem encodes_flatMap_escape (isQuote : IsQuote quote) {text : List Char}
    (shown : ∀ c ∈ text, Quoted.escape quote c ≠ Quoted.codePoint c) :
    Encodes quote (text.flatMap (Quoted.escape quote)) text := by
  induction text with
  | nil => exact .nil
  | cons c text ih =>
    obtain ⟨first, further⟩ := List.forall_mem_cons.1 shown
    rw [List.flatMap_cons]
    exact encodes_escape isQuote first (ih further)

end

/-! ## Words and numbers -/

/-- The words with a meaning of their own are lexemes. -/
theorem spells_reserved (word : String) (known : word ∈ "true" :: "false" :: Token.keywords) :
    Spells word.toList (.ok (.ofWord word)) := by
  have words : ("true" :: "false" :: Token.keywords).all (fun word =>
      !word.toList.isEmpty && word.toList.head?.all Lexeme.startsWord &&
        word.toList.tail.all Lexeme.continuesWord) = true := by
    decide +kernel
  have shape := List.all_eq_true.1 words word known
  simp only [Bool.and_eq_true, Bool.not_eq_true', List.isEmpty_eq_false_iff, Option.all_eq_true,
    List.all_eq_true] at shape
  obtain ⟨⟨some, first⟩, further⟩ := shape
  obtain ⟨c, cs, split⟩ := List.exists_cons_of_ne_nil some
  rw [split] at first further ⊢
  refine .word (first c rfl) further (means_iff.2 ?_)
  rw [← split, String.ofList_toList]

theorem decimal_toDigits (n : Nat) : decimal (Nat.toDigits 10 n) = n := by
  rw [← digitsValue_eq]
  exact Nat.ofDigitChars_ten_toDigits

theorem spells_repr {value : Int32} (h : 0 ≤ value.toInt) :
    Spells value.toInt.repr.toList (.ok (.int value)) := by
  obtain ⟨n, exact⟩ := Int.eq_ofNat_of_zero_le h
  have shown : value.toInt.repr.toList = Nat.toDigits 10 n := by
    rw [exact]
    change n.repr.toList = _
    rw [Nat.repr_eq_ofList_toDigits, String.toList_ofList]
  obtain ⟨c, cs, split⟩ := List.exists_cons_of_ne_nil (Nat.toDigits_ne_nil (n := n) (b := 10))
  rw [shown, split]
  refine .integer (fun d mem => ?_) ?_
  · rw [← split] at mem
    exact Nat.isDigit_of_mem_toDigits (by decide) (by decide) mem
  · rw [← split, decimal_toDigits, exact]

end Lexical

/-- A name that a source text holds is written as it is called. -/
theorem Token.Kind.Scannable.spells {name : String} (h : Token.Kind.Scannable (.ident name)) :
    Spells name.toList (.ok (.ident name)) := by
  obtain ⟨source, ts, scanned, t, mem, kind⟩ := h
  obtain ⟨segments, last, -, cut, -, rfl⟩ := exists_cut_of_scan scanned
  rcases List.mem_append.1 mem with mem | mem
  · obtain ⟨s, inside, rfl⟩ := List.mem_map.1 mem
    obtain ⟨_, _, fits⟩ := cut.fits inside
    have spells := fits.spells
    rw [kind] at spells
    generalize s.lexeme = lexeme at spells
    generalize meaning : (Except.ok (Token.Kind.ident name) : Except LexError.Cause _) = m at spells
    cases spells with
    | @word c cs kind first further means =>
      cases meaning
      generalize written : String.ofList (c :: cs) = word at means
      cases means with
      | ident noTruth noKeyword =>
        rw [← written, String.toList_ofList]
        exact .word first further (written ▸ .ident noTruth noKeyword)
    | _ => cases meaning
  · obtain rfl := List.mem_singleton.1 mem
    cases kind

/-- What is shown of a readable token is a lexeme that means it. -/
theorem Token.Kind.Readable.spells {k : Token.Kind} (h : k.Readable) :
    Spells k.text.toList (.ok k) := by
  cases k with
  | keyword word =>
    have meant : Token.Kind.ofWord word = .keyword word := (means_iff.1 (.keyword h)).symm
    have spells := spells_reserved word (List.mem_cons_of_mem _ (List.mem_cons_of_mem _ h))
    rwa [meant] at spells
  | symbol text => exact .symbol h
  | ident name => exact Token.Kind.Scannable.spells h
  | int value => exact spells_repr h
  | bool value =>
    cases value with
    | false => exact spells_reserved "false" (by simp)
    | true => exact spells_reserved "true" (by simp)
  | char c =>
    have encodes := encodes_flatMap_escape (.inr rfl) (List.forall_mem_singleton.2 h)
    rw [Token.Kind.text, Quoted.char, String.toList_ofList]
    exact .char encodes
  | string s =>
    have spells := Spells.string (encodes_flatMap_escape (.inl rfl) h)
    rw [Token.Kind.text, Quoted.string, String.toList_ofList]
    rwa [String.ofList_toList] at spells
  | double value => exact h.elim
  | eof => exact h.elim

/-! ## Blanks between lexemes -/

namespace Lexical

section

variable {l after : List Char} {m : Except LexError.Cause Token.Kind}

/-- A blank, or the end of the text, ends a lexeme. -/
theorem Spells.isLongest_of_blank (h : Spells l m) (blank : ∀ c ∈ after.head?, isBlank c = true) :
    IsLongest l (l ++ after) := by
  intro l' m' spells isPrefix
  by_contra longer
  obtain ⟨more, rfl⟩ := List.prefix_of_prefix_length_le (List.prefix_append l after) isPrefix
    (not_le.1 longer).le
  cases more with
  | nil => simp at longer
  | cons d more =>
    have next : d ∈ after.head? := by
      obtain ⟨rest, rfl⟩ := (List.prefix_append_right_inj l).1 isPrefix
      rfl
    obtain ⟨c, l, rfl⟩ := List.exists_cons_of_ne_nil h.ne_nil
    by_cases quote : IsQuote c
    · -- a literal ends at its own closing quote
      obtain ⟨cs, text, encodes, rfl, -⟩ := h.of_isQuote quote
      obtain ⟨cs', text', encodes', split, -⟩ := spells.of_isQuote quote
      have split : cs ++ c :: d :: more = cs' ++ [c] := by simpa using split
      have same := encodes.closed_unique quote encodes' split
      simp [same] at split
    · have visible := spells.isBlank_of_mem quote d (by simp)
      simp [blank d next] at visible

theorem Spells.noComment_of_blank (h : Spells l m) (blank : ∀ c ∈ after.head?, isBlank c = true) :
    ¬ ['/', '/'] <+: l ++ after := by
  intro comment
  obtain ⟨c, l, rfl⟩ := List.exists_cons_of_ne_nil h.ne_nil
  rw [List.cons_append, List.cons_prefix_cons] at comment
  obtain ⟨rfl, comment⟩ := comment
  -- of the symbols that begin with a slash, none has another one behind it
  obtain ⟨-, ⟨rfl, -⟩ | ⟨d, rfl, long⟩⟩ := h.symbol_cases (by decide) (by decide)
    (by simp [IsQuote])
  · obtain ⟨rest, rfl⟩ := comment
    exact absurd (blank '/' rfl) (by decide)
  · rw [List.singleton_append, List.cons_prefix_cons] at comment
    rw [← comment.1] at long
    exact absurd long (by decide)

end

/-- A readable token fits before a blank and before the end of the text. -/
theorem fits_shown {k : Token.Kind} (readable : k.Readable) {gap : List Char}
    (trivia : Trivia false gap) (before after : List Char)
    (blank : ∀ c ∈ after.head?, isBlank c = true) :
    Segment.Fits before ⟨gap, k.text.toList, k, .of (before ++ gap)⟩ after :=
  ⟨trivia, readable.spells, readable.spells.isLongest_of_blank blank,
    readable.spells.noComment_of_blank blank, rfl⟩

/-- Tokens that are shown one after another, with a blank before each but the first, are read. -/
theorem scanFrom_shown {k : Token.Kind} {ks : List Token.Kind} (first : k.Readable)
    (further : ∀ k ∈ ks, k.Readable) {gap : List Char} (trivia : Trivia false gap)
    (before : List Char) :
    ∃ ts, scanFrom (.of before)
        (gap ++ k.text.toList ++ ks.flatMap fun k => [' '] ++ k.text.toList) = .ok ts ∧
      ts.map (·.kind) = k :: ks ++ [.eof] := by
  induction ks generalizing k gap before with
  | nil =>
    have fits := fits_shown first trivia before [] (by simp)
    rw [List.flatMap_nil, scanFrom_segment fits, scanFrom_trivia .nil]
    exact ⟨_, rfl, rfl⟩
  | cons k' ks ih =>
    obtain ⟨first', further⟩ := List.forall_mem_cons.1 further
    have space : isBlank ' ' = true := by decide
    obtain ⟨ts, scanned, kinds⟩ := ih first' further (.blank space .nil)
      (before ++ gap ++ k.text.toList)
    have fits := fits_shown first trivia before
      ((k' :: ks).flatMap fun k => [' '] ++ k.text.toList) (by simp [space])
    rw [scanFrom_segment fits, List.flatMap_cons, scanned]
    exact ⟨_, rfl, congrArg (k :: ·) kinds⟩

end Lexical

theorem toList_intercalate_shown (k : Token.Kind) (ks : List Token.Kind) :
    (" ".intercalate ((k :: ks).map (·.text))).toList =
      k.text.toList ++ ks.flatMap fun k => [' '] ++ k.text.toList := by
  rw [String.toList_intercalate]
  induction ks generalizing k with
  | nil => simp
  | cons k' ks ih =>
    rw [List.map_cons, List.map_cons, List.map_cons, List.map_cons, List.intercalate_cons_cons]
    simpa using ih k'

/-- **Tokens that are shown can be read again.** Let tokens be shown with a blank between any two of
them: words, symbols and names of the language, numbers that are not negative, truth values, and
characters and strings without a character that is shown by its code point. This text is scanned,
into tokens of the same kinds and the end of the input. -/
theorem scan_shown (kinds : List Token.Kind) (readable : ∀ k ∈ kinds, k.Readable) :
    ∃ ts, scan (" ".intercalate (kinds.map (·.text))) = .ok ts ∧
      ts.map (·.kind) = kinds ++ [.eof] := by
  cases kinds with
  | nil => exact ⟨_, @scanFrom_trivia [] [] .nil, rfl⟩
  | cons k ks =>
    obtain ⟨first, further⟩ := List.forall_mem_cons.1 readable
    rw [scan, toList_intercalate_shown]
    exact scanFrom_shown first further .nil []

/-- Tokens whose texts would run into each other without blanks between them. -/
def adjoining : List Token.Kind :=
  [.symbol "/", .symbol "/", .keyword "if", .ident "iff", .int 0, .int 2147483647, .bool true,
    .char '\x27', .string "// \"if\"\\\n\x00\té", .symbol "="]

theorem readable_adjoining : ∀ k ∈ adjoining, k.Readable := by
  have name : Token.Kind.Scannable (.ident "iff") :=
    ⟨"iff", [⟨.ident "iff", ⟨1, 1⟩⟩, ⟨.eof, ⟨1, 4⟩⟩], by decide +kernel, by decide⟩
  have shown : "// \"if\"\\\n\x00\té".toList.all
      (fun c => Quoted.escape '"' c ≠ Quoted.codePoint c) = true := by
    -- lists are searched faster than arrays
    simp only [Quoted.escape, Quoted.isHidden, isUnprintable, extendsGrapheme, ← Array.any_toList]
    decide +kernel
  simp only [adjoining, List.forall_mem_cons, Token.Kind.Readable]
  exact ⟨by decide, by decide, by decide, name, by decide, by decide, trivial, by decide +kernel,
    by simpa using List.all_eq_true.1 shown, by decide, by simp⟩

theorem scan_shown_adjoining :
    (∀ k ∈ adjoining, k.Readable) ∧
    ∃ ts, scan (" ".intercalate (adjoining.map (·.text))) = .ok ts ∧
      ts.map (·.kind) = adjoining ++ [.eof] :=
  ⟨readable_adjoining, scan_shown adjoining readable_adjoining⟩

end OnePass
