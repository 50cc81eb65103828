import OnePass.Proofs.Lexical.Grammar

/-!
# Reading lexemes

The lexeme that is read off the front of a text is the longest one of the grammar there, with its
meaning, and a failed reading has a cause that the grammar gives.
-/

namespace OnePass.Lexical

open Lexeme

/-! ## Characters -/

theorem digitsValue_eq (digits : List Char) : digitsValue digits = decimal digits := by
  induction digits using List.reverseRecOn with
  | nil => rfl
  | append_singleton cs c ih =>
    rw [digitsValue, List.foldl_append, ← digitsValue, ih]
    simp [decimal, Nat.ofDigits_cons, Nat.add_comm]

theorem toNat_of_isAlpha {c : Char} (h : c.isAlpha = true) : 65 ≤ c.toNat ∧ c.toNat ≤ 122 := by
  rcases Bool.or_eq_true_iff.1 h with upper | lower
  · have within : c.val ≥ 'A'.val ∧ c.val ≤ 'Z'.val := of_decide_eq_true upper
    rw [ge_iff_le, UInt32.le_iff_toNat_le, UInt32.le_iff_toNat_le] at within
    exact ⟨within.1, within.2.trans (by decide)⟩
  · obtain ⟨low, high⟩ := Bool.and_eq_true_iff.1 lower
    have within : 'a'.val ≤ c.val ∧ c.val ≤ 'z'.val :=
      ⟨of_decide_eq_true low, of_decide_eq_true high⟩
    rw [UInt32.le_iff_toNat_le, UInt32.le_iff_toNat_le] at within
    exact ⟨le_trans (by decide) within.1, within.2⟩

theorem startsWord_of_isDigit {c : Char} (h : c.isDigit = true) : startsWord c = false := by
  have low : c.toNat ≤ 57 := (Char.isDigit_iff_toNat.1 h).2
  by_contra word
  rcases Bool.or_eq_true_iff.1 (Bool.eq_true_of_not_eq_false word) with alpha | underscore
  · have := toNat_of_isAlpha alpha
    omega
  · obtain rfl := of_decide_eq_true underscore
    exact absurd low (by decide)

theorem unescape?_eq_some_iff {e c : Char} : unescape? e = some c ↔ (e, c) ∈ escapes := by
  constructor
  · intro h
    unfold unescape? at h
    split_ifs at h with _ _ _ _ same
    all_goals cases h
    all_goals simp [escapes, *]
  · intro h
    simp only [escapes, List.mem_cons, Prod.mk.injEq, List.not_mem_nil, or_false] at h
    rcases h with ⟨rfl, rfl⟩ | ⟨rfl, rfl⟩ | ⟨rfl, rfl⟩ | ⟨rfl, rfl⟩ | ⟨rfl, rfl⟩ | ⟨rfl, rfl⟩ |
      ⟨rfl, rfl⟩
    all_goals rfl

theorem means_iff {word : String} {kind : Token.Kind} : Means word kind ↔ kind = .ofWord word := by
  constructor
  · rintro (_ | _ | known | ⟨noTruth, noKeyword⟩)
    · rfl
    · rfl
    · have : word ≠ "true" ∧ word ≠ "false" := by
        constructor <;> rintro rfl <;> revert known <;> decide
      simp [Token.Kind.ofWord, this, known]
    · simp [Token.Kind.ofWord, noTruth, noKeyword]
  · rintro rfl
    unfold Token.Kind.ofWord
    split_ifs with yes no known
    · exact yes ▸ .yes
    · exact no ▸ .no
    · exact .keyword known
    · exact .ident ⟨yes, no⟩ known

/-! ## The lexemes by their first character -/

section

variable {c : Char} {l : List Char} {m : Except LexError.Cause Token.Kind}

theorem symbol_lead {text : String} (known : text ∈ Token.longSymbols ++ Token.shortSymbols)
    (split : text.toList = c :: l) :
    startsWord c = false ∧ c.isDigit = false ∧ c ≠ '"' ∧ c ≠ '\x27' ∧ isBlank c = false := by
  have lead : ∀ text ∈ Token.longSymbols ++ Token.shortSymbols, text.toList.head?.all (fun c =>
      startsWord c = false ∧ c.isDigit = false ∧ c ≠ '"' ∧ c ≠ '\x27' ∧ isBlank c = false) := by
    decide +kernel
  simpa [split] using lead text known

theorem integer_eq_iff {digits : List Char} :
    m = integer digits ↔
      (∃ value : Int32, value.toInt = decimal digits ∧ m = .ok (.int value)) ∨
        maxInt < decimal digits ∧ m = .error .numberTooLarge := by
  rw [integer, digitsValue_eq]
  split_ifs with small
  · have exact : (Int32.ofNat (decimal digits)).toInt = decimal digits :=
      Int32.toInt_ofNat_of_lt (by rw [maxInt] at small; omega)
    constructor
    · rintro rfl
      exact .inl ⟨_, exact, rfl⟩
    · rintro (⟨value, exact', rfl⟩ | ⟨large, -⟩)
      · rw [Int32.toInt_inj.1 (exact'.trans exact.symm)]
      · omega
  · constructor
    · rintro rfl
      exact .inr ⟨not_le.1 small, rfl⟩
    · rintro (⟨value, exact, rfl⟩ | ⟨-, rfl⟩)
      · have := value.toInt_lt
        rw [maxInt] at small
        omega
      · rfl

/-- What a number means, read off its digits. -/
def IsNumber (c : Char) (l : List Char) (m : Except LexError.Cause Token.Kind) : Prop :=
  (∀ d ∈ l, d.isDigit = true) ∧ m = integer (c :: l) ∨
  ∃ cs d ds, l = cs ++ '.' :: d :: ds ∧ (∀ d ∈ cs, d.isDigit = true) ∧
    (∀ c ∈ d :: ds, c.isDigit = true) ∧ m = .ok (.double (.ofParts (c :: cs) (d :: ds)))

theorem spells_of_isNumber (first : c.isDigit = true) (h : IsNumber c l m) : Spells (c :: l) m := by
  rcases h with ⟨further, h⟩ | ⟨cs, d, ds, rfl, whole, fraction, rfl⟩
  · have digits : ∀ d ∈ c :: l, d.isDigit = true := List.forall_mem_cons.2 ⟨first, further⟩
    rcases integer_eq_iff.1 h with ⟨value, exact, rfl⟩ | ⟨large, rfl⟩
    · exact .integer digits exact
    · exact .largeInteger digits large
  · have nearest := Double.isNearest_ofParts (c :: cs) (d :: ds)
    rw [digitsValue_eq] at nearest
    exact .double (List.forall_mem_cons.2 ⟨first, whole⟩) fraction nearest

/-- A lexeme is a word, a number, a literal or a symbol, as its first character says. -/
theorem Spells.by_first (h : Spells (c :: l) m) :
    (startsWord c = true ∧ (∀ d ∈ l, continuesWord d = true) ∧
      m = .ok (.ofWord (String.ofList (c :: l)))) ∨
    (c.isDigit = true ∧ IsNumber c l m) ∨
    (IsQuote c ∧ ∃ cs text, Encodes c cs text ∧ l = cs ++ [c] ∧ m = literal c text) ∨
    (∃ text ∈ Token.longSymbols ++ Token.shortSymbols, text.toList = c :: l ∧
      m = .ok (.symbol text)) := by
  generalize same : c :: l = lexeme at h
  cases h with
  | word first further means =>
    cases same
    exact .inl ⟨first, further, by rw [means_iff.1 means]⟩
  | integer digits exact =>
    cases same
    obtain ⟨first, further⟩ := List.forall_mem_cons.1 digits
    exact .inr (.inl ⟨first, .inl ⟨further, integer_eq_iff.2 (.inl ⟨_, exact, rfl⟩)⟩⟩)
  | largeInteger digits large =>
    cases same
    obtain ⟨first, further⟩ := List.forall_mem_cons.1 digits
    exact .inr (.inl ⟨first, .inl ⟨further, integer_eq_iff.2 (.inr ⟨large, rfl⟩)⟩⟩)
  | double whole fraction nearest =>
    cases same
    obtain ⟨first, further⟩ := List.forall_mem_cons.1 whole
    rw [← digitsValue_eq] at nearest
    have value := nearest.unique (Double.isNearest_ofParts _ _)
    exact .inr (.inl ⟨first, .inr ⟨_, _, _, rfl, further, fraction, by rw [value]⟩⟩)
  | string encodes =>
    cases same
    exact .inr (.inr (.inl ⟨.inl rfl, _, _, encodes, rfl, rfl⟩))
  | char encodes =>
    cases same
    exact .inr (.inr (.inl ⟨.inr rfl, _, _, encodes, rfl, rfl⟩))
  | noCharacter encodes many =>
    cases same
    refine .inr (.inr (.inl ⟨.inr rfl, _, _, encodes, rfl, ?_⟩))
    unfold literal
    rw [if_neg (by decide)]
    split
    · exact absurd rfl many
    · rfl
  | symbol known => exact .inr (.inr (.inr ⟨_, known, rfl, rfl⟩))

theorem spells_of_literal {cs text : List Char} (quote : IsQuote c) (encodes : Encodes c cs text) :
    Spells (c :: cs ++ [c]) (literal c text) := by
  rcases quote with rfl | rfl
  · exact .string encodes
  · unfold literal
    rw [if_neg (by decide)]
    split
    · exact .char encodes
    · rename_i many
      refine .noCharacter encodes fun one => ?_
      obtain ⟨c, rfl⟩ := List.length_eq_one_iff.1 one
      exact many c rfl

end

/-! ## What is read -/

/-- What was read, from which characters, and those behind it. -/
def view {α : Type} {cs : List Char} (x : Except LexError.Cause (Read α cs)) :
    Except LexError.Cause (α × List Char × List Char) :=
  x.map fun r => (r.value, r.text, r.rest)

theorem eq_error_of_view {α : Type} {cs : List Char} {x : Except LexError.Cause (Read α cs)}
    {cause : LexError.Cause} (h : view x = .error cause) : x = .error cause := by
  cases x with
  | error cause' =>
    injection h with same
    rw [same]
  | ok r => cases h

theorem eq_ok_of_view {α : Type} {cs text rest : List Char} {value : α}
    {x : Except LexError.Cause (Read α cs)} (h : view x = .ok (value, text, rest)) :
    ∃ r, x = .ok r ∧ r.value = value ∧ r.text = text ∧ r.rest = rest := by
  cases x with
  | error cause => cases h
  | ok r =>
    cases h
    exact ⟨r, rfl, rfl, rfl, rfl⟩

theorem fraction?_eq_some {rest ds : List Char} {d : Char} (h : rest = '.' :: d :: ds)
    (digit : d.isDigit = true) :
    ∃ f, fraction? rest = some f ∧ f.value = d :: ds.takeWhile Char.isDigit ∧
      f.text = '.' :: d :: ds.takeWhile Char.isDigit ∧ f.rest = ds.dropWhile Char.isDigit := by
  subst h
  exact ⟨_, if_pos digit, rfl, rfl, rfl⟩

theorem fraction?_eq_none {rest : List Char}
    (h : ∀ d ds, rest = '.' :: d :: ds → d.isDigit = false) : fraction? rest = none := by
  unfold fraction?
  split
  · rw [if_neg (by simp [h _ _ rfl])]
  · rfl

/-- Behind a point and a digit, all digits are read too. -/
theorem view_number_fraction {c d : Char} {cs ds : List Char}
    (h : cs.dropWhile Char.isDigit = '.' :: d :: ds) (digit : d.isDigit = true) :
    view (number c cs) =
      .ok (.double (.ofParts (c :: cs.takeWhile Char.isDigit) (d :: ds.takeWhile Char.isDigit)),
        c :: cs.takeWhile Char.isDigit ++ '.' :: d :: ds.takeWhile Char.isDigit,
        ds.dropWhile Char.isDigit) := by
  have behind : (Read.run Char.isDigit c cs).rest = '.' :: d :: ds := h
  obtain ⟨f, found, value, text, rest⟩ := fraction?_eq_some behind digit
  simp only [number, found]
  simp only [view, Except.map, Read.map, Read.append, value, text, rest]
  rfl

/-- Without them the number is whole. -/
theorem view_number_integer {c : Char} {cs : List Char}
    (h : ∀ d ds, cs.dropWhile Char.isDigit = '.' :: d :: ds → d.isDigit = false) :
    view (number c cs) = (integer (c :: cs.takeWhile Char.isDigit)).map
      (·, c :: cs.takeWhile Char.isDigit, cs.dropWhile Char.isDigit) := by
  have noFraction : fraction? (Read.run Char.isDigit c cs).rest = none := fraction?_eq_none h
  simp only [number, noFraction]
  change view ((integer (c :: cs.takeWhile Char.isDigit)).map _) = _
  cases integer (c :: cs.takeWhile Char.isDigit) <;> rfl

theorem view_quoted (quote : Char) (cs : List Char) :
    view (quoted quote cs) = view (contents quote cs) >>= fun (value, text, rest) =>
      (literal quote value).map (·, quote :: text, rest) := by
  unfold quoted
  cases contents quote cs with
  | error cause => rfl
  | ok r =>
    change view (literal quote r.value >>= _) = (literal quote r.value).map _
    cases literal quote r.value <;> rfl

theorem view_contents_plain {quote c : Char} (cs : List Char) (open_ : c ≠ quote)
    (noEscape : c ≠ '\\') (line : c ≠ '\n') :
    view (contents quote (c :: cs)) =
      (view (contents quote cs)).map fun (value, read, rest) => (c :: value, c :: read, rest) := by
  rw [contents.eq_def]
  simp only [if_neg open_, if_neg noEscape, if_neg line]
  cases contents quote cs <;> rfl

theorem view_contents_escape {quote e c : Char} (cs : List Char) (backslash : '\\' ≠ quote)
    (known : (e, c) ∈ escapes) :
    view (contents quote ('\\' :: e :: cs)) =
      (view (contents quote cs)).map fun (value, read, rest) =>
        (c :: value, '\\' :: e :: read, rest) := by
  rw [contents.eq_def]
  simp only [if_neg backslash, if_true, unescape?_eq_some_iff.2 known]
  cases contents quote cs <;> rfl

/-- What stands between the quotes is read off piece by piece. -/
theorem view_contents_append {quote : Char} (isQuote : IsQuote quote) {cs text : List Char}
    (encodes : Encodes quote cs text) (rest : List Char) :
    view (contents quote (cs ++ rest)) =
      (view (contents quote rest)).map fun (value, read, rest) =>
        (text ++ value, cs ++ read, rest) := by
  have backslash : '\\' ≠ quote := by rcases isQuote with rfl | rfl <;> decide
  induction encodes with
  | nil => cases h : contents quote rest <;> simp [view, h, Except.map]
  | plain open_ noEscape line _ ih =>
    rw [List.cons_append, view_contents_plain _ open_ noEscape line, ih]
    cases contents quote rest <;> rfl
  | escape known _ ih =>
    rw [List.cons_append, List.cons_append, view_contents_escape _ backslash known, ih]
    cases contents quote rest <;> rfl

/-- What stands behind an opening quote is an encoding up to the closing quote, or up to a place
where the literal cannot go on. -/
theorem exists_encodes (quote : Char) (cs : List Char) :
    ∃ enc text rest, Encodes quote enc text ∧ cs = enc ++ rest ∧
      (rest.head? = some quote ∨ (rest = [] ∨ rest = ['\\'] ∨ rest.head? = some '\n') ∨
        ∃ e rest', rest = '\\' :: e :: rest' ∧ ∀ c, (e, c) ∉ escapes) := by
  match cs with
  | [] => exact ⟨[], [], [], .nil, rfl, .inr (.inl (.inl rfl))⟩
  | c :: cs =>
    by_cases closes : c = quote
    · exact ⟨[], [], _, .nil, rfl, .inl (congrArg some closes)⟩
    by_cases line : c = '\n'
    · exact ⟨[], [], _, .nil, rfl, .inr (.inl (.inr (.inr (congrArg some line))))⟩
    by_cases plain : c ≠ '\\'
    · obtain ⟨enc, text, rest, encodes, rfl, ends⟩ := exists_encodes quote cs
      exact ⟨_, _, _, .plain closes plain line encodes, rfl, ends⟩
    obtain rfl := not_not.1 plain
    match cs with
    | [] => exact ⟨[], [], _, .nil, rfl, .inr (.inl (.inr (.inl rfl)))⟩
    | e :: cs =>
      by_cases known : ∃ c, (e, c) ∈ escapes
      · obtain ⟨c, known⟩ := known
        obtain ⟨enc, text, rest, encodes, rfl, ends⟩ := exists_encodes quote cs
        exact ⟨_, _, _, .escape known encodes, rfl, ends⟩
      · exact ⟨[], [], _, .nil, rfl, .inr (.inr ⟨e, cs, rfl, not_exists.1 known⟩)⟩
termination_by cs.length

theorem contents_unterminated {quote : Char} (isQuote : IsQuote quote) {rest : List Char}
    (ends : rest = [] ∨ rest = ['\\'] ∨ rest.head? = some '\n') :
    contents quote rest = .error .unterminated := by
  have backslash : '\\' ≠ quote ∧ '\n' ≠ quote := by rcases isQuote with rfl | rfl <;> decide
  rcases ends with rfl | rfl | line
  · rfl
  · simp [contents, backslash]
  · obtain ⟨cs, rfl⟩ := List.head?_eq_some_iff.1 line
    rw [contents.eq_def]
    simp [backslash]

theorem contents_unknownEscape {quote e : Char} (isQuote : IsQuote quote) (rest : List Char)
    (unknown : ∀ c, (e, c) ∉ escapes) :
    contents quote ('\\' :: e :: rest) = .error (.unknownEscape e) := by
  have backslash : '\\' ≠ quote := by rcases isQuote with rfl | rfl <;> decide
  have none : unescape? e = none := by
    rw [Option.eq_none_iff_forall_ne_some]
    exact fun c some => unknown c (unescape?_eq_some_iff.1 some)
  rw [contents.eq_def]
  simp [backslash, none]

/-! ## The longest lexeme -/

section

variable {c : Char} {l cs : List Char} {m : Except LexError.Cause Token.Kind}

theorem Spells.of_startsWord (h : Spells (c :: l) m) (first : startsWord c = true) :
    (∀ d ∈ l, continuesWord d = true) ∧ m = .ok (.ofWord (String.ofList (c :: l))) := by
  rcases h.by_first with ⟨-, word⟩ | ⟨digit, -⟩ | ⟨rfl | rfl, -⟩ | ⟨text, known, split, -⟩
  · exact word
  · simp [startsWord_of_isDigit digit] at first
  · exact absurd first (by decide)
  · exact absurd first (by decide)
  · simp [symbol_lead known split] at first

theorem Spells.of_isDigit (h : Spells (c :: l) m) (first : c.isDigit = true) : IsNumber c l m := by
  rcases h.by_first with ⟨word, -⟩ | ⟨-, number⟩ | ⟨rfl | rfl, -⟩ | ⟨text, known, split, -⟩
  · simp [startsWord_of_isDigit first] at word
  · exact number
  · exact absurd first (by decide)
  · exact absurd first (by decide)
  · simp [symbol_lead known split] at first

theorem Spells.of_isQuote (h : Spells (c :: l) m) (first : IsQuote c) :
    ∃ cs text, Encodes c cs text ∧ l = cs ++ [c] ∧ m = literal c text := by
  rcases h.by_first with ⟨word, -⟩ | ⟨digit, -⟩ | ⟨-, literal⟩ | ⟨text, known, split, -⟩
  · rcases first with rfl | rfl <;> exact absurd word (by decide)
  · rcases first with rfl | rfl <;> exact absurd digit (by decide)
  · exact literal
  · obtain ⟨-, -, noString, noChar, -⟩ := symbol_lead known split
    exact absurd first (not_or.2 ⟨noString, noChar⟩)

theorem Spells.of_symbol (h : Spells (c :: l) m) (noWord : startsWord c = false)
    (noDigit : c.isDigit = false) (noQuote : ¬ IsQuote c) :
    ∃ text ∈ Token.longSymbols ++ Token.shortSymbols, text.toList = c :: l ∧
      m = .ok (.symbol text) := by
  rcases h.by_first with ⟨word, -⟩ | ⟨digit, -⟩ | ⟨quote, -⟩ | symbol
  · simp [noWord] at word
  · simp [noDigit] at digit
  · exact absurd quote noQuote
  · exact symbol

theorem IsLongest.not_spells {rest : List Char} (h : IsLongest l (l ++ rest)) (more : List Char)
    (isPrefix : more <+: rest) (some : more ≠ []) : ¬ Spells (l ++ more) m := by
  intro spells
  have short := h _ _ spells ((List.prefix_append_right_inj l).2 isPrefix)
  rw [List.length_append] at short
  have := List.length_pos_iff.2 some
  omega

theorem isLongest_cons {lexeme : List Char}
    (h : ∀ l m, Spells (c :: l) m → l <+: cs → l.length < lexeme.length) :
    IsLongest lexeme (c :: cs) := by
  intro l m spells isPrefix
  cases l with
  | nil => exact Nat.zero_le _
  | cons d l =>
    obtain ⟨rfl, behind⟩ := List.cons_prefix_cons.1 isPrefix
    exact h l m spells behind

/-- A run of characters with a property that does not go on is taken off whole. -/
theorem takeWhile_append_stop {p : Char → Bool} {rest : List Char} (run : ∀ d ∈ l, p d = true)
    (stop : ∀ d, [d] <+: rest → ¬ ∀ x ∈ l ++ [d], p x = true) :
    (l ++ rest).takeWhile p = l ∧ (l ++ rest).dropWhile p = rest := by
  rw [List.takeWhile_append_of_pos run, List.dropWhile_append_of_pos run]
  cases rest with
  | nil => simp
  | cons d rest =>
    have last : p d = false := by
      by_contra on
      refine stop d ⟨rest, rfl⟩ ?_
      simpa [or_imp, forall_and] using ⟨run, Bool.eq_true_of_not_eq_false on⟩
    simp [last]

theorem length_le_takeWhile {p : Char → Bool} (run : ∀ d ∈ l, p d = true) (isPrefix : l <+: cs) :
    l.length ≤ (cs.takeWhile p).length := by
  obtain ⟨rest, rfl⟩ := isPrefix
  rw [List.takeWhile_append_of_pos run]
  simp

/-! ### Words -/

theorem ofChars_word (first : startsWord c = true) :
    view (ofChars c cs) = .ok (.ofWord (String.ofList (c :: cs.takeWhile continuesWord)),
      c :: cs.takeWhile continuesWord, cs.dropWhile continuesWord) := by
  rw [ofChars, if_pos first]
  rfl

theorem view_word {rest : List Char} (first : startsWord c = true) (h : Spells (c :: l) m)
    (longest : IsLongest (c :: l) (c :: l ++ rest)) :
    view (ofChars c (l ++ rest)) = m.map (·, c :: l, rest) := by
  obtain ⟨further, rfl⟩ := h.of_startsWord first
  obtain ⟨taken, dropped⟩ := takeWhile_append_stop further fun d next more =>
    longest.not_spells [d] next (by simp) (.word first more (means_iff.2 rfl))
  rw [ofChars_word first, taken, dropped]
  rfl

theorem isLongest_word (first : startsWord c = true) :
    IsLongest (c :: cs.takeWhile continuesWord) (c :: cs) :=
  isLongest_cons fun _ _ spells isPrefix =>
    Nat.lt_succ_of_le (length_le_takeWhile (spells.of_startsWord first).1 isPrefix)

/-! ### Numbers -/

theorem ofChars_digit (first : c.isDigit = true) : ofChars c cs = number c cs := by
  rw [ofChars, if_neg (by simp [startsWord_of_isDigit first]), if_pos first]

theorem takeWhile_isDigit_point (digits : ∀ d ∈ l, d.isDigit = true) (rest : List Char) :
    (l ++ '.' :: rest).takeWhile Char.isDigit = l ∧
      (l ++ '.' :: rest).dropWhile Char.isDigit = '.' :: rest := by
  rw [List.takeWhile_append_of_pos digits, List.dropWhile_append_of_pos digits]
  simp

theorem view_digit {rest : List Char} (first : c.isDigit = true) (h : Spells (c :: l) m)
    (longest : IsLongest (c :: l) (c :: l ++ rest)) :
    view (ofChars c (l ++ rest)) = m.map (·, c :: l, rest) := by
  rw [ofChars_digit first]
  rcases h.of_isDigit first with ⟨further, rfl⟩ | ⟨cs, d, ds, rfl, whole, fraction, rfl⟩
  · obtain ⟨taken, dropped⟩ := takeWhile_append_stop further fun d next more =>
      longest.not_spells [d] next (by simp) (spells_of_isNumber first (.inl ⟨more, rfl⟩))
    rw [view_number_integer, taken, dropped]
    rw [dropped]
    rintro d ds rfl
    by_contra on
    have fraction : ∀ x ∈ [d], x.isDigit = true := by simpa using on
    exact longest.not_spells ['.', d] ⟨ds, rfl⟩ (by simp)
      (spells_of_isNumber first (.inr ⟨l, d, [], rfl, further, fraction, rfl⟩))
  · have digit := fraction d (by simp)
    obtain ⟨taken, dropped⟩ := takeWhile_isDigit_point whole (d :: (ds ++ rest))
    obtain ⟨taken', dropped'⟩ := takeWhile_append_stop (List.forall_mem_cons.1 fraction).2
      fun x next more => longest.not_spells [x] next (by simp)
        (spells_of_isNumber first (.inr ⟨cs, d, ds ++ [x], by simp, whole,
          List.forall_mem_cons.2 ⟨digit, more⟩, rfl⟩))
    rw [List.append_assoc, List.cons_append, List.cons_append, view_number_fraction dropped digit,
      taken, taken', dropped']
    rfl

/-- How far a number can go. -/
theorem IsNumber.length_le (h : IsNumber c l m) (isPrefix : l <+: cs) :
    l.length ≤ (cs.takeWhile Char.isDigit).length ∨
      ∃ d ds, cs.dropWhile Char.isDigit = '.' :: d :: ds ∧ d.isDigit = true ∧
        l.length ≤ (cs.takeWhile Char.isDigit).length + (ds.takeWhile Char.isDigit).length + 2 := by
  rcases h with ⟨digits, -⟩ | ⟨whole, d, ds, rfl, digits, fraction, -⟩
  · exact .inl (length_le_takeWhile digits isPrefix)
  · obtain ⟨rest, rfl⟩ := isPrefix
    obtain ⟨digit, further⟩ := List.forall_mem_cons.1 fraction
    obtain ⟨taken, dropped⟩ := takeWhile_isDigit_point digits (d :: (ds ++ rest))
    have behind := length_le_takeWhile further (List.prefix_append ds rest)
    refine .inr ⟨d, ds ++ rest, by simpa using dropped, digit, ?_⟩
    rw [List.append_assoc, List.cons_append, List.cons_append, taken]
    simp only [List.length_append, List.length_cons]
    omega

/-- Where a digit begins, a number begins, and a longest one. -/
theorem exists_number (cs : List Char) (first : c.isDigit = true) :
    ∃ l m rest, cs = l ++ rest ∧ IsNumber c l m ∧ IsLongest (c :: l) (c :: cs) := by
  have digits : ∀ cs : List Char, ∀ d ∈ cs.takeWhile Char.isDigit, d.isDigit = true :=
    fun cs => List.all_eq_true.1 List.all_takeWhile
  have split : cs = cs.takeWhile Char.isDigit ++ cs.dropWhile Char.isDigit :=
    List.takeWhile_append_dropWhile.symm
  by_cases fraction : ∃ d ds, cs.dropWhile Char.isDigit = '.' :: d :: ds ∧ d.isDigit = true
  · obtain ⟨d, ds, behind, digit⟩ := fraction
    refine ⟨_, _, ds.dropWhile Char.isDigit, ?_,
      .inr ⟨_, d, ds.takeWhile Char.isDigit, rfl, digits cs, ?_, rfl⟩, ?_⟩
    · conv_lhs => rw [split, behind]
      simp
    · exact List.forall_mem_cons.2 ⟨digit, digits ds⟩
    · refine isLongest_cons fun l m spells isPrefix => ?_
      simp only [List.length_cons, List.length_append]
      rcases (spells.of_isDigit first).length_le isPrefix with short | ⟨d, ds, behind', -, short⟩
      · omega
      · cases behind.symm.trans behind'
        omega
  · refine ⟨_, _, _, split, .inl ⟨digits cs, rfl⟩, isLongest_cons fun l m spells isPrefix => ?_⟩
    rcases (spells.of_isDigit first).length_le isPrefix with short | ⟨d, ds, behind, digit, -⟩
    · exact Nat.lt_succ_of_le short
    · exact absurd ⟨d, ds, behind, digit⟩ fraction

/-! ### Literals -/

theorem ofChars_quote (first : IsQuote c) : ofChars c cs = quoted c cs := by
  have other : startsWord c = false ∧ c.isDigit = false := by
    rcases first with rfl | rfl <;> decide
  rw [ofChars, if_neg (by simp [other]), if_neg (by simp [other])]
  exact if_pos first

theorem view_contents_closed {text : List Char} (first : IsQuote c) (encodes : Encodes c l text)
    (rest : List Char) : view (contents c (l ++ c :: rest)) = .ok (text, l ++ [c], rest) := by
  have closed : view (contents c (c :: rest)) = .ok ([], [c], rest) := by
    rw [contents.eq_def]
    simp only [if_true]
    rfl
  rw [view_contents_append first encodes, closed]
  simp only [Except.map, List.append_nil]

theorem view_quote {rest : List Char} (first : IsQuote c) (h : Spells (c :: l) m) :
    view (ofChars c (l ++ rest)) = m.map (·, c :: l, rest) := by
  obtain ⟨enc, text, encodes, rfl, rfl⟩ := h.of_isQuote first
  rw [ofChars_quote first, view_quoted, List.append_assoc, List.singleton_append,
    view_contents_closed first encodes]
  rfl

theorem quoted_error {text rest : List Char} {cause : LexError.Cause} (first : IsQuote c)
    (encodes : Encodes c l text) (h : contents c rest = .error cause) :
    quoted c (l ++ rest) = .error cause := by
  refine eq_error_of_view ?_
  rw [view_quoted, view_contents_append first encodes, h]
  rfl

/-- A text goes on behind an opening quote with the contents of one literal at most. -/
theorem Encodes.closed_unique {cs cs' text text' rest rest' : List Char} (first : IsQuote c)
    (encodes : Encodes c cs text) (encodes' : Encodes c cs' text')
    (split : cs ++ c :: rest = cs' ++ c :: rest') : cs = cs' := by
  -- both are read off the same text
  have read := view_contents_closed first encodes rest
  rw [split, view_contents_closed first encodes' rest'] at read
  simp only [Except.ok.injEq, Prod.mk.injEq] at read
  exact (List.append_cancel_right read.2.1).symm

/-- Where a quote begins, a literal begins, and a longest one, or the reading fails. -/
theorem exists_literal (cs : List Char) (first : IsQuote c) :
    (∃ l text rest, Encodes c l text ∧ cs = l ++ c :: rest ∧ IsLongest (c :: l ++ [c]) (c :: cs)) ∨
    ∃ cause, Fails (c :: cs) cause := by
  obtain ⟨enc, text, rest, encodes, rfl, ends⟩ := exists_encodes c cs
  rcases ends with closes | ends | ⟨e, rest, rfl, unknown⟩
  · obtain ⟨rest, rfl⟩ := List.head?_eq_some_iff.1 closes
    refine .inl ⟨enc, text, rest, encodes, rfl, isLongest_cons fun l m spells isPrefix => ?_⟩
    obtain ⟨enc', text', encodes', rfl, -⟩ := spells.of_isQuote first
    obtain ⟨rest', split⟩ := isPrefix
    rw [List.append_assoc, List.singleton_append] at split
    rw [encodes'.closed_unique first encodes split]
    exact Nat.lt_succ_self _
  · exact .inr ⟨_, .unterminated first encodes ends⟩
  · exact .inr ⟨_, .unknownEscape first encodes unknown⟩

/-! ### Symbols -/

theorem ofChars_symbol (noWord : startsWord c = false) (noDigit : c.isDigit = false)
    (noQuote : ¬ IsQuote c) : ofChars c cs = symbol c cs := by
  rw [ofChars, if_neg (by simp [noWord]), if_neg (by simp [noDigit])]
  exact if_neg noQuote

theorem length_symbol : (∀ text ∈ Token.longSymbols, text.toList.length = 2) ∧
    ∀ text ∈ Token.shortSymbols, text.toList.length = 1 := by
  decide

theorem spells_ofList {text : List Char}
    (known : String.ofList text ∈ Token.longSymbols ++ Token.shortSymbols) :
    Spells text (.ok (.symbol (String.ofList text))) := by
  have spells := Spells.symbol known
  rwa [String.toList_ofList] at spells

theorem Spells.symbol_cases (h : Spells (c :: l) m) (noWord : startsWord c = false)
    (noDigit : c.isDigit = false) (noQuote : ¬ IsQuote c) :
    m = .ok (.symbol (String.ofList (c :: l))) ∧
      (l = [] ∧ String.ofList [c] ∈ Token.shortSymbols ∨
        ∃ d, l = [d] ∧ String.ofList [c, d] ∈ Token.longSymbols) := by
  obtain ⟨text, known, split, rfl⟩ := h.of_symbol noWord noDigit noQuote
  have same : text = String.ofList (c :: l) := by rw [← split, String.ofList_toList]
  refine ⟨by rw [same], ?_⟩
  rcases List.mem_append.1 known with long | short
  · have size := length_symbol.1 text long
    rw [split, List.length_cons] at size
    obtain ⟨d, rfl⟩ := List.length_eq_one_iff.1 (Nat.succ.inj size)
    exact .inr ⟨d, rfl, same ▸ long⟩
  · have size := length_symbol.2 text short
    rw [split, List.length_cons] at size
    obtain rfl := List.length_eq_zero_iff.1 (Nat.succ.inj size)
    exact .inl ⟨rfl, same ▸ short⟩

theorem symbol_eq_shortSymbol (h : ∀ d, [d] <+: cs → String.ofList [c, d] ∉ Token.longSymbols) :
    symbol c cs = shortSymbol c cs := by
  cases cs with
  | nil => rfl
  | cons d cs => exact if_neg (h d ⟨cs, rfl⟩)

theorem view_symbol {rest : List Char} (noWord : startsWord c = false) (noDigit : c.isDigit = false)
    (noQuote : ¬ IsQuote c) (h : Spells (c :: l) m)
    (longest : IsLongest (c :: l) (c :: l ++ rest)) :
    view (ofChars c (l ++ rest)) = m.map (·, c :: l, rest) := by
  rw [ofChars_symbol noWord noDigit noQuote]
  obtain ⟨rfl, ⟨rfl, short⟩ | ⟨d, rfl, long⟩⟩ := h.symbol_cases noWord noDigit noQuote
  · rw [List.nil_append, symbol_eq_shortSymbol, shortSymbol]
    · simp only [if_pos short]
      rfl
    · intro d next long
      exact longest.not_spells [d] next (by simp) (spells_ofList (List.mem_append_left _ long))
  · rw [List.singleton_append, symbol]
    simp only [if_pos long]
    rfl

/-- Elsewhere a symbol begins, and a longest one, or nothing. -/
theorem exists_symbol (noWord : startsWord c = false) (noDigit : c.isDigit = false)
    (noQuote : ¬ IsQuote c) (h : ∃ l m, Spells (c :: l) m ∧ l <+: cs) :
    ∃ l m rest, cs = l ++ rest ∧ Spells (c :: l) m ∧ IsLongest (c :: l) (c :: cs) := by
  by_cases long : ∃ d, [d] <+: cs ∧ String.ofList [c, d] ∈ Token.longSymbols
  · obtain ⟨d, ⟨rest, rfl⟩, long⟩ := long
    refine ⟨[d], _, rest, rfl, spells_ofList (List.mem_append_left _ long),
      isLongest_cons fun l m spells isPrefix => ?_⟩
    obtain ⟨-, ⟨rfl, -⟩ | ⟨e, rfl, -⟩⟩ := spells.symbol_cases noWord noDigit noQuote
    all_goals simp
  · obtain ⟨l, m, spells, isPrefix⟩ := h
    obtain ⟨-, ⟨rfl, short⟩ | ⟨d, rfl, isLong⟩⟩ := spells.symbol_cases noWord noDigit noQuote
    · refine ⟨[], m, cs, rfl, spells, isLongest_cons fun l m spells isPrefix => ?_⟩
      obtain ⟨-, ⟨rfl, -⟩ | ⟨d, rfl, isLong⟩⟩ := spells.symbol_cases noWord noDigit noQuote
      · simp
      · exact absurd ⟨d, isPrefix, isLong⟩ long
    · exact absurd ⟨d, isPrefix, isLong⟩ long

theorem symbol_error (h : ∀ l m, Spells (c :: l) m → ¬ l <+: cs) :
    symbol c cs = .error (.invalidCharacter c) := by
  rw [symbol_eq_shortSymbol, shortSymbol]
  · refine if_neg fun short => ?_
    exact h [] _ (spells_ofList (List.mem_append_right _ short)) (List.nil_prefix)
  · intro d next long
    exact h [d] _ (spells_ofList (List.mem_append_left _ long)) next

/-! ### All lexemes -/

theorem Spells.ne_nil (h : Spells l m) : l ≠ [] := by
  cases h with
  | @symbol text known =>
    intro none
    rcases List.mem_append.1 known with long | short
    · simpa [none] using length_symbol.1 text long
    · simpa [none] using length_symbol.2 text short
  | _ => simp

/-- The longest lexeme is read, with its meaning. -/
theorem view_ofChars {rest : List Char} (h : Spells l m) (longest : IsLongest l (l ++ rest))
    (split : l ++ rest = c :: cs) : view (ofChars c cs) = m.map (·, l, rest) := by
  obtain ⟨d, l, rfl⟩ := List.exists_cons_of_ne_nil h.ne_nil
  cases split
  by_cases word : startsWord c = true
  · exact view_word word h longest
  by_cases digit : c.isDigit = true
  · exact view_digit digit h longest
  by_cases quote : IsQuote c
  · exact view_quote quote h
  · exact view_symbol (by simpa using word) (by simpa using digit) quote h longest

/-- Where the grammar says why a text cannot be read on, this is what the reading says. -/
theorem ofChars_of_fails {text : List Char} {cause : LexError.Cause} (h : Fails text cause)
    (split : text = c :: cs) : ofChars c cs = .error cause := by
  cases h with
  | invalidCharacter _ unquoted none =>
    cases split
    have noWord : startsWord c = false := by
      by_contra word
      exact none [c] _ (.word (Bool.eq_true_of_not_eq_false word) (by simp) (means_iff.2 rfl))
        ⟨cs, rfl⟩
    have noDigit : c.isDigit = false := by
      by_contra digit
      exact none [c] _ (spells_of_isNumber (Bool.eq_true_of_not_eq_false digit)
        (.inl ⟨by simp, rfl⟩)) ⟨cs, rfl⟩
    rw [ofChars_symbol noWord noDigit unquoted]
    exact symbol_error fun l m spells isPrefix =>
      none _ m spells (List.cons_prefix_cons.2 ⟨rfl, isPrefix⟩)
  | unterminated isQuote encodes ends =>
    cases split
    rw [ofChars_quote isQuote]
    exact quoted_error isQuote encodes (contents_unterminated isQuote ends)
  | unknownEscape isQuote encodes unknown =>
    cases split
    rw [ofChars_quote isQuote]
    exact quoted_error isQuote encodes (contents_unknownEscape isQuote _ unknown)
  | meaningless spells longest => exact eq_error_of_view (view_ofChars spells longest split)

/-- At a character that is no blank a longest lexeme begins, or the grammar says why not. -/
theorem exists_spells (cs : List Char) (visible : isBlank c = false) :
    (∃ l m rest, c :: cs = l ++ rest ∧ Spells l m ∧ IsLongest l (c :: cs)) ∨
    ∃ cause, Fails (c :: cs) cause := by
  by_cases word : startsWord c = true
  · refine .inl ⟨_, _, cs.dropWhile continuesWord, ?_, .word word ?_ (means_iff.2 rfl),
      isLongest_word word⟩
    · rw [List.cons_append, List.takeWhile_append_dropWhile]
    · exact List.all_eq_true.1 List.all_takeWhile
  by_cases digit : c.isDigit = true
  · obtain ⟨l, m, rest, rfl, number, longest⟩ := exists_number cs digit
    exact .inl ⟨_, m, rest, rfl, spells_of_isNumber digit number, longest⟩
  by_cases quote : IsQuote c
  · rcases exists_literal cs quote with ⟨l, text, rest, encodes, rfl, longest⟩ | fails
    · exact .inl ⟨_, _, rest, by simp, spells_of_literal quote encodes, longest⟩
    · exact .inr fails
  by_cases known : ∃ l m, Spells (c :: l) m ∧ l <+: cs
  · obtain ⟨l, m, rest, rfl, spells, longest⟩ :=
      exists_symbol (by simpa using word) (by simpa using digit) quote known
    exact .inl ⟨_, m, rest, rfl, spells, longest⟩
  · refine .inr ⟨_, .invalidCharacter visible quote fun l m spells isPrefix => ?_⟩
    obtain ⟨d, l, rfl⟩ := List.exists_cons_of_ne_nil spells.ne_nil
    obtain ⟨rfl, behind⟩ := List.cons_prefix_cons.1 isPrefix
    exact known ⟨l, m, spells, behind⟩

/-- At a character that is no blank a token can be read, or the grammar says why not. -/
theorem exists_lexeme (cs : List Char) (visible : isBlank c = false) :
    (∃ l kind rest, c :: cs = l ++ rest ∧ Spells l (.ok kind) ∧ IsLongest l (c :: cs)) ∨
    ∃ cause, Fails (c :: cs) cause := by
  rcases exists_spells cs visible with ⟨l, m, rest, split, spells, longest⟩ | fails
  · cases m with
    | ok kind => exact .inl ⟨l, kind, rest, split, spells, longest⟩
    | error cause =>
      rw [split] at longest ⊢
      exact .inr ⟨cause, .meaningless spells longest⟩
  · exact .inr fails

end

end OnePass.Lexical
