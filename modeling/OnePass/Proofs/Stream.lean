import OnePass.Tokens

/-!
# Passing tokens

`s.Passes ks r` says that the tokens of the stream `s` up to where `r` begins are of the kinds `ks`.
Passing can be cut where the list of kinds can, and each way of reading a token tells what it
passes.
-/

namespace OnePass

/-- The operator that a token is, by a reading of symbols. -/
def Token.Kind.operator? {α : Type} (classify : String → Option α) : Token.Kind → Option α
  | .symbol text => classify text
  | _ => none

namespace Tokens

/-- The stream `r` is what remains of `s` behind tokens of the kinds `ks`. -/
def Passes (s : Tokens) (ks : List Token.Kind) (r : Tokens) : Prop :=
  ∃ passed : List Token, s.front = passed ++ r.front ∧ passed.map Token.kind = ks ∧
    r.final = s.final

namespace Passes

variable {s q r : Tokens} {k : Token.Kind} {ks ls : List Token.Kind}

theorem refl (s : Tokens) : s.Passes [] s := ⟨[], rfl, rfl, rfl⟩

theorem eq_of_nil (h : s.Passes [] r) : r = s := by
  obtain ⟨passed, front, kinds, final⟩ := h
  obtain rfl : passed = [] := List.map_eq_nil_iff.1 kinds
  cases s
  cases r
  simp_all

/-- Passing some tokens and then others is passing both. -/
theorem trans (h : s.Passes ks q) (h' : q.Passes ls r) : s.Passes (ks ++ ls) r := by
  obtain ⟨ps, hs, hks, fs⟩ := h
  obtain ⟨qs, hq, hls, fq⟩ := h'
  exact ⟨ps ++ qs, by rw [hs, hq, List.append_assoc], by rw [List.map_append, hks, hls],
    fq.trans fs⟩

/-- And the other way around, with a stream in between. -/
theorem split (h : s.Passes (ks ++ ls) r) : ∃ q, s.Passes ks q ∧ q.Passes ls r := by
  obtain ⟨passed, front, kinds, final⟩ := h
  obtain ⟨ps, qs, rfl, hps, hqs⟩ := List.map_eq_append_iff.1 kinds
  refine ⟨⟨qs ++ r.front, s.final⟩, ⟨ps, ?_, hps, rfl⟩, ⟨qs, rfl, hqs, final⟩⟩
  rw [front, List.append_assoc]

theorem splitAt (ks : List Token.Kind) (h : s.Passes (ks ++ ls) r) :
    ∃ q, s.Passes ks q ∧ q.Passes ls r :=
  h.split

theorem cons (h : s.Passes (k :: ks) r) : ∃ q, s.Passes [k] q ∧ q.Passes ks r :=
  splitAt [k] h

/-- The first token that is passed is the one at hand. -/
theorem current_kind (h : s.Passes (k :: ks) r) : s.current.kind = k := by
  obtain ⟨passed, front, kinds, _⟩ := h
  cases passed with
  | nil => cases kinds
  | cons t ts =>
    obtain ⟨rfl, _⟩ := List.cons.inj kinds
    unfold current
    rw [front]
    rfl

/-- The next token can be read if it is no end of input. -/
theorem uncons (h : s.Passes (k :: ks) r) (hk : k ≠ .eof) :
    ∃ t tail, s.uncons? = some (t, tail) ∧ t.kind = k ∧ tail.stream.Passes ks r := by
  have kind : s.current.kind = k := h.current_kind
  have going : s.uncons? ≠ none := by
    rw [Ne, uncons?_eq_none_iff]
    simpa [atEnd, Token.isEof, kind] using hk
  obtain ⟨⟨t, tail⟩, read⟩ := Option.ne_none_iff_exists'.1 going
  refine ⟨t, tail, read, ?_, ?_⟩
  · rw [← kind, show s.current = t from congrArg Prod.fst (next_eq_of_uncons? read).1]
  · obtain ⟨passed, front, kinds, final⟩ := h
    cases passed with
    | nil => cases kinds
    | cons u us =>
      rw [← show ({ s with front := s.front.tail } : Tokens) = tail.stream from
        congrArg Prod.snd (next_eq_of_uncons? read).1]
      exact ⟨us, by rw [front]; rfl, (List.cons.inj kinds).2, final⟩

/-- A symbol that comes next is read, whatever it stands for. -/
theorem operator {α : Type} {classify : String → Option α} {text : String} {op : α}
    (h : s.Passes (.symbol text :: ks) r) (hop : classify text = some op) :
    ∃ tail, s.operator? classify = some (op, tail) ∧ tail.stream.Passes ks r := by
  obtain ⟨⟨kind, pos⟩, tail, read, rfl, rest⟩ := h.uncons (by simp)
  exact ⟨tail, by simp [operator?, read, hop], rest⟩

/-- A symbol that comes next is read. -/
theorem symbol {text : String} (h : s.Passes (.symbol text :: ks) r) :
    ∃ tail, s.symbol? text = some tail ∧ tail.stream.Passes ks r := by
  obtain ⟨⟨kind, pos⟩, tail, read, rfl, rest⟩ := h.uncons (by simp)
  exact ⟨tail, by simp [symbol?, skip?, read, Token.isSymbol], rest⟩

theorem keyword {word : String} (h : s.Passes (.keyword word :: ks) r) :
    ∃ tail, s.keyword? word = some tail ∧ tail.stream.Passes ks r := by
  obtain ⟨⟨kind, pos⟩, tail, read, rfl, rest⟩ := h.uncons (by simp)
  exact ⟨tail, by simp [keyword?, skip?, read, Token.isKeyword], rest⟩

end Passes

variable {s : Tokens}

/-! ## The next token -/

theorem current_of_uncons? {t : Token} {tail : s.Tail} (h : s.uncons? = some (t, tail)) :
    s.current = t :=
  congrArg Prod.fst (next_eq_of_uncons? h).1

theorem atEnd_eq_false_of_uncons? {t : Token} {tail : s.Tail}
    (h : s.uncons? = some (t, tail)) : s.atEnd = false := by
  rw [atEnd, current_of_uncons? h]
  exact (next_eq_of_uncons? h).2

theorem current_kind_of_uncons? (done : s.uncons? = none) : s.current.kind = .eof :=
  of_decide_eq_true ((uncons?_eq_none_iff s).1 done)

theorem uncons?_of_front (h : s.front = []) : s.uncons? = none := by
  obtain ⟨front, final⟩ := s
  obtain rfl : front = [] := h
  rfl

/-- An operator is read off the next token. -/
theorem operator?_eq {α : Type} (s : Tokens) (classify : String → Option α) :
    s.operator? classify = s.uncons?.bind fun x => (x.1.kind.operator? classify).map (·, x.2) := by
  unfold operator?
  congr 1
  funext x
  obtain ⟨⟨kind, pos⟩, r⟩ := x
  cases kind <;> rfl

/-- At the end of the input nothing further is reached. -/
theorem Reaches.front_eq_nil {r : Tokens} (h : s.Reaches r) (used : s.front = []) :
    r.front = [] := by
  obtain ⟨passed, front, -⟩ := h
  rw [used] at front
  exact (List.append_eq_nil_iff.1 front.symm).2

/-! ## What was read was passed -/

/-- Whatever is taken is passed. -/
theorem passes_of_uncons? {t : Token} {tail : s.Tail} (h : s.uncons? = some (t, tail)) :
    s.Passes [t.kind] tail.stream := by
  have next : { s with front := s.front.tail } = tail.stream :=
    congrArg Prod.snd (next_eq_of_uncons? h).1
  have current := current_of_uncons? h
  rw [← next, ← current]
  obtain ⟨front, final⟩ := s
  cases front with
  | nil => simp [uncons?] at h
  | cons u us => exact ⟨[u], rfl, rfl, rfl⟩

/-- An operator that was read is passed by the symbol for it. -/
theorem passes_of_operator? {α : Type} {classify : String → Option α} {op : α} {tail : s.Tail}
    (h : s.operator? classify = some (op, tail)) :
    ∃ text, classify text = some op ∧ s.Passes [.symbol text] tail.stream := by
  obtain ⟨⟨⟨kind, pos⟩, tail'⟩, read, reading⟩ := Option.bind_eq_some_iff.1 h
  cases kind with
  | symbol text =>
    obtain ⟨op', classified, e⟩ := Option.map_eq_some_iff.1 reading
    cases e
    exact ⟨text, classified, passes_of_uncons? read⟩
  | _ => cases reading

theorem operator?_current {α : Type} {classify : String → Option α} {op : α} {tail : s.Tail}
    (h : s.operator? classify = some (op, tail)) :
    s.current.kind.operator? classify = some op := by
  obtain ⟨text, classified, passes⟩ := passes_of_operator? h
  rw [passes.current_kind]
  exact classified

theorem passes_of_skip? {p : Token → Bool} {tail : s.Tail} (h : s.skip? p = some tail) :
    p s.current = true ∧ s.Passes [s.current.kind] tail.stream := by
  obtain ⟨⟨t, tail'⟩, read, accepted⟩ := Option.bind_eq_some_iff.1 h
  simp only [Option.ite_none_right_eq_some, Option.some.injEq] at accepted
  obtain ⟨holds, rfl⟩ := accepted
  rw [current_of_uncons? read]
  exact ⟨holds, passes_of_uncons? read⟩

theorem passes_of_symbol? {text : String} {tail : s.Tail} (h : s.symbol? text = some tail) :
    s.Passes [.symbol text] tail.stream := by
  obtain ⟨holds, passes⟩ := passes_of_skip? h
  rwa [show s.current.kind = .symbol text by simpa [Token.isSymbol] using holds] at passes

theorem passes_of_keyword? {word : String} {tail : s.Tail} (h : s.keyword? word = some tail) :
    s.Passes [.keyword word] tail.stream := by
  obtain ⟨holds, passes⟩ := passes_of_skip? h
  rwa [show s.current.kind = .keyword word by simpa [Token.isKeyword] using holds] at passes

/-! ## What is not there is not read -/

/-- Whether an operator is read depends on the token at hand only. -/
theorem operator?_eq_none_iff {α : Type} {classify : String → Option α} :
    s.operator? classify = none ↔ s.current.kind.operator? classify = none := by
  rw [operator?_eq]
  cases h : s.uncons? with
  | none => simp [current_kind_of_uncons? h, Token.Kind.operator?]
  | some x => simp [current_of_uncons? h]

theorem symbol?_eq_none {text : String} (h : s.current.kind ≠ .symbol text) :
    s.symbol? text = none := by
  cases read : s.symbol? text with
  | none => rfl
  | some tail => exact absurd (passes_of_symbol? read).current_kind h

theorem keyword?_eq_none {word : String} (h : s.current.kind ≠ .keyword word) :
    s.keyword? word = none := by
  cases read : s.keyword? word with
  | none => rfl
  | some tail => exact absurd (passes_of_keyword? read).current_kind h

theorem current_ne_of_keyword? {word : String} (h : s.keyword? word = none) :
    s.current.kind ≠ .keyword word := by
  intro kind
  obtain ⟨front, final⟩ := s
  cases front with
  | nil => cases kind
  | cons t ts =>
    have passes : Passes ⟨t :: ts, final⟩ [.keyword word] ⟨ts, final⟩ :=
      ⟨[t], rfl, congrArg (fun k => [k]) kind, rfl⟩
    obtain ⟨tail, read, -⟩ := passes.keyword
    rw [h] at read
    cases read

/-! ## Up to the first end of input -/

/-- A stream has no other tokens than its list. -/
theorem front_ofList_sublist (ts : List Token) : (ofList ts).front.Sublist ts := by
  unfold ofList
  split
  · exact List.nil_sublist ts
  · split
    · exact List.dropLast_sublist ts
    · exact .refl ts

/-- The tokens up to the first end of input, if some of them were passed and then an end of input
comes next. -/
theorem Reaches.takeWhile_eq {s r : Tokens} (h : s.Reaches r) (atEnd : r.atEnd = true)
    {passed : List Token} (split : s.front = passed ++ r.front) :
    s.front.takeWhile (!·.isEof) = passed := by
  obtain ⟨passed', split', live, -⟩ := h
  obtain rfl : passed' = passed := List.append_cancel_right (split'.symm.trans split)
  rw [split, List.takeWhile_append_of_pos (by simpa using live)]
  obtain ⟨front, final⟩ := r
  cases front with
  | nil => simp
  | cons t ts =>
    have last : t.isEof = true := atEnd
    simp [last]

/-- An end of input that a stream keeps apart is not among the tokens before the first one. -/
theorem takeWhile_ofList (ts : List Token) :
    (ofList ts).front.takeWhile (!·.isEof) = ts.takeWhile (!·.isEof) := by
  have apart {t : Token} (eof : t.isEof = true) (front : List Token) :
      (front ++ [t]).takeWhile (!·.isEof) = front.takeWhile (!·.isEof) := by
    induction front with
    | nil => simp [eof]
    | cons u us ih => simp [List.takeWhile_cons, ih]
  unfold ofList
  split
  · rename_i none
    rw [List.getLast?_eq_none_iff.1 none]
  · rename_i t last
    split
    · rename_i eof
      obtain ⟨front, rfl⟩ := List.getLast?_eq_some_iff.1 last
      rw [List.dropLast_concat, apart eof]
    · rfl

end Tokens

end OnePass
