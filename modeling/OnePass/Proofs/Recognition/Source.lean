import OnePass.Proofs.Recognition.Statement
import OnePass.Proofs.Translation

/-!
# Recognizing source texts

The tokens of a source text end with the end of the input and nothing before is one, and identifiers
are names. So a source text that is accepted holds exactly the tokens of a greedy program, and its
listing is the one generated from the program.
-/

namespace OnePass

/-! ## Scanning -/

/-- The token is no end of input, and if it is an identifier it is a name. -/
def Token.Kind.IsProper (k : Token.Kind) : Prop :=
  k ≠ .eof ∧ ∀ name, k = .ident name → isName name = true

theorem Token.Kind.isProper_ofWord {c : Char} {cs : List Char} (first : Lexeme.startsWord c = true)
    (rest : cs.all Lexeme.continuesWord = true) :
    (ofWord (String.ofList (c :: cs))).IsProper := by
  have word : ∀ name, ofWord (String.ofList (c :: cs)) = .ident name →
      name = String.ofList (c :: cs) := by
    intro name h
    unfold ofWord at h
    repeat' split at h
    all_goals cases h
    rfl
  constructor
  · unfold ofWord
    repeat' split
    all_goals simp
  · intro name h
    obtain rfl := word name h
    rw [isName, String.toList_ofList]
    simp only [first, rest, h, decide_true, Bool.and_self]

namespace Lexeme

theorem isProper_number {c : Char} {cs : List Char} {l : Lexeme (c :: cs)}
    (h : number c cs = .ok l) : l.value.IsProper := by
  unfold number at h
  dsimp only at h
  split at h
  · cases h
    exact ⟨nofun, nofun⟩
  · unfold integer at h
    dsimp only at h
    split at h
    · cases h
      exact ⟨nofun, nofun⟩
    · cases h

theorem isProper_quoted {c : Char} {cs : List Char} {l : Lexeme (c :: cs)}
    (h : quoted c cs = .ok l) : l.value.IsProper := by
  unfold quoted at h
  cases read : contents c cs with
  | error cause =>
    rw [read] at h
    cases h
  | ok r =>
    rw [read] at h
    change (literal c r.value >>= fun kind => pure ((r.cons c).map fun _ => kind)) = _ at h
    unfold literal at h
    repeat' split at h
    · cases h
      exact ⟨nofun, nofun⟩
    · cases h
      exact ⟨nofun, nofun⟩
    · cases h

theorem isProper_shortSymbol {c : Char} {cs : List Char} {l : Lexeme (c :: cs)}
    (h : shortSymbol c cs = .ok l) : l.value.IsProper := by
  unfold shortSymbol at h
  dsimp only at h
  split at h
  · cases h
    exact ⟨nofun, nofun⟩
  · cases h

theorem isProper_symbol {c : Char} {cs : List Char} {l : Lexeme (c :: cs)}
    (h : symbol c cs = .ok l) : l.value.IsProper := by
  unfold symbol at h
  split at h
  · exact isProper_shortSymbol h
  · dsimp only at h
    split at h
    · cases h
      exact ⟨nofun, nofun⟩
    · exact isProper_shortSymbol h

theorem isProper_ofChars {c : Char} {cs : List Char} {l : Lexeme (c :: cs)}
    (h : ofChars c cs = .ok l) : l.value.IsProper := by
  unfold ofChars at h
  split at h
  · rename_i first
    cases h
    exact Token.Kind.isProper_ofWord first (List.all_takeWhile)
  split at h
  · exact isProper_number h
  split at h
  · exact isProper_quoted h
  · exact isProper_symbol h

end Lexeme

theorem scanFrom_proper {pos : Position} {cs : List Char} {ts : List Token}
    (h : scanFrom pos cs = .ok ts) :
    ∃ (front : List Token) (last : Position), ts = front ++ [⟨.eof, last⟩] ∧
      ∀ t ∈ front, t.kind.IsProper := by
  rw [scanFrom] at h
  split at h
  · cases h
    exact ⟨[], _, rfl, by simp⟩
  · rename_i gap c rest split _
    dsimp only at h
    cases lexed : Lexeme.ofChars c rest with
    | error cause =>
      rw [lexed] at h
      cases h
    | ok l =>
      rw [lexed] at h
      have shorter : l.rest.length < cs.length := by
        rw [split, List.length_append]
        exact Nat.lt_of_lt_of_le l.length_rest_lt (Nat.le_add_left _ _)
      cases scanned : scanFrom ((pos.afterAll gap).afterAll l.text) l.rest with
      | error cause =>
        simp only [scanned] at h
        cases h
      | ok ts' =>
        simp only [scanned] at h
        cases h
        obtain ⟨front, last, rfl, proper⟩ := scanFrom_proper scanned
        refine ⟨⟨l.value, pos.afterAll gap⟩ :: front, last, rfl, ?_⟩
        intro t mem
        rcases List.mem_cons.1 mem with rfl | mem
        · exact Lexeme.isProper_ofChars lexed
        · exact proper t mem
termination_by cs.length

/-! ## Programs in source texts -/

/-- The source text is a writing of the program: its tokens are those of the program. -/
def Tree.Statements.WrittenAs (p : Tree.Statements) (source : String) : Prop :=
  p.greedy = true ∧ ∃ ts, scan source = .ok ts ∧ ts.map Token.kind = p.tokens ++ [.eof]

/-- The surroundings in which a program is read bind the primitive types and nothing else. -/
theorem plain_fresh : Env.Plain { scopes := Scopes.fresh } := by
  refine ⟨?_, fun _ => rfl, rfl⟩
  have words : ∀ y ∈ Scopes.fresh.symbols,
      ∃ w : TypeWord, y = ⟨w.type.text, .type w.type, none⟩ := by
    intro y mem
    have primitive : y ∈ [TypeWord.double, .string, .char, .bool, .int].map fun w =>
        ⟨w.type.text, .type w.type, none⟩ := mem
    obtain ⟨w, -, rfl⟩ := List.mem_map.1 primitive
    exact ⟨w, rfl⟩
  intro y mem type meaning
  obtain ⟨w, rfl⟩ := words y mem
  cases meaning
  exact ⟨w, rfl, rfl⟩

/-- What is known of a compilation that went through. -/
theorem compile_eq_ok {source : String} {c : Compilation} (compiled : compile source = .ok c) :
    ∃ ts, scan source = .ok ts ∧ c.accepted = (Pass.run .error {} (.ofList ts)).accepted ∧
      (Pass.run .error {} (.ofList ts)).listing = .ok c.listing := by
  unfold compile at compiled
  cases scanned : scan source with
  | error error =>
    rw [scanned] at compiled
    cases compiled
  | ok ts =>
    simp only [scanned] at compiled
    cases listed : (Pass.run .error {} (.ofList ts)).listing with
    | error fault =>
      rw [listed] at compiled
      cases compiled
    | ok listing =>
      rw [listed] at compiled
      cases compiled
      exact ⟨ts, rfl, rfl, listed⟩

/-- The names of the bodies that an accepted source text is compiled to. -/
def acceptedNames? (source : String) : Option (List String) :=
  match compile source with
  | .ok c => if c.accepted then some (c.listing.bodies.map Body.name) else none
  | .error _ => none

theorem acceptedNames?_eq_some_iff {source : String} {names : List String} :
    acceptedNames? source = some names ↔
      ∃ c, compile source = .ok c ∧ c.accepted = true ∧ c.listing.bodies.map Body.name = names := by
  unfold acceptedNames?
  cases compile source with
  | error e => simp
  | ok c => simp

/-- Where no token ahead is an end of input, only the end of the stream is one. -/
theorem Tokens.front_eq_nil {s : Tokens} (proper : ∀ t ∈ s.front, t.kind.IsProper)
    (atEnd : s.atEnd = true) : s.front = [] := by
  obtain ⟨front, final⟩ := s
  cases front with
  | nil => rfl
  | cons t ts => exact absurd (of_decide_eq_true atEnd) (proper t List.mem_cons_self).1

/-- The tokens that a pass accepts are those of a greedy program. -/
theorem Pass.exists_program {s : Tokens} (proper : ∀ t ∈ s.front, t.kind.IsProper)
    (accepted : (run .error {} s).accepted = true) :
    ∃ p : Tree.Statements, p.greedy = true ∧ s.front.map Token.kind = p.tokens := by
  rw [Pass.accepted_iff] at accepted
  obtain ⟨clean, atEnd⟩ := accepted
  have named : s.Named := fun t mem => (proper t mem).2
  obtain ⟨p, greedy, passed, split, kinds, -⟩ := program_finds _ plain_fresh {} s named
    (fun faulty => clean (Faulty.right faulty _))
  have ahead : ∀ t ∈ (run .error {} s).rest.front, t.kind.IsProper := by
    intro t mem
    refine proper t ?_
    rw [split]
    exact List.mem_append_right passed mem
  have exhausted : (program { scopes := Scopes.fresh } {} s).rest.front = [] :=
    Tokens.front_eq_nil ahead atEnd
  rw [exhausted, List.append_nil] at split
  exact ⟨p, greedy, by rw [split, kinds]⟩

/-- An accepted source text is the writing of a program. -/
theorem exists_writtenAs {source : String} {c : Compilation} (compiled : compile source = .ok c)
    (accepted : c.accepted = true) : ∃ p : Tree.Statements, p.WrittenAs source := by
  obtain ⟨ts, scanned, same, -⟩ := compile_eq_ok compiled
  obtain ⟨front, last, rfl, proper⟩ := scanFrom_proper scanned
  have stream : Tokens.ofList (front ++ [⟨.eof, last⟩]) = ⟨front, last⟩ := by
    simp [Tokens.ofList, Token.isEof]
  rw [same, stream] at accepted
  obtain ⟨p, greedy, tokens⟩ := Pass.exists_program proper accepted
  refine ⟨p, greedy, _, scanned, ?_⟩
  rw [List.map_append, show front.map Token.kind = p.tokens from tokens]
  rfl

theorem Tree.Statements.WrittenAs.functions? {p : Tree.Statements} {source : String}
    (written : p.WrittenAs source) {c : Compilation} (compiled : compile source = .ok c)
    (accepted : c.accepted = true) :
    ∃ fs, p.functions? = some fs ∧ c.listing.bodies = fs.map fun f => f.1.compiled f.2 := by
  obtain ⟨greedy, ts, scanned, tokens⟩ := written
  obtain ⟨ts', scanned', same, listing⟩ := compile_eq_ok compiled
  obtain rfl : ts = ts' := Except.ok.inj (scanned.symm.trans scanned')
  rw [same, Pass.accepted_iff] at accepted
  have run := Pass.run_program greedy tokens
  unfold Tree.Statements.listing? at run
  cases resolved : p.functions? with
  | none =>
    rw [resolved] at run
    exact absurd run accepted.1
  | some fs =>
    rw [resolved] at run
    obtain ⟨-, -, listing'⟩ := run
    refine ⟨fs, rfl, ?_⟩
    rw [Except.ok.inj (listing.symm.trans listing')]

end OnePass
