import OnePass.Proofs.Correspondence.Statement
import OnePass.Proofs.Lexical.Scan
import OnePass.Proofs.NestedLogs
import OnePass.Proofs.Redeclaration

/-!
# Legible listings

What a pass without a host puts into a listing comes from the source: names are identifiers, with a
number behind a `#` in the names of some functions, types are primitive, and fractions are numbers.
This holds of every event (`program_legible`) and is then handed on to the draft. Main theorem
`legible_of_compile`.
-/

namespace OnePass

/-! ## Legible code -/

/-- A letter, a digit, `_` or `#`. -/
def isPlain (c : Char) : Bool := Lexeme.continuesWord c || c = '#'

/-- The name of a function or a variable. -/
def Plain (text : String) : Prop := ∀ c ∈ text.toList, isPlain c = true

instance (text : String) : Decidable (Plain text) := decidable_of_iff _ List.all_eq_true

def ValueType.isPrimitive : ValueType → Bool
  | .named _ => false
  | _ => true

/-- Fractions are numbers, and functions are called by names. -/
def Instruction.Legible : Instruction → Prop
  | .pushDouble value => value.rank.val ≤ Double.infinityRank
  | .call link => Plain link
  | _ => True

/-- Names are names, and types are primitive. -/
def Draft.Command.Legible : Draft.Command → Prop
  | .reserveLocal name type => Plain name ∧ type.isPrimitive = true
  | .reserveLabel | .closeFunction => True
  | .emit i => i.Legible
  | .openFunction link signature =>
    Plain link ∧ signature.param.isPrimitive = true ∧ signature.ret.isPrimitive = true

/-- Only steps of the draft can be illegible. -/
def Event.Legible : Event → Prop
  | .code command => command.Legible
  | .scope _ | .report _ _ _ => True

/-- The token of a legible name or number, or another one. -/
def Token.Kind.Legible : Token.Kind → Prop
  | .ident name => Plain name
  | .double value => value.rank.val ≤ Double.infinityRank
  | _ => True

def Tokens.Legible (s : Tokens) : Prop := ∀ t ∈ s.front, t.kind.Legible

/-- A type is primitive, and a function has a legible name. -/
def Symbol.Legible (symbol : Symbol) : Prop :=
  match symbol.meaning with
  | .type type => type.isPrimitive = true
  | .localVar _ _ _ => True
  | .function link _ => Plain link

/-- All symbols are legible, and there is no host. -/
structure Scopes.Legible (s : Scopes) : Prop where
  symbols : ∀ symbol ∈ s.symbols, symbol.Legible
  host : ∀ name, s.host name = none

namespace Scopes.Legible

variable {s : Scopes}

theorem enter (h : s.Legible) : s.enter.Legible := ⟨h.symbols, h.host⟩

/-- A legible symbol may be declared. -/
theorem declare (h : s.Legible) {symbol : Symbol} (new : symbol.Legible) :
    (s.declare symbol).Legible := by
  obtain ⟨inner, base, host⟩ := s
  cases inner with
  | nil => exact ⟨List.forall_mem_cons.2 ⟨new, h.symbols⟩, h.host⟩
  | cons scope outer => exact ⟨List.forall_mem_cons.2 ⟨new, h.symbols⟩, h.host⟩

/-- What is visible is legible. -/
theorem find? (h : s.Legible) {name : String} {symbol : Symbol}
    (found : s.find? name = some symbol) : symbol.Legible :=
  h.symbols symbol (List.mem_of_find?_eq_some found)

theorem isPrimitive_of_type? {symbol : Symbol} (h : symbol.Legible) {type : ValueType}
    (found : symbol.type? = some type) : type.isPrimitive = true := by
  unfold Symbol.type? at found
  unfold Symbol.Legible at h
  split at found
  · rename_i meaning
    rw [meaning] at h
    cases found
    exact h
  · cases found

theorem withPrimitives : (Scopes.withPrimitives {}).Legible := by
  refine ⟨fun symbol mem => ?_, fun _ => rfl⟩
  have bound : ∀ symbol ∈ (Scopes.withPrimitives {}).symbols,
      ∃ p ∈ ValueType.primitives, symbol.meaning = .type p.2 := by decide
  obtain ⟨p, primitive, meaning⟩ := bound symbol mem
  have all : ∀ p ∈ ValueType.primitives, p.2.isPrimitive = true := by decide
  rw [Symbol.Legible, meaning]
  exact all p primitive

end Scopes.Legible

/-- A type that is named in legible scopes has a name in the listing. -/
theorem Env.isPrimitive_of_typeNamed? {env : Env} (h : env.scopes.Legible) {k : Token.Kind}
    {type : ValueType} (found : env.typeNamed? k = some type) : type.isPrimitive = true := by
  unfold typeNamed? at found
  split at found
  · obtain ⟨symbol, bound, named⟩ := Option.bind_eq_some_iff.1 found
    exact Scopes.Legible.isPrimitive_of_type? (h.find? bound) named
  · split at found
    · rename_i symbol bound
      exact Scopes.Legible.isPrimitive_of_type? (h.find? bound) found
    · rw [h.host] at found
      cases found
  · cases found

/-! ## Runs -/

theorem Instruction.legible_of_isOperator {i : Instruction} (h : i.isOperator) : i.Legible := by
  cases i with
  | pushDouble value => cases h
  | call link => cases h
  | _ => trivial

/-- A literal of a legible token is legible. -/
theorem Token.Kind.Legible.literal {k : Token.Kind} (h : k.Legible) {x : ValueType × Instruction}
    (literal : k.literal? = some x) : x.2.Legible := by
  cases k with
  | double value =>
    cases literal
    exact h
  | _ => cases literal <;> trivial

theorem Token.Kind.Legible.signedLiteral {k : Token.Kind} (h : k.Legible) {negative : Bool}
    {x : ValueType × Instruction} (literal : k.signedLiteral? negative = some x) : x.2.Legible := by
  cases k with
  | double value =>
    cases literal
    cases negative <;> exact h
  | _ => cases literal <;> trivial

theorem Plain.append {a b : String} (ha : Plain a) (hb : Plain b) : Plain (a ++ b) := by
  intro c mem
  rw [String.toList_append, List.mem_append] at mem
  exact mem.elim (ha c) (hb c)

/-- Digits are plain. -/
theorem plain_repr (n : Nat) : Plain n.repr := by
  intro c mem
  rw [Nat.repr_eq_ofList_toDigits, String.toList_ofList] at mem
  have digit := Nat.isDigit_of_mem_toDigits (by decide) (by decide) mem
  rw [isPlain, Lexical.continuesWord_of_isDigit digit, Bool.true_or]

/-- A number behind a `#` keeps a name legible. -/
theorem Plain.linkName {name : String} (h : Plain name) (c : Counters) :
    Plain (c.linkName name) := by
  unfold Counters.linkName
  split
  · exact h
  · exact (h.append (by decide)).append (plain_repr _)

/-- What is read is legible, and so are the scopes. -/
def readingLegible : SameText where
  Good t := t.kind.Legible
  Fit := Scopes.Legible

/-- The claim that every event is legible. -/
def legibly : SameText := readingLegible.each fun e e' => e' = e ∧ e.Legible

theorem plain_of_readsName {name : String} (h : legibly.correspondence.ReadsName name) :
    Plain name := by
  obtain ⟨t, _, ⟨-, legible⟩, kind⟩ := h
  change t.kind.Legible at legible
  rwa [kind] at legible

theorem isPrimitive_of_readsType {type : ValueType}
    (h : legibly.correspondence.ReadsType type) : type.isPrimitive = true := by
  obtain ⟨env, _, t, _, henv, -, named⟩ := h
  exact env.isPrimitive_of_typeNamed? henv.fit named

/-- Whatever an expression emits is legible: links come from visible functions, and literals from
tokens. -/
theorem legible_of_emitted {env : Env} (h : env.scopes.Legible) {i : Instruction}
    (emitted : legibly.correspondence.Emitted env i i) : i.Legible := by
  cases emitted with
  | fixed fixed =>
    cases fixed with
    | operator operator => exact Instruction.legible_of_isOperator operator
    | one type =>
      split
      · exact (by decide : Double.one.rank.val ≤ Double.infinityRank)
      · trivial
    | _ => trivial
  | literal same literal => exact same.2.literal literal
  | signedLiteral same literal => exact same.2.signedLiteral literal
  | load _ => trivial
  | store _ => trivial
  | call linked =>
    obtain ⟨-, name, signature, found⟩ := linked
    obtain ⟨symbol, bound, meaning⟩ := Option.map_eq_some_iff.1 found
    have legible := h.find? bound
    rwa [Symbol.Legible, meaning] at legible

/-- So is every event that a production gives out by itself. -/
theorem legible_of_given {e : Event} (h : legibly.Given e) : e.Legible := by
  cases h with
  | emit henv emitted => exact legible_of_emitted henv.fit emitted
  | reserveLocal named typed => exact ⟨plain_of_readsName named, isPrimitive_of_readsType typed⟩
  | openFunction c named takes gives =>
    exact ⟨(plain_of_readsName named).linkName c, isPrimitive_of_readsType takes,
      isPrimitive_of_readsType gives⟩
  | _ => trivial

theorem legibly_relates : readingLegible.Relates fun e e' => e' = e ∧ e.Legible where
  given h := ⟨rfl, legible_of_given h⟩
  missing _ _ same := ⟨by rw [same], trivial⟩
  resumed := SameText.same_resumed

theorem legibly_keeps : legibly.Keeps where
  enter := Scopes.Legible.enter
  declareLocal _ _ _ _ _ h := h.declare trivial
  declareFunction c _ _ h read := h.declare ((plain_of_readsName read).linkName c)

theorem legibly_lawful : legibly.correspondence.LawfulProgram where
  toLawfulSettings := SameText.lawfulSettings legibly_keeps
  guise := SameText.same_lawful fun _ => trivial
  toLawfulEvents := SameText.lawfulEvents legibly_relates
  toLawfulStatements := SameText.lawfulStatements legibly_relates Eq.symm

/-- Legible tokens in legible scopes give out legible events. -/
theorem program_legible {env : Env} (h : env.scopes.Legible) (c : Counters) {s : Tokens}
    (hs : s.Legible) : ∀ e ∈ (program env c s).events, e.Legible := by
  have stream : legibly.correspondence.Stream s s := ⟨rfl, hs⟩
  have matched := (Correspondence.program_matches legibly_lawful
    (.refl env h rfl rfl) (rfl : c = c) stream).resolve_left id
  exact fun e mem => (List.forall₂_same.1 matched.2.events e mem).2

/-! ## Listings -/

/-- The entry, or a function under a legible name and with a signature of primitive types; all that
is in it is legible. -/
structure Body.Legible (b : Body) : Prop where
  name : Plain b.name
  entry : b.signature = none → b.name = entryName
  signature : ∀ signature ∈ b.signature,
    signature.param.isPrimitive = true ∧ signature.ret.isPrimitive = true
  locals : ∀ x ∈ b.locals.toList, Plain x.1 ∧ x.2.isPrimitive = true
  code : ∀ i ∈ b.code.toList, i.Legible

/-- What is found in a draft was put there by a command. -/
theorem Draft.exists_of_mem_given {β : Type} {f : Draft.Command → Option β}
    {history : List Draft.Command} {function : Option Nat} {b : β}
    (mem : b ∈ Draft.given f history function) : ∃ c ∈ history, f c = some b := by
  obtain ⟨x, inside, found⟩ := List.mem_filterMap.1 mem
  split_ifs at found
  have step := List.mem_map_of_mem (f := Prod.snd) inside
  rw [Nesting.map_snd_attributed] at step
  exact ⟨x.2, step, found⟩

/-- A draft is as legible as the commands it was made by. -/
theorem Draft.legible_logged {history : List Draft.Command} (h : ∀ c ∈ history, c.Legible)
    (function : Option Nat) : (Draft.logged history function).Legible := by
  have locals : ∀ x ∈ (Draft.logged history function).locals.toList,
      Plain x.1 ∧ x.2.isPrimitive = true := by
    intro x mem
    rw [Draft.locals_logged] at mem
    obtain ⟨c, inside, found⟩ := Draft.exists_of_mem_given mem
    cases c with
    | reserveLocal name type =>
      cases found
      exact h _ inside
    | _ => cases found
  have code : ∀ i ∈ (Draft.logged history function).code.toList, i.Legible := by
    intro i mem
    rw [Draft.code_logged] at mem
    obtain ⟨c, inside, found⟩ := Draft.exists_of_mem_given mem
    cases c with
    | emit i =>
      cases found
      exact h _ inside
    | _ => cases found
  have opening : ∃ name signature, Draft.logged history function =
      (Draft.log history function).body name signature ∧ Plain name ∧
        (signature = none → name = entryName) ∧
        ∀ s ∈ signature, s.param.isPrimitive = true ∧ s.ret.isPrimitive = true := by
    unfold Draft.logged
    split
    · rename_i link signature opening
      obtain ⟨i, -, found⟩ := Option.bind_eq_some_iff.1 opening
      obtain ⟨named, types⟩ := h _ (List.mem_of_getElem? found)
      exact ⟨link, some signature, rfl, named, by simp, by simpa using types⟩
    · exact ⟨entryName, none, rfl, by decide, fun _ => rfl, by simp⟩
  obtain ⟨name, signature, same, named, entry, types⟩ := opening
  rw [same] at locals code ⊢
  exact ⟨named, entry, types, locals, code⟩

/-! ## Sources -/

/-- Scanned tokens are legible. -/
theorem Lexical.Spells.legible {l : List Char} {m : Except LexError.Cause Token.Kind}
    (h : Lexical.Spells l m) : ∀ k ∈ m.toOption, k.Legible := by
  cases h with
  | @word c cs kind first further means =>
    have plain : Plain (String.ofList (c :: cs)) := by
      intro d mem
      rw [String.toList_ofList] at mem
      have inside : Lexeme.continuesWord d = true := by
        rcases List.mem_cons.1 mem with rfl | mem
        · exact Lexical.continuesWord_of_startsWord first
        · exact further d mem
      simp [isPlain, inside]
    generalize String.ofList (c :: cs) = word at means plain
    rintro k ⟨⟩
    cases means with
    | ident => exact plain
    | _ => trivial
  | double whole fraction nearest =>
    rintro k ⟨⟩
    exact nearest.isNumber
  | _ =>
    rintro k ⟨⟩ <;> trivial

/-- The tokens of a source text are legible. -/
theorem legible_of_scan {source : String} {ts : List Token} (scanned : scan source = .ok ts) :
    (Tokens.ofList ts).Legible := by
  intro t mem
  obtain ⟨segments, last, -, cut, -, rfl⟩ := Lexical.exists_cut_of_scan scanned
  have mem := (Tokens.front_ofList_sublist _).subset mem
  rcases List.mem_append.1 mem with mem | mem
  · obtain ⟨s, inside, rfl⟩ := List.mem_map.1 mem
    obtain ⟨_, _, fits⟩ := cut.fits inside
    exact fits.spells.legible _ rfl
  · obtain rfl := List.mem_singleton.1 mem
    trivial

/-- Every body of the listing is legible. -/
theorem Pass.legible_listing {s : Tokens} (h : s.Legible) {structural : Severity} {l : Listing}
    (listed : (Pass.run structural {} s).listing = .ok l) : ∀ b ∈ l.bodies, b.Legible := by
  let env : Env := { scopes := Scopes.withPrimitives {}, structural }
  have run := program_legible (show env.scopes.Legible from Scopes.Legible.withPrimitives) {} h
  rw [Pass.listing_eq] at listed
  cases listed
  have commands : ∀ c ∈ (Pass.run structural {} s).events.filterMap Event.command?, c.Legible := by
    intro c mem
    obtain ⟨e, inside, found⟩ := List.mem_filterMap.1 mem
    rcases List.mem_append.1 inside with base | inside
    · obtain ⟨x, -, rfl⟩ := List.mem_map.1 base
      cases found
    · cases e with
      | code command =>
        cases found
        exact run _ inside
      | _ => cases found
  change ∀ b ∈ (Draft.ofHistory _).bodies, b.Legible
  rw [Draft.bodies_eq_map_logged]
  intro b mem
  obtain ⟨function, -, rfl⟩ := List.mem_map.1 mem
  exact Draft.legible_logged commands function

/-- **Listings are legible.** The names in the listing of a source text that is compiled without a
host are words of letters, digits, `_` and `#`, its types are primitive, and its fractions are
numbers. -/
theorem legible_of_compile {source : String} {structural : Severity} {c : Compilation}
    (compiled : compile source structural = .ok c) : ∀ b ∈ c.listing.bodies, b.Legible := by
  unfold compile at compiled
  split at compiled
  · cases compiled
  · rename_i ts scanned
    dsimp only at compiled
    split at compiled
    · cases compiled
    · rename_i l listed
      cases compiled
      exact Pass.legible_listing (legible_of_scan scanned) listed

end OnePass
