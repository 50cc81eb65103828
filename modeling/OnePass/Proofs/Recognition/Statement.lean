import OnePass.Production.Statement
import OnePass.Proofs.Matching
import OnePass.Proofs.Recognition.Expression

/-!
# Recognizing statements

Whatever the productions of statements read without an error are the tokens of a greedy program. For
this the words that begin declarations have to be known: where all types that are bound are the
primitive ones, a type is named by a keyword and by nothing else.
-/

namespace OnePass

/-! ## Surroundings with primitive types only -/

/-- The only types that are bound are primitive ones, under their own names, and a missing bracket
or terminator is an error. -/
structure Env.Plain (env : Env) : Prop where
  types : ∀ y ∈ env.scopes.symbols, ∀ type, y.meaning = .type type →
    ∃ w : TypeWord, y.name = w.type.text ∧ w.type = type
  host : ∀ name, env.scopes.host name = none
  structural : env.structural = .error

namespace Env.Plain

variable {env : Env}

/-- In plain surroundings only the words for the types stand for types. -/
theorem of_find? (plain : env.Plain) {name : String} {y : Symbol} {type : ValueType}
    (found : env.scopes.find? name = some y) (h : y.type? = some type) :
    ∃ w : TypeWord, name = w.type.text ∧ w.type = type := by
  have mem := List.mem_of_find?_eq_some found
  have same := List.find?_some found
  obtain rfl : y.name = name := of_decide_eq_true same
  refine plain.types y mem type ?_
  unfold Symbol.type? at h
  split at h
  · cases h
    assumption
  · cases h

/-- Only a keyword names a type. -/
theorem typeName? (plain : env.Plain) {s : Tokens} (named : s.Named) {type : ValueType}
    {tail : s.Tail} (h : env.typeName? s = some (type, tail)) :
    ∃ w : TypeWord, w.type = type ∧ s.Passes [w.kind] tail.stream := by
  obtain ⟨⟨t, tail'⟩, read, reading⟩ := Option.bind_eq_some_iff.1 h
  obtain ⟨type', typed, e⟩ := Option.map_eq_some_iff.1 reading
  cases e
  have first := Tokens.passes_of_uncons? read
  have current := Tokens.current_of_uncons? read
  cases kind : t.kind with
  | keyword word =>
    rw [kind] at typed first
    obtain ⟨y, found, isType⟩ := Option.bind_eq_some_iff.1 typed
    obtain ⟨w, rfl, same⟩ := plain.of_find? found isType
    exact ⟨w, same, first⟩
  | ident name =>
    rw [kind] at typed
    obtain ⟨x, rfl⟩ := named.head (current ▸ kind)
    simp only [Env.typeNamed?] at typed
    split at typed
    · rename_i y found
      obtain ⟨w, same, -⟩ := plain.of_find? found typed
      refine absurd ?_ x.not_mem_keywords
      rw [same]
      cases w <;> decide
    · rw [plain.host] at typed
      cases typed
  | _ =>
    rw [kind] at typed
    cases typed

theorem enter (plain : env.Plain) : Plain { env with scopes := env.scopes.enter } :=
  ⟨plain.types, plain.host, plain.structural⟩

/-- Variables and functions leave the surroundings plain. -/
theorem declare (plain : env.Plain) {y : Symbol} (h : ∀ type, y.meaning ≠ .type type) :
    Plain { env with scopes := env.scopes.declare y } := by
  obtain ⟨⟨inner, base, host⟩, loop, returns, structural⟩ := env
  refine ⟨?_, ?_, plain.structural⟩
  · intro z mem type typed
    refine plain.types z ?_ type typed
    have other : z ≠ y := by
      rintro rfl
      exact h type typed
    cases inner with
    | nil => simpa [Scopes.symbols, Scopes.declare, other] using mem
    | cons scope scopes => simpa [Scopes.symbols, Scopes.declare, other] using mem
  · cases inner with
    | nil => exact plain.host
    | cons scope scopes => exact plain.host

theorem inLoop (plain : env.Plain) (targets : Option LoopTargets) :
    Plain { env with loop := targets } :=
  ⟨plain.types, plain.host, plain.structural⟩

theorem inFunction (plain : env.Plain) (returns : List ValueType) :
    Plain { env with loop := none, returns } :=
  ⟨plain.types, plain.host, plain.structural⟩

end Env.Plain

/-! ## Runs without errors -/

/-- If no error was reported, the value and the rest have a property. -/
def Run.Finds {s : Tokens} {α : Type} (x : Run s α) (P : α → Tokens → Prop) : Prop :=
  ¬ Faulty x.events → P x.value x.rest

namespace Run.Finds

variable {s q : Tokens} {α β : Type} {P : α → Tokens → Prop} {Q : β → Tokens → Prop}

theorem pure {a : α} (h : P a s) : (Run.pure a : Run s α).Finds P := fun _ => h

theorem reached (h : s.Reaches q) {x : Run q α} (hx : x.Finds P) : (Run.reached h x).Finds P := hx

theorem after {es : List Event} {x : Run s α} (hx : x.Finds P) : (Run.after es x).Finds P :=
  fun clean => hx fun faulty => clean (faulty.right es)

theorem imp {P' : α → Tokens → Prop} {x : Run s α} (hx : x.Finds P) (h : ∀ a r, P a r → P' a r) :
    x.Finds P' :=
  fun clean => h _ _ (hx clean)

theorem bind {x : Run s α} {f : (r : Tokens) → r.left ≤ s.left → α → Run r β} (hx : x.Finds P)
    (hf : ∀ q h a, P a q → (f q h a).Finds Q) : (x.bind f).Finds Q :=
  fun clean => hf _ x.left_rest_le _ (hx fun faulty => clean (faulty.bind f))
    fun faulty => clean (faulty.right _)

theorem bindShorter {x : Run s α} (shorter : x.rest.left < s.left)
    {f : (r : Tokens) → r.left < s.left → α → Run r β} (hx : x.Finds P)
    (hf : ∀ q h a, P a q → (f q h a).Finds Q) : (x.bindShorter shorter f).Finds Q :=
  fun clean => hf _ shorter _ (hx fun faulty => clean (faulty.left _))
    fun faulty => clean (faulty.right _)

/-- An attempt that succeeds, and then something else. -/
theorem attempt {x : Attempt s α} {f : (r : Tokens) → r.left ≤ s.left → Option α → Run r β}
    (hx : x.Gains P) (hf : ∀ q h a, P a q → (f q h (some a)).Finds Q) : (x.bind f).Finds Q := by
  have hx : Run.Finds x fun v r => ∃ a, v = some a ∧ P a r := hx
  refine hx.bind ?_
  rintro q h _ ⟨a, rfl, ha⟩
  exact hf q h a ha

end Run.Finds

/-! ## Statements without parts -/

section Recognition

open OnePass.Tree

/-- A condition without errors is an expression in parentheses. -/
theorem condition_gains {env : Env} (plain : env.Plain) {s : Tokens} (named : s.Named) :
    (condition env s).Gains fun _ r =>
      ∃ e : Expression, e.greedy = true ∧
        s.Passes (.symbol "(" :: (e.tokens ++ [.symbol ")"])) r := by
  unfold condition
  refine .andThen (expect_gains plain.structural "(" s) ?_
  rintro q - _ opening
  refine .andThen (expression_gains env plain.structural q (named.rest opening)) ?_
  rintro r - type ⟨e, found⟩
  split
  · refine .imp (expect_gains plain.structural ")" r) ?_
    rintro _ r' closing
    exact ⟨e, found.greedy, opening.trans (found.passes.trans closing)⟩
  · exact .fail _ _

theorem jumpStatement_gains {env : Env} (plain : env.Plain) (keyword : String)
    (target : Option Nat) (pos : Position) (s : Tokens) :
    (jumpStatement env keyword target pos s).Gains fun _ r => s.Passes [.symbol ";"] r := by
  unfold jumpStatement
  split
  · exact .fail _ _
  · exact .andThen (expect_gains plain.structural ";" s) fun _ _ _ closing => .emit closing

/-- A return without errors, behind its keyword. -/
theorem returnStatement_gains {env : Env} (plain : env.Plain) (pos : Position) {s : Tokens}
    (named : s.Named) :
    (returnStatement env pos s).Gains fun _ r =>
      ∃ t : Statement, t.greedy = true ∧ t.endsOpen = false ∧
        ∃ ks, t.tokens = .keyword "return" :: ks ∧ s.Passes ks r := by
  unfold returnStatement
  split
  · refine .andThen (expression_gains env plain.structural s named) ?_
    rintro q - given ⟨e, found⟩
    refine .andThen (follow_gains _ _) ?_
    rintro _ - _ rfl
    refine .after (.imp (expect_gains plain.structural ";" _) ?_)
    rintro _ r closing
    exact ⟨.ret (some e), found.greedy, rfl, _, rfl, found.passes.trans closing⟩
  · split
    · exact .fail _ _
    · refine .after (.imp (expect_gains plain.structural ";" s) ?_)
      rintro _ r closing
      exact ⟨.ret none, rfl, rfl, _, rfl, closing⟩

theorem expressionStatement_gains {env : Env} (plain : env.Plain) {s : Tokens} (named : s.Named) :
    (expressionStatement env s).Gains fun _ r =>
      ∃ e : Expression, e.greedy = true ∧ s.Passes (e.tokens ++ [.symbol ";"]) r := by
  unfold expressionStatement
  refine .andThen (expression_gains env plain.structural s named) ?_
  rintro q - type ⟨e, found⟩
  refine .after (.imp (expect_gains plain.structural ";" q) ?_)
  rintro _ r closing
  exact ⟨e, found.greedy, found.passes.trans closing⟩

/-- A simple statement without errors is a statement of the tree, and no `else` could belong to it.
-/
theorem simpleStatement_gains {env : Env} (plain : env.Plain) {s : Tokens} (named : s.Named) :
    (simpleStatement env s).Gains fun _ r =>
      ∃ t : Statement, t.greedy = true ∧ t.endsOpen = false ∧ s.Passes t.tokens r := by
  unfold simpleStatement
  split
  · exact .fail _ _
  · rename_i t tail read
    have first := Tokens.passes_of_uncons? read
    split
    · rename_i word
      rw [show t.kind = .keyword "break" from of_decide_eq_true word] at first
      refine .reached (.imp (jumpStatement_gains plain _ _ _ _) ?_)
      rintro _ r closing
      exact ⟨.exit, rfl, rfl, first.trans closing⟩
    split
    · rename_i word
      rw [show t.kind = .keyword "continue" from of_decide_eq_true word] at first
      refine .reached (.imp (jumpStatement_gains plain _ _ _ _) ?_)
      rintro _ r closing
      exact ⟨.next, rfl, rfl, first.trans closing⟩
    split
    · rename_i word
      rw [show t.kind = .keyword "return" from of_decide_eq_true word] at first
      refine .reached (.imp (returnStatement_gains plain _ (named.rest first)) ?_)
      rintro _ r ⟨t, greedy, ends, ks, tokens, rest⟩
      exact ⟨t, greedy, ends, tokens ▸ first.trans rest⟩
    split
    · rename_i symbol
      rw [show t.kind = .symbol ";" from of_decide_eq_true symbol] at first
      exact .reached (.ok ⟨.empty, rfl, rfl, first⟩)
    split
    · exact .fail _ _
    split
    · refine .imp (expressionStatement_gains plain named) ?_
      rintro _ r ⟨e, greedy, passes⟩
      exact ⟨.eval e, greedy, rfl, passes⟩
    · exact .fail _ _

/-! ## Programs -/

/-- A parameter without errors is the word for a type, a name and the closing parenthesis. -/
theorem parameter_gains {env : Env} (plain : env.Plain) {s : Tokens} (named : s.Named) :
    (parameter env s).Gains fun p r =>
      ∃ (w : TypeWord) (x : Name), p.name = x.text ∧
        s.Passes [w.kind, .ident x.text, .symbol ")"] r := by
  have typed : (typeName env s).Gains fun _ r => ∃ w : TypeWord, s.Passes [w.kind] r := by
    unfold typeName
    split
    · rename_i type tail read
      obtain ⟨w, -, passes⟩ := plain.typeName? named read
      exact .reached (.ok ⟨w, passes⟩)
    · exact .fail _ _
  refine .andThen typed ?_
  rintro q - type ⟨w, first⟩
  refine .andThen (identifier_gains q) ?_
  rintro r - ⟨name, pos⟩ second
  obtain ⟨x, rfl⟩ := (named.rest first).head second.current_kind
  refine .andThen (expect_gains plain.structural ")" r) ?_
  rintro r' - _ closing
  exact .ok ⟨w, x, rfl, first.trans (second.trans closing)⟩

mutual

/-- Without errors the tokens of a statement have been read. If its last part is a conditional
without `else`, no `else` comes next. -/
theorem statement_finds (env : Env) (plain : env.Plain) (c : Counters) (s : Tokens)
    (named : s.Named) :
    (statement env c s).1.Finds fun _ r =>
      ∃ t : Statement, t.greedy = true ∧ s.Passes t.tokens r ∧
        (t.endsOpen = true → r.current.kind ≠ .keyword "else") := by
  rw [statement]
  split
  · rename_i q reaches shorter read
    have opening := Tokens.passes_of_symbol? read
    refine .reached reaches (.imp (block_finds env plain c q (named.rest opening)) ?_)
    rintro _ r ⟨ds, ss, greedy, passes⟩
    exact ⟨.block ds ss, greedy, opening.trans passes, nofun⟩
  · split
    · rename_i q reaches shorter read
      have first := Tokens.passes_of_keyword? read
      refine .reached reaches (.imp (conditional_finds env plain c q (named.rest first)) ?_)
      rintro _ r ⟨t, ks, tokens, greedy, passes, ends⟩
      exact ⟨t, greedy, tokens ▸ first.trans passes, ends⟩
    · split
      · rename_i q reaches shorter read
        have first := Tokens.passes_of_keyword? read
        refine .reached reaches (.imp (loop_finds env plain c q (named.rest first)) ?_)
        rintro _ r ⟨t, ks, tokens, greedy, passes, ends⟩
        exact ⟨t, greedy, tokens ▸ first.trans passes, ends⟩
      · dsimp only
        refine .attempt (simpleStatement_gains plain named) ?_
        rintro r - _ ⟨t, greedy, ends, passes⟩
        refine .pure ⟨t, greedy, passes, ?_⟩
        rw [ends]
        nofun
termination_by 8 * s.left + 1
decreasing_by all_goals omega

theorem statements_finds (env : Env) (plain : env.Plain) (c : Counters) (s : Tokens)
    (named : s.Named) :
    (statements env c s).Finds fun _ r =>
      ∃ ss : Statements, ss.greedy = true ∧ s.Passes ss.tokens r := by
  rw [statements]
  split
  · exact .pure ⟨.nil, rfl, .refl s⟩
  · split
    · exact .pure ⟨.nil, rfl, .refl s⟩
    · rename_i h
      refine .bindShorter _ (statement_finds env plain c s named) ?_
      rintro q shorter o ⟨t, greedy, passes, -⟩
      refine .imp (statements_finds env plain o.counters q (named.rest passes)) ?_
      rintro _ r ⟨ss, greedy', passes'⟩
      exact ⟨.cons t ss, by simp [Statements.greedy, greedy, greedy'], passes.trans passes'⟩
termination_by 8 * s.left + 2
decreasing_by all_goals omega

/-- Without errors a block has been read, behind its opening brace. -/
theorem block_finds (env : Env) (plain : env.Plain) (c : Counters) (s : Tokens)
    (named : s.Named) :
    (block env c s).Finds fun _ r =>
      ∃ (ds : Declarations) (ss : Statements), (ds.greedy && ss.greedy) = true ∧
        s.Passes (ds.tokens ++ (ss.tokens ++ [.symbol "\x7d"])) r := by
  rw [block]
  refine .after (.bind (declarations_finds _ plain.enter c s named) ?_)
  rintro q left d ⟨plain', ds, greedy, passes⟩
  refine .bind (statements_finds _ plain' d.counters q (named.rest passes)) ?_
  rintro r left' c' ⟨ss, greedy', passes'⟩
  refine .attempt (expect_gains plain.structural "\x7d" r) ?_
  rintro r' - _ closing
  refine .after (.pure ⟨ds, ss, by simp [greedy, greedy'], passes.trans (passes'.trans closing)⟩)
termination_by 8 * s.left + 4
decreasing_by all_goals omega

/-- Without errors declarations have been read, and the surroundings are still plain behind them. -/
theorem declarations_finds (env : Env) (plain : env.Plain) (c : Counters) (s : Tokens)
    (named : s.Named) :
    (declarations env c s).Finds fun d r =>
      Env.Plain { env with scopes := d.scopes } ∧
        ∃ ds : Declarations, ds.greedy = true ∧ s.Passes ds.tokens r := by
  rw [declarations]
  split
  · exact .pure ⟨plain, .nil, rfl, .refl s⟩
  · rename_i type q reaches shorter read
    obtain ⟨w, same, first⟩ := plain.typeName? named read
    refine .reached reaches (.bind (declaration_finds env plain c type q (named.rest first)) ?_)
    rintro r left d ⟨plain', ks, tree, passes⟩
    obtain ⟨d', greedy, tokens⟩ := tree w
    have lead := first.trans passes
    refine .imp (declarations_finds _ plain' d.counters r (named.rest lead)) ?_
    rintro _ r' ⟨plain'', ds, greedy', passes'⟩
    refine ⟨plain'', .cons d' ds, by simp [Declarations.greedy, greedy, greedy'], ?_⟩
    rw [Declarations.tokens, tokens]
    exact lead.trans passes'
termination_by 8 * s.left + 3
decreasing_by all_goals omega

theorem declaration_finds (env : Env) (plain : env.Plain) (c : Counters) (type : ValueType)
    (s : Tokens) (named : s.Named) :
    (declaration env c type s).Finds fun d r =>
      Env.Plain { env with scopes := d.scopes } ∧
        ∃ ks, (∀ w : TypeWord, ∃ d : Declaration, d.greedy = true ∧ d.tokens = w.kind :: ks) ∧
          s.Passes ks r := by
  rw [declaration]
  refine .attempt (identifier_gains s) ?_
  rintro q left ⟨name, pos⟩ first
  obtain ⟨x, rfl⟩ := named.head first.current_kind
  dsimp only
  split
  · intro clean
    exact absurd (Faulty.head _ _ _) clean
  · split
    · rename_i r reaches shorter read
      have opening := Tokens.passes_of_symbol? read
      have lead := first.trans opening
      refine .reached reaches
        (.imp (definition_finds env plain c type x pos r (named.rest lead)) ?_)
      rintro d r' ⟨plain', ks, tree, passes⟩
      exact ⟨plain', _, tree, lead.trans passes⟩
    · refine .after (.attempt (expect_gains plain.structural ";" q) ?_)
      rintro r - _ closing
      refine .pure ⟨plain.declare nofun, _, ?_, first.trans closing⟩
      exact fun w => ⟨.var w x, rfl, rfl⟩
termination_by 8 * s.left + 1
decreasing_by all_goals omega

/-- Without errors a definition has been read, behind the parenthesis that opens its parameter. -/
theorem definition_finds (env : Env) (plain : env.Plain) (c : Counters) (ret : ValueType)
    (f : Name) (pos : Position) (s : Tokens) (named : s.Named) :
    (definition env c ret f.text pos s).Finds fun d r =>
      Env.Plain { env with scopes := d.scopes } ∧
        ∃ ks, (∀ w : TypeWord, ∃ d : Declaration, d.greedy = true ∧
          d.tokens = w.kind :: ([.ident f.text, .symbol "("] ++ ks)) ∧ s.Passes ks r := by
  rw [definition]
  refine .attempt (parameter_gains plain named) ?_
  rintro q left p ⟨w, x, name, passes⟩
  have plain' := plain.declare
    (y := ⟨f.text, .function (c.linkName f.text) ⟨p.type, ret⟩, some pos⟩) nofun
  refine .after (.bind (body_finds _ ?_ _ q (named.rest passes)) ?_)
  · exact ((plain'.inFunction (ret :: env.returns)).enter).declare nofun
  · rintro r - o ⟨ds, ss, greedy, passes'⟩
    refine .after (.pure ⟨plain', _, ?_, passes.trans passes'⟩)
    exact fun w' => ⟨.function w' f w x ds ss, greedy, rfl⟩
termination_by 8 * s.left + 6
decreasing_by all_goals omega

theorem body_finds (env : Env) (plain : env.Plain) (c : Counters) (s : Tokens)
    (named : s.Named) :
    (body env c s).Finds fun _ r =>
      ∃ (ds : Declarations) (ss : Statements), (ds.greedy && ss.greedy) = true ∧
        s.Passes (.symbol "\x7b" :: (ds.tokens ++ (ss.tokens ++ [.symbol "\x7d"]))) r := by
  rw [body]
  split
  · rename_i q reaches shorter read
    have opening := Tokens.passes_of_symbol? read
    refine .reached reaches (.imp (block_finds env plain c q (named.rest opening)) ?_)
    rintro _ r ⟨ds, ss, greedy, passes⟩
    exact ⟨ds, ss, greedy, opening.trans passes⟩
  · rename_i refused
    refine .attempt (expect_gains plain.structural "\x7b" s) ?_
    rintro q - _ opening
    obtain ⟨tail, read, -⟩ := opening.symbol
    rw [refused] at read
    cases read
termination_by 8 * s.left + 5
decreasing_by all_goals omega

/-- Without errors a conditional has been read, behind its keyword. The `else` goes with the
innermost one. -/
theorem conditional_finds (env : Env) (plain : env.Plain) (c : Counters) (s : Tokens)
    (named : s.Named) :
    (conditional env c s).Finds fun _ r =>
      ∃ (t : Statement) (ks : List Token.Kind), t.tokens = .keyword "if" :: ks ∧
        t.greedy = true ∧ s.Passes ks r ∧
        (t.endsOpen = true → r.current.kind ≠ .keyword "else") := by
  rw [conditional]
  refine .attempt (condition_gains plain named) ?_
  rintro q left _ ⟨e, greedy, passes⟩
  refine .after (.bind (statement_finds env plain _ q (named.rest passes)) ?_)
  rintro r left' o ⟨t, greedy', passes', ends⟩
  have lead := passes.trans passes'
  split
  · rename_i refused
    refine .after (.pure ⟨.ifThen e t, _, rfl, by simp [Statement.greedy, greedy, greedy'], ?_, ?_⟩)
    · simpa using lead
    · exact fun _ => Tokens.current_ne_of_keyword? refused
  · rename_i p reaches shorter read
    have otherwise := Tokens.passes_of_keyword? read
    have lead' := lead.trans otherwise
    refine .after (.reached reaches (.bind (statement_finds env plain _ p (named.rest lead')) ?_))
    rintro r' - o' ⟨t', greedy'', passes'', ends'⟩
    have closed : t.endsOpen = false := by
      cases isOpen : t.endsOpen with
      | false => rfl
      | true => exact absurd otherwise.current_kind (ends isOpen)
    refine .after (.pure ⟨.ifElse e t t', _, rfl, ?_, ?_, ends'⟩)
    · simp [Statement.greedy, greedy, greedy', greedy'', closed]
    · simpa using lead'.trans passes''
termination_by 8 * s.left + 2
decreasing_by all_goals omega

/-- Without errors a loop has been read, behind its keyword. -/
theorem loop_finds (env : Env) (plain : env.Plain) (c : Counters) (s : Tokens)
    (named : s.Named) :
    (loop env c s).Finds fun _ r =>
      ∃ (t : Statement) (ks : List Token.Kind), t.tokens = .keyword "while" :: ks ∧
        t.greedy = true ∧ s.Passes ks r ∧
        (t.endsOpen = true → r.current.kind ≠ .keyword "else") := by
  rw [loop]
  refine .after (.attempt (condition_gains plain named) ?_)
  rintro q left _ ⟨e, greedy, passes⟩
  refine .after (.bind (statement_finds _ (plain.inLoop _) _ q (named.rest passes)) ?_)
  rintro r left' o ⟨t, greedy', passes', ends⟩
  refine .after (.pure ⟨.loop e t, _, rfl, by simp [Statement.greedy, greedy, greedy'], ?_, ends⟩)
  simpa using passes.trans passes'
termination_by 8 * s.left + 2
decreasing_by all_goals omega

end

/-- Without errors whole statements have been read, and nothing else. -/
theorem program_finds (env : Env) (plain : env.Plain) (c : Counters) (s : Tokens)
    (named : s.Named) :
    (program env c s).Finds fun _ r =>
      ∃ ss : Statements, ss.greedy = true ∧ s.Passes ss.tokens r := by
  rw [program]
  split
  · exact .pure ⟨.nil, rfl, .refl s⟩
  · refine .bindShorter _ (statement_finds env plain c s named) ?_
    rintro q shorter o ⟨t, greedy, passes, -⟩
    refine .imp (program_finds env plain o.counters q (named.rest passes)) ?_
    rintro _ r ⟨ss, greedy', passes'⟩
    exact ⟨.cons t ss, by simp [Statements.greedy, greedy, greedy'], passes.trans passes'⟩
termination_by s.left
decreasing_by all_goals omega

end Recognition

end OnePass
