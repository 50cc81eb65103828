import OnePass.Proofs.Recognition.Source

/-!
# The grammar

The rules of the language as they are usually written down, with choices, options and repetitions,
and what they derive. The rules are data of their own and know nothing of the productions.

A program that is accepted is derived from its rules token by token: recovery drops tokens without a
trace, but never without an error, so in an accepted program none is dropped. The derivation is that
of the tree which the productions have recognized.
-/

namespace OnePass

namespace Grammar

/-- The phrases that have a rule. -/
inductive Phrase where
  | program | statement | compound | declaration
  | expression | additive | multiplicative | simple | primary

/-- What may stand on the right side of a rule. -/
inductive Form where
  | symbol (texts : List String)
  | keyword (words : List String)
  | name
  | literal
  | phrase (p : Phrase)
  | seq (f g : Form)
  | choice (fs : List Form)
  | optional (f : Form)
  | many (f : Form)

instance : Append Form := ⟨.seq⟩

namespace Form

def typeWord : Form := keyword ["int", "bool", "char", "string", "double"]

def sign : Form := symbol ["+", "-"]

/-- An operator between the two sides of a comparison. -/
def relation : Form := symbol ["<", "<=", "==", "!=", ">=", ">"]

def termOperator : Form := symbol ["+", "-", "|", "||"]

def factorOperator : Form := symbol ["*", "/", "%", "&", "&&"]

def unaryOperator : Form := symbol ["-", "~", "!"]

def step : Form := symbol ["++", "--"]

/-- An operator behind the target of an assignment. -/
def assignment : Form := symbol ["=", "+=", "-=", "*=", "/=", "%="]

def parenthesized : Form := symbol ["("] ++ phrase .expression ++ symbol [")"]

end Form

open Form in
/-- The right side of the rule of a phrase. -/
def Phrase.rule : Phrase → Form
  | program => many (phrase .statement)
  | statement => choice [
      phrase .compound,
      keyword ["if"] ++ parenthesized ++ phrase .statement ++
        optional (keyword ["else"] ++ phrase .statement),
      keyword ["while"] ++ parenthesized ++ phrase .statement,
      keyword ["break", "continue"] ++ symbol [";"],
      keyword ["return"] ++ optional (phrase .expression) ++ symbol [";"],
      optional (phrase .expression) ++ symbol [";"]]
  | compound =>
    symbol ["\x7b"] ++ many (phrase .declaration) ++ many (phrase .statement) ++ symbol ["\x7d"]
  | declaration => choice [
      typeWord ++ name ++ symbol [";"],
      typeWord ++ name ++ symbol ["("] ++ typeWord ++ name ++ symbol [")"] ++ phrase .compound]
  | expression => phrase .additive ++ optional (relation ++ phrase .additive)
  | additive =>
    optional sign ++ phrase .multiplicative ++ many (termOperator ++ phrase .multiplicative)
  | multiplicative => phrase .simple ++ many (factorOperator ++ phrase .simple)
  | simple => choice [
      step ++ phrase .primary,
      unaryOperator ++ phrase .primary,
      phrase .primary ++ optional step]
  | primary => choice [
      literal,
      name,
      name ++ assignment ++ phrase .expression,
      name ++ parenthesized,
      sign ++ phrase .primary,
      parenthesized]

/-- The tokens that a form derives. -/
inductive Derives : Form → List Token.Kind → Prop
  | symbol {text : String} {texts : List String} (h : text ∈ texts) :
    Derives (.symbol texts) [.symbol text]
  | keyword {word : String} {words : List String} (h : word ∈ words) :
    Derives (.keyword words) [.keyword word]
  | name (x : String) : Derives .name [.ident x]
  | literal (l : Literal) : Derives .literal [l.kind]
  | phrase {p : Phrase} {ks : List Token.Kind} (h : Derives p.rule ks) : Derives (.phrase p) ks
  | seq {f g : Form} {ks ls : List Token.Kind} (hf : Derives f ks) (hg : Derives g ls) :
    Derives (.seq f g) (ks ++ ls)
  | choice {f : Form} {fs : List Form} {ks : List Token.Kind} (i : Nat) (hi : fs[i]? = some f)
    (h : Derives f ks) : Derives (.choice fs) ks
  | none {f : Form} : Derives (.optional f) []
  | some {f : Form} {ks : List Token.Kind} (h : Derives f ks) : Derives (.optional f) ks
  | nil {f : Form} : Derives (.many f) []
  | cons {f : Form} {ks ls : List Token.Kind} (h : Derives f ks) (hs : Derives (.many f) ls) :
    Derives (.many f) (ks ++ ls)

namespace Derives

variable {f g : Form} {ks ls : List Token.Kind}

theorem of_eq (h : Derives f ks) (e : ks = ls) : Derives f ls := e ▸ h

theorem append (hf : Derives f ks) (hg : Derives g ls) : Derives (f ++ g) (ks ++ ls) := .seq hf hg

theorem symbol_self (text : String) : Derives (.symbol [text]) [.symbol text] :=
  .symbol List.mem_cons_self

theorem keyword_self (word : String) : Derives (.keyword [word]) [.keyword word] :=
  .keyword List.mem_cons_self

theorem typeWord (w : TypeWord) : Derives Form.typeWord [w.kind] :=
  .keyword (by cases w <;> decide)

theorem sign (negative : Bool) : Derives Form.sign [.symbol (signSymbol negative)] :=
  .symbol (by cases negative <;> decide)

theorem relation (op : Comparison) : Derives Form.relation [.symbol op.symbol] :=
  .symbol (by cases op <;> decide)

theorem termOperator (op : Additive) : Derives Form.termOperator [.symbol op.symbol] :=
  .symbol (by cases op <;> decide)

theorem factorOperator (op : Multiplicative) : Derives Form.factorOperator [.symbol op.symbol] :=
  .symbol (by cases op <;> decide)

theorem unaryOperator (op : Unary) : Derives Form.unaryOperator [.symbol op.symbol] :=
  .symbol (by cases op <;> decide)

theorem step (s : Step) : Derives Form.step [.symbol s.symbol] :=
  .symbol (by cases s <;> decide)

theorem assignment (op : AssignSymbol) : Derives Form.assignment [.symbol op.symbol] :=
  .symbol (by cases op <;> decide)

/-- An expression in parentheses. -/
theorem parenthesized (h : Derives (.phrase .expression) ks) :
    Derives Form.parenthesized (.symbol "(" :: (ks ++ [.symbol ")"])) :=
  (((symbol_self "(").append h).append (symbol_self ")")).of_eq (by simp)

/-- A block is made of declarations and then statements. -/
theorem compound (declarations : Derives (.many (.phrase .declaration)) ks)
    (statements : Derives (.many (.phrase .statement)) ls) :
    Derives (.phrase .compound) (.symbol "\x7b" :: (ks ++ (ls ++ [.symbol "\x7d"]))) :=
  .phrase (((((symbol_self "\x7b").append declarations).append statements).append
    (symbol_self "\x7d")).of_eq (by simp))

end Derives

end Grammar

/-! ## The tokens of a tree -/

namespace Tree

open Grammar

mutual

/-- **Every tree spells a phrase of the grammar**, by the rule that its constructor stands for. -/
theorem Expression.derives : (e : Expression) → Derives (.phrase .expression) e.tokens
  | .sum a => .phrase ((a.derives.append .none).of_eq (by simp [Expression.tokens]))
  | .compare lhs op rhs =>
    .phrase (lhs.derives.append (.some ((Derives.relation op).append rhs.derives)))

theorem Sum.derives : (a : Sum) → Derives (.phrase .additive) a.tokens
  | .mk negative first rest => by
    have sign : Derives (.optional Form.sign) (signTokens negative) := by
      cases negative with
      | none => exact .none
      | some negative => exact .some (.sign negative)
    exact .phrase (((sign.append first.derives).append rest.derives).of_eq (by simp [Sum.tokens]))

theorem Terms.derives : (ts : Terms) →
    Derives (.many (Form.termOperator ++ .phrase .multiplicative)) ts.tokens
  | .nil => .nil
  | .cons op term rest => .cons ((Derives.termOperator op).append term.derives) rest.derives

theorem Product.derives : (p : Product) → Derives (.phrase .multiplicative) p.tokens
  | .mk first rest => .phrase (first.derives.append rest.derives)

theorem Factors.derives : (fs : Factors) →
    Derives (.many (Form.factorOperator ++ .phrase .simple)) fs.tokens
  | .nil => .nil
  | .cons op factor rest => .cons ((Derives.factorOperator op).append factor.derives) rest.derives

theorem Factor.derives : (f : Factor) → Derives (.phrase .simple) f.tokens
  | .stepBefore step p => .phrase (.choice 0 rfl ((Derives.step step).append p.derives))
  | .unary op p => .phrase (.choice 1 rfl ((Derives.unaryOperator op).append p.derives))
  | .plain p => .phrase (.choice 2 rfl ((p.derives.append .none).of_eq (by simp [Factor.tokens])))
  | .stepBehind p step => .phrase (.choice 2 rfl (p.derives.append (.some (.step step))))

theorem Primary.derives : (p : Primary) → Derives (.phrase .primary) p.tokens
  | .literal l => .phrase (.choice 0 rfl (.literal l))
  | .name x => .phrase (.choice 1 rfl (.name x.text))
  | .assign x op value =>
    .phrase (.choice 2 rfl (((Derives.name x.text).append (.assignment op)).append value.derives))
  | .call f argument =>
    .phrase (.choice 3 rfl ((Derives.name f.text).append (.parenthesized argument.derives)))
  | .signed negative p => .phrase (.choice 4 rfl ((Derives.sign negative).append p.derives))
  | .parens e => .phrase (.choice 5 rfl (.parenthesized e.derives))

end

mutual

/-- The same for statements, with the declarations in their blocks. -/
theorem Statement.derives : (s : Statement) → Derives (.phrase .statement) s.tokens
  | .block ds ss => .phrase (.choice 0 rfl (.compound ds.derives ss.derives))
  | .ifThen e s => by
    have lead := (Derives.keyword_self "if").append (.parenthesized e.derives)
    exact .phrase (.choice 1 rfl
      (((lead.append s.derives).append .none).of_eq (by simp [Statement.tokens])))
  | .ifElse e s t => by
    have lead := (Derives.keyword_self "if").append (.parenthesized e.derives)
    have otherwise := (Derives.keyword_self "else").append t.derives
    exact .phrase (.choice 1 rfl
      (((lead.append s.derives).append (.some otherwise)).of_eq (by simp [Statement.tokens])))
  | .loop e s => by
    have lead := (Derives.keyword_self "while").append (.parenthesized e.derives)
    exact .phrase (.choice 2 rfl ((lead.append s.derives).of_eq (by simp [Statement.tokens])))
  | .exit => .phrase (.choice 3 rfl (.append (.keyword (by decide)) (.symbol_self ";")))
  | .next => .phrase (.choice 3 rfl (.append (.keyword (by decide)) (.symbol_self ";")))
  | .ret none =>
    .phrase (.choice 4 rfl (((Derives.keyword_self "return").append .none).append
      (.symbol_self ";")))
  | .ret (some e) =>
    .phrase (.choice 4 rfl (((Derives.keyword_self "return").append (.some e.derives)).append
      (.symbol_self ";")))
  | .empty => .phrase (.choice 5 rfl (.append .none (.symbol_self ";")))
  | .eval e => .phrase (.choice 5 rfl (.append (.some e.derives) (.symbol_self ";")))

theorem Statements.derives : (ss : Statements) → Derives (.many (.phrase .statement)) ss.tokens
  | .nil => .nil
  | .cons first rest => .cons first.derives rest.derives

theorem Declarations.derives : (ds : Declarations) →
    Derives (.many (.phrase .declaration)) ds.tokens
  | .nil => .nil
  | .cons first rest => .cons first.derives rest.derives

theorem Declaration.derives : (d : Declaration) → Derives (.phrase .declaration) d.tokens
  | .var type x =>
    .phrase (.choice 0 rfl
      (((Derives.typeWord type).append (.name x.text)).append (.symbol_self ";")))
  | .function ret f type x ds ss => by
    have head := ((Derives.typeWord ret).append (.name f.text)).append (.symbol_self "(")
    have parameter := ((head.append (.typeWord type)).append (.name x.text)).append
      (.symbol_self ")")
    exact .phrase (.choice 1 rfl (parameter.append (.compound ds.derives ss.derives)))

end

end Tree

/-! ## Accepted programs -/

/-- Some source text holds a token of this kind. -/
def Token.Kind.Scannable (k : Token.Kind) : Prop :=
  ∃ source ts, scan source = .ok ts ∧ ∃ t ∈ ts, t.kind = k

/-- Whatever is scanned as an identifier is spelled like one. -/
theorem Token.Kind.Scannable.isName {k : Token.Kind} (h : k.Scannable) {name : String}
    (ident : k = .ident name) : OnePass.isName name = true := by
  obtain ⟨source, ts, scanned, t, mem, rfl⟩ := h
  obtain ⟨front, last, rfl, proper⟩ := scanFrom_proper scanned
  rcases List.mem_append.1 mem with mem | mem
  · exact (proper t mem).2 name ident
  · obtain rfl := List.mem_singleton.1 mem
    cases ident

/-- **Accepted programs follow the grammar**: of all tokens that a source text can hold, in whatever
order, those before the first end of input are derived from the rules if the list is accepted. -/
theorem derives_of_accepted (ts : List Token) (scannable : ∀ t ∈ ts, t.kind.Scannable)
    (accepted : (Pass.run .error {} (.ofList ts)).accepted = true) :
    Grammar.Derives (.phrase .program) ((ts.takeWhile (!·.isEof)).map Token.kind) := by
  rw [Pass.accepted_iff] at accepted
  obtain ⟨clean, atEnd⟩ := accepted
  have named : (Tokens.ofList ts).Named := fun t mem _ =>
    (scannable t ((Tokens.front_ofList_sublist ts).subset mem)).isName
  obtain ⟨p, -, passed, split, kinds, -⟩ := program_finds _ plain_fresh {} (.ofList ts) named
    (fun faulty => clean (Faulty.right faulty _))
  have reaches := (program { scopes := Scopes.fresh } {} (.ofList ts)).reaches
  rw [← Tokens.takeWhile_ofList, reaches.takeWhile_eq atEnd split, kinds]
  exact .phrase p.derives

/-- A source text with every kind of statement. -/
def mixedSource : String :=
  "\x7b int x; int twice(int n) \x7b return n + n; \x7d while (x < 3) \x7b x += -twice(x++); " ++
    "if (!(x == 2)) continue; else break; \x7d ; \x7d"

/-- Whether the tokens of a source text are accepted if they come twice, with an end of input in
between. -/
def acceptsTwice (source : String) : Bool :=
  match scan source with
  | .ok ts => (Pass.run .error {} (.ofList (ts ++ ts))).accepted
  | .error _ => false

theorem derives_of_accepted_mixed :
    ∃ ts, scan mixedSource = .ok ts ∧ (∀ t ∈ ts ++ ts, t.kind.Scannable) ∧
      Grammar.Derives (.phrase .program) (((ts ++ ts).takeWhile (!·.isEof)).map Token.kind) := by
  have accepts : acceptsTwice mixedSource = true := by decide +kernel
  unfold acceptsTwice at accepts
  split at accepts
  · rename_i ts scanned
    have scannable : ∀ t ∈ ts ++ ts, t.kind.Scannable := by
      intro t mem
      exact ⟨mixedSource, ts, scanned, t, by simpa using mem, rfl⟩
    exact ⟨ts, scanned, scannable, derives_of_accepted (ts ++ ts) scannable accepts⟩
  · cases accepts

end OnePass
