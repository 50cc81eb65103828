import OnePass.Operator
import OnePass.Token.Lexeme
import OnePass.ValueType

/-!
# Program trees

The programs of the language as trees that follow the levels of the grammar, and the tokens of a
tree. A tree keeps its parentheses, so its tokens need no precedences.

Not every tree is read back from its tokens: an operator behind an expression is taken by the
innermost part that can take it, and so is an `else`. The trees that are read back are the *greedy*
ones. Which operators may follow a part of an expression is said by its *limit*: a symbol binds with
a certain strength, and it may follow only if that is no more than the limit.
-/

namespace OnePass

/-- Whether a text is read as a name: a word that is neither a keyword nor a truth value. -/
def isName (text : String) : Bool :=
  match text.toList with
  | [] => false
  | c :: cs =>
    Lexeme.startsWord c && cs.all Lexeme.continuesWord && Token.Kind.ofWord text = .ident text

structure Name where
  text : String
  valid : isName text = true
deriving DecidableEq

theorem Name.text_inj {x y : Name} : x.text = y.text ↔ x = y := by
  cases x
  cases y
  simp

/-- A literal, as it stands in the source or with a sign taken in. -/
inductive Literal where
  | int (value : Int32)
  | double (value : Double)
  | bool (value : Bool)
  | char (value : Char)
  | string (value : String)
deriving DecidableEq

/-- The token of a literal. -/
def Literal.kind : Literal → Token.Kind
  | int value => .int value
  | double value => .double value
  | bool value => .bool value
  | char value => .char value
  | string value => .string value

inductive TypeWord where
  | int | bool | char | string | double
deriving DecidableEq

/-- The type that a keyword names. -/
def TypeWord.type : TypeWord → ValueType
  | int => .int
  | bool => .bool
  | char => .char
  | string => .string
  | double => .double

def TypeWord.kind (w : TypeWord) : Token.Kind := .keyword w.type.text

inductive Step where
  | up | down
deriving DecidableEq

def Step.symbol : Step → String
  | up => "++"
  | down => "--"

inductive AssignSymbol where
  | set | add | sub | mul | div | rem
deriving DecidableEq

/-- The spelling in the source. -/
def AssignSymbol.symbol : AssignSymbol → String
  | set => "="
  | add => "+="
  | sub => "-="
  | mul => "*="
  | div => "/="
  | rem => "%="

def signSymbol (negative : Bool) : String := if negative then "-" else "+"

/-- How strongly a symbol binds what stands before it: comparisons least, then the operators of
sums and products, steps, and assignments. Everything else does not bind at all. -/
def Token.Kind.strength : Token.Kind → Nat
  | .symbol text =>
    if (Comparison.ofSymbol? text).isSome then 1
    else if (Additive.ofSymbol? text).isSome then 2
    else if (Multiplicative.ofSymbol? text).isSome then 3
    else if (Additive.ofStep? text).isSome then 4
    else if (Assignment.ofSymbol? text).isSome then 5
    else 0
  | _ => 0

namespace Tree

/-! ## Expressions -/

mutual

/-- At most one comparison. -/
inductive Expression where
  | sum (a : Sum)
  | compare (lhs : Sum) (op : Comparison) (rhs : Sum)

/-- Terms, and a sign that belongs to the first of them. -/
inductive Sum where
  | mk (negative : Option Bool) (first : Product) (rest : Terms)

inductive Terms where
  | nil
  | cons (op : Additive) (term : Product) (rest : Terms)

inductive Product where
  | mk (first : Factor) (rest : Factors)

inductive Factors where
  | nil
  | cons (op : Multiplicative) (factor : Factor) (rest : Factors)

/-- A primary with at most one operator. -/
inductive Factor where
  | stepBefore (step : Step) (p : Primary)
  | unary (op : Unary) (p : Primary)
  | plain (p : Primary)
  | stepBehind (p : Primary) (step : Step)

/-- An operand. -/
inductive Primary where
  | literal (l : Literal)
  | name (x : Name)
  | assign (x : Name) (op : AssignSymbol) (value : Expression)
  | call (f : Name) (argument : Expression)
  | signed (negative : Bool) (p : Primary)
  | parens (e : Expression)

end

def signTokens : Option Bool → List Token.Kind
  | none => []
  | some negative => [.symbol (signSymbol negative)]

mutual

def Expression.tokens : Expression → List Token.Kind
  | .sum a => a.tokens
  | .compare lhs op rhs => lhs.tokens ++ .symbol op.symbol :: rhs.tokens

def Sum.tokens : Sum → List Token.Kind
  | .mk negative first rest => signTokens negative ++ (first.tokens ++ rest.tokens)

/-- The tokens of terms, each behind its operator. -/
def Terms.tokens : Terms → List Token.Kind
  | .nil => []
  | .cons op term rest => .symbol op.symbol :: (term.tokens ++ rest.tokens)

def Product.tokens : Product → List Token.Kind
  | .mk first rest => first.tokens ++ rest.tokens

/-- The tokens of factors, each behind its operator. -/
def Factors.tokens : Factors → List Token.Kind
  | .nil => []
  | .cons op factor rest => .symbol op.symbol :: (factor.tokens ++ rest.tokens)

/-- The tokens of a factor. -/
def Factor.tokens : Factor → List Token.Kind
  | .stepBefore step p => .symbol step.symbol :: p.tokens
  | .unary op p => .symbol op.symbol :: p.tokens
  | .plain p => p.tokens
  | .stepBehind p step => p.tokens ++ [.symbol step.symbol]

/-- The tokens of an operand. -/
def Primary.tokens : Primary → List Token.Kind
  | .literal l => [l.kind]
  | .name x => [.ident x.text]
  | .assign x op value => .ident x.text :: .symbol op.symbol :: value.tokens
  | .call f argument => .ident f.text :: .symbol "(" :: (argument.tokens ++ [.symbol ")"])
  | .signed negative p => .symbol (signSymbol negative) :: p.tokens
  | .parens e => .symbol "(" :: (e.tokens ++ [.symbol ")"])

end

/-! ## Greedy expressions -/

mutual

/-- The strength up to which a symbol may follow. A second comparison is no part of an expression;
if there is none yet, the expression would take it. -/
def Expression.limit : Expression → Nat
  | .sum _ => 0
  | .compare _ _ rhs => rhs.limit

/-- A sum takes further terms. -/
def Sum.limit : Sum → Nat
  | .mk _ first rest => min 1 (rest.limit first.limit)

/-- What may follow the last of some terms, given what may follow the one before them. -/
def Terms.limit : Terms → Nat → Nat
  | .nil, n => n
  | .cons _ term rest, _ => rest.limit term.limit

/-- A product takes further factors. -/
def Product.limit : Product → Nat
  | .mk first rest => min 2 (rest.limit first.limit)

/-- What may follow the last of some factors, given what may follow the one before them. -/
def Factors.limit : Factors → Nat → Nat
  | .nil, n => n
  | .cons _ factor rest, _ => rest.limit factor.limit

/-- A primary without an operator takes a step. -/
def Factor.limit : Factor → Nat
  | .stepBefore _ p => p.limit
  | .unary _ p => p.limit
  | .plain p => min 3 p.limit
  | .stepBehind _ _ => 5

/-- A name takes an assignment, and an assignment all that its value takes. -/
def Primary.limit : Primary → Nat
  | .literal _ => 5
  | .name _ => 4
  | .assign _ _ value => value.limit
  | .call _ _ => 5
  | .signed _ p => p.limit
  | .parens _ => 5

end

def Primary.isSigned : Primary → Bool
  | .signed _ _ => true
  | _ => false

def Primary.isNegated : Primary → Bool
  | .signed negative _ => negative
  | _ => false

/-- Whether a factor begins with a sign. -/
def Factor.isSigned : Factor → Bool
  | .stepBefore _ _ => false
  | .unary op _ => op = .neg
  | .plain p => p.isSigned
  | .stepBehind p _ => p.isSigned

def Product.isSigned : Product → Bool
  | .mk first _ => first.isSigned

mutual

/-- Whether an expression is read back from its tokens. -/
def Expression.greedy : Expression → Bool
  | .sum a => a.greedy
  | .compare lhs _ rhs => lhs.greedy && 1 ≤ lhs.limit && rhs.greedy

/-- A sign in front belongs to the sum. -/
def Sum.greedy : Sum → Bool
  | .mk negative first rest =>
    (negative.isSome || !first.isSigned) && first.greedy && rest.greedy first.limit

/-- Terms, given what may follow the one before them. -/
def Terms.greedy : Terms → Nat → Bool
  | .nil, _ => true
  | .cons _ term rest, n => 2 ≤ n && term.greedy && rest.greedy term.limit

/-- Every operator may stand where it does. -/
def Product.greedy : Product → Bool
  | .mk first rest => first.greedy && rest.greedy first.limit

/-- Factors, given what may follow the one before them. -/
def Factors.greedy : Factors → Nat → Bool
  | .nil, _ => true
  | .cons _ factor rest, n => 3 ≤ n && factor.greedy && rest.greedy factor.limit

/-- A minus in front is the unary operator. -/
def Factor.greedy : Factor → Bool
  | .stepBefore _ p => p.greedy
  | .unary _ p => p.greedy
  | .plain p => !p.isNegated && p.greedy
  | .stepBehind p _ => !p.isNegated && p.greedy && 4 ≤ p.limit

/-- The parts of an operand. -/
def Primary.greedy : Primary → Bool
  | .literal _ => true
  | .name _ => true
  | .assign _ _ value => value.greedy
  | .call _ argument => argument.greedy
  | .signed _ p => p.greedy
  | .parens e => e.greedy

end

/-! ## Statements -/

mutual

/-- A statement. -/
inductive Statement where
  | block (ds : Declarations) (ss : Statements)
  | ifThen (condition : Expression) (s : Statement)
  | ifElse (condition : Expression) (s t : Statement)
  | loop (condition : Expression) (s : Statement)
  | exit
  | next
  | ret (value : Option Expression)
  | empty
  | eval (e : Expression)

inductive Statements where
  | nil
  | cons (first : Statement) (rest : Statements)

inductive Declarations where
  | nil
  | cons (first : Declaration) (rest : Declarations)

/-- A variable, or a function with its parameter and its block. -/
inductive Declaration where
  | var (type : TypeWord) (x : Name)
  | function (ret : TypeWord) (f : Name) (type : TypeWord) (x : Name) (ds : Declarations)
    (ss : Statements)

end

mutual

/-- The tokens of a statement. -/
def Statement.tokens : Statement → List Token.Kind
  | .block ds ss => .symbol "\x7b" :: (ds.tokens ++ (ss.tokens ++ [.symbol "\x7d"]))
  | .ifThen e s => .keyword "if" :: .symbol "(" :: (e.tokens ++ .symbol ")" :: s.tokens)
  | .ifElse e s t =>
    .keyword "if" :: .symbol "(" ::
      (e.tokens ++ .symbol ")" :: (s.tokens ++ .keyword "else" :: t.tokens))
  | .loop e s => .keyword "while" :: .symbol "(" :: (e.tokens ++ .symbol ")" :: s.tokens)
  | .exit => [.keyword "break", .symbol ";"]
  | .next => [.keyword "continue", .symbol ";"]
  | .ret none => [.keyword "return", .symbol ";"]
  | .ret (some e) => .keyword "return" :: (e.tokens ++ [.symbol ";"])
  | .empty => [.symbol ";"]
  | .eval e => e.tokens ++ [.symbol ";"]

def Statements.tokens : Statements → List Token.Kind
  | .nil => []
  | .cons first rest => first.tokens ++ rest.tokens

def Declarations.tokens : Declarations → List Token.Kind
  | .nil => []
  | .cons first rest => first.tokens ++ rest.tokens

/-- The tokens of a declaration. -/
def Declaration.tokens : Declaration → List Token.Kind
  | .var type x => [type.kind, .ident x.text, .symbol ";"]
  | .function ret f type x ds ss =>
    ret.kind :: .ident f.text :: .symbol "(" :: type.kind :: .ident x.text :: .symbol ")" ::
      .symbol "\x7b" :: (ds.tokens ++ (ss.tokens ++ [.symbol "\x7d"]))

end

/-- Whether a statement ends with a conditional that could take an `else`. -/
def Statement.endsOpen : Statement → Bool
  | .ifThen _ _ => true
  | .ifElse _ _ t => t.endsOpen
  | .loop _ s => s.endsOpen
  | _ => false

mutual

/-- Whether a statement is read back from its tokens. -/
def Statement.greedy : Statement → Bool
  | .block ds ss => ds.greedy && ss.greedy
  | .ifThen e s => e.greedy && s.greedy
  | .ifElse e s t => e.greedy && s.greedy && !s.endsOpen && t.greedy
  | .loop e s => e.greedy && s.greedy
  | .exit => true
  | .next => true
  | .ret none => true
  | .ret (some e) => e.greedy
  | .empty => true
  | .eval e => e.greedy

/-- Whether statements are read back from their tokens. -/
def Statements.greedy : Statements → Bool
  | .nil => true
  | .cons first rest => first.greedy && rest.greedy

/-- Whether declarations are read back from their tokens. -/
def Declarations.greedy : Declarations → Bool
  | .nil => true
  | .cons first rest => first.greedy && rest.greedy

/-- Whether a declaration is read back from its tokens. -/
def Declaration.greedy : Declaration → Bool
  | .var _ _ => true
  | .function _ _ _ _ ds ss => ds.greedy && ss.greedy

end

end Tree

end OnePass
