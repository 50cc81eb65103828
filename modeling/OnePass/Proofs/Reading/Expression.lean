import OnePass.Proofs.Lookahead
import OnePass.Proofs.Matching
import OnePass.Proofs.Verdict

/-!
# Reading expressions

Where the tokens of a greedy expression come next, the productions of expressions read exactly these
tokens. If the expression keeps the rules of scope and type, its type is yielded and its code added;
if it does not, the attempt comes to an error.

The one detour is a variable in the place of a function: it is read as a variable, so the error
comes only when the parenthesis behind it turns out to be out of place.
-/

namespace OnePass

/-! ## Typing rules -/

theorem ValueType.value?_promote (symbol : String) (lhs rhs : ValueType) :
    (promote symbol lhs rhs).value? = (arithmetic? lhs rhs).map Agreement.type := by
  unfold promote
  rcases arithmetic? lhs rhs with _ | ⟨_ | _⟩ <;> rfl

theorem ValueType.isSome_allow (destination : Destination) (expected given : ValueType) :
    (allow destination expected given).value?.isSome = expected.admits given := by
  unfold allow admits
  rcases accept? expected given with _ | ⟨_ | _⟩ <;> rfl

/-- An operation with its instruction in place of its name. -/
def withInstruction (x : ValueType × Binary) : ValueType × Instruction := (x.1, x.2.instruction)

theorem Additive.value?_judge (op : Additive) (lhs rhs : ValueType) :
    (op.judge lhs rhs).value? = (op.result? lhs rhs).map withInstruction := by
  unfold judge result?
  split
  · split <;> rfl
  · split
    · split <;> rfl
    · rw [Judgement.value?_map, ValueType.value?_promote, Option.map_map, Option.map_map]
      rfl

theorem Multiplicative.value?_judge (op : Multiplicative) (lhs rhs : ValueType) :
    (op.judge lhs rhs).value? = (op.result? lhs rhs).map withInstruction := by
  unfold judge result?
  split
  · split <;> rfl
  · rw [Judgement.value?_map, ValueType.value?_promote, Option.map_map, Option.map_map]
    rfl

/-- The code of the value that a compound assignment stores: the old value, the operand, and the
operator. -/
theorem AssignSymbol.value?_judge (op : AssignSymbol) (type : ValueType) (slot : Nat)
    (value : ValueType × Term) :
    match op.stored? type slot value with
    | none => (op.assignment.judge type value.1).value? = none
    | some (result, t) => ∃ code, (op.assignment.judge type value.1).value? = some (result, code) ∧
        t.code = op.assignment.preload slot ++ value.2.code ++ code := by
  have compound (result? : Option (ValueType × Binary)) :
      match result?.map fun x => (x.1, Term.binary x.2 (.load slot) value.2) with
      | none => (result?.map withInstruction).map (fun x => (x.1, [x.2])) = none
      | some (result, t) => ∃ code,
          (result?.map withInstruction).map (fun x => (x.1, [x.2])) = some (result, code) ∧
          t.code = [.load slot] ++ value.2.code ++ code := by
    cases result? with
    | none => rfl
    | some x => exact ⟨[x.2.instruction], rfl, by simp [Term.code]⟩
  cases op with
  | set => exact ⟨[], rfl, by simp [assignment, Assignment.preload]⟩
  | add | sub =>
    simp only [assignment, Assignment.judge, Judgement.value?_map, Additive.value?_judge]
    exact compound _
  | mul | div | rem =>
    simp only [assignment, Assignment.judge, Judgement.value?_map, Multiplicative.value?_judge]
    exact compound _

/-! ## Names -/

namespace Context

variable {ctx : Context} {x : Name}

theorem find?_of_slot? {type : ValueType} {slot : Nat} (h : ctx.slot? x = some (type, slot)) :
    ctx.find? x = some (.slot type slot ctx.frame) := by
  unfold slot? at h
  split at h
  · split at h
    · cases h
      simp_all
    · cases h
  · cases h

theorem find?_of_function? {link : String} {signature : Signature}
    (h : ctx.function? x = some (link, signature)) :
    ctx.find? x = some (.function link signature) := by
  unfold function? at h
  split at h
  · cases h
    assumption
  · cases h

end Context

section Named

variable {env : Env} {ctx : Context} {s : Tokens} {x : Name}

/-- A name that is no variable of the innermost function, where a variable is expected. -/
theorem named_halts_of_slot? (m : env.Matches ctx) (h : ctx.slot? x = none)
    (next : s.current.kind ≠ .symbol "(") (pos : Position) : (named env x.text pos s).Halts := by
  rw [named, m.find?_eq]
  cases found : ctx.find? x with
  | none => exact .fail _ _
  | some e =>
    cases e with
    | slot type slot frame =>
      have foreign : frame ≠ env.frame := by
        intro same
        simp [Context.slot?, found, same, m.frame_eq] at h
      simp only [Option.map_some, Entity.meaning, if_pos foreign]
      exact .fail _ _
    | function link signature =>
      simp only [Option.map_some, Entity.meaning, Tokens.symbol?_eq_none next]
      exact .fail _ _

/-- A name that is no function, where a function is expected. A variable is read all the same. -/
theorem named_halts_of_function? (m : env.Matches ctx) (h : ctx.function? x = none)
    (next : s.current.kind = .symbol "(") (pos : Position) : (named env x.text pos s).Halts := by
  rw [named, m.find?_eq]
  cases found : ctx.find? x with
  | none => exact .fail _ _
  | some e =>
    cases e with
    | slot type slot frame =>
      have weak : s.current.kind.strength ≤ 4 := by rw [next]; decide
      simp only [Option.map_some, Entity.meaning, Tokens.no_assignment weak]
      split
      · exact .fail _ _
      · exact .emit next
    | function link signature => simp [Context.function?, found] at h

theorem named_of_slot? (m : env.Matches ctx) {type : ValueType} {slot : Nat}
    (h : ctx.slot? x = some (type, slot)) :
    (env.scopes.find? x.text).map Symbol.meaning = some (.localVar type slot env.frame) := by
  rw [m.find?_eq, Context.find?_of_slot? h, m.frame_eq]
  rfl

theorem named_of_function? (m : env.Matches ctx) {link : String} {signature : Signature}
    (h : ctx.function? x = some (link, signature)) :
    (env.scopes.find? x.text).map Symbol.meaning = some (.function link signature) := by
  rw [m.find?_eq, Context.find?_of_function? h]
  rfl

end Named

/-! ## Before an opening parenthesis -/

section Stuck

variable {env : Env} {s : Tokens} {type : ValueType}

theorem additiveRest_halts (stuck : s.current.kind = .symbol "(") :
    (additiveRest env type s).Halts := by
  rw [additiveRest, Tokens.no_additive (by rw [stuck]; decide)]
  exact .ok stuck

theorem multiplicativeRest_halts (stuck : s.current.kind = .symbol "(") :
    (multiplicativeRest env type s).Halts := by
  rw [multiplicativeRest, Tokens.no_multiplicative (by rw [stuck]; decide)]
  exact .ok stuck

end Stuck

/-! ## Signs -/

namespace Tree

/-- A number behind a sign is known by its token. -/
theorem Primary.signedLiteral?_head (negative : Bool) (p : Primary) :
    p.head.signedLiteral? negative =
      (p.number? negative).map fun l => (l.type, l.instruction) := by
  cases p with
  | literal l => cases l <;> rfl
  | _ => rfl

end Tree

theorem Operand.place_of_steppable? {x : Operand} {slot : Nat} (h : x.steppable? = some slot) :
    x.place = some slot := by
  unfold steppable? at h
  split at h
  · exact h
  · cases h

namespace Tree

/-- A sign that is a part of a number, or is applied to anything else. -/
theorem Primary.withSign_eq (negative : Bool) (p : Primary) (x : Operand × Term) :
    (∃ l, p.number? negative = some l ∧ p.withSign negative x = (⟨l.type, none⟩, .literal l)) ∨
    (p.number? negative = none ∧ p.withSign negative x =
      if negative then (⟨x.1.type, none⟩, .unary .neg x.2) else x) := by
  unfold withSign
  cases number : p.number? negative with
  | none => exact .inr ⟨rfl, rfl⟩
  | some l => exact .inl ⟨l, rfl, rfl⟩

/-- What can be stepped was loaded from its slot. -/
theorem Primary.eq_load {ctx : Context} : ∀ {p : Primary} {x : Operand} {t : Term} {slot : Nat},
    p.resolve? ctx = some (x, t) → x.place = some slot → t = .load slot
  | .literal _, x, t, slot, h, place => by
    cases h
    cases place
  | .name y, x, t, slot, h, place => by
    obtain ⟨⟨type, slot'⟩, -, e⟩ := Option.map_eq_some_iff.1 h
    cases e
    cases place
    rfl
  | .assign .., x, t, slot, h, place => by
    simp only [Primary.resolve?, Option.bind_eq_some_iff, Option.ite_none_right_eq_some] at h
    obtain ⟨_, _, _, _, _, _, _, e⟩ := h
    cases e
    cases place
  | .call .., x, t, slot, h, place => by
    simp only [Primary.resolve?, Option.bind_eq_some_iff, Option.ite_none_right_eq_some] at h
    obtain ⟨_, _, _, _, _, e⟩ := h
    cases e
    cases place
  | .signed negative p, x, t, slot, h, place => by
    obtain ⟨y, resolved, e⟩ := Option.map_eq_some_iff.1 h
    rcases p.withSign_eq negative y with ⟨l, -, e'⟩ | ⟨-, e'⟩
    · rw [e'] at e
      cases e
      cases place
    · rw [e'] at e
      cases negative with
      | true =>
        cases e
        cases place
      | false =>
        obtain rfl : y = (x, t) := e
        exact Primary.eq_load resolved place
  | .parens _, x, t, slot, h, place => by
    obtain ⟨y, -, e⟩ := Option.map_eq_some_iff.1 h
    cases e
    cases place

end Tree

/-- A sign and what follows it, given how the operand itself is read. -/
theorem signed_reads {env : Env} {ctx : Context} {s r : Tokens} {p : Tree.Primary}
    (negative : Bool) (passes : s.Passes p.tokens r)
    (hp : (primary env s).Reads [] (p.resolve? ctx) r) :
    (signed env negative s).Reads [] ((p.resolve? ctx).map (p.withSign negative)) r := by
  obtain ⟨ks, e⟩ := p.tokens_eq
  have ne_eof : p.head ≠ .eof := by
    intro eof
    have := p.startsExpression_head
    rw [eof] at this
    cases this
  obtain ⟨⟨kind, pos⟩, ⟨q, reaches, shorter⟩, read, rfl, rest⟩ := (e ▸ passes).uncons ne_eof
  rw [signed]
  simp only [read, Option.bind_some, p.signedLiteral?_head]
  cases number : p.number? negative with
  | some l =>
    -- Only a literal is a number, so its token is all there is.
    cases p with
    | literal l' =>
      obtain rfl : [] = ks := (List.cons.inj e).2
      obtain rfl := rest.eq_of_nil
      simp only [Option.map_some, Tree.Primary.resolve?, Tree.Primary.withSign, number]
      exact .reached (.emit rfl)
    | _ => cases number
  | none =>
    simp only [Option.map_none]
    refine .andThen hp ?_ ?_ ?_
    · intro unresolved
      rw [unresolved]
      rfl
    · intro q h x stuck
      split
      · exact .emit stuck
      · exact .ok stuck
    · intro x t resolved h
      simp only [resolved, Option.map_some, Tree.Primary.withSign, number]
      cases negative with
      | true => exact .emit rfl
      | false => exact .ok rfl

/-- A variable to which a value is assigned, given how the value is read. -/
theorem named_reads_assign {env : Env} {ctx : Context} (m : env.Matches ctx) {s r : Tokens}
    {x : Name} {op : AssignSymbol} {value : Tree.Expression} (pos : Position)
    (passes : s.Passes (.symbol op.symbol :: value.tokens) r)
    (hv : ∀ {q : Tokens}, q.Passes value.tokens r →
      (expression env q).Reads [] (value.resolve? ctx) r) :
    (named env x.text pos s).Reads [] ((Tree.Primary.assign x op value).resolve? ctx) r := by
  cases found : ctx.slot? x with
  | none =>
    have next : s.current.kind ≠ .symbol "(" := by
      rw [passes.current_kind]
      cases op <;> decide
    simp only [Tree.Primary.resolve?, found]
    exact named_halts_of_slot? m found next pos
  | some v =>
    obtain ⟨type, slot⟩ := v
    obtain ⟨⟨q, reaches, shorter⟩, read, passes⟩ := passes.operator op.ofSymbol?_symbol
    rw [named, named_of_slot? m found]
    simp only [ne_eq, not_true_eq_false, if_false, read]
    refine .reached (.emits _ (.andThen (hv passes) ?_ ?_ ?_))
    · intro unresolved
      simp [Tree.Primary.resolve?, found, unresolved]
    · intro q h given stuck
      refine .andThen (.ask (follow_settles _ _) stuck) ?_
      intro q h y stuck
      refine .after (.andThen (.ask (follow_settles _ _) stuck) ?_)
      intro q h _ stuck
      exact .emit stuck
    · intro given t resolved h
      have judged := op.value?_judge type slot (given, t)
      cases stored : op.stored? type slot (given, t) with
      | none =>
        rw [stored] at judged
        refine .ask (follow_settles _ _) ?_ ?_
        · intro _
          simp [Tree.Primary.resolve?, found, resolved, stored]
        · intro y accepted h
          rw [judged] at accepted
          cases accepted
      | some z =>
        rw [stored] at judged
        obtain ⟨code, judged, e⟩ := judged
        refine .ask (follow_settles _ _) ?_ ?_
        · intro refused
          rw [judged] at refused
          cases refused
        · intro y accepted h
          obtain rfl : (z.1, code) = y := Option.some.inj (judged.symm.trans accepted)
          refine .emits _ (.ask (follow_settles _ _) ?_ ?_)
          · intro refused
            have admits : type.admits z.1 = false := by
              rw [← ValueType.isSome_allow, refused, Option.isSome_none]
            simp [Tree.Primary.resolve?, found, resolved, stored, admits]
          · intro _ allowed h
            have admits : type.admits z.1 = true := by
              rw [← ValueType.isSome_allow, allowed, Option.isSome_some]
            simp only [Tree.Primary.resolve?, found, resolved, stored, Option.bind_some, admits,
              if_true]
            exact .emit (by rw [Term.code, e, List.nil_append])

/-- A function and its argument in parentheses, given how the argument is read. -/
theorem named_reads_call {env : Env} {ctx : Context} (m : env.Matches ctx) {s r : Tokens}
    {f : Name} {argument : Tree.Expression} (pos : Position)
    (passes : s.Passes (.symbol "(" :: (argument.tokens ++ [.symbol ")"])) r)
    (ha : ∀ {q p : Tokens}, q.Passes argument.tokens p → p.current.kind.Follows argument.limit →
      (expression env q).Reads [] (argument.resolve? ctx) p) :
    (named env f.text pos s).Reads [] ((Tree.Primary.call f argument).resolve? ctx) r := by
  cases found : ctx.function? f with
  | none =>
    simp only [Tree.Primary.resolve?, found]
    exact named_halts_of_function? m found passes.current_kind pos
  | some v =>
    obtain ⟨link, signature⟩ := v
    obtain ⟨⟨q, reaches, shorter⟩, read, passes⟩ := passes.symbol
    obtain ⟨p, inside, closing⟩ := Tokens.Passes.split passes
    have starts : q.current.kind.startsExpression = true := by
      obtain ⟨ks, e⟩ := argument.tokens_eq
      rw [Tokens.Passes.current_kind (e ▸ inside)]
      exact argument.startsExpression_head
    have between : p.current.kind.Follows argument.limit := by
      rw [closing.current_kind]
      exact Token.Kind.follows_closing _
    rw [named, named_of_function? m found]
    simp only [read, starts, if_true]
    refine .reached (.andThen (ha inside between) ?_ ?_ ?_)
    · intro unresolved
      simp [Tree.Primary.resolve?, found, unresolved]
    · intro q h given stuck
      refine .andThen (.ask (follow_settles _ _) stuck) ?_
      intro q h _ stuck
      refine .inl (Faulty.andThen (expect_faulty m.structural ?_) _)
      rw [stuck]
      decide
    · intro given t resolved h
      refine .ask (follow_settles _ _) ?_ ?_
      · intro refused
        have admits : signature.param.admits given = false := by
          rw [← ValueType.isSome_allow, refused, Option.isSome_none]
        simp [Tree.Primary.resolve?, found, resolved, admits]
      · intro _ allowed h
        have admits : signature.param.admits given = true := by
          rw [← ValueType.isSome_allow, allowed, Option.isSome_some]
        simp only [Tree.Primary.resolve?, found, resolved, Option.bind_some, admits, if_true]
        refine .after_silence (expect_yields env closing) ?_
        intro h
        exact .emit (by rw [Term.code]; simp)

/-! ## Expressions -/

namespace Tree

variable {s r : Tokens}

/-- The operator of the next term may stand behind the one before, and so may what stands behind the
last one. -/
theorem Terms.follows {rest : Terms} {n : Nat} (greedy : rest.greedy n = true)
    (passes : s.Passes rest.tokens r) (follows : r.current.kind.Follows (min 1 (rest.limit n))) :
    s.current.kind.Follows (min 2 n) := by
  cases rest with
  | nil =>
    obtain rfl := passes.eq_of_nil
    exact follows.mono (by simp only [Terms.limit]; omega)
  | cons op term rest =>
    simp only [Terms.greedy, Bool.and_eq_true, decide_eq_true_eq] at greedy
    rw [passes.current_kind]
    exact (Token.Kind.follows_additive op).mono (by omega)

theorem Factors.follows {rest : Factors} {n : Nat} (greedy : rest.greedy n = true)
    (passes : s.Passes rest.tokens r) (follows : r.current.kind.Follows (min 2 (rest.limit n))) :
    s.current.kind.Follows (min 3 n) := by
  cases rest with
  | nil =>
    obtain rfl := passes.eq_of_nil
    exact follows.mono (by simp only [Factors.limit]; omega)
  | cons op factor rest =>
    simp only [Factors.greedy, Bool.and_eq_true, decide_eq_true_eq] at greedy
    rw [passes.current_kind]
    exact (Token.Kind.follows_multiplicative op).mono (by omega)

end Tree

section Reading

open OnePass.Tree

variable {env : Env} {ctx : Context}

mutual

theorem expression_reads (m : env.Matches ctx) : ∀ (e : Expression) {s r : Tokens},
    e.greedy = true → s.Passes e.tokens r → r.current.kind.Follows e.limit →
    (expression env s).Reads [] (e.resolve? ctx) r
  | .sum a, s, r, greedy, passes, follows => by
    rw [expression]
    refine .andThen (additive_reads m a greedy passes (follows.mono (Nat.zero_le _))) id ?_ ?_
    · intro q h type stuck
      simp only [Tokens.no_comparison (s := q) (by rw [stuck]; decide)]
      exact .ok stuck
    · intro type t resolved h
      simp only [Tokens.no_comparison follows.1, Expression.resolve?, resolved]
      exact .ok rfl
  | .compare lhs op rhs, s, r, greedy, passes, follows => by
    simp only [Expression.greedy, Bool.and_eq_true, decide_eq_true_eq] at greedy
    obtain ⟨q, first, passes⟩ := Tokens.Passes.split passes
    have between : q.current.kind.Follows lhs.limit := by
      rw [passes.current_kind]
      exact (Token.Kind.follows_comparison op).mono greedy.1.2
    obtain ⟨⟨p, reaches, shorter⟩, read, second⟩ := passes.operator op.ofSymbol?_symbol
    rw [expression]
    refine .andThen (additive_reads m lhs greedy.1.1 first between) ?_ ?_ ?_
    · intro unresolved
      simp [Expression.resolve?, unresolved]
    · intro q h type stuck
      simp only [Tokens.no_comparison (s := q) (by rw [stuck]; decide)]
      exact .ok stuck
    · intro type t resolved h
      simp only [read]
      refine .reached (.andThen (additive_reads m rhs greedy.2 second follows) ?_ ?_ ?_)
      · intro unresolved
        simp [Expression.resolve?, unresolved]
      · intro q h type' stuck
        split
        · exact .emit stuck
        · exact .fail _ _
      · intro type' t' resolved' h
        simp only [Expression.resolve?, resolved, resolved', Option.bind_some]
        split
        · exact .emit (by simp [Term.code, Binary.instruction])
        · exact .fail _ _

theorem additive_reads (m : env.Matches ctx) : ∀ (a : Sum) {s r : Tokens}, a.greedy = true →
    s.Passes a.tokens r → r.current.kind.Follows a.limit →
    (additive env s).Reads [] (a.resolve? ctx) r
  | .mk none first rest, s, r, greedy, passes, follows => by
    simp only [Sum.greedy, Option.isSome_none, Bool.false_or, Bool.and_eq_true,
      Bool.not_eq_true'] at greedy
    have passes : s.Passes (first.tokens ++ rest.tokens) r := passes
    obtain ⟨q, passes, more⟩ := passes.split
    have between := Terms.follows greedy.2 more follows
    rw [additive]
    simp only [Tokens.no_sign greedy.1.1 passes]
    refine .andThen (multiplicative_reads m first greedy.1.2 passes
      (between.mono (Nat.min_le_right _ _))) ?_ ?_ ?_
    · intro unresolved
      simp [Sum.resolve?, unresolved]
    · intro q h type stuck
      exact additiveRest_halts stuck
    · intro type t resolved h
      simp only [Sum.resolve?, resolved, Option.bind_some]
      exact additiveRest_reads m rest (type, t) greedy.2 more follows
  | .mk (some negative) first rest, s, r, greedy, passes, follows => by
    simp only [Sum.greedy, Option.isSome_some, Bool.true_or, Bool.true_and, Bool.and_eq_true]
      at greedy
    have passes : s.Passes (.symbol (signSymbol negative) :: (first.tokens ++ rest.tokens)) r :=
      passes
    obtain ⟨⟨p, reaches, shorter⟩, read, passes⟩ := Tokens.sign passes
    obtain ⟨q, passes, more⟩ := passes.split
    have between := Terms.follows greedy.2 more follows
    rw [additive]
    simp only [read]
    refine .reached (.andThen (multiplicative_reads m first greedy.1 passes
      (between.mono (Nat.min_le_right _ _))) ?_ ?_ ?_)
    · intro unresolved
      simp [Sum.resolve?, unresolved]
    · intro q h type stuck
      exact .after (additiveRest_halts stuck)
    · intro type t resolved h
      simp only [Sum.resolve?, resolved, Option.bind_some]
      cases negative with
      | true =>
        have := additiveRest_reads m rest (type, .unary .neg t) greedy.2 more follows
        exact .emits [.unary .neg] this
      | false =>
        have := additiveRest_reads m rest (type, t) greedy.2 more follows
        exact .emits [] (by simpa using this)

theorem additiveRest_reads (m : env.Matches ctx) : ∀ (rest : Terms) (x : ValueType × Term)
    {n : Nat} {s r : Tokens},
    rest.greedy n = true → s.Passes rest.tokens r →
    r.current.kind.Follows (min 1 (rest.limit n)) →
    (additiveRest env x.1 s).Reads x.2.code (rest.resolve? ctx x) r
  | .nil, x, n, s, r, greedy, passes, follows => by
    obtain rfl := passes.eq_of_nil
    rw [additiveRest, Tokens.no_additive (Nat.le_trans follows.1 (Nat.min_le_left _ _))]
    exact .ok rfl
  | .cons op term rest, x, n, s, r, greedy, passes, follows => by
    simp only [Terms.greedy, Bool.and_eq_true, decide_eq_true_eq] at greedy
    obtain ⟨⟨p, reaches, shorter⟩, read, passes⟩ := passes.operator op.ofSymbol?_symbol
    obtain ⟨q, passes, more⟩ := Tokens.Passes.split passes
    have between := Terms.follows greedy.2 more follows
    rw [additiveRest]
    simp only [read]
    refine .reached (.andThen (multiplicative_reads m term greedy.1.2 passes
      (between.mono (Nat.min_le_right _ _))) ?_ ?_ ?_)
    · intro unresolved
      simp [Terms.resolve?, unresolved]
    · intro q h type stuck
      refine .andThen (.ask (follow_settles _ _) stuck) ?_
      intro q h y stuck
      exact .after (additiveRest_halts stuck)
    · intro type t resolved h
      refine .ask (follow_settles _ _) ?_ ?_
      · intro refused
        rw [Additive.value?_judge, Option.map_eq_none_iff] at refused
        simp [Terms.resolve?, resolved, refused]
      · intro y judged h
        rw [Additive.value?_judge] at judged
        obtain ⟨⟨result, b⟩, rule, rfl⟩ := Option.map_eq_some_iff.1 judged
        simp only [Terms.resolve?, resolved, rule, Option.bind_some]
        have := additiveRest_reads m rest (result, .binary b x.2 t) greedy.2 more follows
        refine .emits [b.instruction] ?_
        simpa [Term.code, withInstruction] using this

theorem multiplicative_reads (m : env.Matches ctx) : ∀ (a : Product) {s r : Tokens},
    a.greedy = true → s.Passes a.tokens r → r.current.kind.Follows a.limit →
    (multiplicative env s).Reads [] (a.resolve? ctx) r
  | .mk first rest, s, r, greedy, passes, follows => by
    simp only [Product.greedy, Bool.and_eq_true] at greedy
    obtain ⟨q, passes, more⟩ := Tokens.Passes.split passes
    have between := Factors.follows greedy.2 more follows
    rw [multiplicative]
    refine .andThen (simple_reads m first greedy.1 passes
      (between.mono (Nat.min_le_right _ _))) ?_ ?_ ?_
    · intro unresolved
      simp [Product.resolve?, unresolved]
    · intro q h type stuck
      exact multiplicativeRest_halts stuck
    · intro type t resolved h
      simp only [Product.resolve?, resolved, Option.bind_some]
      exact multiplicativeRest_reads m rest (type, t) greedy.2 more follows

theorem multiplicativeRest_reads (m : env.Matches ctx) :
    ∀ (rest : Factors) (x : ValueType × Term) {n : Nat} {s r : Tokens},
    rest.greedy n = true → s.Passes rest.tokens r →
    r.current.kind.Follows (min 2 (rest.limit n)) →
    (multiplicativeRest env x.1 s).Reads x.2.code (rest.resolve? ctx x) r
  | .nil, x, n, s, r, greedy, passes, follows => by
    obtain rfl := passes.eq_of_nil
    rw [multiplicativeRest,
      Tokens.no_multiplicative (Nat.le_trans follows.1 (Nat.min_le_left _ _))]
    exact .ok rfl
  | .cons op factor rest, x, n, s, r, greedy, passes, follows => by
    simp only [Factors.greedy, Bool.and_eq_true, decide_eq_true_eq] at greedy
    obtain ⟨⟨p, reaches, shorter⟩, read, passes⟩ := passes.operator op.ofSymbol?_symbol
    obtain ⟨q, passes, more⟩ := Tokens.Passes.split passes
    have between := Factors.follows greedy.2 more follows
    rw [multiplicativeRest]
    simp only [read]
    refine .reached (.andThen (simple_reads m factor greedy.1.2 passes
      (between.mono (Nat.min_le_right _ _))) ?_ ?_ ?_)
    · intro unresolved
      simp [Factors.resolve?, unresolved]
    · intro q h type stuck
      refine .andThen (.ask (follow_settles _ _) stuck) ?_
      intro q h y stuck
      exact .after (multiplicativeRest_halts stuck)
    · intro type t resolved h
      refine .ask (follow_settles _ _) ?_ ?_
      · intro refused
        rw [Multiplicative.value?_judge, Option.map_eq_none_iff] at refused
        simp [Factors.resolve?, resolved, refused]
      · intro y judged h
        rw [Multiplicative.value?_judge] at judged
        obtain ⟨⟨result, b⟩, rule, rfl⟩ := Option.map_eq_some_iff.1 judged
        simp only [Factors.resolve?, resolved, rule, Option.bind_some]
        have := multiplicativeRest_reads m rest (result, .binary b x.2 t) greedy.2 more follows
        refine .emits [b.instruction] ?_
        simpa [Term.code, withInstruction] using this

theorem simple_reads (m : env.Matches ctx) : ∀ (f : Factor) {s r : Tokens},
    f.greedy = true → s.Passes f.tokens r → r.current.kind.Follows f.limit →
    (simple env s).Reads [] (f.resolve? ctx) r
  | .stepBefore step p, s, r, greedy, passes, follows => by
    obtain ⟨⟨q, reaches, shorter⟩, read, passes⟩ :=
      Tokens.Passes.operator passes step.ofStep?_symbol
    rw [simple]
    simp only [read]
    refine .reached (.andThen (primary_reads m p greedy passes follows) ?_ ?_ ?_)
    · intro unresolved
      simp [Factor.resolve?, unresolved]
    · intro q h x stuck
      refine .andThen (.ask (x.stepTarget_settles _) stuck) ?_
      intro q h slot stuck
      exact .emit stuck
    · intro x t resolved h
      refine .ask (x.stepTarget_settles _) ?_ ?_
      · intro refused
        simp [Factor.resolve?, resolved, refused]
      · intro slot target h
        simp only [Factor.resolve?, resolved, Option.bind_some, target, Option.map_some]
        refine .emit ?_
        rw [Primary.eq_load resolved (Operand.place_of_steppable? target)]
        simp only [Term.code, Additive.step, ValueType.one, Binary.instruction]
        split <;> rfl
  | .unary op p, s, r, greedy, passes, follows => by
    obtain ⟨⟨q, reaches, shorter⟩, read, passes'⟩ :=
      Tokens.Passes.operator passes op.ofSymbol?_symbol
    have noStep : s.operator? Additive.ofStep? = none := by
      rw [Tokens.operator?_eq_none_iff, Tokens.Passes.current_kind passes]
      cases op <;> rfl
    have ih := primary_reads m p greedy passes' follows
    rw [simple]
    simp only [noStep, read]
    refine .reached ?_
    split
    · rename_i neg
      have := Run.Reads.map Operand.type (signed_reads true passes' ih)
      simpa [Factor.resolve?, neg, Function.comp_def] using this
    · rename_i other
      refine .andThen ih ?_ ?_ ?_
      · intro unresolved
        simp [Factor.resolve?, unresolved]
      · intro q h x stuck
        exact .emit stuck
      · intro x t resolved h
        simp only [Factor.resolve?, resolved, Option.map_some, if_neg other]
        exact .emit rfl
  | .plain p, s, r, greedy, passes, follows => by
    simp only [Factor.greedy, Bool.and_eq_true, Bool.not_eq_true'] at greedy
    have passes : s.Passes p.tokens r := passes
    rw [simple]
    simp only [Tokens.no_step_of_primary passes, Tokens.no_unary greedy.1 passes]
    refine .andThen (primary_reads m p greedy.2 passes
      (follows.mono (Nat.min_le_right _ _))) ?_ ?_ ?_
    · intro unresolved
      simp [Factor.resolve?, unresolved]
    · intro q h x stuck
      simp only [Tokens.no_step (s := q) (by rw [stuck]; decide)]
      exact .ok stuck
    · intro x t resolved h
      simp only [Tokens.no_step (Nat.le_trans follows.1 (Nat.min_le_left _ _)), Factor.resolve?,
        resolved, Option.map_some]
      exact .ok rfl
  | .stepBehind p step, s, r, greedy, passes, follows => by
    simp only [Factor.greedy, Bool.and_eq_true, Bool.not_eq_true', decide_eq_true_eq] at greedy
    obtain ⟨q, passes, behind⟩ := Tokens.Passes.split passes
    obtain ⟨⟨q', reaches, shorter⟩, read, rest⟩ := behind.operator step.ofStep?_symbol
    obtain rfl := rest.eq_of_nil
    have between : q.current.kind.Follows p.limit := by
      rw [behind.current_kind]
      exact (Token.Kind.follows_step step).mono greedy.2
    rw [simple]
    simp only [Tokens.no_step_of_primary passes, Tokens.no_unary greedy.1.1 passes]
    refine .andThen (primary_reads m p greedy.1.2 passes between) ?_ ?_ ?_
    · intro unresolved
      simp [Factor.resolve?, unresolved]
    · intro q h x stuck
      simp only [Tokens.no_step (s := q) (by rw [stuck]; decide)]
      exact .ok stuck
    · intro x t resolved h
      simp only [read]
      refine .reached (.ask (x.stepTarget_settles _) ?_ ?_)
      · intro refused
        simp [Factor.resolve?, resolved, refused]
      · intro slot target h
        simp only [Factor.resolve?, resolved, Option.bind_some, target, Option.map_some]
        refine .emit ?_
        rw [Primary.eq_load resolved (Operand.place_of_steppable? target)]
        simp only [Term.code, Additive.step, ValueType.one]
        split <;> rfl

theorem primary_reads (m : env.Matches ctx) : ∀ (p : Primary) {s r : Tokens},
    p.greedy = true → s.Passes p.tokens r → r.current.kind.Follows p.limit →
    (primary env s).Reads [] (p.resolve? ctx) r
  | .literal l, s, r, greedy, passes, follows => by
    obtain ⟨⟨kind, pos⟩, ⟨q, reaches, shorter⟩, read, rfl, rest⟩ :=
      Tokens.Passes.uncons passes (by cases l <;> simp [Literal.kind])
    obtain rfl := rest.eq_of_nil
    rw [primary]
    cases l <;> simp only [read, Literal.kind, Token.Kind.primaryLead, Token.Kind.literal?] <;>
      exact .reached (.emit rfl)
  | .name x, s, r, greedy, passes, follows => by
    obtain ⟨⟨kind, pos⟩, ⟨q, reaches, shorter⟩, read, rfl, rest⟩ :=
      Tokens.Passes.uncons passes (by simp)
    obtain rfl := rest.eq_of_nil
    rw [primary]
    simp only [read, Token.Kind.primaryLead]
    refine .reached ?_
    simp only [Primary.resolve?]
    cases found : ctx.slot? x with
    | none => exact named_halts_of_slot? m found follows.2 pos
    | some v =>
      rw [named, named_of_slot? m found]
      simp only [ne_eq, not_true_eq_false, if_false, Tokens.no_assignment follows.1]
      exact .emit rfl
  | .assign x op value, s, r, greedy, passes, follows => by
    obtain ⟨⟨kind, pos⟩, ⟨q, reaches, shorter⟩, read, rfl, passes⟩ :=
      Tokens.Passes.uncons passes (by simp)
    rw [primary]
    simp only [read, Token.Kind.primaryLead]
    refine .reached (named_reads_assign m pos passes ?_)
    exact fun passes => expression_reads m value greedy passes follows
  | .call f argument, s, r, greedy, passes, follows => by
    obtain ⟨⟨kind, pos⟩, ⟨q, reaches, shorter⟩, read, rfl, passes⟩ :=
      Tokens.Passes.uncons passes (by simp)
    rw [primary]
    simp only [read, Token.Kind.primaryLead]
    refine .reached (named_reads_call m pos passes ?_)
    exact fun passes follows => expression_reads m argument greedy passes follows
  | .signed negative p, s, r, greedy, passes, follows => by
    obtain ⟨⟨kind, pos⟩, ⟨q, reaches, shorter⟩, read, rfl, rest⟩ :=
      Tokens.Passes.uncons passes (by simp)
    have lead : (Token.Kind.symbol (signSymbol negative)).primaryLead = .sign negative := by
      cases negative <;> rfl
    rw [primary]
    simp only [read, lead]
    exact .reached (signed_reads negative rest (primary_reads m p greedy rest follows))
  | .parens e, s, r, greedy, passes, follows => by
    obtain ⟨⟨kind, pos⟩, ⟨q, reaches, shorter⟩, read, rfl, passes⟩ :=
      Tokens.Passes.uncons passes (by simp)
    obtain ⟨q', inside, closing⟩ := Tokens.Passes.split passes
    have between : q'.current.kind.Follows e.limit := by
      rw [closing.current_kind]
      exact Token.Kind.follows_closing _
    rw [primary]
    simp only [read, Token.Kind.primaryLead, if_true]
    refine .reached (.andThen (expression_reads m e greedy inside between) ?_ ?_ ?_)
    · intro unresolved
      simp [Primary.resolve?, unresolved]
    · intro q h type stuck
      refine .inl (Faulty.andThen (expect_faulty m.structural ?_) _)
      rw [stuck]
      decide
    · intro type t resolved h
      simp only [Primary.resolve?, resolved, Option.map_some]
      refine .after_silence (expect_yields env closing) ?_
      intro h
      exact .ok (by simp)

end

end Reading

end OnePass
