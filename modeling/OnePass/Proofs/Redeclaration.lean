import OnePass.Proofs.CallTree
import OnePass.Proofs.Lexical.Scan
import OnePass.Proofs.Procedure.Small

/-!
# No name is declared twice

Whatever the tokens, a name is declared only where the innermost scope does not bind it yet. So in
every scope that a pass opens, a name keeps the meaning of its first declaration there until the
scope is left. A second declaration of a name is refused: it reports an error where the name stands,
and with it the place of the first declaration in the same scope, and changes nothing else. Main
theorem `bindings_kept`.

The place of the first declaration is always known, since all symbols of the scopes that a pass
opens were declared by names that it has read (`Call.Leads.placed`).
-/

namespace OnePass

/-! ## Symbols that were read -/

/-- The token was read on the way from one stream to another. -/
def Tokens.Passed (s r : Tokens) (t : Token) : Prop :=
  ∃ passed, s.front = passed ++ r.front ∧ t ∈ passed

/-- A symbol was declared where its name was read, on the way from one stream to another. -/
def Symbol.Located (x : Symbol) (s r : Tokens) : Prop :=
  ∃ pos, x.declared = some pos ∧ s.Passed r ⟨.ident x.name, pos⟩

theorem Symbol.Located.wider {x : Symbol} {start s r last : Tokens} (h : x.Located s r)
    (before : start.Reaches s) (behind : r.Reaches last) : x.Located start last := by
  obtain ⟨pos, declared, passed, front, mem⟩ := h
  obtain ⟨earlier, split, -⟩ := before
  obtain ⟨later, split', -⟩ := behind
  refine ⟨pos, declared, earlier ++ passed ++ later, ?_, by simp [mem]⟩
  rw [split, front, split']
  simp

/-- All symbols in the scopes inside of `outer` were read on the way from one stream to another. -/
def Scopes.Located (st outer : Scopes) (s r : Tokens) : Prop :=
  ∃ opened, st.inner = opened ++ outer.inner ∧ ∀ scope ∈ opened, ∀ x ∈ scope, x.Located s r

theorem Scopes.length_inner_declare (st : Scopes) (x : Symbol) :
    (st.declare x).inner.length = st.inner.length := by
  obtain ⟨inner, base, host⟩ := st
  cases inner with
  | nil => rfl
  | cons scope inner => rfl

namespace Scopes.Located

variable {st outer : Scopes} {s r : Tokens}

theorem later (h : st.Located outer s r) {last : Tokens} (behind : r.Reaches last) :
    st.Located outer s last := by
  obtain ⟨opened, split, located⟩ := h
  exact ⟨opened, split, fun scope mem x inside =>
    (located scope mem x inside).wider (.refl s) behind⟩

theorem length_le (h : st.Located outer s r) : outer.inner.length ≤ st.inner.length := by
  obtain ⟨opened, split, -⟩ := h
  simp [split]

theorem enter (h : st.Located outer s r) : st.enter.Located outer s r := by
  obtain ⟨opened, split, located⟩ := h
  refine ⟨[] :: opened, by simp [Scopes.enter, split], ?_⟩
  intro scope mem x inside
  rcases List.mem_cons.1 mem with rfl | mem
  · cases inside
  · exact located scope mem x inside

theorem declare (h : st.Located outer s r) (opens : outer.inner.length < st.inner.length)
    {x : Symbol} (hx : x.Located s r) : (st.declare x).Located outer s r := by
  obtain ⟨opened, split, located⟩ := h
  cases opened with
  | nil => simp [split] at opens
  | cons first opened =>
    refine ⟨(x :: first) :: opened, by simp [Scopes.declare, split], ?_⟩
    intro scope mem y inside
    rcases List.mem_cons.1 mem with rfl | mem
    · rcases List.mem_cons.1 inside with rfl | inside
      · exact hx
      · exact located first (by simp) y inside
    · exact located scope (by simp [mem]) y inside

/-- If a scope was opened, the innermost one is among those. -/
theorem innermost (h : st.Located outer s r) (opens : outer.inner.length < st.inner.length)
    {x : Symbol} (mem : x ∈ st.innermost) : x.Located s r := by
  obtain ⟨opened, split, located⟩ := h
  cases opened with
  | nil => simp [split] at opens
  | cons scope opened =>
    rw [Scopes.innermost, split] at mem
    exact located scope (by simp) x mem

end Scopes.Located

/-! ## What a declaration reads -/

theorem definition_declares (env : Env) (c : Counters) (ret : ValueType) (name : String)
    (pos : Position) (s : Tokens) :
    (definition env c ret name pos s).value.scopes = env.scopes ∨
      ∃ signature, (definition env c ret name pos s).value.scopes =
        env.scopes.declare (c.functionSymbol name signature pos) := by
  rw [definition, Run.value_bind]
  cases (parameter env s).value with
  | none => exact .inl rfl
  | some p => exact .inr ⟨⟨p.type, ret⟩, rfl⟩

/-- A declaration adds at most one symbol, and that by a name that it has read. -/
theorem declaration_declares (env : Env) (c : Counters) (type : ValueType) (s : Tokens) :
    (declaration env c type s).value.scopes = env.scopes ∨
      ∃ x : Symbol, x.Located s (declaration env c type s).rest ∧
        (declaration env c type s).value.scopes = env.scopes.declare x := by
  cases named : (identifier s).value with
  | none =>
    rw [declaration, Run.value_bind, named]
    exact .inl rfl
  | some v =>
    obtain ⟨name, pos⟩ := v
    obtain ⟨q, read⟩ := exists_name_of_identifier named
    have located {x : Symbol} (isNamed : x.name = name) (isPlaced : x.declared = some pos) :
        x.Located s q.stream :=
      ⟨pos, isPlaced, [⟨.ident x.name, pos⟩], by rw [isNamed]; exact Tokens.front_of_uncons? read,
        List.mem_singleton_self _⟩
    cases bound : env.scopes.bindsInnermost name with
    | true =>
      rw [declaration_of_bound read bound]
      exact .inl rfl
    | false =>
      cases opening : q.stream.symbol? "(" with
      | none =>
        rw [declaration_of_local read bound opening]
        exact .inr ⟨env.localSymbol c name type pos,
          (located rfl rfl).wider (.refl s) (Run.reaches _), rfl⟩
      | some p =>
        rw [declaration_of_function read bound opening]
        refine (definition_declares env c type name pos p.stream).imp id ?_
        rintro ⟨signature, declared⟩
        exact ⟨c.functionSymbol name signature pos,
          (located rfl rfl).wider (.refl s) (p.reaches.trans (Run.reaches _)), declared⟩

section Located

variable {env : Env} {c : Counters} {s start : Tokens} {outer : Scopes}

theorem declaration_located (type : ValueType) (reaches : start.Reaches s)
    (located : env.scopes.Located outer start s)
    (opens : outer.inner.length < env.scopes.inner.length) :
    (declaration env c type s).value.scopes.Located outer start (declaration env c type s).rest ∧
      outer.inner.length < (declaration env c type s).value.scopes.inner.length := by
  have later := located.later (declaration env c type s).reaches
  rcases declaration_declares env c type s with same | ⟨x, found, declared⟩
  · rw [same]
    exact ⟨later, opens⟩
  · rw [declared, Scopes.length_inner_declare]
    exact ⟨later.declare opens (found.wider reaches (.refl _)), opens⟩

theorem declarations_located (env : Env) (c : Counters) (s : Tokens) (reaches : start.Reaches s)
    (located : env.scopes.Located outer start s)
    (opens : outer.inner.length < env.scopes.inner.length) :
    (declarations env c s).value.scopes.Located outer start (declarations env c s).rest := by
  cases read : env.typeName? s with
  | none =>
    rw [declarations, read]
    exact located
  | some v =>
    obtain ⟨type, q⟩ := v
    rw [declarations_of_type read]
    have shorter := q.shorter
    have le := (declaration env c type q.stream).left_rest_le
    obtain ⟨located', opens'⟩ := declaration_located (c := c) type (reaches.trans q.reaches)
      (located.later q.reaches) opens
    exact declarations_located { env with scopes := (declaration env c type q.stream).value.scopes }
      (declaration env c type q.stream).value.counters (declaration env c type q.stream).rest
      ((reaches.trans q.reaches).trans (Run.reaches _)) located' opens'
termination_by s.left
decreasing_by all_goals omega

end Located

/-! ## Along the tree of calls -/

/-- The productions that declare names in the scope around them. -/
def Production.declares : Production → Bool
  | declarations | declaration _ => true
  | _ => false

/-- A call inside of a whole that began with the scopes `outer` and the stream `start`: the symbols
of the scopes in between were read, and names are declared in one of these scopes only. -/
structure Call.Placed (x : Call) (outer : Scopes) (start : Tokens) : Prop where
  reaches : start.Reaches x.stream
  located : x.env.scopes.Located outer start x.stream
  opens : x.production.declares = true → outer.inner.length < x.env.scopes.inner.length

theorem Call.Makes.placed {x y : Call} {es : List Event} {outer : Scopes} {start : Tokens}
    (h : x.Makes es y) (placed : x.Placed outer start) : y.Placed outer start := by
  have reaches := placed.reaches.trans h.reaches
  have later := placed.located.later h.reaches
  have inside {st : Scopes} (located : st.Located outer start x.stream) :
      outer.inner.length < st.enter.inner.length := Nat.lt_succ_of_le located.length_le
  cases h with
  | declarations => exact ⟨reaches, placed.located.enter, fun _ => inside placed.located⟩
  | body first =>
    subst first
    refine ⟨reaches, ?_, by intro declares; cases declares⟩
    exact declarations_located _ _ _ placed.reaches placed.located.enter (inside placed.located)
  | declaration => exact ⟨reaches, later, fun _ => placed.opens rfl⟩
  | @further _ _ _ type q _ _ first =>
    subst first
    obtain ⟨located, opens⟩ := declaration_located type (placed.reaches.trans q.reaches)
      (placed.located.later q.reaches) (placed.opens rfl)
    exact ⟨reaches, located, fun _ => opens⟩
  | @function env _ s _ name pos q read _ o _ p header r _ f symbol hf hs =>
    refine ⟨reaches, ?_, by intro declares; cases declares⟩
    have function : f.Located s q.stream := by
      subst hf
      exact ⟨pos, rfl, [⟨.ident name, pos⟩], Tokens.front_of_uncons? read,
        List.mem_singleton_self _⟩
    have param : symbol.Located o.stream (parameter env o.stream).rest := by
      obtain ⟨-, tokens, front, t, closing, rfl, -⟩ := parameter_takes env o.stream p header
      subst hs
      exact ⟨p.pos, rfl, _, front, by simp [Env.localSymbol]⟩
    have opens := placed.opens rfl
    refine ((later.declare opens (function.wider placed.reaches ?_)).enter).declare ?_
      (param.wider ((placed.reaches.trans q.reaches).trans o.reaches) r.reaches)
    · exact (o.reaches.trans (Run.reaches _)).trans r.reaches
    · exact Nat.lt_succ_of_lt ((env.scopes.length_inner_declare f).symm ▸ opens)
  | _ => exact ⟨reaches, later, by intro declares; cases declares⟩

/-- Wherever a program calls, the symbols of its own scopes were read before. -/
theorem Call.Leads.placed {env : Env} {c : Counters} {s : Tokens} {before : List Event} {y : Call}
    (h : Leads ⟨.program, env, c, s⟩ before y) : y.Placed env.scopes s := by
  induction h with
  | refl => exact ⟨.refl s, ⟨[], rfl, by simp⟩, by intro declares; cases declares⟩
  | step _ makes ih => exact makes.placed ih

/-! ## Refused declarations -/

/-- What the innermost scope binds is found there. -/
theorem Scopes.find?_of_bindsInnermost {st : Scopes} {name : String}
    (bound : st.bindsInnermost name = true) :
    ∃ x ∈ st.innermost, st.innermost.find? (·.name = name) = some x ∧ x.name = name ∧
      st.find? name = some x := by
  obtain ⟨x, found⟩ : ∃ x, st.innermost.find? (·.name = name) = some x := by
    rw [← Option.isSome_iff_exists, List.find?_isSome]
    simpa [bindsInnermost] using bound
  refine ⟨x, List.mem_of_find?_eq_some found, found, by simpa using List.find?_some found, ?_⟩
  obtain ⟨inner, base, host⟩ := st
  cases inner with
  | nil => exact found
  | cons scope inner =>
    have found : scope.find? (·.name = name) = some x := found
    simp [find?, symbols, found]

/-- A declaration of a name that its scope binds already reports this, with the place of the first
declaration, and hands on what it was given. -/
theorem Call.Leads.refused {outer env : Env} {c₀ c : Counters} {start s : Tokens}
    {before : List Event} {type : ValueType} {name : String} {pos : Position}
    (h : Leads ⟨.program, outer, c₀, start⟩ before ⟨.declaration type, env, c, s⟩)
    (next : s.current = ⟨.ident name, pos⟩) (bound : env.scopes.bindsInnermost name = true) :
    ∃ x previous, env.scopes.innermost.find? (·.name = name) = some x ∧
      x.declared = some previous ∧ start.Passed s ⟨.ident name, previous⟩ ∧
      (declaration env c type s).events = [.report .error pos (.redeclared name),
        .report .note previous (.previousDeclaration name)] ∧
      (declaration env c type s).value = ⟨env.scopes, c⟩ := by
  obtain ⟨x, mem, found, rfl, first⟩ := Scopes.find?_of_bindsInnermost bound
  obtain ⟨previous, declared, passed⟩ : x.Located start s :=
    h.placed.located.innermost (h.placed.opens rfl) mem
  refine ⟨x, previous, found, declared, passed, ?_⟩
  cases read : s.uncons? with
  | none =>
    have ends := (Tokens.uncons?_eq_none_iff s).1 read
    rw [Tokens.atEnd, next] at ends
    cases ends
  | some v =>
    obtain ⟨t, q⟩ := v
    obtain rfl : t = ⟨.ident x.name, pos⟩ := (Tokens.current_of_uncons? read).symm.trans next
    rw [declaration_of_bound read bound]
    refine ⟨?_, rfl⟩
    simp [redeclaration, first, declared, Run.recover]

/-! ## Fresh declarations -/

/-- Names are declared only in scopes behind the first `n` ones, and only if they are not bound
there yet. -/
def DeclaresFresh (n : Nat) : Scopes → List Event → Prop
  | _, [] => True
  | st, .scope (.declare x) :: es =>
    (n < st.inner.length ∧ st.bindsInnermost x.name = false) ∧ DeclaresFresh n (st.declare x) es
  | st, .scope change :: es => DeclaresFresh n (st.apply change) es
  | st, _ :: es => DeclaresFresh n st es

namespace DeclaresFresh

variable {n : Nat} {st : Scopes} {es fs : List Event}

@[simp] theorem append_iff :
    DeclaresFresh n st (es ++ fs) ↔ DeclaresFresh n st es ∧ DeclaresFresh n (st.replay es) fs := by
  induction es generalizing st with
  | nil => simp [DeclaresFresh]
  | cons e es ih =>
    cases e with
    | scope change => cases change <;> simp [DeclaresFresh, ih, and_assoc, Scopes.apply]
    | code command => simp [DeclaresFresh, ih]
    | report severity pos problem => exact ih

@[simp] theorem emit_iff (i : Instruction) :
    DeclaresFresh n st (.emit i :: es) ↔ DeclaresFresh n st es := .rfl

/-- At the moment of a declaration. -/
theorem moment {before after : List Event} {x : Symbol}
    (h : DeclaresFresh n st (before ++ .scope (.declare x) :: after)) :
    n < (st.replay before).inner.length ∧ (st.replay before).bindsInnermost x.name = false :=
  (append_iff.1 h).2.1

end DeclaresFresh

theorem Quiet.declaresFresh {env : Env} {es : List Event} (h : Quiet env es) (n : Nat)
    (st : Scopes) : DeclaresFresh n st es := by
  induction h with
  | nil => trivial
  | report severity pos problem _ ih => exact ih
  | emit _ _ ih => exact ih

theorem Scopes.length_symbols_declareAll (st : Scopes) (new : List Symbol) :
    (new.foldl declare st).symbols.length = st.symbols.length + new.length := by
  induction new generalizing st with
  | nil => rfl
  | cons x new ih =>
    have one : (st.declare x).symbols.length = st.symbols.length + 1 := by
      obtain ⟨_ | ⟨scope, inner⟩, base, host⟩ := st
      · rfl
      · rfl
    rw [List.foldl_cons, ih, one, List.length_cons]
    omega

theorem Scopes.length_inner_declareAll (st : Scopes) (new : List Symbol) :
    (new.foldl declare st).inner.length = st.inner.length := by
  induction new generalizing st with
  | nil => rfl
  | cons x new ih => rw [List.foldl_cons, ih, length_inner_declare]

/-- If what was handed on is what was given, nothing was declared. -/
theorem Scopes.eq_nil_of_declareAll {st : Scopes} (new : List Symbol)
    (h : new.foldl declare st = st) : new = [] := by
  have count := st.length_symbols_declareAll new
  rw [h] at count
  exact List.length_eq_zero_iff.1 (by omega)

/-- A trace declares fresh names only, and in a scope behind the first `n` ones, unless it hands on
more symbols than it was given. -/
theorem Trace.declaresFresh {env : Env} {c c' : Counters} {es : List Event} {scopes : Scopes}
    (h : Trace env c es scopes c') {n : Nat} (le : n ≤ env.scopes.inner.length)
    (inside : scopes = env.scopes ∨ n < env.scopes.inner.length) :
    DeclaresFresh n env.scopes es := by
  induction h with
  | quiet events => exact events.declaresFresh n _
  | @append env _ _ _ _ _ _ _ first second ih₁ ih₂ =>
    rw [DeclaresFresh.append_iff, first.replay_scopes]
    obtain ⟨new, rfl⟩ := first.declares
    obtain ⟨later, rfl⟩ := second.declares
    have length := env.scopes.length_inner_declareAll new
    rcases inside with same | inside
    · rw [← List.foldl_append] at same
      obtain ⟨rfl, rfl⟩ := List.append_eq_nil_iff.1 (Scopes.eq_nil_of_declareAll _ same)
      exact ⟨ih₁ le (.inl rfl), ih₂ le (.inl rfl)⟩
    · exact ⟨ih₁ le (.inr inside), ih₂ (length ▸ le) (.inr (length ▸ inside))⟩
  | block inner ih =>
    have fresh := ih (Nat.le_succ_of_le le) (.inr (Nat.lt_succ_of_le le))
    simpa [DeclaresFresh, Scopes.apply] using fresh
  | @declare env c name type pos fresh =>
    have opened : n < env.scopes.inner.length := by
      refine inside.resolve_left fun same => ?_
      exact absurd (Scopes.eq_nil_of_declareAll [_] same) (by simp)
    exact ⟨⟨opened, fresh⟩, trivial⟩
  | @define env _ _ _ _ _ _ _ _ f symbol fresh hf hs inner ih =>
    have opened : n < env.scopes.inner.length := by
      refine inside.resolve_left fun same => ?_
      exact absurd (Scopes.eq_nil_of_declareAll [_] same) (by simp)
    -- the parameter stands alone in its scope
    have below : n < (env.scopes.declare f).enter.inner.length :=
      Nat.lt_succ_of_lt ((env.scopes.length_inner_declare f).symm ▸ opened)
    have behind := ih (Nat.le_of_lt below) (.inr below)
    subst hf
    simp only [DeclaresFresh.append_iff]
    exact ⟨⟨⟨⟨opened, fresh⟩, ⟨below, rfl⟩, trivial⟩, behind⟩, trivial⟩
  | ifThen inner ih => simpa [DeclaresFresh] using ih le (.inl rfl)
  | ifElse inner other ih₁ ih₂ =>
    have fresh := And.intro (ih₁ le (.inl rfl)) (ih₂ le (.inl rfl))
    simpa [DeclaresFresh, inner.replay_scopes] using fresh
  | loop condition _ ih =>
    have fresh := ih le (.inl rfl)
    simpa [DeclaresFresh, condition.replay_scopes, condition.declaresFresh, Env.inLoop] using fresh
  | failedLoop condition => simp [DeclaresFresh, condition.declaresFresh]

/-! ## Bindings that are kept -/

/-- What a name stands for in the scope number `n` inside of the outermost one, counted from
outside. -/
def Scopes.boundAt (st : Scopes) (n : Nat) (name : String) : Option Symbol :=
  st.inner.reverse[n]?.bind fun scope => scope.find? (·.name = name)

theorem Scopes.boundAt_declare {st : Scopes} {n : Nat} (x : Symbol)
    (h : st.inner.length = n + 1) : (st.declare x).boundAt n x.name = some x := by
  obtain ⟨_ | ⟨scope, outer⟩, base, host⟩ := st
  · cases h
  · obtain rfl : outer.length = n := Nat.succ.inj h
    simp [boundAt, declare]

/-- A change keeps what a name stands for in a scope, unless it closes the scope. -/
theorem Scopes.boundAt_apply {st : Scopes} {n : Nat} {name : String} {x : Symbol}
    {change : Change} (fresh : ∀ y, change = .declare y → st.bindsInnermost y.name = false)
    (bound : st.boundAt n name = some x) (still : n < (st.apply change).inner.length) :
    (st.apply change).boundAt n name = some x := by
  obtain ⟨inner, base, host⟩ := st
  obtain ⟨scope, level, found⟩ := Option.bind_eq_some_iff.1 bound
  refine Option.bind_eq_some_iff.2 ?_
  cases change with
  | bindBase name type => exact ⟨scope, level, found⟩
  | enter =>
    have earlier : n < inner.reverse.length := (List.getElem?_eq_some_iff.1 level).1
    refine ⟨scope, ?_, found⟩
    rw [apply, Scopes.enter, List.reverse_cons, List.getElem?_append_left earlier]
    exact level
  | leave =>
    cases inner with
    | nil => cases still
    | cons first outer =>
      have outside : n < outer.reverse.length := by simpa [apply, Scopes.leave] using still
      rw [List.reverse_cons, List.getElem?_append_left outside] at level
      exact ⟨scope, level, found⟩
  | declare y =>
    cases inner with
    | nil => cases level
    | cons first outer =>
      have le : n ≤ outer.reverse.length := by
        simpa [apply, Scopes.declare, Nat.lt_succ_iff] using still
      rw [apply, Scopes.declare, List.reverse_cons]
      rw [List.reverse_cons] at level
      rcases Nat.lt_or_eq_of_le le with outside | rfl
      · rw [List.getElem?_append_left outside] at level ⊢
        exact ⟨scope, level, found⟩
      · -- the scope is the one that is added to, and `y` is not its symbol of that name
        obtain rfl : first = scope := by simpa using level
        have other : y.name ≠ name := by
          rintro rfl
          have unbound : first.any (·.name = y.name) = false := fresh y rfl
          rw [List.any_eq_true.2 ⟨x, List.mem_of_find?_eq_some found, List.find?_some found⟩]
            at unbound
          cases unbound
        exact ⟨y :: first, by simp, by simpa [other] using found⟩

theorem DeclaresFresh.boundAt_replay {m n : Nat} {st : Scopes} {es : List Event} {name : String}
    {x : Symbol} (fresh : DeclaresFresh m st es) (bound : st.boundAt n name = some x)
    (opened : ∀ d, d <+: es → n < (st.replay d).inner.length) :
    (st.replay es).boundAt n name = some x := by
  induction es generalizing st with
  | nil => exact bound
  | cons e es ih =>
    have split (d : List Event) : st.replay (e :: d) = (st.replay [e]).replay d :=
      st.replay_append [e] d
    have now : n < (st.replay [e]).inner.length := opened [e] ⟨es, rfl⟩
    obtain ⟨first, rest⟩ := append_iff.1 (show DeclaresFresh m st ([e] ++ es) from fresh)
    rw [split]
    refine ih rest ?_ fun d inside => ?_
    · cases e with
      | scope change =>
        refine Scopes.boundAt_apply (fun y declares => ?_) bound now
        subst declares
        exact first.1.2
      | code command => exact bound
      | report severity pos problem => exact bound
    · rw [← split]
      exact opened (e :: d) (List.cons_prefix_cons.2 ⟨rfl, inside⟩)

/-! ## Passes -/

theorem Pass.declaresFresh (structural : Severity) (scopes : Scopes) (s : Tokens) :
    DeclaresFresh scopes.inner.length scopes (run structural scopes s).events := by
  have trace := program_traced { scopes := scopes.withPrimitives, structural } {} s
  have fresh : DeclaresFresh scopes.inner.length scopes.withPrimitives _ :=
    trace.declaresFresh (Nat.le_refl _) (.inl rfl)
  exact fresh

/-- In a scanned text, a token that was read stands before the one that comes next. -/
theorem Tokens.Passed.before {text : String} {ts : List Token} {s : Tokens} {t : Token}
    (h : (ofList ts).Passed s t) (scanned : scan text = .ok ts) (going : s.atEnd = false) :
    t.pos.Before s.current.pos := by
  obtain ⟨passed, split, read⟩ := h
  have increasing := (Lexical.increasing_of_scan scanned).sublist
    ((front_ofList_sublist ts).map (·.pos))
  rw [split, List.map_append, List.pairwise_append] at increasing
  have next : s.current ∈ s.front := by
    obtain ⟨_ | ⟨u, us⟩, final⟩ := s
    · cases going
    · exact List.mem_cons_self
  exact increasing.2.2 _ (List.mem_map_of_mem read) _ (List.mem_map_of_mem next)

/-- **No binding is overwritten**, whatever the tokens, the scopes and the severity. A name is
declared only in a scope that the pass has opened, and only if that scope does not bind it yet. From
then on the name stands for this symbol there, for as long as the scope is open. A declaration of a
name that the innermost scope binds already hands on scopes and counters as they were, and gives out
two reports and nothing else: an error at the name, and a note where the same scope declares it; in
a scanned text this is before the error. -/
theorem bindings_kept (structural : Severity) (scopes : Scopes) (ts : List Token) :
    (∀ before x after,
      (Pass.run structural scopes (.ofList ts)).events = before ++ .scope (.declare x) :: after →
        (scopes.replay before).bindsInnermost x.name = false ∧
        ∃ n, scopes.inner.length ≤ n ∧ (scopes.replay before).inner.length = n + 1 ∧
          ∀ during, during <+: after →
            (∀ d, d <+: during →
              n < (scopes.replay (before ++ .scope (.declare x) :: d)).inner.length) →
            (scopes.replay (before ++ .scope (.declare x) :: during)).boundAt n x.name = some x) ∧
    ∀ before env c type s name pos,
      Call.Leads ⟨.program, { scopes := scopes.withPrimitives, structural }, {}, .ofList ts⟩ before
        ⟨.declaration type, env, c, s⟩ →
      s.current = ⟨.ident name, pos⟩ → env.scopes.bindsInnermost name = true →
        (declaration env c type s).value = ⟨env.scopes, c⟩ ∧
        ∃ x previous, env.scopes.innermost.find? (·.name = name) = some x ∧
          x.declared = some previous ∧
          (declaration env c type s).events = [.report .error pos (.redeclared name),
            .report .note previous (.previousDeclaration name)] ∧
          (∃ earlier later, (Pass.run structural scopes (.ofList ts)).events =
              earlier ++ (declaration env c type s).events ++ later ∧
            scopes.replay earlier = env.scopes) ∧
          ∀ text, scan text = .ok ts → previous.Before pos := by
  have fresh := Pass.declaresFresh structural scopes (.ofList ts)
  refine ⟨fun before x after split => ?_, ?_⟩
  · rw [split] at fresh
    obtain ⟨opened, unbound⟩ := fresh.moment
    have innermost : (scopes.replay before).inner.length =
        (scopes.replay before).inner.length - 1 + 1 := by omega
    refine ⟨unbound, _, by omega, innermost, ?_⟩
    rintro during ⟨rest, rfl⟩ still
    have behind (d : List Event) : scopes.replay (before ++ .scope (.declare x) :: d) =
        ((scopes.replay before).declare x).replay d := scopes.replay_append before _
    have later : DeclaresFresh scopes.inner.length ((scopes.replay before).declare x)
        (during ++ rest) := (DeclaresFresh.append_iff.1 fresh).2.2
    simp only [behind] at still ⊢
    exact (DeclaresFresh.append_iff.1 later).1.boundAt_replay (Scopes.boundAt_declare x innermost)
      still
  · intro before env c type s name pos leads next bound
    obtain ⟨x, previous, found, declared, passed, events, value⟩ := leads.refused next bound
    refine ⟨value, x, previous, found, declared, events, ?_, ?_⟩
    · obtain ⟨after, whole⟩ := leads.exists_after
      refine ⟨(ValueType.primitives.map fun p => .scope (.bindBase p.1 p.2)) ++ before, after,
        ?_, ?_⟩
      · rw [List.append_assoc, List.append_assoc]
        exact congrArg (_ ++ ·) whole
      · rw [Scopes.replay_append]
        exact leads.scopes.symm
    · intro text scanned
      have going : s.atEnd = false := by simp [Tokens.atEnd, next, Token.isEof]
      simpa [next] using passed.before scanned going

/-- A name that is declared twice in a scope, inside of one that declares it as well:
`{ int x; { int x; int x; } }`. -/
def shadowedTwice : List Token :=
  [(.symbol "\x7b", 1), (.keyword "int", 3), (.ident "x", 7), (.symbol ";", 8),
    (.symbol "\x7b", 10), (.keyword "int", 12), (.ident "x", 16), (.symbol ";", 17),
    (.keyword "int", 19), (.ident "x", 23), (.symbol ";", 24), (.symbol "\x7d", 26),
    (.symbol "\x7d", 28), (.eof, 29)].map fun t => ⟨t.1, ⟨1, t.2⟩⟩

theorem bindings_kept_shadowedTwice :
    scan "\x7b int x; \x7b int x; int x; \x7d \x7d" = .ok shadowedTwice ∧
    ∃ before env c type s,
      Call.Leads ⟨.program, { scopes := Scopes.withPrimitives {}, structural := .error }, {},
        .ofList shadowedTwice⟩ before ⟨.declaration type, env, c, s⟩ ∧
      s.current = ⟨.ident "x", ⟨1, 23⟩⟩ ∧ env.scopes.bindsInnermost "x" = true ∧
      (declaration env c type s).events = [.report .error ⟨1, 23⟩ (.redeclared "x"),
        .report .note ⟨1, 16⟩ (.previousDeclaration "x")] ∧
      Position.Before ⟨1, 16⟩ ⟨1, 23⟩ := by
  have scanned : scan "\x7b int x; \x7b int x; int x; \x7d \x7d" = .ok shadowedTwice := by
    decide +kernel
  have found : ∃ before env c type s,
      Call.Leads ⟨.program, { scopes := Scopes.withPrimitives {}, structural := .error }, {},
        .ofList shadowedTwice⟩ before ⟨.declaration type, env, c, s⟩ ∧
      s.current = ⟨.ident "x", ⟨1, 23⟩⟩ ∧ env.scopes.bindsInnermost "x" = true ∧
      (env.scopes.innermost.find? (·.name = "x")).bind (·.declared) = some ⟨1, 16⟩ := by
    -- through the outer block, its only statement, and behind the first declaration of that
    refine ⟨_, _, _, _, _, .step (.step (.step (.step (.step (.step (.step (.step .refl
      (.statement (by decide +kernel)))
      (.block (Option.some_get (by decide +kernel)).symm)) (.body rfl))
      (.inner (by decide +kernel) (by decide +kernel)))
      (.block (Option.some_get (by decide +kernel)).symm)) .declarations)
      (.further (Option.some_get (by decide +kernel)).symm rfl))
      (.declaration (Option.some_get (by decide +kernel)).symm), ?_, ?_, ?_⟩
    · decide +kernel
    · decide +kernel
    · decide +kernel
  obtain ⟨before, env, c, type, s, leads, next, bound, first⟩ := found
  obtain ⟨-, x, previous, inside, declared, events, -, placed⟩ :=
    (bindings_kept .error {} shadowedTwice).2 before env c type s _ _ leads next bound
  obtain rfl : previous = ⟨1, 16⟩ := by simpa [inside, declared] using first
  exact ⟨scanned, before, env, c, type, s, leads, next, bound, events, placed _ scanned⟩

end OnePass
