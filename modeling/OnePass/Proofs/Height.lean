import OnePass.Proofs.Restoration
import OnePass.Proofs.Severity
import OnePass.Proofs.Translation

/-!
# The height of the stack

Code read from its first instruction to its last changes the height of the stack by what each
instruction takes off and puts on. An attempt that is given up leaves what it has loaded. It never
takes off a value that it did not put on itself, and unless it leaves nothing there is a report of
it: an error, or a missing `)`, which may be less than an error.

Between statements the stack is empty: a statement drops what it computes, a condition is taken off
by its jump, and a return leaves nothing. So the stack is empty at every mark, if there is no report
that an expression was given up. Where one was, values may be left behind; but no instruction ever
takes off a value that is not there.

Whether a missing `)` keeps a program from being accepted depends on its severity. If it does not,
the code of an accepted program can leave values behind, in a loop more of them with every round.
-/

namespace OnePass

/-! ## Height -/

namespace Instruction

/-- The height of the stack after an instruction, if it was `n` and that is enough. A return leaves
nothing. -/
def height? (n : Nat) : Instruction → Option Nat
  | ret => some 0
  | i => if i.pops ≤ n then some (n - i.pops + i.pushes) else none

/-- An instruction that takes off its operands, above `n` values. -/
theorem height?_eq {i : Instruction} (noReturn : i ≠ .ret) (n : Nat) :
    i.height? (n + i.pops) = some (n + i.pushes) := by
  cases i <;> simp_all [height?]

end Instruction

/-- The height of the stack after some code, read in its order, if it was `n` and no instruction
takes off more than there is. -/
def height? : List Instruction → Nat → Option Nat
  | [], n => some n
  | i :: is, n => (i.height? n).bind (height? is)

theorem height?_append (is js : List Instruction) (n : Nat) :
    height? (is ++ js) n = (height? is n).bind (height? js) := by
  induction is generalizing n with
  | nil => rfl
  | cons i is ih =>
    rw [List.cons_append, height?, height?, Option.bind_assoc]
    exact congrArg _ (funext fun m => ih m)

/-- Code that replaces the `m` uppermost values by `k` values, or leaves less of those below if
there is a return in it. -/
def Shifts (is : List Instruction) (m k : Nat) : Prop :=
  ∀ n, ∃ j ≤ n, height? is (n + m) = some (j + k)

namespace Shifts

variable {is js : List Instruction} {m k l : Nat}

theorem nil (m : Nat) : Shifts [] m m := fun n => ⟨n, Nat.le_refl n, rfl⟩

theorem append (h : Shifts is m k) (h' : Shifts js k l) : Shifts (is ++ js) m l := by
  intro n
  obtain ⟨j, less, first⟩ := h n
  obtain ⟨i, less', second⟩ := h' j
  refine ⟨i, Nat.le_trans less' less, ?_⟩
  rw [height?_append, first]
  exact second

/-- An instruction that takes off its operands. -/
theorem instruction (i : Instruction) (noReturn : i ≠ .ret) (m : Nat) :
    Shifts [i] (m + i.pops) (m + i.pushes) := by
  intro n
  refine ⟨n, Nat.le_refl n, ?_⟩
  rw [height?, ← Nat.add_assoc, Instruction.height?_eq noReturn, Nat.add_assoc]
  rfl

theorem ret (m : Nat) : Shifts [.ret] m 0 := fun n => ⟨0, Nat.zero_le n, rfl⟩

/-- Nothing lies below the values that are replaced. -/
theorem height (h : Shifts is m k) : height? is m = some k := by
  obtain ⟨j, less, height⟩ := h 0
  obtain rfl := Nat.le_zero.1 less
  rwa [Nat.zero_add, Nat.zero_add] at height

theorem isSome (h : Shifts is m k) (n : Nat) : (height? is (n + m)).isSome := by
  obtain ⟨j, -, height⟩ := h n
  exact Option.isSome_of_eq_some height

end Shifts

/-! ## Code on the empty stack -/

/-- The stack is empty at every mark and at the end of the code, if it is empty at its beginning. -/
structure Flat (is : List Instruction) : Prop where
  ends : height? is 0 = some 0
  marks : ∀ before label behind, is = before ++ .mark label :: behind → height? before 0 = some 0

namespace Flat

variable {is js : List Instruction}

theorem of_unmarked (ends : height? is 0 = some 0) (unmarked : ∀ label, .mark label ∉ is) :
    Flat is where
  ends := ends
  marks before label behind split := absurd (by rw [split]; simp) (unmarked label)

theorem mark (label : Nat) : Flat [.mark label] where
  ends := rfl
  marks before label' behind split := by
    cases before with
    | nil => rfl
    | cons i before =>
      obtain ⟨-, rest⟩ := List.cons.inj split
      simp at rest

theorem append (h : Flat is) (h' : Flat js) : Flat (is ++ js) where
  ends := by
    rw [height?_append, h.ends]
    exact h'.ends
  marks before label behind split := by
    -- The mark stands in the first part or in the second.
    rcases List.append_eq_append_iff.1 split with ⟨more, rfl, rest⟩ | ⟨more, first, rest⟩
    · rw [height?_append, h.ends]
      exact h'.marks more label behind rest
    · cases more with
      | nil =>
        rw [List.append_nil] at first
        rw [← first]
        exact h.ends
      | cons i more =>
        obtain ⟨rfl, -⟩ := List.cons.inj rest
        exact h.marks before label more first

end Flat

/-- No instruction of the body takes off a value that is not there, read in the order of the code
and from the empty stack on. -/
def Body.NeverUnderflows (b : Body) : Prop := (height? b.code.toList 0).isSome

/-- The stack is empty at every mark and at the end of the body. -/
def Body.IsBalanced (b : Body) : Prop := Flat b.code.toList

/-! ## Events -/

/-- An error was reported, or a missing `)`, with the severity of a missing bracket. -/
def Loud (structural : Severity) (es : List Event) : Prop :=
  Faulty es ∨ ∃ pos found, .report structural pos (.unexpected (.symbol ")") found) ∈ es

namespace Loud

variable {structural : Severity} {es fs : List Event}

theorem left (h : Loud structural es) (fs : List Event) : Loud structural (es ++ fs) := by
  rcases h with faulty | ⟨pos, found, mem⟩
  · exact .inl (faulty.left fs)
  · exact .inr ⟨pos, found, List.mem_append_left fs mem⟩

theorem right (h : Loud structural fs) (es : List Event) : Loud structural (es ++ fs) := by
  rcases h with faulty | ⟨pos, found, mem⟩
  · exact .inl (faulty.right es)
  · exact .inr ⟨pos, found, List.mem_append_right es mem⟩

end Loud

/-- What is added takes off only what it has put on, whatever lies below. -/
structure Piece.Safe (p : Piece) : Prop where
  code : ∀ n, (height? p.code n).isSome
  functions : ∀ b ∈ p.functions, b.NeverUnderflows

/-- What is added is balanced. -/
structure Piece.Balanced (p : Piece) : Prop where
  code : Flat p.code
  functions : ∀ b ∈ p.functions, b.IsBalanced

theorem Piece.neverUnderflows_body {p : Piece} (h : ∀ n, (height? p.code n).isSome) (link : String)
    (signature : Option Signature) : (p.body link signature).NeverUnderflows := by
  simpa [Body.NeverUnderflows, Piece.body] using h 0

theorem Piece.isBalanced_body {p : Piece} (h : Flat p.code) (link : String)
    (signature : Option Signature) : (p.body link signature).IsBalanced := by
  simpa [Body.IsBalanced, Piece.body] using h

/-- The events add code that is safe, and balanced unless there is a report against that. -/
def Steady (structural : Severity) (es : List Event) : Prop :=
  ∃ p, Builds es p ∧ p.Safe ∧ (¬ Loud structural es → p.Balanced)

theorem Quiet.mark_not_mem {env : Env} {es : List Event} (h : Quiet env es) (label : Nat) :
    .mark label ∉ instructions es := by
  induction h with
  | nil => simp [instructions]
  | report severity pos problem _ ih => exact ih
  | @emit es i permitted _ ih =>
    have other : .mark label ≠ i := by
      rintro rfl
      exact permitted
    exact List.not_mem_cons_of_ne_of_not_mem other ih

namespace Steady

variable {structural : Severity} {es fs : List Event}

theorem append (h : Steady structural es) (h' : Steady structural fs) :
    Steady structural (es ++ fs) := by
  obtain ⟨p, builds, safe, balanced⟩ := h
  obtain ⟨q, builds', safe', balanced'⟩ := h'
  refine ⟨p ++ q, builds.append builds', ⟨?_, ?_⟩, ?_⟩
  · intro n
    obtain ⟨m, height⟩ := Option.isSome_iff_exists.1 (safe.code n)
    rw [Piece.code_append, height?_append, height]
    exact safe'.code m
  · intro b mem
    exact (List.mem_append.1 mem).elim (safe.functions b) (safe'.functions b)
  · intro soft
    have first := balanced fun loud => soft (loud.left fs)
    have second := balanced' fun loud => soft (loud.right es)
    refine ⟨first.code.append second.code, ?_⟩
    intro b mem
    exact (List.mem_append.1 mem).elim (first.functions b) (second.functions b)

/-- Events that add code and no function. -/
theorem code {locals : List (String × ValueType)} {is : List Instruction}
    (builds : Builds es { locals, code := is }) (safe : ∀ n, (height? is n).isSome)
    (flat : ¬ Loud structural es → Flat is) : Steady structural es :=
  ⟨_, builds, ⟨safe, by simp⟩, fun soft => ⟨flat soft, by simp⟩⟩

/-- Events that add no code. -/
theorem silent {locals : List (String × ValueType)} (builds : Builds es { locals }) :
    Steady structural es :=
  code builds (fun _ => rfl) fun _ => .of_unmarked rfl (by simp)

theorem reserveLabel : Steady structural [.code .reserveLabel] := silent .reserveLabel

theorem mark (label : Nat) : Steady structural [.emit (.mark label)] :=
  code (.emit _) (fun _ => rfl) fun _ => .mark label

theorem jump (label : Nat) : Steady structural [.emit (.jump label)] :=
  code (.emit _) (fun _ => rfl) fun _ => .of_unmarked rfl (by simp)

/-- Quiet events, which mark no label. -/
theorem quiet {env : Env} (h : Quiet env es) (safe : ∀ n, (height? (instructions es) n).isSome)
    (ends : ¬ Loud structural es → height? (instructions es) 0 = some 0) :
    Steady structural es := by
  have builds : Builds es { code := instructions es } :=
    fun d => ⟨_, h.replay_instructions d⟩
  exact code builds safe fun soft => .of_unmarked (ends soft) h.mark_not_mem

/-- Quiet events that replace no values by none. -/
theorem quiet_of_shifts {env : Env} (h : Quiet env es) (shifts : Shifts (instructions es) 0 0) :
    Steady structural es :=
  .quiet h shifts.isSome fun _ => shifts.height

/-- The value of a condition is taken off by a jump. -/
theorem jumpUnless {env : Env} (label : Nat) (h : Quiet env es)
    (shifts : Shifts (instructions es) 0 1) (builds : Builds fs { code := [.jumpUnless label] }) :
    Steady structural (es ++ fs) := by
  have taken : Shifts (instructions es ++ [.jumpUnless label]) 0 0 :=
    shifts.append (.instruction (.jumpUnless label) nofun 0)
  have builds : Builds (es ++ fs) { code := instructions es ++ [.jumpUnless label] } :=
    .append (fun d => ⟨_, h.replay_instructions d⟩) builds
  refine .code builds taken.isSome fun _ => .of_unmarked taken.height ?_
  simp [h.mark_not_mem]

/-- The code of a function is not part of the code around it. -/
theorem definition (f symbol : Symbol) (link : String) (signature : Signature) (name : String)
    (type : ValueType) (h : Steady structural es) :
    Steady structural
      ([.scope (.declare f), .code (.openFunction link signature), .scope .enter,
          .code (.reserveLocal name type), .scope (.declare symbol)] ++
        es ++ [.scope .leave, .code .closeFunction]) := by
  obtain ⟨p, builds, safe, balanced⟩ := h
  refine ⟨_, builds.definition f symbol link signature name type, ⟨fun _ => rfl, ?_⟩, ?_⟩
  · intro b mem
    rcases List.mem_append.1 mem with mem | mem
    · exact safe.functions b mem
    · obtain rfl := List.mem_singleton.1 mem
      apply Piece.neverUnderflows_body
      exact safe.code
  · intro soft
    have inner := balanced fun loud => soft ((loud.right _).left _)
    refine ⟨.of_unmarked rfl (by simp), ?_⟩
    intro b mem
    rcases List.mem_append.1 mem with mem | mem
    · exact inner.functions b mem
    · obtain rfl := List.mem_singleton.1 mem
      apply Piece.isBalanced_body
      exact inner.code

end Steady

/-! ## The correspondence -/

/-- Attempts that go through replace the values, and those that are given up have enough of them and
leave none of them unless there is a report of that. Statements and declarations are steady. -/
def stacking : SameText where
  Passes env m k es _ := Quiet env es ∧ Shifts (instructions es) m k
  Fails env m es _ := Quiet env es ∧ (∀ n, (height? (instructions es) (n + m)).isSome) ∧
    (Loud env.structural es ∨ height? (instructions es) m = some 0)
  Closes env _ es _ _ _ := Steady env.structural es

theorem ne_ret_of_emitted {env : Env} {i : Instruction}
    (h : stacking.correspondence.Emitted env i i) : i ≠ .ret := by
  rintro rfl
  cases h with
  | fixed h => cases h.isInert
  | literal _ h => cases Token.Kind.isInert_literal h
  | signedLiteral _ h => cases Token.Kind.isInert_signedLiteral h

theorem stacking_lawfulEvents : stacking.correspondence.LawfulEvents where
  nil := ⟨.nil, .nil _⟩
  append {env m k l es _ fs _} he hf := by
    refine ⟨he.1.append hf.1, ?_⟩
    rw [instructions_append]
    exact he.2.append hf.2
  append_fails {env m k es _ fs _} he hf := by
    obtain ⟨quiet, shifts⟩ := he
    obtain ⟨quiet', safe, ends⟩ := hf
    refine ⟨quiet.append quiet', ?_, ?_⟩
    · intro n
      obtain ⟨j, -, height⟩ := shifts n
      rw [instructions_append, height?_append, height]
      exact safe j
    · refine ends.imp (fun loud => loud.right es) fun ends => ?_
      rw [instructions_append, height?_append, shifts.height]
      exact ends
  emit m _ emitted := by
    obtain rfl := SameText.eq_of_emitted emitted
    exact ⟨.emit (permits_of_emitted emitted) .nil, .instruction _ (ne_ret_of_emitted emitted) m⟩
  ret {_ m} := ⟨.emit trivial .nil, .ret m⟩
  warn _ _ _ := ⟨.report _ _ _ .nil, .nil _⟩
  error _ _ hs _ := SameText.same_resumed hs
    ⟨.report _ _ _ .nil, fun _ => rfl, .inl (.inl (Faulty.head _ _ _))⟩
  missing _ hs _ symbol := by
    refine SameText.same_resumed hs ⟨.report _ _ _ .nil, fun _ => rfl, ?_⟩
    rcases symbol with rfl | rfl
    · exact .inl (.inr ⟨_, _, List.mem_cons_self⟩)
    · exact .inr rfl

theorem redeclaration_steady (env : Env) (structural : Severity) (name : String)
    (pos : Position) : Steady structural (redeclaration env name pos) := by
  unfold redeclaration
  split
  · exact .silent (.skip rfl (.silent rfl))
  · exact .silent (.silent rfl)

theorem stacking_lawful : stacking.correspondence.LawfulProgram where
  toLawfulSettings := SameText.lawfulSettings {}
  guise := SameText.same_lawful fun _ => trivial
  toLawfulEvents := stacking_lawfulEvents
  loops {env env'} henv := by
    have same : env.loop = env'.loop := henv.loop
    rw [Correspondence.Jumps, ← same]
    cases loop : env.loop with
    | none => exact .none
    | some t =>
      exact .some ⟨⟨.emit ⟨t, loop, .inr rfl⟩ .nil, .instruction (.jump t.exit) (by simp) 0⟩,
        ⟨.emit ⟨t, loop, .inl rfl⟩ .nil, .instruction (.jump t.next) (by simp) 0⟩⟩
  redeclaration _ _ _ hs _ := SameText.same_resumed hs (redeclaration_steady _ _ _ _)
  passed h := .quiet_of_shifts h.1 h.2
  failed h := .quiet h.1 h.2.1 h.2.2.resolve_left
  followed := .append
  block inner := .append (.append (.silent (.silent rfl)) inner) (.silent (.silent rfl))
  declare _ _ _ _ _ _ := .silent (.skipLast rfl (.reserveLocal _ _))
  define _ _ _ inner := .definition _ _ _ _ _ _ inner
  ifThen _ test inner :=
    .append (.append (.jumpUnless _ test.1 test.2 (.append .reserveLabel (.emit _))) inner)
      (.mark _)
  ifElse _ test inner _ other :=
    .append (.append (.append
      (.append (.jumpUnless _ test.1 test.2 (.append .reserveLabel (.emit _))) inner)
      (.append .reserveLabel (.append (.jump _) (.mark _)))) other) (.mark _)
  loop {env c _ _ _ _ _ _} _ test inner := by
    have begins : Steady env.structural
        [.code .reserveLabel, .code .reserveLabel, .emit (.mark c.labels)] :=
      .append .reserveLabel (.append .reserveLabel (.mark _))
    have turns := begins.append (.jumpUnless (c.labels + 1) test.1 test.2 (.emit _))
    rw [← List.append_assoc] at turns
    exact .append (.append turns inner) (.append (.jump _) (.mark _))
  failedLoop _ test :=
    .append (.append (.append .reserveLabel (.append .reserveLabel (.mark _)))
      (.quiet test.1 test.2.1 test.2.2.resolve_left)) (.mark _)

theorem program_steady (env : Env) (c : Counters) (s : Tokens) :
    Steady env.structural (program env c s).events :=
  ((Correspondence.program_matches stacking_lawful (.refl env trivial rfl rfl) (rfl : c = c)
    ⟨rfl, fun _ _ => trivial⟩).resolve_left id).2.events

/-! ## Compilations -/

theorem Pass.steady_run (structural : Severity) (scopes : Scopes) (s : Tokens) :
    Steady structural (run structural scopes s).events := by
  have types : Builds (ValueType.primitives.map fun x => .scope (.bindBase x.1 x.2)) {} :=
    .skip rfl (.skip rfl (.skip rfl (.skip rfl (.silent rfl))))
  exact .append (.silent types)
    (program_steady { scopes := scopes.withPrimitives, structural } {} s)

def Diagnostic.IsMissingParenthesis (d : Diagnostic) : Prop :=
  ∃ found, d.message = (Problem.unexpected (.symbol ")") found).message

/-- **Code keeps to the stack.** Whatever the source text, the scopes and the severity of a missing
symbol, no instruction of any body takes off a value that is not there, read in the order of the
code. In an accepted program the stack is empty at every mark and at the end of every body, if a
missing symbol is an error or none of the diagnostics is about a missing `)`. No other symbol can be
missing in an accepted program and leave values behind. -/
theorem stack_disciplined (source : String) (structural : Severity) (scopes : Scopes) :
    (∃ error, scan source = .error error ∧
      compile source structural scopes = .error (.lexical error)) ∨
    ∃ c, compile source structural scopes = .ok c ∧
      (∀ b ∈ c.listing.bodies, b.NeverUnderflows) ∧
      (c.accepted = true →
        (structural = .error ∨ ∀ d ∈ c.diagnostics, ¬ d.IsMissingParenthesis) →
        ∀ b ∈ c.listing.bodies, b.IsBalanced) := by
  cases scanned : scan source with
  | error error => exact .inl ⟨error, rfl, by simp [compile, scanned]⟩
  | ok ts =>
    obtain ⟨c, compiled, listed, accepted, diagnosed⟩ := compile_of_scan scanned structural scopes
    obtain ⟨p, builds, safe, balanced⟩ := Pass.steady_run structural scopes (.ofList ts)
    have bodies : c.listing.bodies = p.body entryName none :: p.functions := by
      rw [Pass.listing_eq, builds.bodies_replay] at listed
      rw [← Except.ok.inj listed]
    refine .inr ⟨c, compiled, ?_, ?_⟩
    · rw [bodies]
      intro b mem
      rcases List.mem_cons.1 mem with rfl | mem
      · exact Piece.neverUnderflows_body safe.code _ _
      · exact safe.functions b mem
    · intro isAccepted noMissing
      rw [accepted, Pass.accepted_iff] at isAccepted
      have soft : ¬ Loud structural (Pass.run structural scopes (.ofList ts)).events := by
        rintro (faulty | ⟨pos, found, reported⟩)
        · exact isAccepted.1 faulty
        · rcases noMissing with rfl | none
          · exact isAccepted.1 ⟨pos, _, reported⟩
          · rw [diagnosed] at none
            exact none ⟨structural, pos, _⟩ (mem_diagnostics_iff.2 ⟨_, reported, rfl⟩) ⟨found, rfl⟩
      have balanced := balanced soft
      rw [bodies]
      intro b mem
      rcases List.mem_cons.1 mem with rfl | mem
      · exact Piece.isBalanced_body balanced.code _ _
      · exact balanced.functions b mem

theorem Diagnostic.IsMissingParenthesis.begins {d : Diagnostic} (h : d.IsMissingParenthesis) :
    "expected \")\"".toList <+: d.message.toList := by
  obtain ⟨found, message⟩ := h
  have spelled : (Problem.unexpected (.symbol ")") found).message =
      "expected \")\"" ++ ", but got \"" ++ found.text ++ "\"" := rfl
  rw [message, spelled, String.append_assoc, String.append_assoc, String.toList_append]
  exact List.prefix_append _ _

/-- What a source text is compiled to if missing symbols are no errors. -/
def lenient? (source : String) : Option Compilation := (compile source .warning).toOption

/-- A loop, and behind it an assignment without its `;` in a block without its end. -/
def unterminatedSource : String := "\x7b int x; while (x < 3) x++; x = 0"

theorem stack_disciplined_unterminatedSource : ∃ c, compile unterminatedSource .warning = .ok c ∧
    c.accepted = true ∧ c.diagnostics.length = 2 ∧ ∀ b ∈ c.listing.bodies, b.IsBalanced := by
  have facts : ∃ c ∈ lenient? unterminatedSource, c.accepted = true ∧ c.diagnostics.length = 2 ∧
      ∀ d ∈ c.diagnostics, ¬ "expected \")\"".toList <+: d.message.toList := by decide +kernel
  rcases stack_disciplined unterminatedSource .warning {} with
    ⟨_, _, failed⟩ | ⟨c, compiled, -, balanced⟩
  · simp [lenient?, failed, Except.toOption] at facts
  · obtain ⟨c', same, accepted, two, others⟩ := facts
    rw [lenient?, compiled] at same
    cases same
    exact ⟨c, compiled, accepted, two,
      balanced accepted (.inr fun d mem missing => others d mem missing.begins)⟩

/-- A loop around an expression whose parenthesis is not closed. -/
def leakySource : String := "\x7b int x; while (x < 3) (x++; \x7d"

/-- The program is accepted with a warning, and the value of the expression stays on the stack. -/
theorem stack_not_disciplined_leakySource : ∃ c b, compile leakySource .warning = .ok c ∧
    c.accepted = true ∧ b ∈ c.listing.bodies ∧ height? b.code.toList 0 = some 1 ∧
    ¬ b.IsBalanced := by
  have facts : ∃ c ∈ lenient? leakySource, c.accepted = true ∧
      ∃ b ∈ c.listing.bodies, height? b.code.toList 0 = some 1 := by decide +kernel
  obtain ⟨c, found, accepted, b, mem, height⟩ := facts
  have compiled : compile leakySource .warning = .ok c := by
    unfold lenient? at found
    cases result : compile leakySource .warning with
    | error e => simp [result, Except.toOption] at found
    | ok c' => simp_all [Except.toOption]
  refine ⟨c, b, compiled, accepted, mem, height, ?_⟩
  intro balanced
  cases height.symm.trans balanced.ends

end OnePass
