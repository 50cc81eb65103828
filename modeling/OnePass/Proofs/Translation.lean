import OnePass.Proofs.Labels
import OnePass.Proofs.Reading.Statement

/-!
# Translation

The one pass over the tokens of a program does what is said by its tree: it accepts the program
exactly if the tree keeps the rules of scope and type, and then the listing is the one generated
from the tree.
-/

namespace OnePass

/-! ## Acceptance -/

theorem mem_diagnostics_iff {es : List Event} {d : Diagnostic} :
    d ∈ diagnostics es ↔
      ∃ problem, Event.report d.severity d.pos problem ∈ es ∧ problem.message = d.message := by
  unfold diagnostics
  rw [List.mem_filterMap]
  constructor
  · rintro ⟨e, reported, diagnosed⟩
    cases e with
    | report severity pos problem =>
      cases diagnosed
      exact ⟨problem, reported, rfl⟩
    | scope change => cases diagnosed
    | code command => cases diagnosed
  · rintro ⟨problem, reported, message⟩
    exact ⟨_, reported, by rw [Event.diagnostic?, message]⟩

/-- There are errors among the diagnostics exactly if one was reported. -/
theorem errorCount_eq_zero_iff (es : List Event) :
    Diagnostic.errorCount (diagnostics es) = 0 ↔ ¬ Faulty es := by
  rw [Diagnostic.errorCount, List.countP_eq_zero]
  constructor
  · rintro clean ⟨pos, problem, reported⟩
    refine clean ⟨.error, pos, problem.message⟩ (mem_diagnostics_iff.2 ⟨problem, reported, rfl⟩) ?_
    exact decide_eq_true rfl
  · intro clean d mem isError
    obtain ⟨problem, reported, -⟩ := mem_diagnostics_iff.1 mem
    rw [of_decide_eq_true isError] at reported
    exact clean ⟨d.pos, problem, reported⟩

theorem Mild.severity_eq {es : List Event} (h : Mild es) {d : Diagnostic}
    (mem : d ∈ diagnostics es) : d.severity = .warning := by
  obtain ⟨problem, reported, -⟩ := mem_diagnostics_iff.1 mem
  exact h d.severity d.pos problem reported

theorem Pass.accepted_iff (p : Pass) :
    p.accepted = true ↔ ¬ Faulty p.events ∧ p.rest.atEnd = true := by
  unfold Pass.accepted Pass.diagnostics
  rw [decide_eq_true_iff, errorCount_eq_zero_iff]

/-! ## Programs -/

/-- A list that ends with an end of input is read up to there. -/
theorem Tokens.passes_ofList {ts : List Token} {ks : List Token.Kind}
    (h : ts.map Token.kind = ks ++ [.eof]) :
    ∃ r, (ofList ts).Passes ks r ∧ r.current.kind = .eof := by
  obtain ⟨front, back, rfl, kinds, last⟩ := List.map_eq_append_iff.1 h
  obtain ⟨t, rest, rfl, eof, nil⟩ := List.map_eq_cons_iff.1 last
  obtain rfl := List.map_eq_nil_iff.1 nil
  have stream : ofList (front ++ [t]) = ⟨front, t.pos⟩ := by
    simp [ofList, Token.isEof, eof]
  rw [stream]
  exact ⟨⟨[], t.pos⟩, ⟨front, (List.append_nil _).symm, kinds, rfl⟩, rfl⟩

/-- The surroundings in which a program is read know as much as the empty context. -/
theorem matches_fresh : Env.Matches { scopes := Scopes.fresh } {} :=
  ⟨rfl, rfl, fun _ => rfl, rfl, rfl, rfl⟩

/-- What a pass does with the tokens of a program. -/
theorem Pass.run_program {p : Tree.Statements} (greedy : p.greedy = true) {ts : List Token}
    (tokens : ts.map Token.kind = p.tokens ++ [.eof]) :
    match p.listing? with
    | none => Faulty (run .error {} (.ofList ts)).events
    | some l => Mild (run .error {} (.ofList ts)).events ∧
        (run .error {} (.ofList ts)).rest.atEnd = true ∧
        (run .error {} (.ofList ts)).listing = .ok l := by
  obtain ⟨r, passes, last⟩ := Tokens.passes_ofList tokens
  have tallies : Counters.Tallies {} 0 {} := ⟨rfl, rfl, rfl⟩
  have translates := program_translates p matches_fresh tallies greedy passes last
  unfold Tree.Statements.listing? Tree.Statements.functions?
  cases resolved : p.resolve? {} {} with
  | none =>
    rw [resolved] at translates
    exact Faulty.right translates _
  | some v =>
    obtain ⟨st, inv⟩ := v
    rw [resolved] at translates
    obtain ⟨c, new, fits, yields⟩ := translates
    have builds : Builds (run .error {} (.ofList ts)).events (st.piece none 0 new) :=
      .skip rfl (.skip rfl (.skip rfl (.skip rfl (.skip rfl yields.builds))))
    refine ⟨.scope _ (.scope _ (.scope _ (.scope _ (.scope _ yields.mild)))), ?_, ?_⟩
    · have rest : (run .error {} (.ofList ts)).rest = r := yields.rest
      rw [rest, Tokens.atEnd, Token.isEof, last]
      rfl
    · have locals : inv.locals = new := fits.1
      rw [Pass.listing_eq, builds.bodies_replay]
      simp [Stmt.piece, Piece.body, Function.compiled, locals]

/-- **A program is translated as its tree says**: the tokens of a program are accepted exactly if
its tree keeps the rules of scope and type. Then all diagnostics are warnings, and the listing is
the one that is generated from the tree. -/
theorem translation_eq_reference (p : Tree.Statements) (greedy : p.greedy = true) (ts : List Token)
    (tokens : ts.map Token.kind = p.tokens ++ [.eof]) :
    ((Pass.run .error {} (.ofList ts)).accepted = true ↔ p.listing?.isSome = true) ∧
    ∀ l, p.listing? = some l →
      (Pass.run .error {} (.ofList ts)).listing = .ok l ∧
      ∀ d ∈ (Pass.run .error {} (.ofList ts)).diagnostics, d.severity = .warning := by
  have run := Pass.run_program greedy tokens
  rw [Pass.accepted_iff]
  cases listed : p.listing? with
  | none =>
    rw [listed] at run
    refine ⟨?_, fun l h => by cases h⟩
    simp [run]
  | some l =>
    rw [listed] at run
    obtain ⟨mild, atEnd, listing⟩ := run
    refine ⟨by simp [mild.not_faulty, atEnd], ?_⟩
    intro l' h
    cases h
    exact ⟨listing, fun d mem => mild.severity_eq mem⟩

namespace Tree

def Primary.sum (p : Primary) : Sum := .mk none (.mk (.plain p) .nil) .nil

def Primary.expression (p : Primary) : Expression := .sum p.sum

/-- A program with a widened compound assignment in a loop:
`{ double y; int x; while (x < 3) { y += x; x++; } }`. -/
def growing : Statements :=
  let x : Name := ⟨"x", by decide⟩
  let y : Name := ⟨"y", by decide⟩
  let step : Expression := .sum (.mk none (.mk (.stepBehind (.name x) .up) .nil) .nil)
  let body : Statements :=
    .cons (.eval (Primary.assign y .add (Primary.name x).expression).expression)
      (.cons (.eval step) .nil)
  .cons (.block (.cons (.var .double y) (.cons (.var .int x) .nil))
    (.cons (.loop (.compare (Primary.name x).sum .lt (Primary.literal (.int 3)).sum)
      (.block .nil body)) .nil)) .nil

/-- The tokens of that program, without regard to positions. -/
def growingTokens : List Token :=
  (growing.tokens ++ [Token.Kind.eof]).map fun kind => ⟨kind, .start⟩

end Tree

theorem translation_eq_reference_growing :
    Tree.growing.greedy = true ∧ ∃ l, Tree.growing.listing? = some l ∧
      (Pass.run .error {} (.ofList Tree.growingTokens)).accepted = true ∧
      (Pass.run .error {} (.ofList Tree.growingTokens)).listing = .ok l := by
  have greedy : Tree.growing.greedy = true := by decide
  have listed : Tree.growing.listing?.isSome = true := by decide
  obtain ⟨l, hl⟩ := Option.isSome_iff_exists.1 listed
  have same := translation_eq_reference Tree.growing greedy Tree.growingTokens
    (by simp [Tree.growingTokens, Function.comp_def])
  exact ⟨greedy, l, hl, same.1.2 listed, (same.2 l hl).1⟩

end OnePass
