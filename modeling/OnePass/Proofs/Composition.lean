import OnePass.Proofs.Parallel.Pass

/-!
# Programs one behind another

A program that is accepted leaves nothing behind but what was counted: labels, the locals of the
entry, and the definitions of each name. So a program behind it is read as if it stood alone, and
its listing is relocated: labels are raised everywhere, slots in the entry only, and the links of
functions go on from the definitions that came before (`run_append`).
-/

namespace OnePass

/-! ## Counting definitions -/

/-- Linked functions are begun with links that belong to their names. -/
theorem Linked.map_sourceName {earlier : List String} {fs : List Symbol}
    {os : List (String × Signature)} (linked : Linked earlier fs)
    (opened : List.Forall₂ (fun f o => f.meaning = .function o.1 o.2) fs os)
    (named : ∀ f ∈ fs, isName f.name = true) :
    os.map (sourceName ∘ Prod.fst) = fs.map Symbol.name := by
  induction opened generalizing earlier with
  | nil => rfl
  | @cons f o _ _ meaning _ ih =>
    obtain ⟨⟨signature, link⟩, rest⟩ := linked
    have own : o.1 = numberedLink f.name (earlier.count f.name) :=
      (Meaning.function.inj (meaning.symm.trans link)).1
    have name := sourceName_numberedLink ⟨f.name, named f List.mem_cons_self⟩
    rw [List.map_cons, List.map_cons, ih rest fun g mem => named g (List.mem_cons_of_mem _ mem),
      Function.comp_apply, own, name]

namespace Pass

variable {structural : Severity} {scopes : Scopes} {s : Tokens} {entry : Body}
  {definitions : List Body}

/-- The definitions of a listing are the functions that were begun, in another order. -/
theorem perm_openings (h : (run structural scopes s).listing = .ok ⟨entry :: definitions⟩) :
    (definitions.map Body.name).Perm
      ((openings (run structural scopes s).events).map Prod.fst) := by
  have sound := soundThrough structural scopes s
  rw [listing_eq] at h
  generalize (run structural scopes s).events = es at h sound ⊢
  have numbers := Ledger.perm_numbers sound
  have bodies := Ledger.snd_bodies (Ledger.counts_after es)
  have begun := @Ledger.opening_of_succ es
  rw [Listing.mk.inj (Except.ok.inj h)] at bodies
  obtain ⟨rest, split⟩ : ∃ rest, (Ledger.after {} es).bodies (Draft.replay {} es) =
    (0, (Draft.replay {} es).entry) :: rest := ⟨_, rfl⟩
  rw [split] at numbers bodies begun
  obtain rfl : rest.map Prod.snd = definitions := (List.cons.inj bodies).2
  have numbers : (rest.map Prod.fst).Perm ((List.range (openings es).length).map Nat.succ) := by
    rw [List.range_succ_eq_map] at numbers
    exact numbers.cons_inv
  -- The body with number `k` is the one that was begun in the place before.
  let begunAs (k : Nat) : Option String := (openings es)[k - 1]?.map Prod.fst
  have names : rest.map (fun x => some x.2.name) = (rest.map Prod.fst).map begunAs := by
    rw [List.map_map]
    refine List.map_congr_left fun x mem => ?_
    obtain ⟨k, b⟩ := x
    obtain ⟨n, -, rfl⟩ := List.mem_map.1 (numbers.mem_iff.1 (List.mem_map_of_mem mem))
    obtain ⟨signature, -, opened⟩ := begun (List.mem_cons_of_mem _ mem)
    simp [begunAs, opened]
  refine (List.map_perm_map_iff fun _ _ => Option.some.inj).1 ?_
  calc ((rest.map Prod.snd).map Body.name).map some
    _ = (rest.map Prod.fst).map begunAs := by simpa using names
    List.Perm _ (((List.range (openings es).length).map Nat.succ).map begunAs) := numbers.map _
    _ = ((openings es).map Prod.fst).map some := by
      refine List.ext_getElem (by simp) ?_
      intro n less _
      have less : n < (openings es).length := by simpa using less
      simp [begunAs, less]

/-- Functions are declared with names. -/
theorem isName_functionsIn (structural : Severity) (scopes : Scopes) (named : s.Named) :
    ∀ f ∈ functionsIn (run structural scopes s).events, isName f.name = true := by
  obtain ⟨x, completes⟩ := Session.completes structural scopes s
  rw [← completes.events, completes.functions_eq]
  intro f mem
  obtain ⟨n, found⟩ := List.mem_iff_getElem?.1 mem
  obtain ⟨h, header, rfl⟩ := getElem?_introduced_nil.1 found
  exact named _ (completes.mem_source (List.mem_of_getElem? header)) h.name rfl

/-- The definitions of a listing have the names of the functions that were declared. -/
theorem perm_functionsIn (named : s.Named)
    (h : (run structural scopes s).listing = .ok ⟨entry :: definitions⟩) :
    (definitions.map fun b => sourceName b.name).Perm
      ((functionsIn (run structural scopes s).events).map Symbol.name) := by
  obtain ⟨later, defines⟩ := defines structural scopes s
  have opened := (perm_openings h).map sourceName
  rw [List.map_map, List.map_map] at opened
  refine opened.trans (.of_eq ?_)
  exact defines.linked.map_sourceName defines.opened (isName_functionsIn structural scopes named)

end Pass

/-! ## Relocation -/

/-- From a program on its own to the same program behind one with the given entry and definitions,
for which `labels` labels were reserved. -/
def Transfer.behind (labels : Nat) (entry : Body) (definitions : List Body) : Transfer where
  name := id
  injective := Function.injective_id
  pos := Eq
  labels := labels
  locals := entry.locals.size
  defined := definitions.map fun b => sourceName b.name
  noElse := noElse_nil

/-- From a program to the same program with more tokens behind it. -/
def Transfer.before (more : List Token) (noElse : ∀ t ∈ more.head?, t.kind ≠ .keyword "else") :
    Transfer where
  name := id
  injective := Function.injective_id
  pos := Eq
  more := more
  noElse := noElse

theorem Token.carried_self {ρ : Transfer} (name : ρ.name = id) (pos : ρ.pos = Eq) {ts : List Token}
    (named : ∀ t ∈ ts, ∀ x, t.kind = .ident x → isName x = true) :
    List.Forall₂ (Token.Carried ρ) ts ts := by
  refine List.forall₂_same.2 fun t mem => ⟨?_, ?_, named t mem, ?_⟩
  · rw [name, Token.Kind.rename_id]
  · rw [pos]
  · rw [name]
    exact fun _ _ => rfl

theorem Diagnostic.Carried.eq {ρ : Transfer} (name : ρ.name = id) (pos : ρ.pos = Eq)
    {d d' : Diagnostic} (h : d.Carried ρ d') : d' = d := by
  have message := h.message_eq name
  have same := h.pos
  rw [pos] at same
  obtain ⟨severity, at_, text⟩ := d
  obtain ⟨severity', at', text'⟩ := d'
  obtain rfl : severity' = severity := h.severity
  obtain rfl : at_ = at' := same
  obtain rfl : text' = text := message
  rfl

/-- A program that stands alone has counted what is to be counted on from. -/
theorem Pass.counters_carried (structural : Severity) (scopes : Scopes) {s : Tokens} {p : Piece}
    (named : s.Named)
    (builds : Builds (program { scopes := scopes.withPrimitives, structural } {} s).events p) :
    Counters.Carried (.behind (reservedIn (run structural scopes s).events)
      (p.body entryName none) p.functions) 0 {}
      (program { scopes := scopes.withPrimitives, structural } {} s).value := by
  have trace := program_traced { scopes := scopes.withPrimitives, structural } {} s
  have perm := perm_functionsIn named (listing_run_eq structural scopes builds)
  refine ⟨?_, ?_, ?_⟩
  · have types : reservedIn (ValueType.primitives.map fun x => .scope (.bindBase x.1 x.2)) = 0 :=
      rfl
    refine trace.labels_eq.trans (congrArg (0 + ·) ?_)
    rw [run, reservedIn_append, types, Nat.zero_add]
    rfl
  · obtain ⟨marks, replayed⟩ := builds {}
    have slot := trace.nextSlot_replay (d := {}) rfl
    rw [replayed, Draft.nextSlot_extend] at slot
    change 0 + p.locals.length = _ at slot
    simpa [Transfer.shift, Transfer.behind, Piece.body] using slot.symm
  · intro name
    have names := trace.defines.names
    have events : functionsIn (run structural scopes s).events =
      functionsIn (program { scopes := scopes.withPrimitives, structural } {} s).events := rfl
    rw [names, List.append_nil, List.count_reverse]
    simpa [Transfer.behind, events] using (perm.count_eq name).symm

theorem Tokens.front_ofList {ts : List Token} (noEof : ∀ t ∈ ts, t.isEof = false) :
    (ofList ts).front = ts := by
  rcases ts.eq_nil_or_concat' with rfl | ⟨front, t, rfl⟩
  · rfl
  · have last : t.isEof = false := noEof t (by simp)
    rw [ofList_concat, last]
    rfl

/-- What is read of a list of tokens does not depend on where its end of input is. -/
theorem Pass.events_run_front (structural : Severity) (scopes : Scopes) (A : List Token)
    {B : List Token} (noEof : ∀ t ∈ B, t.isEof = false) :
    (run structural scopes ⟨B, (Tokens.ofList (A ++ B)).final⟩).events =
      (run structural scopes (.ofList B)).events := by
  rcases B.eq_nil_or_concat' with rfl | ⟨front, t, rfl⟩
  · have none (final : Position) : (run structural scopes ⟨[], final⟩).events =
        ValueType.primitives.map fun x => .scope (.bindBase x.1 x.2) := by
      have atEnd : (⟨[], final⟩ : Tokens).atEnd = true := rfl
      simp [run, program, atEnd]
    exact (none _).trans (none _).symm
  · have last : t.isEof = false := noEof t (by simp)
    rw [← List.append_assoc, Tokens.ofList_concat, Tokens.ofList_concat, last]
    rfl

/-- The surroundings in which a program is read that has to be complete. -/
def Env.strict (host : String → Option ValueType) : Env :=
  { scopes := Scopes.withPrimitives { host }, structural := .error }

section Append

variable {host : String → Option ValueType} {A B : List Token}

/-- A pass begins with what it does without the tokens behind, and goes on with the counters that
were reached. -/
theorem program_append (named : ∀ t ∈ A, ∀ x, t.kind = .ident x → isName x = true)
    (noEof : ∀ t ∈ A ++ B, t.isEof = false)
    (proper : ¬ Faulty (program (.strict host) {} (.ofList A)).events)
    (noElse : ∀ t ∈ B.head?, t.kind ≠ .keyword "else") :
    ∃ es c p,
      diagnostics es = diagnostics (program (.strict host) {} (.ofList A)).events ∧
      Builds (program (.strict host) {} (.ofList A)).events p ∧ Builds es p ∧
      Counters.Carried (.behind (reservedIn (Pass.run .error { host } (.ofList A)).events)
        (p.body entryName none) p.functions) 0 {} c ∧
      (program (.strict host) {} (.ofList (A ++ B))).events =
        es ++ (program (.strict host) c ⟨B, (Tokens.ofList (A ++ B)).final⟩).events := by
  have noEofA : ∀ t ∈ A, t.isEof = false := fun t mem => noEof t (List.mem_append_left B mem)
  have front : (Tokens.ofList A).front = A := Tokens.front_ofList noEofA
  have around : Env.Carried (.before B noElse) (.strict host) (.strict host) :=
    ⟨Scopes.carried_withPrimitives (fun _ _ => rfl) (fun _ => rfl), rfl, rfl, rfl, fun _ => rfl⟩
  have start : Counters.Carried (.before B noElse) 0 {} {} := ⟨rfl, rfl, fun _ => rfl⟩
  have stream : (Tokens.ofList A).Carried (.before B noElse) (.ofList (A ++ B)) := by
    refine ⟨⟨A, Tokens.front_ofList noEof, ?_⟩, ?_⟩
    · rw [front]
      exact Token.carried_self rfl rfl named
    · rintro (rfl : B = [])
      rw [List.append_nil]
      rfl
  obtain ⟨es, c, carries, counted, events⟩ :=
    program_continues around start stream (by rwa [front]) proper
  obtain ⟨p, p₁, builds, builds₁, carried⟩ := carries.builds
  obtain rfl : p₁ = p := carried.eq rfl ⟨rfl, rfl, rfl⟩
  have first := Pass.counters_carried .error { host } (s := .ofList A)
    (by rwa [Tokens.Named, front]) builds
  refine ⟨es, c, p₁, ?_, builds, builds₁, ⟨?_, ?_, ?_⟩, events⟩
  · exact eq_of_forall₂ (fun _ _ => Diagnostic.Carried.eq rfl rfl) carries.reports
  · exact counted.labels.trans first.labels
  · exact counted.locals.trans first.locals
  · intro name
    exact (counted.defined name).trans (first.defined name)

end Append

/-- **Programs compose.** Let a list `A` of tokens be accepted on its own, where a missing bracket
or terminator is an error, and let `B` be any list that does not begin with `else`; all tokens are
such as source texts hold, and no end of input is among them. Then of the pass over `A ++ B`

* the diagnostics are those of `A` and behind them those of `B`;
* acceptance is that of `B`;
* the entry has the locals of `A`'s entry and then those of `B`'s, and the code of `A`'s entry and
  then that of `B`'s, with the slots raised by the number of `A`'s locals;
* the definitions are those of `A` and then those of `B`, with their slots as they are.

In the code of `B` all labels are raised by the number of labels reserved for `A`, and every link of
the `n`-th function of a name, in definitions and in calls, has become the link of the `(c + n)`-th,
where `c` is the number of definitions of that name in `A`. -/
theorem run_append (host : String → Option ValueType) (A B : List Token)
    (scannable : ∀ t ∈ A ++ B, t.kind.Scannable) (noEof : ∀ t ∈ A ++ B, t.isEof = false)
    (accepted : (Pass.run .error { host } (.ofList A)).accepted = true)
    (noElse : ∀ t ∈ B.head?, t.kind ≠ .keyword "else") :
    let first := Pass.run .error { host } (.ofList A)
    let second := Pass.run .error { host } (.ofList B)
    let both := Pass.run .error { host } (.ofList (A ++ B))
    both.diagnostics = first.diagnostics ++ second.diagnostics ∧
    both.accepted = second.accepted ∧
    ∃ (entry entry' : Body) (definitions definitions' moved : List Body) (code : List Instruction),
      first.listing = .ok ⟨entry :: definitions⟩ ∧
      second.listing = .ok ⟨entry' :: definitions'⟩ ∧
      both.listing = .ok ⟨{ entry with
        locals := entry.locals ++ entry'.locals
        code := entry.code ++ code.toArray } :: (definitions ++ moved)⟩ ∧
      let ρ := Transfer.behind (reservedIn first.events) entry definitions
      List.Forall₂ (Instruction.Carried ρ entry.locals.size) entry'.code.toList code ∧
      List.Forall₂ (Body.Carried ρ) definitions' moved := by
  intro first second both
  have named : ∀ t ∈ A ++ B, ∀ x, t.kind = .ident x → isName x = true :=
    fun t mem _ => (scannable t mem).isName
  have noEofB : ∀ t ∈ B, t.isEof = false := fun t mem => noEof t (List.mem_append_right A mem)
  have proper : ¬ Faulty (program (.strict host) {} (.ofList A)).events := fun faulty =>
    ((Pass.accepted_iff _).1 accepted).1 (faulty.right _)
  obtain ⟨es, c, p, reports, builds, builds₁, counters, events⟩ :=
    program_append (fun t mem => named t (List.mem_append_left B mem)) noEof proper noElse
  -- Behind `A` the tokens of `B` are read as they are alone.
  have alone := Pass.events_run_front .error { host } A noEofB
  generalize (Tokens.ofList (A ++ B)).final = final at events alone
  have around : Env.Carried (.behind (reservedIn first.events) (p.body entryName none) p.functions)
      (.strict host) (.strict host) :=
    ⟨Scopes.carried_withPrimitives (fun _ _ => rfl) (fun _ => rfl), rfl, rfl, rfl, fun _ => rfl⟩
  have stream : Tokens.Carried
      (.behind (reservedIn first.events) (p.body entryName none) p.functions) ⟨B, final⟩
      ⟨B, final⟩ := by
    refine ⟨⟨B, (List.append_nil B).symm, Token.carried_self rfl rfl ?_⟩, fun _ => rfl⟩
    exact fun t mem => named t (List.mem_append_right A mem)
  have later := program_carries rfl around counters stream
  obtain ⟨q, q', builds', builds₂, moved⟩ := later.builds
  have reported : both.diagnostics = first.diagnostics ++ second.diagnostics := by
    calc both.diagnostics
      _ = diagnostics (program (.strict host) {} (.ofList (A ++ B))).events := rfl
      _ = diagnostics es ++ diagnostics (program (.strict host) c ⟨B, final⟩).events := by
        rw [events, diagnostics_append]
      _ = first.diagnostics ++ diagnostics (program (.strict host) {} ⟨B, final⟩).events := by
        rw [reports, eq_of_forall₂ (fun _ _ => Diagnostic.Carried.eq rfl rfl) later.reports]
        rfl
      _ = first.diagnostics ++ second.diagnostics := by
        rw [Pass.diagnostics, Pass.diagnostics, ← alone]
        rfl
  refine ⟨reported, ?_, p.body entryName none, q.body entryName none, p.functions, q.functions,
    q'.functions, q'.code, Pass.listing_run_eq _ _ builds, ?_, ?_, moved.code, moved.functions⟩
  · rw [Bool.eq_iff_iff, Pass.accepted_run_iff, Pass.accepted_run_iff]
    change (∀ d ∈ both.diagnostics, _) ↔ ∀ d ∈ second.diagnostics, _
    rw [reported, List.forall_mem_append,
      and_iff_right ((Pass.accepted_run_iff _ _ _).1 accepted)]
  · rw [Pass.listing, ← alone]
    exact Pass.listing_run_eq _ _ builds'
  · have whole : Builds (program (.strict host) {} (.ofList (A ++ B))).events (p ++ q') := by
      rw [events]
      exact builds₁.append builds₂
    refine (Pass.listing_run_eq _ _ whole).trans ?_
    simp [Piece.body, moved.locals, Transfer.behind]

/-- A program with a function, a local and labels. -/
def countdownSource : String :=
  "\x7b int f(int x) \x7b if (x) return 1; return 2; \x7d" ++
  " int a; a = f(3); while (a) a = a - 1; \x7d"

/-- A program with a function of the same name, a local, labels, and a name that is not declared. -/
def undeclaredSource : String :=
  "\x7b int f(int y) \x7b return y; \x7d int b; b = f(4); if (b) b = 0; else b = a; \x7d"

theorem run_append_countdownSource :
    let A := tokensOf countdownSource
    let B := tokensOf undeclaredSource
    let first := Pass.run .error {} (.ofList A)
    let second := Pass.run .error {} (.ofList B)
    let both := Pass.run .error {} (.ofList (A ++ B))
    first.accepted = true ∧ second.accepted = false ∧ (∀ t ∈ B.head?, t.kind ≠ .keyword "else") ∧
    (∀ t ∈ A ++ B, t.kind.Scannable ∧ t.isEof = false) ∧
    both.diagnostics = first.diagnostics ++ second.diagnostics ∧ both.accepted = false ∧
    ∃ (entry entry' : Body) (definitions definitions' moved : List Body) (code : List Instruction),
      first.listing = .ok ⟨entry :: definitions⟩ ∧ second.listing = .ok ⟨entry' :: definitions'⟩ ∧
      both.listing = .ok ⟨{ entry with
        locals := entry.locals ++ entry'.locals
        code := entry.code ++ code.toArray } :: (definitions ++ moved)⟩ ∧
      let ρ := Transfer.behind (reservedIn first.events) entry definitions
      List.Forall₂ (Instruction.Carried ρ entry.locals.size) entry'.code.toList code ∧
      List.Forall₂ (Body.Carried ρ) definitions' moved := by
  intro A B first second both
  have accepted : first.accepted = true := by decide +kernel
  have refused : second.accepted = false := by decide +kernel
  have noElse : ∀ t ∈ B.head?, t.kind ≠ .keyword "else" := by decide +kernel
  have noEof : ∀ t ∈ A ++ B, t.isEof = false := by decide +kernel
  have scannable : ∀ t ∈ A ++ B, t.kind.Scannable := by
    intro t mem
    rcases List.mem_append.1 mem with mem | mem
    · exact scannable_tokensOf countdownSource t mem
    · exact scannable_tokensOf undeclaredSource t mem
  obtain ⟨diagnostics, same, listings⟩ :=
    run_append (fun _ => none) A B scannable noEof accepted noElse
  exact ⟨accepted, refused, noElse, fun t mem => ⟨scannable t mem, noEof t mem⟩, diagnostics,
    same.trans refused, listings⟩

end OnePass
