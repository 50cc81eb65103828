import OnePass.Proofs.Definitions

/-!
# Calls

A call names the function that it calls by link, and the link was found through the scopes when the
call was read. That the link leads to a body is shown here, and to which one: to the body of the
function that the innermost declaration of the called name introduced, whatever other functions of
that name there are, and however many of them are still to come.
-/

namespace OnePass

/-- The acts behind an event of a transcript. -/
theorem eventsOf_eq_append {acts : List Act} {es fs : List Event} {e : Event}
    (h : eventsOf acts = es ++ e :: fs) : ∃ before cause after,
      acts = before ++ .done ⟨e, cause⟩ :: after ∧ eventsOf before = es := by
  obtain ⟨earlier, rest, split, rfl, hrest⟩ := List.map_eq_append_iff.1 h
  obtain ⟨⟨event, cause⟩, later, rfl, rfl, -⟩ := List.map_eq_cons_iff.1 hrest
  obtain ⟨before, behind, rfl, rfl, hbehind⟩ := List.filterMap_eq_append_iff.1 split
  obtain ⟨skipped, a, after, rfl, none, entry, -⟩ := List.filterMap_eq_cons_iff.1 hbehind
  obtain rfl : a = .done ⟨event, cause⟩ := by
    cases a with
    | done entry' => exact congrArg _ (Option.some.inj entry)
    | _ => cases entry
  refine ⟨before ++ skipped, cause, after, by simp, ?_⟩
  have nothing : entriesOf skipped = [] := List.filterMap_eq_nil_iff.2 none
  rw [eventsOf, entriesOf_append, nothing, List.append_nil]
  rfl

/-- A call of the name `f` by a link is a call of the `m`-th definition: its header introduced the
declaration of `f` that is the innermost one, and its body alone has the link. -/
structure Ledger.Calls (L : Ledger) (headers : List Header) (bodies : List (Nat × Body))
    (f link : String) (signature : Signature) (m : Nat) : Prop where
  innermost : ∃ h D, headers[m]? = some h ∧ h.name = f ∧ h.signature = signature ∧
    L.find? f = some D ∧ D.symbol = ⟨f, .function link signature, some h.pos⟩
  body : ∃ b, (m + 1, b) ∈ bodies ∧ b.name = link ∧ b.signature = some signature
  only : ∀ n b, (n + 1, b) ∈ bodies → b.name = link → n = m

namespace Session.Completes

variable {x : Session} {structural : Severity} {host : String → Option ValueType} {text : String}
  {ts : List Token}

/-- A name that stands for a function is that of a header, and calls the header's body. -/
theorem calls (h : x.Completes structural { host } (.ofList ts)) (scanned : scan text = .ok ts)
    {before after : List Act} (split : x.transcript = before ++ after) {y : Mention} {link : String}
    {signature : Signature}
    (stands : y.StandsFor (Scopes.replay { host } (eventsOf before)) (.function link signature)) :
    ∃ m, (Ledger.after {} (eventsOf before)).Calls (headersOf x.transcript)
      ((Ledger.after {} (eventsOf x.transcript)).bodies (Draft.replay {} (eventsOf x.transcript)))
      y.name link signature m := by
  have shown := Ledger.Shows.after (L := {}) (s := { host }) ⟨rfl, rfl⟩ (eventsOf before)
  obtain ⟨D, found, meaning⟩ : ∃ D, (Ledger.after {} (eventsOf before)).find? y.name = some D ∧
      D.symbol.meaning = .function link signature := by
    unfold Mention.StandsFor at stands
    rw [shown.find?_eq] at stands
    simpa using stands
  have declared : D.symbol ∈ functionsIn (eventsOf x.transcript) := by
    rw [split, eventsOf_append, functionsIn_append]
    exact List.mem_append_left _ (Ledger.mem_functionsIn (List.mem_of_find?_eq_some found) meaning)
  obtain ⟨m, hm⟩ := List.mem_iff_getElem?.1 declared
  rw [h.functions_eq, getElem?_introduced_nil] at hm
  obtain ⟨header, read, symbol⟩ := hm
  have name : header.name = y.name := by
    rw [← Ledger.name_of_find? found, symbol]
  rw [symbol] at meaning
  obtain ⟨rfl, rfl⟩ := Meaning.function.inj meaning
  have defined := h.definedBy scanned
  obtain ⟨b, hb, hlink, hs⟩ := defined.body read
  refine ⟨m, ⟨header, D, read, name, rfl, found, name ▸ symbol⟩, ⟨b, hb, hlink, hs⟩, ?_⟩
  intro n b' hb' same
  exact defined.distinct n m b' b hb' hb (same.trans hlink.symm)

/-- Every call in a body was emitted for a name that calls its definition, after the argument had
been checked, and its procedure was left with the type that the definition returns. -/
theorem origin_of_call (h : x.Completes structural { host } (.ofList ts))
    (scanned : scan text = .ok ts) {n j : Nat} {b : Body} {link : String}
    (hb : (n, b) ∈ (Ledger.after {} (eventsOf x.transcript)).bodies
      (Draft.replay {} (eventsOf x.transcript))) (hj : b.code[j]? = some (.call link)) :
    ∃ (before : List Act) (y : Mention) (signature : Signature) (after : List Act) (m : Nat),
      x.transcript = before ++ .done ⟨.emit (.call link), some y⟩ ::
        .leave (some signature.ret) :: after ∧
      y.StandsIn ts ∧ (Ledger.after {} (eventsOf before)).current = n ∧
      (Draft.replay {} (eventsOf before)).current.code.size = j ∧
      ArgumentChecked before signature.param ∧
      (Ledger.after {} (eventsOf before)).Calls (headersOf x.transcript)
        ((Ledger.after {} (eventsOf x.transcript)).bodies
          (Draft.replay {} (eventsOf x.transcript))) y.name link signature m := by
  obtain ⟨earlier, later, split, current, size⟩ := Ledger.origin_of_code hb hj
  obtain ⟨before, cause, after, transcript, rfl⟩ := eventsOf_eq_append split
  obtain ⟨y, signature, after, rfl, stands, checked, rfl⟩ := h.fits transcript nofun
  obtain ⟨m, calls⟩ := h.calls scanned transcript stands
  have logged : ⟨.emit (.call link), some y⟩ ∈ x.state.log := by
    rw [← h.log, transcript]
    simp [entriesOf, Act.entry?]
  rw [h.state] at logged
  have inText : y.StandsIn ts := parse_cites structural { host } ts _ logged y rfl
  exact ⟨before, y, signature, after, m, transcript, inText, current, size, checked, calls⟩

end Session.Completes

/-- **Calls reach the visible definition.** For every source text and severity, accepted or not, and
whatever types the host knows, there is a lexical error or the text is compiled, and then a session
on it comes to its end that did what was compiled. With the bodies numbered as they were begun:

* for every header that was read up to its body, the six tokens of the header came last and both
  types in it were known, and at once the function was declared and its body begun;
* the body numbered 0 is the entry; all others are the definitions, one for every header, with the
  signature of the header, and with its name as link, numbered by how many headers of the same name
  came before; no two have the same link, also as the listing has them;
* every call in a body was emitted while code went to that body and so far, for a name that stands
  in the source, whose innermost declaration was that of exactly the definition with the link of the
  call; the argument had just been checked against the parameter of its signature, and what it
  returns is the type that was handed on for the call. -/
theorem calls_reach_definition (source : String) (structural : Severity)
    (host : String → Option ValueType) :
    (∃ error, scan source = .error error ∧
      compile source structural { host } = .error (.lexical error)) ∨
    ∃ (ts : List Token) (c : Compilation) (x : Session),
      scan source = .ok ts ∧ compile source structural { host } = .ok c ∧
      Session.Parses structural { host } (.ofList ts) c.accepted x ∧
      let ledger (acts : List Act) := Ledger.after {} (eventsOf acts)
      let draft (acts : List Act) := Draft.replay {} (eventsOf acts)
      let bodies := (ledger x.transcript).bodies (draft x.transcript)
      let headers := headersOf x.transcript
      eventsOf x.transcript = (Pass.run structural { host } (.ofList ts)).events ∧
      tokensRead x.transcript = ts.takeWhile (!·.isEof) ∧
      bodies.map Prod.snd = c.listing.bodies ∧
      (∀ (before : List Act) (h : Header) (after : List Act),
        x.transcript = before ++ .header h :: after →
        h.Spelled (Scopes.replay { host } (eventsOf before)) before ∧ h.Begins after) ∧
      DefinedBy headers bodies ∧ (c.listing.bodies.tail.map Body.name).Nodup ∧
      ∀ (n : Nat) (b : Body) (j : Nat) (link : String), (n, b) ∈ bodies →
        b.code[j]? = some (.call link) →
        ∃ (before : List Act) (y : Mention) (signature : Signature) (after : List Act) (m : Nat),
          x.transcript = before ++ .done ⟨.emit (.call link), some y⟩ ::
            .leave (some signature.ret) :: after ∧
          y.StandsIn ts ∧ (ledger before).current = n ∧ (draft before).current.code.size = j ∧
          ArgumentChecked before signature.param ∧
          (ledger before).Calls headers bodies y.name link signature m := by
  cases scanned : scan source with
  | error error => exact .inl ⟨error, rfl, by simp [compile, scanned]⟩
  | ok ts =>
    obtain ⟨c, x, compiled, completes, parsed, bodies⟩ :=
      compile_completes scanned structural { host }
    have defined := completes.definedBy scanned
    refine .inr ⟨ts, c, x, rfl, compiled, parsed, completes.events,
      completes.tokens.trans (Tokens.takeWhile_ofList ts), bodies,
      fun _ _ _ split => completes.headed split, defined, ?_, ?_⟩
    · rw [← bodies]
      exact defined.nodup_definitions
    · intro n b j link hb hj
      exact completes.origin_of_call scanned hb hj

end OnePass
