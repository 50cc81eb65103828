import OnePass.Proofs.Parallel.Pass

/-!
# Layout

Positions are handed through to the diagnostics and decide nothing. So two texts with the same
tokens, however they are laid out, are compiled to the same listing, and their diagnostics are the
same but for positions, which are those of the same tokens in the two texts.
-/

namespace OnePass

/-- The positions of tokens with the same index in two lists. -/
def SamePlace (ts ts' : List Token) (p p' : Position) : Prop :=
  ∃ (i : Nat) (t t' : Token), ts[i]? = some t ∧ ts'[i]? = some t' ∧ p = t.pos ∧ p' = t'.pos

/-- From the tokens of one list to those of another. -/
def Transfer.between (ts ts' : List Token) : Transfer where
  name := id
  injective := Function.injective_id
  pos := SamePlace ts ts'
  noElse := noElse_nil

/-- The streams of two texts with the same kinds of tokens correspond, place by place. -/
theorem carried_of_kinds_eq {source : String} {ts ts' : List Token} (scanned : scan source = .ok ts)
    (same : ts.map Token.kind = ts'.map Token.kind) :
    (Tokens.ofList ts).Carried (.between ts ts') (Tokens.ofList ts') := by
  refine Tokens.carried_ofList rfl (List.forall₂_iff_get.2 ⟨?_, ?_⟩) ?_
  · simpa using congrArg List.length same
  · intro i hi hi'
    have kind : ts'[i].kind = ts[i].kind := by
      simpa [hi, hi'] using (congrArg (·[i]?) same).symm
    refine ⟨?_, ⟨i, ts[i], ts'[i], by simp, by simp, rfl, rfl⟩, ?_, fun _ _ => rfl⟩
    · exact kind.trans (Token.Kind.rename_id _).symm
    · intro name ident
      have scannable : Token.Kind.Scannable ts[i].kind :=
        ⟨source, ts, scanned, ts[i], List.getElem_mem hi, rfl⟩
      exact scannable.isName ident
  · rintro rfl
    obtain ⟨front, last, absurd, -⟩ := scanFrom_proper scanned
    simp at absurd

/-- **Layout does not matter.** Let two texts have tokens of the same kinds, one by one. For every
severity and host, both are compiled, to the same listing, and both are accepted or neither is. They
have the same diagnostics in the same order, but that each stands at the position of a token in the
one text and of the token with the same index in the other. So every diagnostic stands at a token of
its own text; the end of input counts as one. -/
theorem compile_eq_of_kinds_eq (structural : Severity) (host : String → Option ValueType)
    (source source' : String) (ts ts' : List Token) (scanned : scan source = .ok ts)
    (scanned' : scan source' = .ok ts') (same : ts.map Token.kind = ts'.map Token.kind) :
    ∃ c c', compile source structural { host } = .ok c ∧
      compile source' structural { host } = .ok c' ∧
      c'.accepted = c.accepted ∧ c'.listing = c.listing ∧
      List.Forall₂ (fun d d' => d'.severity = d.severity ∧ d'.message = d.message ∧
        SamePlace ts ts' d.pos d'.pos) c.diagnostics c'.diagnostics ∧
      (∀ d ∈ c.diagnostics, ∃ t ∈ ts, d.pos = t.pos) ∧
      ∀ d ∈ c'.diagnostics, ∃ t ∈ ts', d.pos = t.pos := by
  obtain ⟨c, compiled, listed, accepted, reports⟩ := compile_of_scan scanned structural { host }
  obtain ⟨c', compiled', listed', accepted', reports'⟩ :=
    compile_of_scan scanned' structural { host }
  have fresh : (Transfer.between ts ts').Fresh := ⟨rfl, rfl, rfl⟩
  have hosts : ∀ name, host ((Transfer.between ts ts').name name) = host name := fun _ => rfl
  obtain ⟨diagnostics, p, p', carried, listing, listing'⟩ := Pass.run_carried fresh rfl structural
    (fun _ _ => rfl) hosts (carried_of_kinds_eq scanned same)
  refine ⟨c, c', compiled, compiled', ?_, ?_, ?_⟩
  · rw [accepted, accepted', Pass.accepted_run_eq diagnostics]
  · rw [carried.eq rfl fresh] at listing'
    simpa using (listed'.symm.trans listing').trans (listing.symm.trans listed)
  · rw [← reports, ← reports'] at diagnostics
    have paired : List.Forall₂ (fun d d' => d'.severity = d.severity ∧ d'.message = d.message ∧
        SamePlace ts ts' d.pos d'.pos) c.diagnostics c'.diagnostics :=
      diagnostics.imp fun d d' same => ⟨same.severity, same.message_eq rfl, same.pos⟩
    refine ⟨paired, ?_, ?_⟩
    · refine ((List.forall₂_and_left _ _).1 (paired.imp fun d d' same => ⟨?_, same⟩)).1
      obtain ⟨-, -, i, t, t', found, -, pos, -⟩ := same
      exact ⟨t, List.mem_of_getElem? found, pos⟩
    · refine ((List.forall₂_and_left _ _).1 (paired.flip.imp fun d' d same => ⟨?_, same⟩)).1
      obtain ⟨-, -, i, t, t', -, found, -, pos⟩ := same
      exact ⟨t', List.mem_of_getElem? found, pos⟩

/-- Whether two texts have tokens of the same kinds. -/
def sameKinds (source source' : String) : Bool :=
  match scan source, scan source' with
  | .ok ts, .ok ts' => ts.map Token.kind = ts'.map Token.kind
  | _, _ => false

/-- A program with a name declared twice and a character where a number is meant, on one line. -/
def tightSource : String := "\x7bint x;int x;x=010+'a';return\x7d"

/-- The same program, with comments, on several lines, and with its number written otherwise. -/
def looseSource : String :=
  "// twice\n\x7b\n  int x; // once\n  int x;\n\n  x = 10 + 'a' ;\treturn\n\x7d\n"

theorem compile_tightSource_looseSource :
    ∃ ts ts', scan tightSource = .ok ts ∧ scan looseSource = .ok ts' ∧
      ts.map Token.kind = ts'.map Token.kind ∧
      ∃ c c', compile tightSource = .ok c ∧ compile looseSource = .ok c' ∧
        c'.accepted = c.accepted ∧ c'.listing = c.listing ∧
        List.Forall₂ (fun d d' => d'.severity = d.severity ∧ d'.message = d.message ∧
          SamePlace ts ts' d.pos d'.pos) c.diagnostics c'.diagnostics := by
  have kinds : sameKinds tightSource looseSource = true := by decide +kernel
  unfold sameKinds at kinds
  split at kinds
  · rename_i ts ts' scanned scanned'
    have same : ts.map Token.kind = ts'.map Token.kind := of_decide_eq_true kinds
    obtain ⟨c, c', compiled, compiled', accepted, listing, paired, -⟩ := compile_eq_of_kinds_eq
      .error (fun _ => none) tightSource looseSource ts ts' scanned scanned' same
    exact ⟨ts, ts', scanned, scanned', same, c, c', compiled, compiled', accepted, listing, paired⟩
  · cases kinds

end OnePass
