import OnePass.Proofs.EndOfInput
import OnePass.Proofs.Parallel.Program
import OnePass.Proofs.Severity

/-!
# Whole passes side by side

Two passes that both begin with a program, over tokens that correspond, have corresponding
diagnostics and corresponding pieces for listings, and both accept or both refuse.
-/

namespace OnePass

/-- A list is carried over by its tokens. -/
theorem Tokens.carried_ofList {ρ : Transfer} (none : ρ.more = []) {ts ts' : List Token}
    (h : List.Forall₂ (Token.Carried ρ) ts ts') (empty : ts = [] → ρ.pos .start .start) :
    (ofList ts).Carried ρ (ofList ts') := by
  rcases ts.eq_nil_or_concat' with rfl | ⟨us, t, rfl⟩
  · cases h
    exact ⟨⟨[], none.symm, .nil⟩, fun _ => empty rfl⟩
  · rcases ts'.eq_nil_or_concat' with rfl | ⟨us', t', rfl⟩
    · simpa using h.length_eq
    · obtain ⟨last, front⟩ : t.Carried ρ t' ∧ List.Forall₂ (Token.Carried ρ) us us' := by
        simpa using List.forall₂_reverse_iff.2 h
      rw [ofList_concat, ofList_concat, last.isEof]
      split
      · exact ⟨⟨us', by rw [none, List.append_nil], front⟩, fun _ => last.pos⟩
      · exact ⟨⟨us' ++ [t'], by rw [none, List.append_nil], h⟩, fun _ => last.pos⟩

/-- The primitive types are the same in both passes if their names stay as they are. -/
theorem Scopes.carried_withPrimitives {ρ : Transfer}
    (fixed : ∀ word ∈ Token.keywords, ρ.name word = word) {host host' : String → Option ValueType}
    (hosts : ∀ name, host' (ρ.name name) = host name) :
    (withPrimitives { host }).Carried ρ (withPrimitives { host := host' }) := by
  have keyword : ∀ y ∈ fresh.base, y.name ∈ Token.keywords := by decide
  have type : ∀ y ∈ fresh.base, y.declared = none ∧ ∃ t, y.meaning = .type t := by
    simp [fresh, withPrimitives, ValueType.primitives, bindBase]
  refine ⟨.nil, List.forall₂_same.2 fun y mem => ?_, hosts⟩
  obtain ⟨declared, t, meaning⟩ := type y mem
  refine ⟨(fixed _ (keyword y mem)).symm, ?_, ?_⟩
  · rw [meaning]
    exact .type t
  · rw [declared]
    exact .none

/-- Corresponding diagnostics keep a program from being accepted alike. -/
theorem Pass.accepted_run_eq {ρ : Transfer} {structural structural' : Severity}
    {scopes scopes' : Scopes} {s s' : Tokens}
    (h : List.Forall₂ (Diagnostic.Carried ρ) (Pass.run structural scopes s).diagnostics
      (Pass.run structural' scopes' s').diagnostics) :
    (Pass.run structural' scopes' s').accepted = (Pass.run structural scopes s).accepted := by
  rw [Bool.eq_iff_iff, accepted_run_iff, accepted_run_iff]
  generalize (Pass.run structural scopes s).diagnostics = ds at h ⊢
  generalize (Pass.run structural' scopes' s').diagnostics = ds' at h ⊢
  induction h with
  | nil => simp
  | cons first _ ih => rw [List.forall_mem_cons, List.forall_mem_cons, ih, first.severity]

/-- Two passes over corresponding tokens, which both begin with a program. -/
theorem Pass.run_carried {ρ : Transfer} (fresh : ρ.Fresh) (whole : ρ.more = [])
    (structural : Severity) {host host' : String → Option ValueType}
    (fixed : ∀ word ∈ Token.keywords, ρ.name word = word)
    (hosts : ∀ name, host' (ρ.name name) = host name) {s s' : Tokens} (hs : s.Carried ρ s') :
    List.Forall₂ (Diagnostic.Carried ρ) (Pass.run structural { host } s).diagnostics
      (Pass.run structural { host := host' } s').diagnostics ∧
    ∃ p p' : Piece, p.Carried ρ 0 p' ∧
      (Pass.run structural { host } s).listing = .ok ⟨p.body entryName none :: p.functions⟩ ∧
      (Pass.run structural { host := host' } s').listing =
        .ok ⟨p'.body entryName none :: p'.functions⟩ := by
  have env : Env.Carried ρ { scopes := Scopes.withPrimitives { host }, structural }
      { scopes := Scopes.withPrimitives { host := host' }, structural } :=
    ⟨Scopes.carried_withPrimitives fixed hosts, rfl, rfl, rfl, fun more => absurd whole more⟩
  have counters : Counters.Carried ρ 0 {} {} :=
    ⟨by simp [fresh.labels], by simp [Transfer.shift, fresh.locals], by simp [fresh.defined]⟩
  have events := program_carries whole env counters hs
  obtain ⟨p, p', builds, builds', carried⟩ := events.builds
  have shift : ρ.shift 0 = 0 := fresh.locals
  exact ⟨events.reports, p, p', shift ▸ carried, listing_run_eq structural _ builds,
    listing_run_eq structural _ builds'⟩

/-! ## Passes over the same names -/

/-- A list is the image of another if its elements are, one by one. -/
theorem eq_map_of_forall₂ {α β : Type} {R : α → β → Prop} (f : α → β)
    (hR : ∀ a b, R a b → b = f a) {as : List α} {bs : List β} (h : List.Forall₂ R as bs) :
    bs = as.map f := by
  induction h with
  | nil => rfl
  | cons first _ ih => rw [hR _ _ first, ih, List.map_cons]

theorem eq_of_forall₂ {α : Type} {R : α → α → Prop} (hR : ∀ a b, R a b → b = a) {as bs : List α}
    (h : List.Forall₂ R as bs) : bs = as :=
  (eq_map_of_forall₂ id hR h).trans as.map_id

section Identity

variable {ρ : Transfer} (same : ρ.name = id)

include same

theorem Diagnostic.Carried.message_eq {d d' : Diagnostic} (h : d.Carried ρ d') :
    d'.message = d.message := by
  obtain ⟨problem, message, message'⟩ := h.message
  rw [message, message', same, problem.rename_id]

theorem Transfer.Links.eq (fresh : ρ.Fresh) {link link' : String} (h : ρ.Links link link') :
    link' = link := by
  obtain ⟨f, n, rfl, rfl⟩ := h
  rw [same, fresh.defined]
  rfl

theorem Instruction.Carried.eq (fresh : ρ.Fresh) {i j : Instruction} (h : i.Carried ρ 0 j) :
    j = i := by
  cases i with
  | call link =>
    obtain ⟨link', links, rfl⟩ := h
    rw [links.eq same fresh]
  | mark label | jump label | jumpUnless label =>
    rw [Instruction.Carried, fresh.labels] at h
    exact h
  | _ => exact h

theorem Body.Carried.eq (fresh : ρ.Fresh) {b b' : Body} (h : b.Carried ρ b') : b' = b := by
  have code : b'.code.toList = b.code.toList :=
    eq_of_forall₂ (fun _ _ => Instruction.Carried.eq same fresh) h.code
  have locals : b'.locals.toList = b.locals.toList := by simpa [same] using h.locals
  obtain ⟨name, signature, locals₁, code₁⟩ := b
  obtain ⟨name', signature', locals₂, code₂⟩ := b'
  obtain rfl : name' = name := h.name.eq same fresh
  obtain rfl : signature' = signature := h.signature
  obtain rfl : locals₂ = locals₁ := Array.toList_inj.1 locals
  obtain rfl : code₂ = code₁ := Array.toList_inj.1 code
  rfl

theorem Piece.Carried.eq (fresh : ρ.Fresh) {p p' : Piece} (h : p.Carried ρ 0 p') : p' = p := by
  refine Piece.ext ?_ (eq_of_forall₂ (fun _ _ => Instruction.Carried.eq same fresh) h.code)
    (eq_of_forall₂ (fun _ _ => Body.Carried.eq same fresh) h.functions)
  simpa [same] using h.locals

end Identity

/-! ## Tokens of texts -/

/-- The tokens of a source text, without the end of input. -/
def tokensOf (source : String) : List Token :=
  match scan source with
  | .ok ts => ts.dropLast
  | .error _ => []

theorem scannable_tokensOf (source : String) : ∀ t ∈ tokensOf source, t.kind.Scannable := by
  unfold tokensOf
  intro t mem
  split at mem
  · rename_i ts scanned
    exact ⟨source, ts, scanned, t, List.dropLast_subset ts mem, rfl⟩
  · cases mem

end OnePass
