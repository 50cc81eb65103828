import OnePass.Proofs.Calls

/-!
# Names

A listing is searched by name: a call gives the name of the body that it calls, and the entry is
found by its own. Definitions have names of their own, but nothing keeps a program from defining a
function with the name of the entry, and then the first body with that name is the entry. This is
the only way in which two bodies can come to have one name (`names_distinct_iff`).
-/

namespace OnePass

/-! ## Bodies with a name -/

theorem filter_eq_singleton {α : Type} {key : α → String} {l : List α} (h : (l.map key).Nodup)
    {a : α} (mem : a ∈ l) : l.filter (key · = key a) = [a] := by
  induction l with
  | nil => cases mem
  | cons b l ih =>
    rw [List.map_cons, List.nodup_cons] at h
    obtain ⟨fresh, rest⟩ := h
    rcases List.mem_cons.1 mem with rfl | mem
    · have none : l.filter (key · = key a) = [] := by
        refine List.filter_eq_nil_iff.2 fun b hb same => fresh ?_
        exact List.mem_map.2 ⟨b, hb, of_decide_eq_true same⟩
      rw [List.filter_cons_of_pos (by simp), none]
    · have other : ¬ key b = key a := fun same => fresh (same ▸ List.mem_map_of_mem mem)
      rw [List.filter_cons_of_neg (by simpa using other)]
      exact ih rest mem

namespace DefinedBy

variable {headers : List Header} {entry : Body} {rest : List (Nat × Body)}

/-- The bodies with the name of a definition are that definition and, if it is named so, the entry.
-/
theorem filter_name (d : DefinedBy headers ((0, entry) :: rest)) {m : Nat} {called : Body}
    (hc : (m + 1, called) ∈ (0, entry) :: rest) :
    (entry :: rest.map Prod.snd).filter (·.name = called.name) =
      if called.name = entryName then [entry, called] else [called] := by
  have mem : called ∈ rest.map Prod.snd := by
    rcases List.mem_cons.1 hc with first | hc
    · cases first
    · exact List.mem_map_of_mem hc
  rw [List.filter_cons, filter_eq_singleton d.nodup_definitions mem,
    (d.entry entry List.mem_cons_self).1]
  simp only [decide_eq_true_eq, @eq_comm _ entryName]

/-- What is found by the name of a definition. -/
theorem find?_name (d : DefinedBy headers ((0, entry) :: rest)) {m : Nat} {called : Body}
    (hc : (m + 1, called) ∈ (0, entry) :: rest) :
    (entry :: rest.map Prod.snd).find? (·.name = called.name) =
      some (if called.name = entryName then entry else called) := by
  rw [← List.head?_filter, d.filter_name hc]
  split
  · rfl
  · rfl

/-- All bodies are named by numbered links. -/
theorem exists_numberedLink {bodies : List (Nat × Body)} (d : DefinedBy headers bodies)
    (named : ∀ h ∈ headers, isName h.name = true) {k : Nat} {b : Body} (hb : (k, b) ∈ bodies) :
    ∃ (f : Name) (n : Nat), b.name = numberedLink f.text n := by
  cases k with
  | zero => exact ⟨⟨entryName, rfl⟩, 0, (d.entry b hb).1⟩
  | succ n =>
    obtain ⟨h, hn, link, -⟩ := d.definition n b hb
    exact ⟨⟨h.name, named h (List.mem_of_getElem? hn)⟩, _, link⟩

/-- A definition has the name of the entry exactly if some header has. -/
theorem entryName_mem (d : DefinedBy headers ((0, entry) :: rest))
    (named : ∀ h ∈ headers, isName h.name = true) :
    entryName ∈ (rest.map Prod.snd).map Body.name ↔ ∃ h ∈ headers, h.name = entryName := by
  rw [List.map_map]
  constructor
  · intro mem
    obtain ⟨⟨k, b⟩, hb, name⟩ := List.mem_map.1 mem
    obtain ⟨n, rfl⟩ := d.exists_succ hb
    obtain ⟨h, hn, link, -⟩ := d.definition n b (List.mem_cons_of_mem _ hb)
    have mem := List.mem_of_getElem? hn
    have same := (numberedLink_inj (f := ⟨h.name, named h mem⟩) (g := ⟨entryName, rfl⟩) (n := 0)
      (link.symm.trans name)).1
    exact ⟨h, mem, congrArg Name.text same⟩
  · rintro ⟨h, mem, name⟩
    -- The first header of the name has it as its link.
    have mem := List.mem_map_of_mem (f := Header.name) mem
    rw [name] at mem
    obtain ⟨before, after, split, first⟩ := List.eq_append_cons_of_mem mem
    obtain ⟨earlier, later, rfl, rfl, found⟩ := List.map_eq_append_iff.1 split
    obtain ⟨h, later, rfl, name, -⟩ := List.map_eq_cons_iff.1 found
    obtain ⟨b, hb, link, -⟩ := d.body (n := earlier.length) (h := h) (by simp)
    refine List.mem_map.2 ⟨(_, b), (List.mem_cons.1 hb).resolve_left (by simp), ?_⟩
    have none : (earlier.map Header.name).count h.name = 0 := by
      rw [name]
      exact List.count_eq_zero.2 first
    rw [linkOf, List.take_left, none] at link
    exact link.trans name

/-- All bodies have different names exactly if no header has the name of the entry. -/
theorem nodup_names_iff (d : DefinedBy headers ((0, entry) :: rest))
    (named : ∀ h ∈ headers, isName h.name = true) :
    ((entry :: rest.map Prod.snd).map Body.name).Nodup ↔ ∀ h ∈ headers, h.name ≠ entryName := by
  rw [List.map_cons, List.nodup_cons, (d.entry entry List.mem_cons_self).1, d.entryName_mem named,
    and_iff_left d.nodup_definitions]
  simp

end DefinedBy

/-! ## Printed names -/

/-- The line of a call is that of no other instruction. -/
theorem Instruction.eq_call_of_line {i : Instruction} {link : String}
    (h : i.line = "    call " ++ link ++ "\n") : i = .call link := by
  have chars := congrArg String.toList h
  cases i with
  | call link' =>
    unfold line text at chars
    simpa [String.toList_inj] using chars
  | mark label =>
    unfold line text labelText at chars
    simp at chars
  | compare op =>
    unfold line text at chars
    cases op <;> simp [Comparison.mnemonic] at chars
  | additive op =>
    unfold line text at chars
    cases op <;> simp [Additive.mnemonic] at chars
  | multiplicative op =>
    unfold line text at chars
    cases op <;> simp [Multiplicative.mnemonic] at chars
  | unary op =>
    unfold line text at chars
    cases op <;> simp [Unary.mnemonic] at chars
  | _ =>
    unfold line text at chars
    simp at chars

/-- A link does not begin with a blank. -/
theorem numberedLink_first (f : Name) (n : Nat) :
    ∃ c rest, (numberedLink f.text n).toList = c :: rest ∧ c ≠ ' ' := by
  have valid := f.valid
  unfold isName at valid
  cases spelled : f.text.toList with
  | nil => simp [spelled] at valid
  | cons c cs =>
    simp only [spelled, Bool.and_eq_true] at valid
    have letter : c ≠ ' ' := by
      rintro rfl
      exact absurd valid.1.1 (by decide)
    cases n with
    | zero => exact ⟨c, cs, spelled, letter⟩
    | succ n =>
      refine ⟨c, cs ++ '#' :: (n + 1).repr.toList, ?_, letter⟩
      simp [numberedLink, spelled]

/-- What is printed as a call in a body is a call of its code. -/
theorem Body.call_of_mem_lines {b : Body} {f : Name} {n : Nat}
    (name : b.name = numberedLink f.text n) {link : String}
    (h : "    call " ++ link ++ "\n" ∈ b.lines) : .call link ∈ b.code := by
  obtain ⟨c, rest, first, letter⟩ := numberedLink_first f n
  rw [← name] at first
  unfold lines at h
  rcases List.mem_append.1 h with h | h
  · rcases List.mem_cons.1 h with h | h
    · have chars := congrArg String.toList h
      unfold header at chars
      split at chars
      · simp [first, letter.symm] at chars
      · simp [first, letter.symm] at chars
    · obtain ⟨slot, less, h⟩ := List.mem_mapIdx.1 h
      dsimp only at h
      unfold localLine at h
      have chars := congrArg String.toList h
      simp at chars
  · obtain ⟨i, hi, line⟩ := List.mem_map.1 h
    rw [← Instruction.eq_call_of_line line]
    exact Array.mem_toList_iff.1 hi

/-! ## Whole programs -/

/-- **Names are unique except for the entry's.** For every source text and severity, accepted or
not, there is a lexical error or the text is compiled, and then a session on it comes to its end
whose bodies are those of the listing, the entry first. Of them,

* all have different names exactly if no function is defined with the name of the entry;
* every call is one of a definition, with the signature that was checked. The definition is the only
  body with the name that is called, and it is found by that name, unless it is named like the
  entry: then the entry is the only other one, and is found instead;
* so it is with every name that is printed in the line of a call. -/
theorem names_distinct_iff (source : String) (structural : Severity)
    (host : String → Option ValueType) :
    (∃ error, scan source = .error error ∧
      compile source structural { host } = .error (.lexical error)) ∨
    ∃ (ts : List Token) (c : Compilation) (x : Session) (entry : Body),
      scan source = .ok ts ∧ compile source structural { host } = .ok c ∧
      Session.Parses structural { host } (.ofList ts) c.accepted x ∧
      let ledger (acts : List Act) := Ledger.after {} (eventsOf acts)
      let draft (acts : List Act) := Draft.replay {} (eventsOf acts)
      let bodies := (ledger x.transcript).bodies (draft x.transcript)
      let headers := headersOf x.transcript
      bodies.map Prod.snd = c.listing.bodies ∧ DefinedBy headers bodies ∧
      c.listing.bodies.head? = some entry ∧ entry.name = entryName ∧ entry.signature = none ∧
      ((c.listing.bodies.map Body.name).Nodup ↔ ∀ h ∈ headers, h.name ≠ entryName) ∧
      (∀ (n : Nat) (b : Body) (j : Nat) (link : String), (n, b) ∈ bodies →
        b.code[j]? = some (.call link) →
        ∃ (before : List Act) (y : Mention) (signature : Signature) (after : List Act) (m : Nat)
          (called : Body),
          x.transcript = before ++ .done ⟨.emit (.call link), some y⟩ :: after ∧
          (ledger before).current = n ∧ (draft before).current.code.size = j ∧
          (ledger before).Calls headers bodies y.name link signature m ∧
          (m + 1, called) ∈ bodies ∧ called.signature = some signature ∧
          c.listing.bodies.filter (·.name = link) =
            (if link = entryName then [entry, called] else [called]) ∧
          c.listing.find? link = some (if link = entryName then entry else called)) ∧
      ∀ b ∈ c.listing.bodies, ∀ link : String, "    call " ++ link ++ "\n" ∈ b.lines →
        ∃ called : Body, called.signature.isSome ∧ c.listing.bodies.filter (·.name = link) =
          if link = entryName then [entry, called] else [called] := by
  cases scanned : scan source with
  | error error => exact .inl ⟨error, rfl, by simp [compile, scanned]⟩
  | ok ts =>
    obtain ⟨c, x, compiled, completes, parsed, bodies⟩ :=
      compile_completes scanned structural { host }
    have defined := completes.definedBy scanned
    have named := completes.named scanned
    have entry := defined.entry _ List.mem_cons_self
    refine .inr ⟨ts, c, x, _, rfl, compiled, parsed, bodies, defined, by rw [← bodies]; rfl,
      entry.1, entry.2, ?_, ?_, ?_⟩
    · rw [← bodies]
      exact defined.nodup_names_iff named
    · intro n b j link hb hj
      obtain ⟨before, y, signature, after, m, split, -, current, size, -, calls⟩ :=
        completes.origin_of_call scanned hb hj
      obtain ⟨called, hc, rfl, hs⟩ := calls.body
      refine ⟨before, y, signature, _, m, called, split, current, size, calls, hc, hs, ?_, ?_⟩
      · rw [← bodies]
        exact defined.filter_name hc
      · rw [Listing.find?, ← bodies]
        exact defined.find?_name hc
    · intro b listed link printed
      rw [← bodies] at listed ⊢
      obtain ⟨⟨n, b⟩, hb, rfl⟩ := List.mem_map.1 listed
      obtain ⟨f, k, name⟩ := defined.exists_numberedLink named hb
      obtain ⟨j, hj⟩ := Array.mem_iff_getElem?.1 (b.call_of_mem_lines name printed)
      obtain ⟨_, _, signature, _, m, -, -, -, -, -, calls⟩ :=
        completes.origin_of_call scanned hb hj
      obtain ⟨called, hc, rfl, hs⟩ := calls.body
      exact ⟨called, Option.isSome_iff_exists.2 ⟨signature, hs⟩, defined.filter_name hc⟩

/-- A program that defines and calls a function with the name of the entry. -/
def mainSource : String := "\x7b int main(int x) \x7b return x; \x7d main(1); \x7d"

/-- Its listing: two bodies of one name. -/
def mainListing : Listing where
  bodies := [
    { name := "main", signature := none, code := #[.pushInt 1, .call "main", .pop] },
    { name := "main", signature := some ⟨.int, .int⟩, locals := #[("x", .int)],
      code := #[.load 0, .ret] }]

/-- Whether a source text is accepted and has a listing. -/
def acceptsAs (source : String) (listing : Listing) : Bool :=
  match compile source with
  | .ok c => c.accepted && c.listing = listing
  | .error _ => false

/-- Two bodies are named like the entry, and who looks for the function that is called finds a body
without a signature. -/
theorem names_not_distinct_main : ∃ c, compile mainSource = .ok c ∧ c.accepted = true ∧
    ¬ (c.listing.bodies.map Body.name).Nodup ∧
    (∃ b ∈ c.listing.bodies, .call "main" ∈ b.code) ∧
    (c.listing.find? "main").map Body.signature = some none ∧
    c.listing.bodies.filter (·.name = "main") = c.listing.bodies ∧ c.listing.bodies.length = 2 := by
  have accepts : acceptsAs mainSource mainListing = true := by decide +kernel
  unfold acceptsAs at accepts
  split at accepts
  · rename_i c compiled
    simp only [Bool.and_eq_true, decide_eq_true_eq] at accepts
    obtain ⟨accepted, listing⟩ := accepts
    refine ⟨c, compiled, accepted, ?_⟩
    rw [listing]
    decide +kernel
  · cases accepts

end OnePass
