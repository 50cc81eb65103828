import OnePass.Proofs.Lexical.Scan
import OnePass.Proofs.Parallel.Pass

/-!
# Renaming

Names are compared and handed through, and no spelling decides anything. So a program whose names
are replaced by others, different ones by different ones, is compiled to the listing in which its
names are replaced.
-/

namespace OnePass

/-! ## Scanned keywords -/

theorem Lexical.Means.mem_keywords {word spelling : String} {k : Token.Kind}
    (h : Means spelling k) (keyword : k = .keyword word) : word ∈ Token.keywords := by
  cases h with
  | keyword known =>
    cases keyword
    exact known
  | _ => cases keyword

theorem Lexical.Spells.mem_keywords {l : List Char} {m : Except LexError.Cause Token.Kind}
    (h : Spells l m) {word : String} (keyword : m = .ok (.keyword word)) :
    word ∈ Token.keywords := by
  cases h with
  | word _ _ means => exact means.mem_keywords (Except.ok.inj keyword)
  | _ => cases keyword

/-- A keyword that a source text can hold is one of the table. -/
theorem Token.Kind.Scannable.mem_keywords {k : Token.Kind} (h : k.Scannable) {word : String}
    (keyword : k = .keyword word) : word ∈ Token.keywords := by
  obtain ⟨source, ts, scanned, t, mem, rfl⟩ := h
  obtain ⟨segments, last, -, cut, -, rfl⟩ := Lexical.exists_cut_of_scan scanned
  rcases List.mem_append.1 mem with mem | mem
  · obtain ⟨s, inside, rfl⟩ := List.mem_map.1 mem
    obtain ⟨text, rest, fits⟩ := cut.fits inside
    exact fits.spells.mem_keywords (congrArg Except.ok keyword)
  · obtain rfl := List.mem_singleton.1 mem
    cases keyword

theorem isName_of_mem_keywords {word : String} (h : word ∈ Token.keywords) :
    isName word = false := by
  revert word
  decide

/-! ## Renamings -/

theorem numberedLink_eq_append (name : String) (n : Nat) :
    numberedLink name n = name ++ numberedLink "" n := by
  cases n <;> simp [numberedLink, String.append_assoc]

/-- Names for names, different ones for different ones. -/
structure Renaming where
  name : Name → Name
  injective : Function.Injective name

namespace Renaming

variable (r : Renaming)

/-- On texts: what is no name stays as it is. -/
def text (x : String) : String := if h : isName x = true then (r.name ⟨x, h⟩).text else x

theorem text_name (x : Name) : r.text x.text = (r.name x).text := dif_pos x.valid

theorem text_of_not_isName {x : String} (h : isName x = false) : r.text x = x :=
  dif_neg (by simp [h])

theorem isName_text (x : String) : isName (r.text x) = isName x := by
  cases h : isName x with
  | false => rw [r.text_of_not_isName h, h]
  | true => exact r.text_name ⟨x, h⟩ ▸ (r.name ⟨x, h⟩).valid

theorem text_injective : Function.Injective r.text := by
  intro x y same
  have names : isName x = isName y := by rw [← r.isName_text x, same, r.isName_text]
  cases h : isName x with
  | false => rwa [r.text_of_not_isName h, r.text_of_not_isName (names ▸ h)] at same
  | true =>
    have h' : isName y = true := names ▸ h
    rw [r.text_name ⟨x, h⟩, r.text_name ⟨y, h'⟩, Name.text_inj] at same
    exact congrArg Name.text (r.injective same)

def token (t : Token) : Token := { t with kind := t.kind.rename r.text }

/-- The link of the function with the same number and its name renamed. -/
def link (link : String) : String :=
  r.text (sourceName link) ++ String.ofList (link.toList.dropWhile (· ≠ '#'))

/-- The instruction with the link renamed that it calls. -/
def instruction : Instruction → Instruction
  | .call link => .call (r.link link)
  | i => i

/-- The entry has no name of the program. -/
def entry (b : Body) : Body :=
  { b with
    locals := b.locals.map (Prod.map r.text id)
    code := b.code.map r.instruction }

/-- A definition is renamed with its locals and what it calls. -/
def definition (b : Body) : Body := { r.entry b with name := r.link b.name }

/-- The entry comes first. -/
def listing : Listing → Listing
  | ⟨[]⟩ => ⟨[]⟩
  | ⟨entry :: definitions⟩ => ⟨r.entry entry :: definitions.map r.definition⟩

theorem link_numberedLink (f : Name) (n : Nat) :
    r.link (numberedLink f.text n) = numberedLink (r.name f).text n := by
  have behind : (numberedLink f.text n).toList.dropWhile (· ≠ '#') =
      (numberedLink "" n).toList := by
    have own : ∀ c ∈ f.text.toList, decide (c ≠ '#') = true := by
      intro c mem
      exact decide_eq_true fun sharp => f.sharp_notMem (sharp ▸ mem)
    rw [numberedLink_eq_append, String.toList_append, List.dropWhile_append_of_pos own]
    cases n <;> simp [numberedLink]
  rw [link, sourceName_numberedLink, r.text_name, behind, String.ofList_toList,
    ← numberedLink_eq_append]

/-- From a program to the program with its names replaced. -/
def transfer : Transfer where
  name := r.text
  injective := r.text_injective
  pos := Eq
  noElse := Transfer.noElse_nil

theorem fresh_transfer : r.transfer.Fresh := ⟨rfl, rfl, rfl⟩

theorem carried_ofList {ts : List Token} (scannable : ∀ t ∈ ts, t.kind.Scannable) :
    (Tokens.ofList ts).Carried r.transfer (.ofList (ts.map r.token)) := by
  refine Tokens.carried_ofList rfl ?_ fun _ => rfl
  rw [List.forall₂_map_right_iff, List.forall₂_same]
  intro t mem
  refine ⟨rfl, rfl, fun name => (scannable t mem).isName, fun word keyword => ?_⟩
  exact r.text_of_not_isName (isName_of_mem_keywords ((scannable t mem).mem_keywords keyword))

/-! ## What is carried over is renamed -/

section

variable {r}

theorem link_eq {link link' : String} (h : r.transfer.Links link link') : link' = r.link link := by
  obtain ⟨f, n, rfl, rfl⟩ := h
  rw [r.link_numberedLink, ← r.text_name]
  rfl

theorem instruction_eq {i j : Instruction} (h : i.Carried r.transfer 0 j) :
    j = r.instruction i := by
  cases i with
  | call link =>
    obtain ⟨link', links, rfl⟩ := h
    rw [link_eq links, instruction]
  | _ => exact h

/-- What the code and the locals of a function have become. -/
theorem entry_eq {b b' : Body} (name : b'.name = b.name) (signature : b'.signature = b.signature)
    (locals : b'.locals.toList = b.locals.toList.map (Prod.map r.text id))
    (code : List.Forall₂ (Instruction.Carried r.transfer 0) b.code.toList b'.code.toList) :
    b' = r.entry b := by
  have code : b'.code.toList = b.code.toList.map r.instruction :=
    eq_map_of_forall₂ r.instruction (fun _ _ => instruction_eq) code
  obtain ⟨name₁, signature₁, locals₁, code₁⟩ := b
  obtain ⟨name₂, signature₂, locals₂, code₂⟩ := b'
  obtain rfl : name₂ = name₁ := name
  obtain rfl : signature₂ = signature₁ := signature
  obtain rfl : locals₂ = locals₁.map (Prod.map r.text id) :=
    Array.toList_inj.1 (locals.trans Array.toList_map.symm)
  obtain rfl : code₂ = code₁.map r.instruction :=
    Array.toList_inj.1 (code.trans Array.toList_map.symm)
  rfl

theorem definition_eq {b b' : Body} (h : b.Carried r.transfer b') : b' = r.definition b := by
  have rest : { b' with name := b.name } = r.entry b := entry_eq rfl h.signature h.locals h.code
  calc b'
    _ = { { b' with name := b.name } with name := r.link b.name } := by rw [← link_eq h.name]
    _ = r.definition b := by rw [rest]; rfl

/-- The listing of a piece that is carried over. -/
theorem listing_eq {p p' : Piece} (h : p.Carried r.transfer 0 p') :
    ⟨p'.body entryName none :: p'.functions⟩ =
      r.listing ⟨p.body entryName none :: p.functions⟩ := by
  have entry : p'.body entryName none = r.entry (p.body entryName none) := by
    refine entry_eq rfl rfl ?_ ?_
    · simpa [Piece.body, transfer] using h.locals
    · simpa [Piece.body] using h.code
  rw [entry, eq_map_of_forall₂ r.definition (fun _ _ => definition_eq) h.functions]
  rfl

end

end Renaming

/-- **Renaming renames the output and nothing else.** Let the identifiers of a list of tokens, such
as source texts hold, be replaced by others, different ones by different ones. Under every severity,
the listing is the one before with its names replaced: those of locals, those of definitions, whose
numbers stay, and those in calls. All slots, labels and types, the order of the bodies, and all
other instructions are the same, and the entry keeps its name. The diagnostics are as before, with
their severities and positions, and they tell the same problems of the names that replace the
others. -/
theorem run_rename (r : Renaming) (structural : Severity) (ts : List Token)
    (scannable : ∀ t ∈ ts, t.kind.Scannable) :
    let before := Pass.run structural {} (.ofList ts)
    let after := Pass.run structural {} (.ofList (ts.map r.token))
    after.accepted = before.accepted ∧
    List.Forall₂ (fun d d' => d'.severity = d.severity ∧ d'.pos = d.pos ∧
      ∃ problem : Problem, d.message = problem.message ∧
        d'.message = (problem.rename r.text).message) before.diagnostics after.diagnostics ∧
    ∃ entry definitions, before.listing = .ok ⟨entry :: definitions⟩ ∧ entry.name = entryName ∧
      after.listing = .ok (r.listing ⟨entry :: definitions⟩) := by
  intro before after
  have fixed : ∀ word ∈ Token.keywords, r.transfer.name word = word :=
    fun _ mem => r.text_of_not_isName (isName_of_mem_keywords mem)
  let host : String → Option ValueType := fun _ => none
  have hosts : ∀ name, host (r.transfer.name name) = host name := fun _ => rfl
  obtain ⟨diagnostics, p, p', carried, listing, listing'⟩ := Pass.run_carried r.fresh_transfer rfl
    structural fixed hosts (r.carried_ofList scannable)
  refine ⟨Pass.accepted_run_eq diagnostics, ?_, p.body entryName none, p.functions, listing, rfl,
    ?_⟩
  · exact diagnostics.imp fun _ _ same => ⟨same.severity, same.pos.symm, same.message⟩
  · rw [← Renaming.listing_eq carried]
    exact listing'

def Renaming.exchange (x y : Name) : Renaming := ⟨Equiv.swap x y, (Equiv.swap x y).injective⟩

/-- A program with two functions of one name, the second of which calls itself, and a local that is
declared twice. -/
def shadowingSource : String :=
  "\x7b int f(int x) \x7b return x; \x7d" ++
  "\x7b int y; int y; int f(int x) \x7b return f(x); \x7d y = f(1); \x7d \x7d"

/-- The name of the entry is a name like others. -/
theorem run_rename_exchange :
    let ts := tokensOf shadowingSource
    let r := Renaming.exchange ⟨"f", rfl⟩ ⟨"main", rfl⟩
    let before := Pass.run .error {} (.ofList ts)
    let after := Pass.run .error {} (.ofList (ts.map r.token))
    (∀ t ∈ ts, t.kind.Scannable) ∧ before.accepted = false ∧ before.diagnostics.length = 2 ∧
    after.accepted = before.accepted ∧
    List.Forall₂ (fun d d' => d'.severity = d.severity ∧ d'.pos = d.pos ∧
      ∃ problem : Problem, d.message = problem.message ∧
        d'.message = (problem.rename r.text).message) before.diagnostics after.diagnostics ∧
    ∃ entry definitions, before.listing = .ok ⟨entry :: definitions⟩ ∧ entry.name = entryName ∧
      after.listing = .ok (r.listing ⟨entry :: definitions⟩) := by
  intro ts r before after
  have refused : before.accepted = false := by decide +kernel
  have reports : before.diagnostics.length = 2 := by decide +kernel
  have scannable := scannable_tokensOf shadowingSource
  exact ⟨scannable, refused, reports, run_rename r .error ts scannable⟩

end OnePass
