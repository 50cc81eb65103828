import Mathlib.Data.List.Perm.Subperm
import OnePass.Proofs.Grammar
import OnePass.Proofs.Links
import OnePass.Proofs.Procedure.Statement
import OnePass.Proofs.Slots

/-!
# Definitions

The functions of a program are met in three places: their headers are read, their symbols are
declared, and their bodies are begun. Each is counted here, and the counts agree. The symbols are
those that the headers introduce, linked by name and number (`introduced`), and a body that is
begun as the `n`-th has the link and the signature of the `n`-th header (`DefinedBy`), whenever it
is completed.
-/

namespace OnePass

/-! ## Links -/

/-- The link of a function, if `n` functions of the same name come before it. -/
def numberedLink (name : String) (n : Nat) : String :=
  match n with
  | 0 => name
  | n + 1 => name ++ "#" ++ (n + 1).repr

theorem Counters.linkName_eq_numberedLink (c : Counters) (name : String) :
    c.linkName name = numberedLink name (c.defined.count name) := rfl

theorem Inventory.link_eq_numberedLink (i : Inventory) (f : Name) :
    i.link f = numberedLink f.text (i.defined.count f) := by
  unfold link numberedLink
  cases i.defined.count f with
  | zero => rfl
  | succ n => rfl

/-- A numbered link tells name and number. -/
theorem numberedLink_inj {f g : Name} {m n : Nat}
    (h : numberedLink f.text m = numberedLink g.text n) : f = g ∧ m = n := by
  have same : Inventory.link ⟨[], .replicate m f⟩ f = Inventory.link ⟨[], .replicate n g⟩ g := by
    simpa [Inventory.link_eq_numberedLink] using h
  simpa using Inventory.link_inj same

/-- Functions are linked by the names of those before them, of which `earlier` come first. -/
def Linked (earlier : List String) : List Symbol → Prop
  | [] => True
  | f :: fs =>
    (∃ signature, f.meaning = .function (numberedLink f.name (earlier.count f.name)) signature) ∧
      Linked (f.name :: earlier) fs

theorem Linked.append {earlier : List String} {fs gs : List Symbol} (hf : Linked earlier fs)
    (hg : Linked ((fs.map Symbol.name).reverse ++ earlier) gs) : Linked earlier (fs ++ gs) := by
  induction fs generalizing earlier with
  | nil => exact hg
  | cons f fs ih => exact ⟨hf.1, ih hf.2 (by simpa using hg)⟩

/-! ## Events -/

/-- The link and the signature of a function that is begun. -/
def Event.opening? : Event → Option (String × Signature)
  | .code (.openFunction link signature) => some (link, signature)
  | _ => none

/-- The links and signatures of the functions that are begun, in order. -/
def openings (es : List Event) : List (String × Signature) := es.filterMap Event.opening?

@[simp] theorem openings_append (es fs : List Event) :
    openings (es ++ fs) = openings es ++ openings fs :=
  List.filterMap_append

/-- Whether an event neither declares nor begins a function. -/
def Event.definesNothing (e : Event) : Bool := e.function?.isNone && e.opening?.isNone

theorem Event.definesNothing_of_unlisted {e : Event} (h : e.isUnlisted) : e.definesNothing := by
  unfold isUnlisted at h
  split at h
  · rfl
  · rfl
  · rfl
  · cases h

/-- Events that follow functions of some names: the functions that they declare are linked, and
those that they begin are the same ones. -/
structure Defines (earlier : List String) (es : List Event) (later : List String) : Prop where
  names : later = ((functionsIn es).map Symbol.name).reverse ++ earlier
  linked : Linked earlier (functionsIn es)
  opened : List.Forall₂ (fun f opening => f.meaning = .function opening.1 opening.2)
    (functionsIn es) (openings es)

namespace Defines

variable {earlier middle later : List String} {es fs : List Event}

theorem nothing (earlier : List String) (h : es.all Event.definesNothing) :
    Defines earlier es earlier := by
  have none : ∀ e ∈ es, e.function? = none ∧ e.opening? = none := by
    simpa [Event.definesNothing] using h
  have functions : functionsIn es = [] := List.filterMap_eq_nil_iff.2 fun e he => (none e he).1
  have opened : openings es = [] := List.filterMap_eq_nil_iff.2 fun e he => (none e he).2
  exact ⟨by simp [functions], by simp [functions, Linked], by simp [functions, opened]⟩

theorem unlisted (earlier : List String) (h : ∀ e ∈ es, e.isUnlisted) :
    Defines earlier es earlier :=
  nothing earlier (List.all_eq_true.2 fun e he => e.definesNothing_of_unlisted (h e he))

theorem append (he : Defines earlier es middle) (hf : Defines middle fs later) :
    Defines earlier (es ++ fs) later where
  names := by rw [hf.names, he.names]; simp
  linked := by
    rw [functionsIn_append]
    exact he.linked.append (he.names ▸ hf.linked)
  opened := by
    rw [functionsIn_append, openings_append]
    exact List.rel_append he.opened hf.opened

/-- Nothing more is defined by what stands around the events. -/
theorem around {a b : List Event} (ha : a.all Event.definesNothing)
    (h : Defines earlier es later) (hb : b.all Event.definesNothing) :
    Defines earlier (a ++ es ++ b) later :=
  ((nothing earlier ha).append h).append (nothing later hb)

/-- A function that is declared is begun at once. -/
theorem define {name link : String} (hl : link = numberedLink name (earlier.count name))
    (signature : Signature) (pos : Option Position) (h : Defines (name :: earlier) es later) :
    Defines earlier (.scope (.declare ⟨name, .function link signature, pos⟩) ::
      .code (.openFunction link signature) :: es) later where
  names := by
    have functions : functionsIn (.scope (.declare ⟨name, .function link signature, pos⟩) ::
        .code (.openFunction link signature) :: es) =
          ⟨name, .function link signature, pos⟩ :: functionsIn es := rfl
    simp [functions, h.names]
  linked := ⟨⟨signature, by rw [hl]⟩, h.linked⟩
  opened := .cons rfl h.opened

end Defines

/-- Every trace defines functions, from the names that it counted before to those that it has
counted behind it. -/
theorem Trace.defines {env : Env} {c c' : Counters} {es : List Event} {scopes : Scopes}
    (h : Trace env c es scopes c') : Defines c.defined es c'.defined := by
  induction h with
  | quiet events => exact .unlisted _ events.isUnlisted
  | append _ _ ih₁ ih₂ => exact ih₁.append ih₂
  | block _ ih => exact .around (a := [.scope .enter]) rfl ih rfl
  | declare _ => exact .nothing _ rfl
  | @define env c _ _ _ name ret pos p f symbol _ hf hs _ ih =>
    subst hf hs
    exact (Defines.around (a := [.scope .enter, .code (.reserveLocal p.name p.type),
      .scope (.declare _)]) rfl ih rfl).define (c.linkName_eq_numberedLink name) ⟨p.type, ret⟩
      (some pos)
  | ifThen _ ih => exact .around rfl ih rfl
  | ifElse _ _ ih₁ ih₂ => exact ((Defines.around rfl ih₁ rfl).append ih₂).append (.nothing _ rfl)
  | loop condition _ ih =>
    exact ((Defines.around rfl (.unlisted _ condition.isUnlisted) rfl).append ih).append
      (.nothing _ rfl)
  | failedLoop condition => exact .around rfl (.unlisted _ condition.isUnlisted) rfl

/-- Before the first function, no name is taken. -/
theorem Pass.defines (structural : Severity) (scopes : Scopes) (s : Tokens) :
    ∃ later, Defines [] (run structural scopes s).events later := by
  have trace := program_traced { scopes := scopes.withPrimitives, structural } {} s
  have types : Defines [] (ValueType.primitives.map fun x => .scope (.bindBase x.1 x.2)) [] :=
    .nothing _ rfl
  exact ⟨_, types.append trace.defines⟩

/-! ## Headers -/

/-- The link of the `n`-th of some headers. -/
def linkOf (headers : List Header) (n : Nat) (h : Header) : String :=
  numberedLink h.name (((headers.take n).map Header.name).count h.name)

/-- The functions that headers introduce, if functions of the names `earlier` come first. -/
def introduced (earlier : List String) : List Header → List Symbol
  | [] => []
  | h :: hs =>
    ⟨h.name, .function (numberedLink h.name (earlier.count h.name)) h.signature, some h.pos⟩ ::
      introduced (h.name :: earlier) hs

/-- Linked functions are determined by their headers. -/
theorem Linked.eq_introduced {earlier : List String} {hs : List Header} {fs : List Symbol}
    (linked : Linked earlier fs) (h : List.Forall₂ Header.Introduces hs fs) :
    fs = introduced earlier hs := by
  induction h generalizing earlier with
  | nil => rfl
  | cons introduces _ ih =>
    obtain ⟨link, rfl⟩ := introduces
    obtain ⟨⟨signature, meaning⟩, rest⟩ := linked
    have hl := (Meaning.function.inj meaning).1
    rw [introduced, ← hl, ih rest]

theorem getElem?_introduced (earlier : List String) (hs : List Header) (n : Nat) :
    (introduced earlier hs)[n]? = hs[n]?.map fun h =>
      ⟨h.name, .function (numberedLink h.name
        (((hs.take n).map Header.name).count h.name + earlier.count h.name)) h.signature,
          some h.pos⟩ := by
  induction hs generalizing earlier n with
  | nil => rfl
  | cons first hs ih =>
    cases n with
    | zero => simp [introduced]
    | succ n =>
      rw [introduced, List.getElem?_cons_succ, List.getElem?_cons_succ, ih]
      refine congrArg (Option.map · hs[n]?) (funext fun h => ?_)
      have count : ((hs.take n).map Header.name).count h.name +
            (first.name :: earlier).count h.name =
          ((first :: hs.take n).map Header.name).count h.name + earlier.count h.name := by
        rw [List.map_cons, List.count_cons, List.count_cons]
        omega
      rw [count, List.take_succ_cons]

/-- The functions of all headers have the links of the headers. -/
theorem getElem?_introduced_nil {headers : List Header} {n : Nat} {f : Symbol} :
    (introduced [] headers)[n]? = some f ↔ ∃ h, headers[n]? = some h ∧
      f = ⟨h.name, .function (linkOf headers n h) h.signature, some h.pos⟩ := by
  rw [getElem?_introduced, Option.map_eq_some_iff]
  simp only [linkOf, List.count_nil, Nat.add_zero, eq_comm]

/-- Headers have different links. -/
theorem linkOf_inj {headers : List Header} (named : ∀ h ∈ headers, isName h.name = true) {m n : Nat}
    {h h' : Header} (hm : headers[m]? = some h) (hn : headers[n]? = some h')
    (same : linkOf headers m h = linkOf headers n h') : m = n := by
  have further {m n : Nat} {h : Header} (hm : headers[m]? = some h) (less : m < n) :
      ((headers.take m).map Header.name).count h.name <
        ((headers.take n).map Header.name).count h.name := by
    have grown : (headers.take (m + 1)).map Header.name =
        (headers.take m).map Header.name ++ [h.name] := by
      rw [List.take_add_one, hm, List.map_append]
      rfl
    have prefixed : headers.take (m + 1) <+: headers.take n :=
      List.take_prefix_take_left less
    have more := (prefixed.map Header.name).sublist.count_le h.name
    rw [grown, List.count_append, List.count_singleton_self] at more
    omega
  obtain ⟨name, count⟩ := numberedLink_inj
    (f := ⟨h.name, named h (List.mem_of_getElem? hm)⟩)
    (g := ⟨h'.name, named h' (List.mem_of_getElem? hn)⟩) same
  have name : h.name = h'.name := congrArg Name.text name
  rcases Nat.lt_trichotomy m n with less | eq | less
  · have := further hm less
    rw [name] at this count
    omega
  · exact eq
  · have := further hn less
    rw [name] at count
    omega

/-! ## Bodies -/

namespace Ledger

theorem begun_apply (L : Ledger) (e : Event) :
    (L.apply e).begun = L.begun + (openings [e]).length := by
  cases e with
  | report severity pos problem => rfl
  | scope change =>
    cases change with
    | declare symbol => exact L.begun_declare symbol
    | _ => rfl
  | code command =>
    cases command with
    | closeFunction =>
      rw [apply]
      split
      · rfl
      · rfl
    | _ => rfl

/-- A ledger counts the functions that are begun. -/
theorem begun_after (L : Ledger) (es : List Event) :
    (L.after es).begun = L.begun + (openings es).length := by
  induction es generalizing L with
  | nil => rfl
  | cons e es ih =>
    rw [after_cons, ih, begun_apply, Nat.add_assoc, ← List.length_append, ← openings_append]
    rfl

/-- Every function that was begun is open or closed. -/
theorem length_apply {L : Ledger} (h : L.opened.length + L.closed.length = L.begun) (e : Event) :
    (L.apply e).opened.length + (L.apply e).closed.length = (L.apply e).begun := by
  cases e with
  | report severity pos problem => exact h
  | scope change =>
    obtain ⟨opened, closed⟩ := L.functions_change change
    rw [opened, closed, begun_apply]
    exact h
  | code command =>
    cases command with
    | openFunction link signature =>
      simp only [apply, List.length_cons]
      omega
    | closeFunction =>
      rw [apply]
      split
      · exact h
      · rename_i n outer hL
        simp only [hL, List.length_cons] at h ⊢
        omega
    | _ => exact h

theorem length_after (es : List Event) :
    (Ledger.after {} es).opened.length + (Ledger.after {} es).closed.length =
      (openings es).length := by
  have all {L : Ledger} (h : L.opened.length + L.closed.length = L.begun) :
      (L.after es).opened.length + (L.after es).closed.length = (L.after es).begun := by
    induction es generalizing L with
    | nil => exact h
    | cons e es ih => exact ih (length_apply h e)
  rw [all rfl, begun_after]
  exact Nat.zero_add _

/-- The bodies are numbered from the entry on, without a gap. -/
theorem perm_numbers {es : List Event} (sound : SoundThrough {} {} es) :
    (((Ledger.after {} es).bodies (Draft.replay {} es)).map Prod.fst).Perm
      (List.range ((openings es).length + 1)) := by
  have counts := counts_after es
  have length : (((Ledger.after {} es).bodies (Draft.replay {} es)).map Prod.fst).length =
      (openings es).length + 1 := by
    rw [← length_after es]
    simp [bodies, ← counts.opened, ← counts.closed]
    omega
  refine ((sound.last.numbered.nodup_bodies counts).subperm ?_).perm_of_length_le ?_
  · intro n hn
    obtain ⟨⟨n, b⟩, hb, rfl⟩ := List.mem_map.1 hn
    have begun : (Ledger.after {} es).begun = (openings es).length :=
      (begun_after {} es).trans (Nat.zero_add _)
    have bounded := sound.last.numbered.bounded n
    rw [List.mem_append, begun] at bounded
    rw [List.mem_range]
    rcases mem_bodies.1 hb with ⟨rfl, -⟩ | hb | hb
    · exact Nat.succ_pos _
    · exact Nat.lt_succ_of_le (bounded (.inr (List.of_mem_zip hb).1)).2
    · exact Nat.lt_succ_of_le (bounded (.inl (List.of_mem_zip hb).1)).2
  · exact Nat.le_of_eq (List.length_range.trans length.symm)

/-- The entry has its name and no signature, every other body has a signature. -/
theorem entry_or_definition {es : List Event} {n : Nat} {b : Body}
    (hb : (n, b) ∈ (Ledger.after {} es).bodies (Draft.replay {} es)) :
    n = 0 ∧ b.name = entryName ∧ b.signature = none ∨
      ∃ signature, b.signature = some signature := by
  induction es using List.reverseRecOn generalizing b with
  | nil =>
    obtain ⟨rfl, rfl⟩ := mem_bodies_fresh hb
    exact .inl ⟨rfl, rfl, rfl⟩
  | append_singleton es e ih =>
    rw [after_append, Draft.replay_append] at hb
    rcases mem_bodies_step (counts_after es) hb with hb | ⟨rfl, rfl⟩ | ⟨link, signature, -, -, rfl⟩
    · exact ih hb
    · obtain ⟨signature, name⟩ := (Draft.replay {} es).current.signature_step e
      rw [signature, name]
      exact ih (current_mem (counts_after es))
    · exact .inr ⟨signature, rfl⟩

/-- The body that is numbered 0 is the entry. -/
theorem entry_of_zero {es : List Event} {b : Body}
    (hb : (0, b) ∈ (Ledger.after {} es).bodies (Draft.replay {} es)) :
    b.name = entryName ∧ b.signature = none := by
  rcases entry_or_definition hb with ⟨-, entry⟩ | ⟨signature, hs⟩
  · exact entry
  · obtain ⟨before, after, -, begun⟩ := origin_of_function hb hs
    cases begun

/-- Every further body is the one that was begun as its number says. -/
theorem opening_of_succ {es : List Event} {n : Nat} {b : Body}
    (hb : (n + 1, b) ∈ (Ledger.after {} es).bodies (Draft.replay {} es)) :
    ∃ signature, b.signature = some signature ∧ (openings es)[n]? = some (b.name, signature) := by
  rcases entry_or_definition hb with ⟨zero, -⟩ | ⟨signature, hs⟩
  · cases zero
  · obtain ⟨before, after, rfl, begun⟩ := origin_of_function hb hs
    rw [begun_after] at begun
    have length : (openings before).length = n := by
      change 0 + _ + 1 = n + 1 at begun
      omega
    refine ⟨signature, hs, ?_⟩
    rw [openings_append, List.getElem?_append_right (Nat.le_of_eq length), length, Nat.sub_self]
    rfl

theorem mem_visible_apply {L : Ledger} {e : Event} {D : Binding} (h : D ∈ (L.apply e).visible) :
    D ∈ L.visible ∨ e = .scope (.declare D.symbol) ∨ ∃ type, D.symbol.meaning = .type type := by
  cases e with
  | report severity pos problem => exact .inl h
  | scope change =>
    cases change with
    | bindBase name type =>
      simp only [visible, apply, List.mem_append, List.mem_cons] at h ⊢
      rcases h with h | rfl | h
      · exact .inl (.inl h)
      · exact .inr (.inr ⟨type, rfl⟩)
      · exact .inl (.inr h)
    | declare symbol =>
      rcases mem_visible_declare.1 h with rfl | h
      · exact .inr (.inl rfl)
      · exact .inl h
    | enter => exact .inl h
    | leave =>
      simp only [visible, apply, List.mem_append, List.mem_flatten] at h ⊢
      rcases h with ⟨scope, hs, h⟩ | h
      · exact .inl (.inl ⟨scope, List.mem_of_mem_tail hs, h⟩)
      · exact .inl (.inr h)
  | code command =>
    cases command with
    | closeFunction =>
      rw [apply] at h
      split at h
      · exact .inl h
      · exact .inl h
    | _ => exact .inl h

/-- A function that is visible was declared. -/
theorem mem_functionsIn {es : List Event} {D : Binding} {link : String} {signature : Signature}
    (h : D ∈ (Ledger.after {} es).visible) (meaning : D.symbol.meaning = .function link signature) :
    D.symbol ∈ functionsIn es := by
  induction es using List.reverseRecOn with
  | nil => cases h
  | append_singleton es e ih =>
    rw [after_append] at h
    rw [functionsIn_append, List.mem_append]
    rcases mem_visible_apply h with h | rfl | ⟨type, isType⟩
    · exact .inl (ih h)
    · obtain ⟨⟨name, _, pos⟩, owner⟩ := D
      cases meaning
      exact .inr (List.mem_singleton.2 rfl)
    · rw [meaning] at isType
      cases isType

end Ledger

/-- Numbered bodies are the entry and, for every header, the function that it defines. -/
structure DefinedBy (headers : List Header) (bodies : List (Nat × Body)) : Prop where
  /-- The entry has number 0, and the headers are numbered from 1 on. -/
  numbers : (bodies.map Prod.fst).Perm (List.range (headers.length + 1))
  entry : ∀ b, (0, b) ∈ bodies → b.name = entryName ∧ b.signature = none
  definition : ∀ n b, (n + 1, b) ∈ bodies → ∃ h, headers[n]? = some h ∧
    b.name = linkOf headers n h ∧ b.signature = some h.signature
  distinct : ∀ m n b b', (m + 1, b) ∈ bodies → (n + 1, b') ∈ bodies → b.name = b'.name → m = n

namespace DefinedBy

variable {headers : List Header} {bodies : List (Nat × Body)}

/-- Every header has its body. -/
theorem body (d : DefinedBy headers bodies) {n : Nat} {h : Header} (hn : headers[n]? = some h) :
    ∃ b, (n + 1, b) ∈ bodies ∧ b.name = linkOf headers n h ∧ b.signature = some h.signature := by
  have less : n < headers.length := (List.getElem?_eq_some_iff.1 hn).1
  have listed : n + 1 ∈ bodies.map Prod.fst :=
    d.numbers.mem_iff.2 (List.mem_range.2 (Nat.succ_lt_succ less))
  obtain ⟨⟨m, b⟩, hb, rfl⟩ := List.mem_map.1 listed
  obtain ⟨h', hn', name, signature⟩ := d.definition n b hb
  obtain rfl : h' = h := Option.some.inj (hn'.symm.trans hn)
  exact ⟨b, hb, name, signature⟩

section Entry

variable {entry : Body} {rest : List (Nat × Body)}

/-- What comes behind the entry is numbered from 1 on. -/
theorem exists_succ (d : DefinedBy headers ((0, entry) :: rest)) {k : Nat} {b : Body}
    (hb : (k, b) ∈ rest) : ∃ n, k = n + 1 := by
  have numbers := d.numbers.nodup_iff.2 List.nodup_range
  cases k with
  | zero => exact absurd (List.mem_map_of_mem hb) (List.nodup_cons.1 numbers).1
  | succ n => exact ⟨n, rfl⟩

/-- The definitions, which come behind the entry, have different names. -/
theorem nodup_definitions (d : DefinedBy headers ((0, entry) :: rest)) :
    ((rest.map Prod.snd).map Body.name).Nodup := by
  have numbers := (List.nodup_cons.1 (d.numbers.nodup_iff.2 List.nodup_range)).2
  rw [List.map_map]
  refine (List.Nodup.of_map _ numbers).map_on ?_
  rintro ⟨k, b⟩ hb ⟨k', b'⟩ hb' same
  refine List.inj_on_of_nodup_map numbers hb hb' ?_
  obtain ⟨m, rfl⟩ := d.exists_succ hb
  obtain ⟨n, rfl⟩ := d.exists_succ hb'
  exact congrArg (· + 1) (d.distinct m n b b' (List.mem_cons_of_mem _ hb)
    (List.mem_cons_of_mem _ hb') same)

end Entry

end DefinedBy

/-! ## Whole sessions -/

namespace Session.Completes

variable {x : Session} {structural : Severity} {scopes : Scopes} {source : Tokens}

/-- The functions that are declared are those of the headers. -/
theorem functions_eq (h : x.Completes structural scopes source) :
    functionsIn (eventsOf x.transcript) = introduced [] (headersOf x.transcript) := by
  obtain ⟨later, defines⟩ := Pass.defines structural scopes source
  rw [← h.events] at defines
  exact defines.linked.eq_introduced h.headers

/-- As many functions are begun as headers are read, each with its header's link. -/
theorem openings_eq (h : x.Completes structural scopes source) :
    (openings (eventsOf x.transcript)).length = (headersOf x.transcript).length ∧
    ∀ n link signature, (openings (eventsOf x.transcript))[n]? = some (link, signature) →
      ∃ header, (headersOf x.transcript)[n]? = some header ∧
        link = linkOf (headersOf x.transcript) n header ∧ signature = header.signature := by
  obtain ⟨later, defines⟩ := Pass.defines structural scopes source
  rw [← h.events] at defines
  have length := defines.opened.length_eq
  refine ⟨length.symm.trans h.headers.length_eq.symm, ?_⟩
  intro n link signature hn
  obtain ⟨less, opening⟩ := List.getElem?_eq_some_iff.1 hn
  have declared : n < (functionsIn (eventsOf x.transcript)).length := length ▸ less
  have meaning := defines.opened.get declared less
  rw [List.get_eq_getElem, List.get_eq_getElem, opening] at meaning
  have function := List.getElem?_eq_getElem declared
  generalize (functionsIn (eventsOf x.transcript))[n] = f at meaning function
  rw [h.functions_eq, getElem?_introduced_nil] at function
  obtain ⟨header, read, rfl⟩ := function
  obtain ⟨rfl, rfl⟩ := Meaning.function.inj meaning
  exact ⟨header, read, rfl, rfl⟩

/-- The six tokens of a header were read, and its function is begun. -/
theorem headed (h : x.Completes structural scopes source) {before after : List Act}
    {header : Header} (split : x.transcript = before ++ .header header :: after) :
    header.Spelled (scopes.replay (eventsOf before)) before ∧ header.Begins after :=
  h.fits split nofun

/-- The name of a header stands in the source. -/
theorem mem_source (h : x.Completes structural scopes source) {header : Header}
    (mem : header ∈ headersOf x.transcript) : ⟨.ident header.name, header.pos⟩ ∈ source.front := by
  obtain ⟨a, ha, noted⟩ := List.mem_filterMap.1 mem
  obtain rfl : a = .header header := by
    cases a with
    | header header' => exact congrArg _ (Option.some.inj noted)
    | _ => cases noted
  obtain ⟨before, after, split⟩ := List.append_of_mem ha
  obtain ⟨⟨first, second, opening, closing, ⟨earlier, recent, rfl, read, -⟩, -⟩, -⟩ :=
    h.headed split
  have tokens := h.tokens
  rw [split, tokensRead_append, tokensRead_append, read] at tokens
  refine (List.takeWhile_sublist (!·.isEof)).subset ?_
  rw [← tokens]
  simp

variable {text : String} {ts : List Token}

/-- Headers in a source text have proper names. -/
theorem named (h : x.Completes structural scopes (.ofList ts)) (scanned : scan text = .ok ts) :
    ∀ header ∈ headersOf x.transcript, isName header.name = true := by
  intro header mem
  have inText := (Tokens.front_ofList_sublist ts).subset (h.mem_source mem)
  exact Token.Kind.Scannable.isName ⟨text, ts, scanned, _, inText, rfl⟩ rfl

/-- Of a source text, the bodies are defined by the headers. -/
theorem definedBy (h : x.Completes structural scopes (.ofList ts)) (scanned : scan text = .ok ts) :
    DefinedBy (headersOf x.transcript) ((Ledger.after {} (eventsOf x.transcript)).bodies
      (Draft.replay {} (eventsOf x.transcript))) := by
  obtain ⟨length, opening⟩ := h.openings_eq
  have definition {n : Nat} {b : Body} (hb : (n + 1, b) ∈ (Ledger.after {}
      (eventsOf x.transcript)).bodies (Draft.replay {} (eventsOf x.transcript))) :
      ∃ header, (headersOf x.transcript)[n]? = some header ∧
        b.name = linkOf (headersOf x.transcript) n header ∧
          b.signature = some header.signature := by
    obtain ⟨signature, hs, opened⟩ := Ledger.opening_of_succ hb
    obtain ⟨header, hn, name, rfl⟩ := opening n _ _ opened
    exact ⟨header, hn, name, hs⟩
  refine ⟨?_, fun b hb => Ledger.entry_of_zero hb, fun n b hb => definition hb, ?_⟩
  · rw [← length]
    have sound := Pass.soundThrough structural scopes (.ofList ts)
    rw [← h.events] at sound
    exact Ledger.perm_numbers sound
  · intro m n b b' hb hb' same
    obtain ⟨header, hm, name, -⟩ := definition hb
    obtain ⟨header', hn, name', -⟩ := definition hb'
    exact linkOf_inj (h.named scanned) hm hn (name.symm.trans (same.trans name'))

end Session.Completes

/-- A source text without lexical errors is compiled, and a session on it comes to its end whose
bodies are those of the listing. -/
theorem compile_completes {source : String} {ts : List Token} (scanned : scan source = .ok ts)
    (structural : Severity) (scopes : Scopes) :
    ∃ c x, compile source structural scopes = .ok c ∧
      x.Completes structural scopes (.ofList ts) ∧
      Session.Parses structural scopes (.ofList ts) c.accepted x ∧
      ((Ledger.after {} (eventsOf x.transcript)).bodies
        (Draft.replay {} (eventsOf x.transcript))).map Prod.snd = c.listing.bodies := by
  obtain ⟨c, compiled, listed, accepted, -⟩ := compile_of_scan scanned structural scopes
  obtain ⟨x, completes⟩ := Session.completes structural scopes (.ofList ts)
  refine ⟨c, x, compiled, completes, accepted ▸ completes.parsed, ?_⟩
  rw [Pass.listing_eq, ← completes.events] at listed
  rw [Ledger.snd_bodies (Ledger.counts_after _)]
  exact congrArg Listing.bodies (Except.ok.inj listed)

end OnePass
