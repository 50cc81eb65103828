import Mathlib.Data.List.Perm.Basic
import Mathlib.Data.Option.Basic
import OnePass.Proofs.Nesting
import OnePass.Proofs.Piece

/-!
# Drafts are nested logs

Whatever commands a draft is given, and however they are nested, every body of the finished listing
is a log: it holds the locals and the instructions of the commands that were given while its
function was the innermost one, in the order in which they were given. The functions come in the
order in which they were closed, and those that were never closed come last, innermost first. Main
theorem `finish_nested`.
-/

namespace OnePass

namespace Draft

/-- What a command does to the nesting of the functions. -/
def Command.bracket : Command → Bracket
  | .openFunction _ _ => .opening
  | .closeFunction => .closing
  | .reserveLocal _ _ | .reserveLabel | .emit _ => .neutral

def Command.instruction? : Command → Option Instruction
  | .emit i => some i
  | _ => none

/-- The local that a command reserves a slot for. -/
def Command.local? : Command → Option (String × ValueType)
  | .reserveLocal name type => some (name, type)
  | _ => none

def ofHistory (history : List Command) : Draft := history.foldl apply {}

/-! ## What a history says -/

/-- What the commands gave that were carried out while a function was innermost, in their order. A
function is named by the command that opened it, and the entry by `none`. -/
def given {β : Type} (f : Command → Option β) (history : List Command) (function : Option Nat) :
    List β :=
  (Nesting.attributed Command.bracket history).filterMap fun x =>
    if x.1 = function then f x.2 else none

/-- The locals and the instructions that were given while a function was innermost. -/
def log (history : List Command) (function : Option Nat) : Piece where
  locals := given Command.local? history function
  code := given Command.instruction? history function

/-- The body of a function: its name and signature are those it was opened with. -/
def logged (history : List Command) (function : Option Nat) : Body :=
  match function.bind (history[·]?) with
  | some (.openFunction link signature) => (log history function).body link (some signature)
  | _ => (log history function).body entryName none

/-- The entry, the functions in the order in which they were closed, and the functions still open,
innermost first. -/
def functions (history : List Command) : List (Option Nat) :=
  none :: (Nesting.closed Command.bracket history ++
    Nesting.stillOpen Command.bracket history).map some

/-! ## One more command -/

/-- What a command adds to the function that is innermost. -/
def Command.addition (command : Command) : Piece where
  locals := command.local?.toList
  code := command.instruction?.toList

theorem given_concat {β : Type} (f : Command → Option β) (history : List Command)
    (command : Command) (function : Option Nat) :
    given f (history ++ [command]) function = given f history function ++
      if Nesting.innermost Command.bracket history = function then (f command).toList else [] := by
  rw [given, Nesting.attributed_concat, List.filterMap_append, given]
  by_cases h : Nesting.innermost Command.bracket history = function <;>
    cases new : f command <;> simp [h, new]

theorem log_concat (history : List Command) (command : Command) (function : Option Nat) :
    log (history ++ [command]) function = log history function ++
      if Nesting.innermost Command.bracket history = function then command.addition else {} := by
  by_cases h : Nesting.innermost Command.bracket history = function <;>
    ext1 <;> simp [log, given_concat, Command.addition, h]

/-- A function that is opened next has been given nothing. -/
theorem given_length_eq_nil {β : Type} (f : Command → Option β) (history : List Command) :
    given f history (some history.length) = [] := by
  rw [given, List.filterMap_eq_nil_iff]
  rintro ⟨function, command⟩ mem
  have elsewhere : function ≠ some history.length := by
    rintro rfl
    have before := Nesting.lt_length_of_map_eq (Nesting.opening_of_attributed mem)
    exact absurd before (Nat.lt_irrefl _)
  simp [elsewhere]

/-- A command adds to the function that is innermost, and to no other. -/
theorem logged_concat (history : List Command) (command : Command) {function : Option Nat}
    (known : ∀ i ∈ function, i < history.length) :
    logged (history ++ [command]) function =
      if Nesting.innermost Command.bracket history = function then
        (logged history function).extend command.addition
      else logged history function := by
  have same : function.bind ((history ++ [command])[·]?) = function.bind (history[·]?) := by
    cases function with
    | none => rfl
    | some i => exact List.getElem?_append_left (known i rfl)
  unfold logged
  rw [same, log_concat]
  by_cases h : Nesting.innermost Command.bracket history = function
  · simp only [h, if_true]
    split <;> simp [Piece.body, Body.extend]
  · simp only [h, if_false, Piece.append_empty]

theorem logged_length (history : List Command) (link : String) (signature : Signature) :
    logged (history ++ [.openFunction link signature]) (some history.length) =
      { name := link, signature := some signature } := by
  have apart : Nesting.innermost Command.bracket history ≠ some history.length := by
    intro same
    have mem : history.length ∈ Nesting.stillOpen Command.bracket history :=
      List.mem_of_head? same
    have opening := Nesting.mem_closed_append_stillOpen.1 (List.mem_append_right _ mem)
    exact absurd (Nesting.lt_length_of_map_eq opening) (Nat.lt_irrefl _)
  simp [logged, log, given_concat, given_length_eq_nil, apart, Piece.body]

/-! ## The draft -/

/-- The bodies of a draft are those that a history says. -/
structure Holds (history : List Command) (d : Draft) : Prop where
  entry : d.entry = logged history none
  opened : d.opened =
    (Nesting.stillOpen Command.bracket history).map fun i => logged history (some i)
  closed : d.closed.reverse =
    (Nesting.closed Command.bracket history).map fun i => logged history (some i)

/-- What is neither opened nor closed is added to the function that is innermost. -/
theorem apply_eq_extend (d : Draft) {command : Command} (neutral : command.bracket = .neutral) :
    ∃ marks, d.apply command = { d.extend command.addition with marks } := by
  cases command with
  | reserveLocal name type => exact ⟨d.marks, d.reserveLocal_eq name type⟩
  | reserveLabel =>
    have nothing : Command.addition .reserveLabel = {} := rfl
    exact ⟨d.marks.push 0, by rw [nothing, extend_empty]; rfl⟩
  | emit i => exact ⟨marksAfter d.marks i, d.emit_eq i⟩
  | openFunction link signature => cases neutral
  | closeFunction => cases neutral

section

variable {history : List Command} {d : Draft}

/-- The functions that a history knows were opened by it. -/
theorem lt_length_of_mem {i : Nat} (mem : i ∈ Nesting.closed Command.bracket history ++
    Nesting.stillOpen Command.bracket history) : i < history.length :=
  Nesting.lt_length_of_map_eq (Nesting.mem_closed_append_stillOpen.1 mem)

/-- A command leaves a function that is not innermost as it is. -/
theorem logged_concat_of_ne (command : Command) {i : Nat}
    (mem : i ∈ Nesting.closed Command.bracket history ++
      Nesting.stillOpen Command.bracket history)
    (apart : Nesting.innermost Command.bracket history ≠ some i) :
    logged (history ++ [command]) (some i) = logged history (some i) := by
  rw [logged_concat _ _ (by simpa using lt_length_of_mem mem), if_neg apart]

/-- A command that adds nothing leaves every function as it is. -/
theorem logged_concat_of_empty {command : Command} (empty : command.addition = {}) {i : Nat}
    (mem : i ∈ Nesting.closed Command.bracket history ++
      Nesting.stillOpen Command.bracket history) :
    logged (history ++ [command]) (some i) = logged history (some i) := by
  rw [logged_concat _ _ (by simpa using lt_length_of_mem mem), empty]
  simp [Body.extend]

theorem Holds.extend (h : Holds history d) {command : Command}
    (neutral : command.bracket = .neutral) (marks : Array Nat) :
    Holds (history ++ [command]) { d.extend command.addition with marks } := by
  have opened := Nesting.stillOpen_concat Command.bracket history command
  have closed := Nesting.closed_concat Command.bracket history command
  have nodup := Nesting.nodup_closed_append_stillOpen Command.bracket history
  simp only [neutral, reduceCtorEq, if_false, List.append_nil] at opened closed
  cases places : Nesting.stillOpen Command.bracket history with
  | nil =>
    have ground : Nesting.innermost Command.bracket history = none := by
      simp [Nesting.innermost, places]
    have empty : d.opened = [] := by simp [h.opened, places]
    refine ⟨?_, ?_, ?_⟩
    · simp [Draft.extend, modifyCurrent, empty, logged_concat, ground, h.entry]
    · simp [Draft.extend, modifyCurrent, empty, opened, places]
    · rw [closed, List.map_congr_left fun i mem =>
        logged_concat_of_ne command (List.mem_append_left _ mem) (by simp [ground]), ← h.closed]
      simp [Draft.extend, Command.addition]
  | cons first outside =>
    have top : Nesting.innermost Command.bracket history = some first := by
      simp [Nesting.innermost, places]
    have split : d.opened = logged history (some first) ::
        outside.map fun i => logged history (some i) := by
      simp [h.opened, places]
    rw [places] at nodup
    obtain ⟨-, inner, apart⟩ := List.nodup_append.1 nodup
    refine ⟨?_, ?_, ?_⟩
    · simp [Draft.extend, modifyCurrent, split, logged_concat, top, h.entry]
    · have outer : ∀ i ∈ outside, first ≠ i := fun i mem same =>
        (List.nodup_cons.1 inner).1 (same ▸ mem)
      have known : first < history.length := lt_length_of_mem (by simp [places])
      rw [opened, places, List.map_cons, logged_concat _ _ (by simpa using known), if_pos top,
        List.map_congr_left fun i mem =>
          logged_concat_of_ne command (by simp [places, mem]) (by simpa [top] using outer i mem)]
      simp [Draft.extend, modifyCurrent, split]
    · have ended : ∀ i ∈ Nesting.closed Command.bracket history, first ≠ i := fun i mem same =>
        apart i mem first (by simp) same.symm
      rw [closed, List.map_congr_left fun i mem =>
        logged_concat_of_ne command (List.mem_append_left _ mem) (by simpa [top] using ended i mem),
        ← h.closed]
      simp [Draft.extend, Command.addition]

theorem Holds.openFunction (h : Holds history d) (link : String) (signature : Signature) :
    Holds (history ++ [.openFunction link signature]) (d.openFunction link signature) := by
  have opened := Nesting.stillOpen_concat Command.bracket history (.openFunction link signature)
  have closed := Nesting.closed_concat Command.bracket history (.openFunction link signature)
  simp only [Command.bracket, reduceCtorEq, if_false, List.append_nil] at opened closed
  refine ⟨?_, ?_, ?_⟩
  · rw [logged_concat _ _ (by simp)]
    simp [Draft.openFunction, h.entry, Command.addition, Command.local?, Command.instruction?,
      Body.extend]
  · rw [opened, List.map_cons, logged_length, List.map_congr_left fun i mem =>
      logged_concat_of_empty rfl (List.mem_append_right _ mem), ← h.opened]
    rfl
  · rw [closed, List.map_congr_left fun i mem =>
      logged_concat_of_empty rfl (List.mem_append_left _ mem), ← h.closed]
    rfl

theorem Holds.closeFunction (h : Holds history d) :
    Holds (history ++ [.closeFunction]) d.closeFunction := by
  have opened := Nesting.stillOpen_concat Command.bracket history .closeFunction
  have closed := Nesting.closed_concat Command.bracket history .closeFunction
  simp only [Command.bracket, if_true] at opened closed
  have entry : logged (history ++ [.closeFunction]) none = logged history none := by
    rw [logged_concat _ _ (by simp)]
    simp [Command.addition, Command.local?, Command.instruction?, Body.extend]
  have kept : ∀ is : List Nat, (∀ i ∈ is, i ∈ Nesting.closed Command.bracket history ++
      Nesting.stillOpen Command.bracket history) →
      is.map (fun i => logged (history ++ [.closeFunction]) (some i)) =
        is.map fun i => logged history (some i) :=
    fun is known => List.map_congr_left fun i mem => logged_concat_of_empty rfl (known i mem)
  cases places : Nesting.stillOpen Command.bracket history with
  | nil =>
    have empty : d.opened = [] := by simp [h.opened, places]
    simp only [Nesting.innermost, places, List.head?_nil, Option.toList_none, List.append_nil,
      List.tail_nil] at opened closed
    rw [show d.closeFunction = d by simp [Draft.closeFunction, empty]]
    refine ⟨h.entry.trans entry.symm, ?_, ?_⟩
    · rw [opened, empty, List.map_nil]
    · rw [closed, kept _ fun i mem => List.mem_append_left _ mem, h.closed]
  | cons first outside =>
    have split : d.opened = logged history (some first) ::
        outside.map fun i => logged history (some i) := by
      simp [h.opened, places]
    simp only [Nesting.innermost, places, List.head?_cons, Option.toList_some, List.tail_cons]
      at opened closed
    refine ⟨?_, ?_, ?_⟩
    · simpa [Draft.closeFunction, split, entry] using h.entry
    · rw [opened, kept _ fun i mem => by simp [places, mem]]
      simp [Draft.closeFunction, split]
    · rw [closed, List.map_append, kept _ fun i mem => List.mem_append_left _ mem,
        kept _ fun i mem => by simp_all, ← h.closed]
      simp [Draft.closeFunction, split]

theorem Holds.apply (h : Holds history d) (command : Command) :
    Holds (history ++ [command]) (d.apply command) := by
  cases kind : command.bracket with
  | neutral =>
    obtain ⟨marks, reached⟩ := d.apply_eq_extend kind
    rw [reached]
    exact h.extend kind marks
  | opening =>
    cases command with
    | openFunction link signature => exact h.openFunction link signature
    | _ => cases kind
  | closing =>
    cases command with
    | closeFunction => exact h.closeFunction
    | _ => cases kind

end

theorem holds (history : List Command) : Holds history (ofHistory history) := by
  induction history using List.reverseRecOn with
  | nil => exact ⟨rfl, rfl, rfl⟩
  | append_singleton history command ih =>
    rw [ofHistory, List.foldl_append]
    exact ih.apply command

theorem bodies_eq_map_logged (history : List Command) :
    (ofHistory history).bodies = (functions history).map (logged history) := by
  have h := holds history
  simp [bodies, functions, h.entry, h.opened, h.closed, Function.comp_def]

/-! ## Functions and what they are given -/

theorem nodup_functions (history : List Command) : (functions history).Nodup := by
  refine List.nodup_cons.2 ⟨by simp, ?_⟩
  exact (Nesting.nodup_closed_append_stillOpen _ history).map (Option.some_injective Nat)

theorem some_mem_functions {history : List Command} {i : Nat} :
    some i ∈ functions history ↔
      ∃ link signature, history[i]? = some (.openFunction link signature) := by
  have known : some i ∈ functions history ↔ (history[i]?).map Command.bracket = some .opening := by
    rw [← Nesting.mem_closed_append_stillOpen, functions, List.mem_cons,
      List.mem_map_of_injective (Option.some_injective Nat)]
    simp
  rw [known, Option.map_eq_some_iff]
  constructor
  · rintro ⟨command, found, kind⟩
    cases command with
    | openFunction link signature => exact ⟨link, signature, found⟩
    | _ => cases kind
  · rintro ⟨link, signature, found⟩
    exact ⟨_, found, rfl⟩

/-- Whatever a history gives it gives to one of its functions. -/
theorem mem_functions_of_attributed {history : List Command} {function : Option Nat}
    {command : Command} (mem : (function, command) ∈ Nesting.attributed Command.bracket history) :
    function ∈ functions history := by
  cases function with
  | none => exact List.mem_cons_self
  | some i =>
    have opening := Nesting.opening_of_attributed mem
    have known := Nesting.mem_closed_append_stillOpen.2 opening
    exact List.mem_cons_of_mem _ (List.mem_map_of_mem known)

theorem flatMap_ite_of_mem {α β : Type} [DecidableEq α] {keys : List α} (nodup : keys.Nodup) {k : α}
    (mem : k ∈ keys) (ys : List β) : (keys.flatMap fun key => if k = key then ys else []) = ys := by
  induction keys with
  | nil => cases mem
  | cons key keys ih =>
    rw [List.nodup_cons] at nodup
    rw [List.flatMap_cons]
    by_cases same : k = key
    · have others : ∀ other ∈ keys, k ≠ other := fun other found same' =>
        nodup.1 (same ▸ same' ▸ found)
      rw [if_pos same, List.flatMap_eq_nil_iff.2 fun other found => if_neg (others other found),
        List.append_nil]
    · rw [if_neg same, List.nil_append, ih nodup.2 ((List.mem_cons.1 mem).resolve_left same)]

/-- What is sorted by keys is only rearranged. -/
theorem flatMap_filterMap_perm {α β γ : Type} [DecidableEq α] {keys : List α} (nodup : keys.Nodup)
    (f : β → Option γ) (xs : List (α × β)) (known : ∀ x ∈ xs, x.1 ∈ keys) :
    (keys.flatMap fun key => xs.filterMap fun x => if x.1 = key then f x.2 else none).Perm
      (xs.filterMap fun x => f x.2) := by
  induction xs with
  | nil => simp
  | cons x xs ih =>
    have first : ∀ key, (x :: xs).filterMap (fun x => if x.1 = key then f x.2 else none) =
        (if x.1 = key then (f x.2).toList else []) ++
          xs.filterMap fun x => if x.1 = key then f x.2 else none := by
      intro key
      by_cases same : x.1 = key <;> cases new : f x.2 <;> simp [same, new]
    have whole : (x :: xs).filterMap (fun x => f x.2) =
        (f x.2).toList ++ xs.filterMap fun x => f x.2 := by
      cases new : f x.2 <;> simp [new]
    rw [funext first, whole]
    refine (List.flatMap_append_perm keys _ _).symm.trans ?_
    rw [flatMap_ite_of_mem nodup (known x List.mem_cons_self)]
    exact (ih fun y mem => known y (List.mem_cons_of_mem _ mem)).append_left _

/-- **Nothing is lost and nothing is there twice.** -/
theorem flatMap_given_perm {β : Type} (f : Command → Option β) (history : List Command) :
    ((functions history).flatMap (given f history)).Perm (history.filterMap f) := by
  have sorted := flatMap_filterMap_perm (nodup_functions history) f
    (Nesting.attributed Command.bracket history) fun x mem => mem_functions_of_attributed mem
  refine sorted.trans (.of_eq ?_)
  conv_rhs => rw [← Nesting.map_snd_attributed Command.bracket history]
  rw [List.filterMap_map]
  rfl

theorem given_prefix {β : Type} (f : Command → Option β) (history more : List Command)
    (function : Option Nat) : given f history function <+: given f (history ++ more) function :=
  (Nesting.attributed_prefix Command.bracket history more).filterMap _

/-! ## Contents and slots -/

@[simp] theorem code_logged (history : List Command) (function : Option Nat) :
    (logged history function).code.toList = given Command.instruction? history function := by
  unfold logged
  split <;> simp [Piece.body, log]

@[simp] theorem locals_logged (history : List Command) (function : Option Nat) :
    (logged history function).locals.toList = given Command.local? history function := by
  unfold logged
  split <;> simp [Piece.body, log]

theorem current_ofHistory (history : List Command) :
    (ofHistory history).current =
      logged history (Nesting.innermost Command.bracket history) := by
  have h := holds history
  rw [current, h.opened, h.entry, Nesting.innermost]
  cases Nesting.stillOpen Command.bracket history <;> rfl

theorem nextSlot_ofHistory (history : List Command) :
    (ofHistory history).nextSlot =
      (given Command.local? history (Nesting.innermost Command.bracket history)).length := by
  rw [nextSlot, current_ofHistory, ← Array.length_toList, locals_logged]

/-- The slot that a local gets is the one where it is found. -/
theorem getElem?_locals_logged (before : List Command) (name : String) (type : ValueType)
    (after : List Command) :
    (logged (before ++ .reserveLocal name type :: after)
      (Nesting.innermost Command.bracket before)).locals[(ofHistory before).nextSlot]? =
        some (name, type) := by
  have split : before ++ .reserveLocal name type :: after =
      (before ++ [.reserveLocal name type]) ++ after := by simp
  obtain ⟨later, whole⟩ := given_prefix Command.local? (before ++ [.reserveLocal name type]) after
    (Nesting.innermost Command.bracket before)
  rw [← Array.getElem?_toList, locals_logged, split, ← whole, given_concat, nextSlot_ofHistory]
  simp [Command.local?]

/-- Where only the entry is open there is nothing to close. -/
theorem closeFunction_ofHistory {history : List Command}
    (ground : Nesting.innermost Command.bracket history = none) :
    (ofHistory history).closeFunction = ofHistory history := by
  have empty : (ofHistory history).opened = [] := by
    simpa [(holds history).opened, Nesting.innermost] using ground
  simp [closeFunction, empty]

end Draft

/-- **A draft is a nest of logs.** Let a draft be finished after any history of commands. Its first
body is the entry, which has the name of the entry and no signature and is found by that name. Then
follows one body for each function that was opened, under the name and with the signature it was
opened with: first those that were closed, in that order, then those still open, innermost first.
The code of a body are the instructions that were emitted while it was innermost, its locals those
that were reserved meanwhile, both in their order, and a local stands in the slot that was next when
it was reserved. A function that is closed where only the entry is open changes nothing. Altogether
the bodies hold each instruction of the history once. -/
theorem finish_nested {history : List Draft.Command} {listing : Listing}
    (finished : (Draft.ofHistory history).finish = .ok listing) :
    (listing.bodies = (Draft.functions history).map (Draft.logged history) ∧
      listing.bodies.head? = listing.entry? ∧
      ∃ entry, listing.entry? = some entry ∧ entry = Draft.logged history none ∧
        entry.name = entryName ∧ entry.signature = none) ∧
    ((Draft.functions history).Nodup ∧
      (∀ i, some i ∈ Draft.functions history ↔
        ∃ link signature, history[i]? = some (.openFunction link signature)) ∧
      ∀ i link signature, history[i]? = some (.openFunction link signature) →
        (Draft.logged history (some i)).name = link ∧
        (Draft.logged history (some i)).signature = some signature) ∧
    (∀ function,
      (Draft.logged history function).code.toList =
        Draft.given Draft.Command.instruction? history function ∧
      (Draft.logged history function).locals.toList =
        Draft.given Draft.Command.local? history function) ∧
    (∀ before name type after, history = before ++ .reserveLocal name type :: after →
      (Draft.ofHistory before).nextSlot = (Draft.given Draft.Command.local? before
        (Nesting.innermost Draft.Command.bracket before)).length ∧
      (Draft.logged history (Nesting.innermost Draft.Command.bracket before)).locals[
        (Draft.ofHistory before).nextSlot]? = some (name, type)) ∧
    (∀ before after, history = before ++ .closeFunction :: after →
      Nesting.innermost Draft.Command.bracket before = none →
      Draft.ofHistory (before ++ [.closeFunction]) = Draft.ofHistory before) ∧
    (listing.bodies.flatMap (·.code.toList)).Perm
      (history.filterMap Draft.Command.instruction?) := by
  have bodies : listing.bodies = (Draft.functions history).map (Draft.logged history) := by
    rw [← Draft.bodies_eq_map_logged]
    unfold Draft.finish at finished
    split at finished
    · cases finished
    · cases finished
      rfl
  have first : listing.entry? = some (Draft.logged history none) := by
    rw [Listing.entry?, Listing.find?, bodies, Draft.functions, List.map_cons,
      List.find?_cons_of_pos (by simp [Draft.logged, Piece.body])]
  refine ⟨⟨bodies, ?_, _, first, rfl, rfl, rfl⟩, ⟨Draft.nodup_functions history,
    fun i => Draft.some_mem_functions, ?_⟩, ?_, ?_, ?_, ?_⟩
  · rw [first, bodies, Draft.functions]
    rfl
  · intro i link signature found
    simp [Draft.logged, found, Piece.body]
  · exact fun function => ⟨Draft.code_logged history function, Draft.locals_logged history function⟩
  · rintro before name type after rfl
    exact ⟨Draft.nextSlot_ofHistory before, Draft.getElem?_locals_logged before name type after⟩
  · intro before after _ ground
    rw [Draft.ofHistory, List.foldl_append]
    exact Draft.closeFunction_ofHistory ground
  · rw [bodies, List.flatMap_map]
    simpa using Draft.flatMap_given_perm Draft.Command.instruction? history

/-- A history in which a function is closed in vain, one is opened inside another, which goes on
after the first is closed, and one is never closed. Two functions have the same name. -/
def nestedHistory : List Draft.Command :=
  [.closeFunction, .reserveLocal "a" .int, .openFunction "f" ⟨.int, .int⟩, .reserveLocal "x" .int,
    .reserveLocal "y" .bool, .emit (.load 0), .openFunction "g" ⟨.char, .bool⟩,
    .reserveLocal "z" .char, .emit (.load 0), .closeFunction, .emit .ret, .closeFunction,
    .emit (.pushInt 1), .openFunction "f" ⟨.bool, .bool⟩, .emit (.pushInt 1)]

theorem finish_nested_nestedHistory :
    (Draft.ofHistory nestedHistory).finish = .ok ⟨[
      { name := "main", signature := none, locals := #[("a", .int)], code := #[.pushInt 1] },
      { name := "g", signature := some ⟨.char, .bool⟩, locals := #[("z", .char)],
        code := #[.load 0] },
      { name := "f", signature := some ⟨.int, .int⟩, locals := #[("x", .int), ("y", .bool)],
        code := #[.load 0, .ret] },
      { name := "f", signature := some ⟨.bool, .bool⟩, code := #[.pushInt 1] }]⟩ ∧
    Draft.functions nestedHistory = [none, some 6, some 2, some 13] ∧
    (Draft.ofHistory (nestedHistory.take 4)).nextSlot = 1 ∧
    (Draft.logged nestedHistory (some 2)).locals[1]? = some ("y", .bool) := by
  have finished : (Draft.ofHistory nestedHistory).finish = .ok ⟨[
      { name := "main", signature := none, locals := #[("a", .int)], code := #[.pushInt 1] },
      { name := "g", signature := some ⟨.char, .bool⟩, locals := #[("z", .char)],
        code := #[.load 0] },
      { name := "f", signature := some ⟨.int, .int⟩, locals := #[("x", .int), ("y", .bool)],
        code := #[.load 0, .ret] },
      { name := "f", signature := some ⟨.bool, .bool⟩, code := #[.pushInt 1] }]⟩ := rfl
  obtain ⟨-, -, -, slots, -⟩ := finish_nested finished
  have slot := slots (nestedHistory.take 4) "y" .bool (nestedHistory.drop 5) rfl
  refine ⟨finished, by decide +kernel, rfl, ?_⟩
  have inner : Nesting.innermost Draft.Command.bracket (nestedHistory.take 4) = some 2 := by
    decide +kernel
  exact inner ▸ slot.2

end OnePass
