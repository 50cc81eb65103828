import OnePass.Proofs.Nesting
import OnePass.Scopes

/-!
# Scopes are lexical environments

What a name means after any history of changes, said from the history alone: which scopes are still
open follows from what was entered and left, every binding belongs to the scope that was innermost
when it was made (or to the outermost one, if it was made from outside), and a name means its latest
binding in the innermost scope that binds it. Main theorem `environment_followed`: this is what the
scopes answer. A scope that is entered and left again leaves nothing behind.
-/

namespace OnePass

/-- What a change does to the nesting of the scopes. -/
def Scopes.Change.bracket : Scopes.Change → Bracket
  | .enter => .opening
  | .leave => .closing
  | .bindBase _ _ | .declare _ => .neutral

/-- The scopes after a history of changes. At first there is only the outermost one, and it is
empty. -/
def Scopes.ofHistory (host : String → Option ValueType) (history : List Scopes.Change) : Scopes :=
  history.foldl apply { host }

namespace Environment

/-! ## What a history says -/

/-- The symbol that a change binds in a scope, if it binds one there. A scope is named by the change
that entered it, and the outermost one by `none`. -/
def bound? (scope : Option Nat) : Option Nat × Scopes.Change → Option Symbol
  | (_, .bindBase name type) => if scope = none then some ⟨name, .type type, none⟩ else none
  | (place, .declare symbol) => if place = scope then some symbol else none
  | (_, .enter) | (_, .leave) => none

/-- The symbols that were bound in a scope, in the order of the history. -/
def bindings (history : List Scopes.Change) (scope : Option Nat) : List Symbol :=
  (Nesting.attributed Scopes.Change.bracket history).filterMap (bound? scope)

def latest? (history : List Scopes.Change) (scope : Option Nat) (name : String) : Option Symbol :=
  (bindings history scope).reverse.find? (·.name = name)

/-- The scopes that are still open, innermost first. -/
def scopes (history : List Scopes.Change) : List (Option Nat) :=
  (Nesting.stillOpen Scopes.Change.bracket history).map some ++ [none]

def innermost (history : List Scopes.Change) : Option Nat :=
  Nesting.innermost Scopes.Change.bracket history

/-- The innermost scope still open that binds a name. -/
def scopeOf? (history : List Scopes.Change) (name : String) : Option (Option Nat) :=
  (scopes history).find? fun scope => (latest? history scope name).isSome

/-- How many changes left a scope: those that found more than the outermost one. -/
def leavings (host : String → Option ValueType) (history : List Scopes.Change) : Nat :=
  (List.range history.length).countP fun p =>
    history[p]? = some .leave ∧ 1 < (Scopes.ofHistory host (history.take p)).depth

/-! ## One more change -/

theorem bindings_concat (history : List Scopes.Change) (change : Scopes.Change)
    (scope : Option Nat) :
    bindings (history ++ [change]) scope =
      bindings history scope ++ (bound? scope (innermost history, change)).toList := by
  rw [bindings, Nesting.attributed_concat, List.filterMap_append, bindings, innermost]
  cases new : bound? scope (Nesting.innermost Scopes.Change.bracket history, change) <;> simp [new]

/-- Nothing was bound in a scope before it was entered. -/
theorem bindings_length_eq_nil (history : List Scopes.Change) :
    bindings history (some history.length) = [] := by
  rw [bindings, List.filterMap_eq_nil_iff]
  rintro ⟨place, change⟩ mem
  have elsewhere : place ≠ some history.length := by
    rintro rfl
    have before := Nesting.lt_length_of_map_eq (Nesting.opening_of_attributed mem)
    exact absurd before (Nat.lt_irrefl _)
  cases change with
  | bindBase name type => simp [bound?]
  | declare symbol => simp [bound?, elsewhere]
  | enter => rfl
  | leave => rfl

theorem ofHistory_concat (host : String → Option ValueType) (history : List Scopes.Change)
    (change : Scopes.Change) :
    Scopes.ofHistory host (history ++ [change]) = (Scopes.ofHistory host history).apply change := by
  simp [Scopes.ofHistory]

/-- The scopes hold what a history says, latest bindings first. -/
structure Holds (history : List Scopes.Change) (s : Scopes) : Prop where
  inner : s.inner = (Nesting.stillOpen Scopes.Change.bracket history).map fun i =>
    (bindings history (some i)).reverse
  base : s.base = (bindings history none).reverse

section

variable {history : List Scopes.Change} {s : Scopes}

/-- A declaration goes to the innermost scope, and to no other. -/
theorem Holds.declare (h : Holds history s) (symbol : Symbol) :
    Holds (history ++ [.declare symbol]) (s.declare symbol) := by
  have opened := Nesting.stillOpen_concat Scopes.Change.bracket history (.declare symbol)
  simp only [Scopes.Change.bracket] at opened
  obtain ⟨inner, base⟩ := h
  cases places : Nesting.stillOpen Scopes.Change.bracket history with
  | nil =>
    have ground : innermost history = none := by simp [innermost, Nesting.innermost, places]
    have empty : s.inner = [] := by simp [inner, places]
    constructor
    · simp [opened, places, Scopes.declare, empty]
    · simp [Scopes.declare, empty, bindings_concat, bound?, ground, base]
  | cons first outside =>
    have top : innermost history = some first := by
      simp [innermost, Nesting.innermost, places]
    have nodup := Nesting.nodup_stillOpen Scopes.Change.bracket history
    rw [places, List.nodup_cons] at nodup
    have others : ∀ i ∈ outside, bindings (history ++ [.declare symbol]) (some i) =
        bindings history (some i) := by
      intro i mem
      have other : first ≠ i := fun same => nodup.1 (same ▸ mem)
      simp [bindings_concat, bound?, top, other]
    have split : s.inner = (bindings history (some first)).reverse ::
        outside.map fun i => (bindings history (some i)).reverse := by
      simp [inner, places]
    constructor
    · rw [opened, places, Scopes.declare, split, List.map_cons,
        List.map_congr_left fun i mem => congrArg List.reverse (others i mem)]
      simp [bindings_concat, bound?, top]
    · simp [Scopes.declare, split, bindings_concat, bound?, top, base]

theorem Holds.apply (h : Holds history s) (change : Scopes.Change) :
    Holds (history ++ [change]) (s.apply change) := by
  have opened := Nesting.stillOpen_concat Scopes.Change.bracket history change
  cases change with
  | bindBase name type =>
    simp only [Scopes.Change.bracket] at opened
    constructor
    · simp [Scopes.apply, Scopes.bindBase, opened, bindings_concat, bound?, h.inner]
    · simp [Scopes.apply, Scopes.bindBase, bindings_concat, bound?, h.base]
  | declare symbol => exact h.declare symbol
  | enter =>
    simp only [Scopes.Change.bracket] at opened
    constructor
    · simp [opened, Scopes.apply, Scopes.enter, bindings_concat, bound?, bindings_length_eq_nil,
        h.inner]
    · simp [Scopes.apply, Scopes.enter, bindings_concat, bound?, h.base]
  | leave =>
    simp only [Scopes.Change.bracket] at opened
    constructor
    · simp [opened, Scopes.apply, Scopes.leave, bindings_concat, bound?, h.inner]
    · simp [Scopes.apply, Scopes.leave, bindings_concat, bound?, h.base]

end

theorem holds (host : String → Option ValueType) (history : List Scopes.Change) :
    Holds history (Scopes.ofHistory host history) := by
  induction history using List.reverseRecOn with
  | nil => exact ⟨rfl, rfl⟩
  | append_singleton history change ih =>
    rw [ofHistory_concat]
    exact ih.apply change

/-! ## Answers -/

theorem findSome?_eq_bind {α β : Type} (f : α → Option β) (l : List α) :
    l.findSome? f = (l.find? fun a => (f a).isSome).bind f := by
  induction l with
  | nil => rfl
  | cons a l ih => cases found : f a <;> simp [found, ih]

section

variable {history : List Scopes.Change} {s : Scopes}

theorem Holds.find? (h : Holds history s) (name : String) :
    s.find? name = (scopeOf? history name).bind (latest? history · name) := by
  have places : s.find? name = (scopes history).findSome? (latest? history · name) := by
    rw [Scopes.find?, Scopes.symbols, List.find?_append, List.find?_flatten, h.inner, h.base,
      scopes, List.findSome?_append, List.findSome?_map, List.findSome?_map]
    simp [latest?, Function.comp_def]
  rw [places, findSome?_eq_bind, scopeOf?]

theorem Holds.innermost_eq (h : Holds history s) :
    s.innermost = (bindings history (innermost history)).reverse := by
  rw [Scopes.innermost, innermost, Nesting.innermost, h.inner]
  cases Nesting.stillOpen Scopes.Change.bracket history with
  | nil => simp [h.base]
  | cons first outside => simp

theorem exists_scopes_eq (history : List Scopes.Change) :
    ∃ outside, scopes history = innermost history :: outside ∧ innermost history ∉ outside := by
  rw [scopes, innermost, Nesting.innermost]
  have nodup := Nesting.nodup_stillOpen Scopes.Change.bracket history
  cases places : Nesting.stillOpen Scopes.Change.bracket history with
  | nil => exact ⟨[], rfl, List.not_mem_nil⟩
  | cons first outside =>
    refine ⟨outside.map some ++ [none], rfl, ?_⟩
    rw [places] at nodup
    simpa using (List.nodup_cons.1 nodup).1

theorem Holds.bindsInnermost_iff (h : Holds history s) (name : String) :
    s.bindsInnermost name = true ↔ scopeOf? history name = some (innermost history) := by
  obtain ⟨outside, places, other⟩ := exists_scopes_eq history
  have binds : s.bindsInnermost name = (latest? history (innermost history) name).isSome := by
    rw [Scopes.bindsInnermost, h.innermost_eq, latest?, List.isSome_find?]
  rw [binds, scopeOf?, places]
  cases found : (latest? history (innermost history) name).isSome with
  | true => simp [found]
  | false =>
    simp only [List.find?_cons, found, Bool.false_eq_true, false_iff]
    exact fun there => other (List.mem_of_find?_eq_some there)

end

/-- Scopes are entered and left one by one. -/
theorem depth_add_leavings (host : String → Option ValueType) (history : List Scopes.Change) :
    (Scopes.ofHistory host history).depth + leavings host history = 1 + history.count .enter := by
  induction history using List.reverseRecOn with
  | nil => rfl
  | append_singleton history change ih =>
    have before : (List.range history.length).countP (fun p =>
        decide ((history ++ [change])[p]? = some .leave ∧
          1 < (Scopes.ofHistory host ((history ++ [change]).take p)).depth)) =
        leavings host history := by
      refine List.countP_congr fun p hp => ?_
      have inside : p < history.length := List.mem_range.1 hp
      rw [List.getElem?_append_left inside, List.take_append_of_le_length inside.le]
    rw [leavings, List.length_append, List.length_singleton, List.range_succ, List.countP_append,
      before, ofHistory_concat, List.count_append]
    unfold Scopes.depth at ih
    cases change with
    | leave =>
      cases opened : (Scopes.ofHistory host history).inner with
      | nil =>
        simp [Scopes.apply, Scopes.leave, Scopes.depth, opened] at ih ⊢
        omega
      | cons scope outer =>
        simp [Scopes.apply, Scopes.leave, Scopes.depth, opened] at ih ⊢
        omega
    | enter => simp [Scopes.apply, Scopes.enter, Scopes.depth] at ih ⊢; omega
    | bindBase name type => simpa [Scopes.apply, Scopes.bindBase, Scopes.depth] using ih
    | declare symbol =>
      have same : ((Scopes.ofHistory host history).declare symbol).inner.length =
          (Scopes.ofHistory host history).inner.length := by
        unfold Scopes.declare
        split <;> simp [*]
      simpa [Scopes.apply, Scopes.depth, same] using ih

/-! ## Entered and left again -/

/-- Inside of a scope that is not left, changes keep to the scopes that they have entered, and to
that scope. -/
theorem foldl_of_stays {changes : List Scopes.Change}
    (stays : Nesting.Stays (changes.map Scopes.Change.bracket))
    (inside : ∀ name type, .bindBase name type ∉ changes) (s : Scopes) :
    ∃ first new, changes.foldl Scopes.apply s.enter = { s with inner := first :: new ++ s.inner } ∧
      new.length + (changes.map Scopes.Change.bracket).count .closing =
        (changes.map Scopes.Change.bracket).count .opening := by
  induction changes using List.reverseRecOn with
  | nil => exact ⟨[], [], rfl, rfl⟩
  | append_singleton changes change ih =>
    rw [List.map_append, List.map_singleton, Nesting.stays_concat] at stays
    obtain ⟨first, new, reached, level⟩ := ih stays.1 fun name type mem =>
      inside name type (by simp [mem])
    rw [List.foldl_append, reached, List.map_append, List.count_append, List.count_append]
    cases change with
    | bindBase name type => exact absurd (by simp) (inside name type)
    | declare symbol =>
      exact ⟨symbol :: first, new, rfl, by simpa [Scopes.Change.bracket] using level⟩
    | enter =>
      refine ⟨[], first :: new, rfl, ?_⟩
      simp [Scopes.Change.bracket]
      omega
    | leave =>
      -- the scope itself is not left, so there is one inside
      have more := stays.2 rfl
      cases new with
      | nil => simp at level; omega
      | cons second new =>
        refine ⟨second, new, rfl, ?_⟩
        simp [Scopes.Change.bracket] at level ⊢
        omega

/-- What is entered and left again is as if it had not been. -/
theorem foldl_of_balanced {changes : List Scopes.Change}
    (balanced : Nesting.Balanced (changes.map Scopes.Change.bracket))
    (inside : ∀ name type, .bindBase name type ∉ changes) (s : Scopes) :
    (.enter :: changes ++ [.leave] : List Scopes.Change).foldl Scopes.apply s = s := by
  obtain ⟨first, new, reached, level⟩ := foldl_of_stays balanced.stays inside s
  have none : new = [] := by
    have := balanced.even
    exact List.length_eq_zero_iff.1 (by omega)
  rw [List.cons_append, List.foldl_cons, List.foldl_append]
  change List.foldl Scopes.apply (changes.foldl Scopes.apply s.enter) [.leave] = s
  rw [reached, none]
  rfl

end Environment

/-- **Scopes are lexical environments.** After every history of changes there is at least one scope,
and there are as many as were entered, and one more, but for those that were left; a change that
finds only the outermost scope leaves none. A name stands for its latest binding in the innermost
scope still open that binds it, where a binding belongs to the scope that was innermost when it was
made, and one from outside to the outermost scope. The innermost scope of all is said to bind the
name exactly if it is that scope. Wherever in the history a scope is entered, changes inside of it
are balanced and none comes from outside, and it is left again, the scopes are as they were. -/
theorem environment_followed (host : String → Option ValueType) (history : List Scopes.Change) :
    (1 ≤ (Scopes.ofHistory host history).depth ∧
      (Scopes.ofHistory host history).depth + Environment.leavings host history =
        1 + history.count .enter) ∧
    (∀ name,
      (Scopes.ofHistory host history).find? name =
        (Environment.scopeOf? history name).bind (Environment.latest? history · name) ∧
      ((Scopes.ofHistory host history).bindsInnermost name = true ↔
        Environment.scopeOf? history name = some (Environment.innermost history))) ∧
    ∀ before changes rest, history = before ++ (.enter :: changes ++ [.leave]) ++ rest →
      Nesting.Balanced (changes.map Scopes.Change.bracket) →
      (∀ name type, .bindBase name type ∉ changes) →
      Scopes.ofHistory host (before ++ (.enter :: changes ++ [.leave])) =
        Scopes.ofHistory host before := by
  have holds := Environment.holds host history
  refine ⟨⟨Nat.le_add_left 1 _, Environment.depth_add_leavings host history⟩, fun name => ?_, ?_⟩
  · exact ⟨holds.find? name, holds.bindsInnermost_iff name⟩
  · intro before changes rest _ balanced inside
    rw [Scopes.ofHistory, List.foldl_append]
    exact Environment.foldl_of_balanced balanced inside _

/-- The changes inside of a scope in which a name is declared twice, with an empty scope between. -/
def shadowingChanges : List Scopes.Change :=
  [.declare ⟨"x", .localVar .char 1 0, some ⟨2, 8⟩⟩, .enter, .leave,
    .declare ⟨"x", .localVar .bool 2 0, some ⟨3, 8⟩⟩]

/-- A history that begins with a scope left in vain. Inside of a scope that declares the same name
stands the scope of `shadowingChanges`, and another one from which a name is bound from outside. -/
def shadowingHistory : List Scopes.Change :=
  [.leave, .enter, .declare ⟨"x", .localVar .int 0 0, some ⟨1, 7⟩⟩] ++
    (.enter :: shadowingChanges ++ [.leave]) ++ [.enter, .bindBase "y" .double]

theorem environment_followed_shadowingHistory :
    Nesting.Balanced (shadowingChanges.map Scopes.Change.bracket) ∧
    (∀ name type, .bindBase name type ∉ shadowingChanges) ∧
    Scopes.ofHistory (fun _ => none)
        ([.leave, .enter, .declare ⟨"x", .localVar .int 0 0, some ⟨1, 7⟩⟩] ++
          (.enter :: shadowingChanges ++ [.leave])) =
      Scopes.ofHistory (fun _ => none)
        [.leave, .enter, .declare ⟨"x", .localVar .int 0 0, some ⟨1, 7⟩⟩] ∧
    (Scopes.ofHistory (fun _ => none) shadowingHistory).find? "x" =
      some ⟨"x", .localVar .int 0 0, some ⟨1, 7⟩⟩ ∧
    (Scopes.ofHistory (fun _ => none) shadowingHistory).bindsInnermost "y" = false := by
  have balanced : Nesting.Balanced (shadowingChanges.map Scopes.Change.bracket) :=
    ⟨by decide, by decide⟩
  have inside : ∀ name type, .bindBase name type ∉ shadowingChanges := by simp [shadowingChanges]
  obtain ⟨-, answers, restored⟩ := environment_followed (fun _ => none) shadowingHistory
  refine ⟨balanced, inside, restored _ _ _ rfl balanced inside, ?_, ?_⟩
  · rw [(answers "x").1]
    decide +kernel
  · rw [Bool.eq_false_iff, Ne, (answers "y").2]
    decide +kernel

end OnePass
