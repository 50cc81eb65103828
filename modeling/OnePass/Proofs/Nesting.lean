import Mathlib.Data.List.Induction
import Mathlib.Data.List.Infix
import Mathlib.Data.List.Nodup

/-!
# Nesting

Histories whose steps open something, close what was opened last, or do neither. What is innermost
at some moment is said here without a stack: an opening is still open if what follows it closes
nothing but what it has opened itself (`IsOpen`), and the latest opening that is still open is the
innermost one. A closing where nothing is open has no effect.

`opened_concat` says what one more step changes. From it follows what any stack that is kept along a
history holds at its end.
-/

namespace OnePass

/-- What a step of a history does. -/
inductive Bracket where
  | opening
  | closing
  | neutral
deriving DecidableEq

namespace Nesting

/-- At no moment was more closed than opened. -/
def Stays (bs : List Bracket) : Prop :=
  ∀ pre, pre <+: bs → pre.count .closing ≤ pre.count .opening

instance (bs : List Bracket) : Decidable (Stays bs) :=
  decidable_of_iff (∀ pre ∈ bs.inits, pre.count .closing ≤ pre.count .opening)
    (by simp [Stays, List.mem_inits])

/-- Everything that was opened was closed, and nothing else. -/
structure Balanced (bs : List Bracket) : Prop where
  stays : Stays bs
  even : bs.count .closing = bs.count .opening

/-- The opening with the index `i` is still open at the end of a history. -/
def IsOpen (bs : List Bracket) (i : Nat) : Prop :=
  bs[i]? = some .opening ∧ Stays (bs.drop (i + 1))

instance (bs : List Bracket) (i : Nat) : Decidable (IsOpen bs i) :=
  inferInstanceAs (Decidable (_ ∧ _))

/-- The openings that are still open, innermost first. -/
def opened (bs : List Bracket) : List Nat :=
  (List.range bs.length).reverse.filter fun i => decide (IsOpen bs i)

/-! ## One more step -/

theorem stays_nil : Stays [] := by
  intro pre h
  simp [List.prefix_nil.1 h]

theorem stays_concat (bs : List Bracket) (b : Bracket) :
    Stays (bs ++ [b]) ↔ Stays bs ∧ (b = .closing → bs.count .closing < bs.count .opening) := by
  constructor
  · intro h
    refine ⟨fun pre hp => h pre (hp.trans (List.prefix_append bs [b])), ?_⟩
    rintro rfl
    have whole := h _ (List.prefix_refl _)
    simp [List.count_append] at whole
    omega
  · rintro ⟨h, last⟩ pre hp
    rcases List.prefix_concat_iff.1 hp with rfl | hp
    · have before := h bs (List.prefix_refl bs)
      cases b with
      | opening => simp [List.count_append]; omega
      | closing =>
        have less := last rfl
        simp [List.count_append]
        omega
      | neutral => simpa [List.count_append] using before
    · exact h pre hp

theorem IsOpen.lt_length {bs : List Bracket} {i : Nat} (h : IsOpen bs i) : i < bs.length :=
  (List.getElem?_eq_some_iff.1 h.1).1

/-- The last step opens, or leaves open what was open; a closing does so only where more was opened
than closed. -/
theorem isOpen_concat (bs : List Bracket) (b : Bracket) (i : Nat) :
    IsOpen (bs ++ [b]) i ↔ i = bs.length ∧ b = .opening ∨
      IsOpen bs i ∧ (b = .closing →
        (bs.drop (i + 1)).count .closing < (bs.drop (i + 1)).count .opening) := by
  unfold IsOpen
  rcases Nat.lt_trichotomy i bs.length with before | rfl | behind
  · have different : i ≠ bs.length := by omega
    rw [List.getElem?_append_left before, List.drop_append_of_le_length (by omega), stays_concat]
    simp [different, and_assoc]
  · simp [stays_nil]
  · have outside : bs[i]? = none := by simp; omega
    have different : i ≠ bs.length := by omega
    simp [outside, different, List.getElem?_append_right behind.le,
      show i - bs.length ≠ 0 by omega]

theorem mem_opened {bs : List Bracket} {i : Nat} : i ∈ opened bs ↔ IsOpen bs i := by
  simp only [opened, List.mem_filter, List.mem_reverse, List.mem_range, decide_eq_true_eq]
  exact ⟨And.right, fun h => ⟨h.lt_length, h⟩⟩

theorem nodup_opened (bs : List Bracket) : (opened bs).Nodup :=
  (List.nodup_reverse.2 List.nodup_range).filter _

theorem opened_concat_eq_filter (bs : List Bracket) (b : Bracket) :
    opened (bs ++ [b]) = (if b = .opening then [bs.length] else []) ++
      (opened bs).filter fun i => decide (b = .closing →
        (bs.drop (i + 1)).count .closing < (bs.drop (i + 1)).count .opening) := by
  have old : ∀ i ∈ (List.range bs.length).reverse, decide (IsOpen (bs ++ [b]) i) =
      (decide (b = .closing →
        (bs.drop (i + 1)).count .closing < (bs.drop (i + 1)).count .opening) &&
      decide (IsOpen bs i)) := by
    intro i hi
    have before : i ≠ bs.length := by simp at hi; omega
    rw [← Bool.decide_and]
    exact decide_eq_decide.2 (by rw [isOpen_concat]; tauto)
  have new : IsOpen (bs ++ [b]) bs.length ↔ b = .opening := by
    rw [isOpen_concat]
    refine ⟨fun h => ?_, fun h => .inl ⟨rfl, h⟩⟩
    rcases h with h | h
    · exact h.2
    · exact absurd h.1.lt_length (Nat.lt_irrefl _)
  have last : ([bs.length].filter fun i => decide (IsOpen (bs ++ [b]) i)) =
      if b = .opening then [bs.length] else [] := by
    by_cases h : b = .opening
    · rw [List.filter_cons_of_pos (by simpa [new] using h), if_pos h, List.filter_nil]
    · rw [List.filter_cons_of_neg (by simpa [new] using h), if_neg h, List.filter_nil]
  rw [opened, List.length_append, List.length_singleton, List.range_succ, List.reverse_append,
    List.reverse_singleton, List.filter_append, List.filter_congr old, last, opened,
    List.filter_filter]

/-- As many more things were opened than closed since an opening that is still open, as are open
inside it. -/
def Graded (bs : List Bracket) : Prop :=
  ∀ inside i outside, opened bs = inside ++ i :: outside →
    (bs.drop (i + 1)).count .opening = (bs.drop (i + 1)).count .closing + inside.length

/-- What a closing leaves open is all but the innermost. -/
theorem Graded.filter_eq_tail {bs : List Bracket} (h : Graded bs) :
    ((opened bs).filter fun i =>
      decide ((bs.drop (i + 1)).count .closing < (bs.drop (i + 1)).count .opening)) =
        (opened bs).tail := by
  cases split : opened bs with
  | nil => rfl
  | cons first outside =>
    have none := h [] first outside split
    rw [List.filter_cons_of_neg (by simp [none]), List.tail_cons, List.filter_eq_self]
    intro i mem
    obtain ⟨xs, ys, rfl⟩ := List.append_of_mem mem
    have some := h (first :: xs) i ys split
    simp [some]

theorem opened_concat_of_graded {bs : List Bracket} (h : Graded bs) (b : Bracket) :
    opened (bs ++ [b]) =
      match b with
      | .opening => bs.length :: opened bs
      | .closing => (opened bs).tail
      | .neutral => opened bs := by
  rw [opened_concat_eq_filter]
  cases b with
  | opening => simp
  | closing => simpa using h.filter_eq_tail
  | neutral => simp

theorem graded (bs : List Bracket) : Graded bs := by
  induction bs using List.reverseRecOn with
  | nil =>
    intro inside i outside split
    simp [opened] at split
  | append_singleton bs b ih =>
    intro inside i outside split
    -- behind an opening that was open before, the last step is one step more
    have further {inside outside : List Nat} (split : opened bs = inside ++ i :: outside) :
        (bs ++ [b]).drop (i + 1) = bs.drop (i + 1) ++ [b] := by
      have mem : i ∈ opened bs := by simp [split]
      exact List.drop_append_of_le_length (mem_opened.1 mem).lt_length
    rw [opened_concat_of_graded ih] at split
    cases b with
    | opening =>
      cases inside with
      | nil =>
        obtain ⟨rfl, -⟩ := List.cons.inj split
        simp
      | cons first inside =>
        have split := (List.cons.inj split).2
        rw [further split, List.count_append, List.count_append, ih _ _ _ split]
        simp
        omega
    | closing =>
      -- the innermost one was inside as well
      cases all : opened bs with
      | nil => simp [all] at split
      | cons first rest =>
        simp only [all, List.tail_cons] at split
        have split : opened bs = (first :: inside) ++ i :: outside := by
          rw [all, split, List.cons_append]
        rw [further split, List.count_append, List.count_append, ih _ _ _ split]
        simp
        omega
    | neutral =>
      rw [further split, List.count_append, List.count_append, ih _ _ _ split]
      simp

/-- **What is open after one more step.** -/
theorem opened_concat (bs : List Bracket) (b : Bracket) :
    opened (bs ++ [b]) =
      match b with
      | .opening => bs.length :: opened bs
      | .closing => (opened bs).tail
      | .neutral => opened bs :=
  opened_concat_of_graded (graded bs) b

/-! ## Steps and where they were made -/

section Histories

variable {α : Type} (bracket : α → Bracket)

/-- The steps of a history that opened what is still open, innermost first. -/
def stillOpen (history : List α) : List Nat := opened (history.map bracket)

/-- The step that opened what is innermost, if anything is open. -/
def innermost (history : List α) : Option Nat := (stillOpen bracket history).head?

/-- The steps of a history, each with what was innermost when it was made. -/
def attributed (history : List α) : List (Option Nat × α) :=
  history.mapIdx fun p a => (innermost bracket (history.take p), a)

theorem stillOpen_concat (history : List α) (a : α) :
    stillOpen bracket (history ++ [a]) =
      match bracket a with
      | .opening => history.length :: stillOpen bracket history
      | .closing => (stillOpen bracket history).tail
      | .neutral => stillOpen bracket history := by
  rw [stillOpen, List.map_append, List.map_singleton, opened_concat, List.length_map]
  rfl

theorem nodup_stillOpen (history : List α) : (stillOpen bracket history).Nodup :=
  nodup_opened _

theorem attributed_concat (history : List α) (a : α) :
    attributed bracket (history ++ [a]) =
      attributed bracket history ++ [(innermost bracket history, a)] := by
  unfold attributed
  rw [List.mapIdx_append]
  congr 1
  · refine List.mapIdx_eq_mapIdx_iff.2 fun p hp => ?_
    rw [List.take_append_of_le_length hp.le]
  · simp

theorem map_snd_attributed (history : List α) :
    (attributed bracket history).map Prod.snd = history := by
  induction history using List.reverseRecOn with
  | nil => rfl
  | append_singleton history a ih => simp [attributed_concat, ih]

/-- The steps of the beginning of a history are made where they were made. -/
theorem attributed_prefix (history more : List α) :
    attributed bracket history <+: attributed bracket (history ++ more) := by
  induction more using List.reverseRecOn with
  | nil => simp
  | append_singleton more a ih =>
    rw [← List.append_assoc, attributed_concat]
    exact ih.trans (List.prefix_append _ _)

/-- The steps that opened what was closed again, in the order in which it was closed. -/
def closed (history : List α) : List Nat :=
  (attributed bracket history).filterMap fun x => if bracket x.2 = .closing then x.1 else none

theorem closed_concat (history : List α) (a : α) :
    closed bracket (history ++ [a]) = closed bracket history ++
      if bracket a = .closing then (innermost bracket history).toList else [] := by
  rw [closed, attributed_concat, List.filterMap_append, closed]
  cases innermost bracket history <;> by_cases h : bracket a = .closing <;> simp [h]

/-- **What was opened was closed or is still open.** -/
theorem closed_append_stillOpen_perm (history : List α) :
    (closed bracket history ++ stillOpen bracket history).Perm
      ((List.range history.length).filter fun i => (history[i]?).map bracket = some .opening) := by
  induction history using List.reverseRecOn with
  | nil => rfl
  | append_singleton history a ih =>
    have earlier : ((List.range history.length).filter fun i =>
        ((history ++ [a])[i]?).map bracket = some .opening) =
        (List.range history.length).filter fun i =>
          (history[i]?).map bracket = some .opening := by
      refine List.filter_congr fun i hi => ?_
      rw [List.getElem?_append_left (List.mem_range.1 hi)]
    have last : ([history.length].filter fun i =>
        ((history ++ [a])[i]?).map bracket = some .opening) =
        if bracket a = .opening then [history.length] else [] := by
      by_cases h : bracket a = .opening
      · rw [List.filter_cons_of_pos (by simpa using h), if_pos h, List.filter_nil]
      · rw [List.filter_cons_of_neg (by simpa using h), if_neg h, List.filter_nil]
    rw [List.length_append, List.length_singleton, List.range_succ, List.filter_append, earlier,
      last, stillOpen_concat, closed_concat]
    cases bracket a with
    | opening =>
      simp only [reduceCtorEq, if_false, if_true, List.append_nil]
      exact List.perm_middle.trans ((ih.cons _).trans (List.perm_append_singleton _ _).symm)
    | closing =>
      refine List.Perm.trans (.of_eq ?_) (ih.trans (.of_eq (List.append_nil _).symm))
      rw [innermost]
      cases stillOpen bracket history <;> simp
    | neutral => simpa using ih

variable {bracket} {history : List α} {i : Nat}

theorem lt_length_of_map_eq {b : Bracket} (h : (history[i]?).map bracket = some b) :
    i < history.length := by
  obtain ⟨a, found, -⟩ := Option.map_eq_some_iff.1 h
  exact (List.getElem?_eq_some_iff.1 found).1

theorem mem_closed_append_stillOpen :
    i ∈ closed bracket history ++ stillOpen bracket history ↔
      (history[i]?).map bracket = some .opening := by
  rw [(closed_append_stillOpen_perm bracket history).mem_iff, List.mem_filter, List.mem_range,
    decide_eq_true_eq]
  exact ⟨And.right, fun h => ⟨lt_length_of_map_eq h, h⟩⟩

theorem nodup_closed_append_stillOpen (bracket : α → Bracket) (history : List α) :
    (closed bracket history ++ stillOpen bracket history).Nodup :=
  (closed_append_stillOpen_perm bracket history).nodup_iff.2 (List.nodup_range.filter _)

/-- A step is made inside of something that was opened before. -/
theorem opening_of_attributed {a : α} (h : (some i, a) ∈ attributed bracket history) :
    (history[i]?).map bracket = some .opening := by
  induction history using List.reverseRecOn with
  | nil => simp [attributed] at h
  | append_singleton history b ih =>
    have earlier : (history[i]?).map bracket = some .opening := by
      rw [attributed_concat, List.mem_append, List.mem_singleton] at h
      rcases h with h | h
      · exact ih h
      · have mem : i ∈ stillOpen bracket history := List.mem_of_head? (Prod.mk.inj h).1.symm
        exact mem_closed_append_stillOpen.1 (List.mem_append_right _ mem)
    rwa [List.getElem?_append_left (lt_length_of_map_eq earlier)]

end Histories

end Nesting

end OnePass
