import Mathlib.Data.List.Induction
import OnePass.Proofs.Balance

/-!
# Ledgers

Who declared what, and where. A ledger is kept beside scopes and draft, event by event: it numbers
the functions in the order in which they are begun, the entry being number 0, and it writes down
with every declaration the function that was innermost when it was made. The scopes forget a
declaration when its scope is left and the draft does not know names at all, so this is where a slot
can be traced to a declaration.

`Ledger.mem_bodies_step` says once what an event can do to the numbered bodies. From it follow the
origin of every instruction (`Ledger.origin_of_code`) and of every function
(`Ledger.origin_of_function`).
-/

namespace OnePass

/-- A declaration: its symbol, and the number of the function that was innermost then. -/
structure Binding where
  symbol : Symbol
  owner : Nat

/-- The function and the slot of a declared variable. -/
def Binding.place? (D : Binding) : Option (Nat × Nat) :=
  match D.symbol.meaning with
  | .localVar _ slot _ => some (D.owner, slot)
  | _ => none

/-- The declarations in the scopes that are open, in the order of the scopes, all declarations made
so far, and the numbers of the functions. -/
structure Ledger where
  inner : List (List Binding) := []
  base : List Binding := []
  made : List Binding := []
  /-- How many functions were begun. -/
  begun : Nat := 0
  /-- The functions that are open inside the entry, innermost first. -/
  opened : List Nat := []
  /-- The functions that were closed, latest first. -/
  closed : List Nat := []

namespace Ledger

def current (L : Ledger) : Nat := L.opened.headD 0

/-- All declarations in the scopes that are open, innermost first. -/
def visible (L : Ledger) : List Binding := L.inner.flatten ++ L.base

def find? (L : Ledger) (name : String) : Option Binding :=
  L.visible.find? (·.symbol.name = name)

/-- Enters a declaration in the innermost scope. -/
def declare (L : Ledger) (symbol : Symbol) : Ledger :=
  match L.inner with
  | [] => { L with
    base := ⟨symbol, L.current⟩ :: L.base, made := ⟨symbol, L.current⟩ :: L.made }
  | scope :: outer => { L with
    inner := (⟨symbol, L.current⟩ :: scope) :: outer, made := ⟨symbol, L.current⟩ :: L.made }

/-- Follows an event. -/
def apply (L : Ledger) : Event → Ledger
  | .scope (.bindBase name type) =>
    { L with base := ⟨⟨name, .type type, none⟩, L.current⟩ :: L.base }
  | .scope (.declare symbol) => L.declare symbol
  | .scope .enter => { L with inner := [] :: L.inner }
  | .scope .leave => { L with inner := L.inner.tail }
  | .code (.openFunction _ _) =>
    { L with begun := L.begun + 1, opened := (L.begun + 1) :: L.opened }
  | .code .closeFunction =>
    match L.opened with
    | [] => L
    | n :: outer => { L with opened := outer, closed := n :: L.closed }
  | _ => L

def after (L : Ledger) (es : List Event) : Ledger := es.foldl apply L

/-- The bodies of a draft with the numbers of their functions, in the order of the draft. -/
def bodies (L : Ledger) (d : Draft) : List (Nat × Body) :=
  (0, d.entry) :: (L.closed.zip d.closed).reverse ++ L.opened.zip d.opened

@[simp] theorem after_nil (L : Ledger) : L.after [] = L := rfl

@[simp] theorem after_cons (L : Ledger) (e : Event) (es : List Event) :
    L.after (e :: es) = (L.apply e).after es := rfl

@[simp] theorem after_append (L : Ledger) (es fs : List Event) :
    L.after (es ++ fs) = (L.after es).after fs :=
  List.foldl_append

/-! ## The scopes of a ledger -/

/-- Without the owners, the declarations are the symbols of some scopes. -/
structure Shows (L : Ledger) (s : Scopes) : Prop where
  inner : L.inner.map (·.map Binding.symbol) = s.inner
  base : L.base.map Binding.symbol = s.base

theorem Shows.apply {L : Ledger} {s : Scopes} (h : L.Shows s) (e : Event) :
    (L.apply e).Shows (s.replay [e]) := by
  obtain ⟨inner, base⟩ := h
  cases e with
  | report severity pos problem => exact ⟨inner, base⟩
  | code command =>
    cases command with
    | closeFunction =>
      rw [Ledger.apply]
      split
      · exact ⟨inner, base⟩
      · exact ⟨inner, base⟩
    | _ => exact ⟨inner, base⟩
  | scope change =>
    cases change with
    | bindBase name type =>
      exact ⟨inner, by simp [Ledger.apply, Scopes.apply, Scopes.bindBase, base]⟩
    | declare symbol =>
      obtain ⟨Linner, Lbase, made, begun, opened, closed⟩ := L
      obtain ⟨sinner, sbase, host⟩ := s
      simp only at inner base
      subst inner base
      cases Linner with
      | nil => exact ⟨rfl, rfl⟩
      | cons scope outer => exact ⟨rfl, rfl⟩
    | enter => exact ⟨by simp [Ledger.apply, Scopes.apply, Scopes.enter, inner], base⟩
    | leave => exact ⟨by simp [Ledger.apply, Scopes.apply, Scopes.leave, ← inner], base⟩

theorem Shows.after {L : Ledger} {s : Scopes} (h : L.Shows s) (es : List Event) :
    (L.after es).Shows (s.replay es) := by
  induction es generalizing L s with
  | nil => exact h
  | cons e es ih =>
    have rest := ih (h.apply e)
    rwa [← Scopes.replay_append] at rest

/-- A name stands for the symbol of its innermost declaration. -/
theorem Shows.find?_eq {L : Ledger} {s : Scopes} (h : L.Shows s) (name : String) :
    s.find? name = (L.find? name).map Binding.symbol := by
  have symbols : s.symbols = L.visible.map Binding.symbol := by
    simp [Scopes.symbols, visible, ← h.inner, ← h.base, List.map_flatten]
  rw [Scopes.find?, symbols, List.find?_map]
  rfl

/-! ## Numbered bodies -/

/-- The ledger lists as many functions as the draft. -/
structure Counts (L : Ledger) (d : Draft) : Prop where
  opened : L.opened.length = d.opened.length
  closed : L.closed.length = d.closed.length

theorem mem_bodies {L : Ledger} {d : Draft} {n : Nat} {b : Body} :
    (n, b) ∈ L.bodies d ↔
      n = 0 ∧ b = d.entry ∨ (n, b) ∈ L.closed.zip d.closed ∨ (n, b) ∈ L.opened.zip d.opened := by
  simp [bodies]

theorem snd_bodies {L : Ledger} {d : Draft} (h : L.Counts d) :
    (L.bodies d).map Prod.snd = d.bodies := by
  have closed : (L.closed.zip d.closed).map Prod.snd = d.closed :=
    List.map_snd_zip (Nat.le_of_eq h.closed.symm)
  have opened : (L.opened.zip d.opened).map Prod.snd = d.opened :=
    List.map_snd_zip (Nat.le_of_eq h.opened.symm)
  simp [bodies, Draft.bodies, List.map_reverse, closed, opened]

/-- The function that code goes to has its number. -/
theorem current_mem {L : Ledger} {d : Draft} (h : L.Counts d) :
    (L.current, d.current) ∈ L.bodies d := by
  obtain ⟨opened, -⟩ := h
  rw [mem_bodies, current, Draft.current]
  cases hL : L.opened with
  | nil =>
    have : d.opened = [] := by simpa [hL] using opened.symm
    simp [this]
  | cons n outer =>
    cases hd : d.opened with
    | nil => simp [hL, hd] at opened
    | cons b rest => simp

@[simp] theorem opened_declare (L : Ledger) (symbol : Symbol) :
    (L.declare symbol).opened = L.opened := by
  unfold declare
  split
  · rfl
  · rfl

@[simp] theorem closed_declare (L : Ledger) (symbol : Symbol) :
    (L.declare symbol).closed = L.closed := by
  unfold declare
  split
  · rfl
  · rfl

@[simp] theorem begun_declare (L : Ledger) (symbol : Symbol) :
    (L.declare symbol).begun = L.begun := by
  unfold declare
  split
  · rfl
  · rfl

@[simp] theorem made_declare (L : Ledger) (symbol : Symbol) :
    (L.declare symbol).made = ⟨symbol, L.current⟩ :: L.made := by
  unfold declare
  split
  · rfl
  · rfl

theorem begun_le_apply (L : Ledger) (e : Event) : L.begun ≤ (L.apply e).begun := by
  cases e with
  | report severity pos problem => exact Nat.le_refl _
  | scope change =>
    cases change with
    | declare symbol => exact Nat.le_of_eq (L.begun_declare symbol).symm
    | _ => exact Nat.le_refl _
  | code command =>
    cases command with
    | openFunction link signature => exact Nat.le_succ _
    | closeFunction =>
      rw [apply]
      split
      · exact Nat.le_refl _
      · exact Nat.le_refl _
    | _ => exact Nat.le_refl _

/-- A change of the scopes leaves the functions. -/
theorem functions_change (L : Ledger) (change : Scopes.Change) :
    (L.apply (.scope change)).opened = L.opened ∧ (L.apply (.scope change)).closed = L.closed := by
  cases change with
  | declare symbol => exact ⟨L.opened_declare symbol, L.closed_declare symbol⟩
  | _ => exact ⟨rfl, rfl⟩

end Ledger

@[simp] theorem Draft.current_modifyCurrent (d : Draft) (f : Body → Body) :
    (d.modifyCurrent f).current = f d.current := by
  unfold modifyCurrent current
  split
  · rename_i h
    simp [h]
  · rename_i h
    simp [h]

/-- Without new functions, only the function that code goes to grows. -/
theorem Draft.extend_eq_modifyCurrent (d : Draft) {p : Piece} (h : p.functions = []) :
    d.extend p = d.modifyCurrent (·.extend p) := by
  obtain ⟨opened, entry, closed, marks⟩ := d
  cases opened with
  | nil => simp [extend, modifyCurrent, h]
  | cons b outer => simp [extend, modifyCurrent, h]

namespace Ledger

theorem Counts.apply {L : Ledger} {d : Draft} (h : L.Counts d) (e : Event) :
    (L.apply e).Counts (d.replay [e]) := by
  obtain ⟨opened, closed⟩ := h
  have same (f : Body → Body) : L.Counts (d.modifyCurrent f) := by
    refine ⟨opened.trans (d.length_opened_modifyCurrent f).symm, closed.trans ?_⟩
    unfold Draft.modifyCurrent
    split
    · rfl
    · rfl
  cases e with
  | report severity pos problem => exact ⟨opened, closed⟩
  | scope change =>
    obtain ⟨sameOpened, sameClosed⟩ := L.functions_change change
    exact ⟨by rw [sameOpened]; exact opened, by rw [sameClosed]; exact closed⟩
  | code command =>
    cases command with
    | reserveLocal name type =>
      change L.Counts (d.reserveLocal name type)
      exact same _
    | reserveLabel => exact ⟨opened, closed⟩
    | emit i =>
      change L.Counts (d.emit i)
      rw [Draft.emit_eq, Draft.extend_eq_modifyCurrent d rfl]
      exact ⟨(same _).opened, (same _).closed⟩
    | openFunction link signature =>
      exact ⟨by simpa [Ledger.apply, Draft.apply, Draft.openFunction] using opened, closed⟩
    | closeFunction =>
      simp only [Ledger.apply, Draft.replay_code, Draft.replay_nil, Draft.apply,
        Draft.closeFunction]
      cases hL : L.opened with
      | nil =>
        have hd : d.opened = [] := by simpa [hL] using opened.symm
        simp only [hd]
        exact ⟨by simp [hL, hd], closed⟩
      | cons n outer =>
        cases hd : d.opened with
        | nil => simp [hL, hd] at opened
        | cons b rest => exact ⟨by simpa [hL, hd] using opened, by simpa using closed⟩

end Ledger

/-- What an event adds to the function that code goes to. -/
def Body.step (b : Body) : Event → Body
  | .code (.reserveLocal name type) => b.extend { locals := [(name, type)] }
  | .code (.emit i) => b.extend { code := [i] }
  | _ => b

namespace Ledger

theorem mem_bodies_modifyCurrent {L : Ledger} {d : Draft} (h : L.Counts d) {f : Body → Body}
    {n : Nat} {b : Body} (hb : (n, b) ∈ L.bodies (d.modifyCurrent f)) :
    (n, b) ∈ L.bodies d ∨ n = L.current ∧ b = f d.current := by
  obtain ⟨opened, -⟩ := h
  rw [mem_bodies] at hb ⊢
  unfold Draft.modifyCurrent at hb
  cases hL : L.opened with
  | nil =>
    have hd : d.opened = [] := by simpa [hL] using opened.symm
    simp only [hd, hL, List.zip_nil_left, List.not_mem_nil, or_false] at hb ⊢
    rcases hb with ⟨rfl, rfl⟩ | hb
    · exact .inr (by simp [current, Draft.current, hL, hd])
    · exact .inl (.inr hb)
  | cons m outer =>
    cases hd : d.opened with
    | nil => simp [hL, hd] at opened
    | cons body rest =>
      simp only [hd, hL, List.zip_cons_cons, List.mem_cons, Prod.mk.injEq] at hb ⊢
      rcases hb with hb | hb | ⟨rfl, rfl⟩ | hb
      · exact .inl (.inl hb)
      · exact .inl (.inr (.inl hb))
      · exact .inr (by simp [current, Draft.current, hL, hd])
      · exact .inl (.inr (.inr (.inr hb)))

/-- What an event can do to the numbered bodies: a body is one of those before, or it is the
function that code goes to with what the event adds, or it is begun by the event. -/
theorem mem_bodies_step {L : Ledger} {d : Draft} (h : L.Counts d) {e : Event} {n : Nat} {b : Body}
    (hb : (n, b) ∈ (L.apply e).bodies (d.replay [e])) :
    (n, b) ∈ L.bodies d ∨ (n = L.current ∧ b = d.current.step e) ∨
      ∃ link signature, e = .code (.openFunction link signature) ∧ n = L.begun + 1 ∧
        b = { name := link, signature := some signature } := by
  cases e with
  | report severity pos problem => exact .inl hb
  | scope change =>
    obtain ⟨opened, closed⟩ := L.functions_change change
    rw [mem_bodies, opened, closed] at hb
    exact .inl (mem_bodies.2 hb)
  | code command =>
    cases command with
    | reserveLocal name type =>
      change (n, b) ∈ L.bodies (d.reserveLocal name type) at hb
      rw [Draft.reserveLocal_eq, Draft.extend_eq_modifyCurrent d rfl] at hb
      rcases mem_bodies_modifyCurrent h hb with hb | hb
      · exact .inl hb
      · exact .inr (.inl hb)
    | reserveLabel => exact .inl hb
    | emit i =>
      change (n, b) ∈ L.bodies (d.emit i) at hb
      rw [Draft.emit_eq, Draft.extend_eq_modifyCurrent d rfl] at hb
      rcases mem_bodies_modifyCurrent h hb with hb | hb
      · exact .inl hb
      · exact .inr (.inl hb)
    | openFunction link signature =>
      rw [mem_bodies] at hb
      simp only [Ledger.apply, Draft.replay_code, Draft.replay_nil, Draft.apply,
        Draft.openFunction, List.zip_cons_cons, List.mem_cons, Prod.mk.injEq] at hb
      rcases hb with hb | hb | ⟨rfl, rfl⟩ | hb
      · exact .inl (mem_bodies.2 (.inl hb))
      · exact .inl (mem_bodies.2 (.inr (.inl hb)))
      · exact .inr (.inr ⟨link, signature, rfl, rfl, rfl⟩)
      · exact .inl (mem_bodies.2 (.inr (.inr hb)))
    | closeFunction =>
      refine .inl (mem_bodies.2 ?_)
      rw [mem_bodies] at hb
      simp only [Ledger.apply, Draft.replay_code, Draft.replay_nil, Draft.apply,
        Draft.closeFunction] at hb
      cases hL : L.opened with
      | nil =>
        have hd : d.opened = [] := by simpa [hL] using h.opened.symm
        simpa [hL, hd] using hb
      | cons m outer =>
        cases hd : d.opened with
        | nil => have := h.opened; simp [hL, hd] at this
        | cons body rest =>
          simp only [hL, hd, List.zip_cons_cons, List.mem_cons, Prod.mk.injEq] at hb ⊢
          rcases hb with hb | (hb | hb) | hb
          · exact .inl hb
          · exact .inr (.inr (.inl hb))
          · exact .inr (.inl hb)
          · exact .inr (.inr (.inr hb))

theorem Counts.after {L : Ledger} {d : Draft} (h : L.Counts d) (es : List Event) :
    (L.after es).Counts (d.replay es) := by
  induction es generalizing L d with
  | nil => exact h
  | cons e es ih =>
    rw [Draft.replay_cons]
    exact ih (h.apply e)

/-- From the beginning, the ledger lists as many functions as the draft. -/
theorem counts_after (es : List Event) : (Ledger.after {} es).Counts (Draft.replay {} es) :=
  Counts.after ⟨rfl, rfl⟩ es

end Ledger

/-! ## Origins -/

theorem Body.code_step {b : Body} {e : Event} {j : Nat} {i : Instruction}
    (h : (b.step e).code[j]? = some i) :
    b.code[j]? = some i ∨ e = .emit i ∧ b.code.size = j := by
  cases e with
  | scope change => exact .inl h
  | report severity pos problem => exact .inl h
  | code command =>
    cases command with
    | emit i' =>
      have pushed : (b.step (.code (.emit i'))).code = b.code.push i' := by simp [step, extend]
      rw [pushed, Array.getElem?_push] at h
      by_cases hj : j = b.code.size
      · simp only [hj, if_true, Option.some.injEq] at h
        exact .inr ⟨by rw [h]; rfl, hj.symm⟩
      · simp only [hj, if_false] at h
        exact .inl h
    | reserveLocal name type => exact .inl (by simpa [step, extend] using h)
    | _ => exact .inl h

theorem Body.signature_step (b : Body) (e : Event) :
    (b.step e).signature = b.signature ∧ (b.step e).name = b.name := by
  unfold step
  split
  · exact ⟨rfl, rfl⟩
  · exact ⟨rfl, rfl⟩
  · exact ⟨rfl, rfl⟩

namespace Ledger

/-- At first there is the entry only. -/
theorem mem_bodies_fresh {n : Nat} {b : Body} (h : (n, b) ∈ (Ledger.after {} []).bodies {}) :
    n = 0 ∧ b = { name := entryName, signature := none } := by
  simpa using mem_bodies.1 h

/-- Every instruction of a body was emitted while the function of the body was the one that code
goes to. -/
theorem origin_of_code {es : List Event} {n j : Nat} {b : Body} {i : Instruction}
    (hb : (n, b) ∈ (Ledger.after {} es).bodies (Draft.replay {} es)) (hi : b.code[j]? = some i) :
    ∃ before after, es = before ++ .emit i :: after ∧ (Ledger.after {} before).current = n ∧
      (Draft.replay {} before).current.code.size = j := by
  induction es using List.reverseRecOn generalizing b with
  | nil =>
    obtain ⟨-, rfl⟩ := mem_bodies_fresh hb
    simp at hi
  | append_singleton es e ih =>
    -- If the body had the instruction before the last event, the origin is found there.
    have earlier {b : Body} (hb : (n, b) ∈ (Ledger.after {} es).bodies (Draft.replay {} es))
        (hi : b.code[j]? = some i) : ∃ before after, es ++ [e] = before ++ .emit i :: after ∧
          (Ledger.after {} before).current = n ∧
          (Draft.replay {} before).current.code.size = j := by
      obtain ⟨before, after, rfl, current, size⟩ := ih hb hi
      exact ⟨before, after ++ [e], by simp, current, size⟩
    rw [after_append, Draft.replay_append] at hb
    rcases mem_bodies_step (counts_after es) hb with hb | ⟨rfl, rfl⟩ | ⟨link, signature, -, -, rfl⟩
    · exact earlier hb hi
    · rcases Body.code_step hi with hi | ⟨rfl, size⟩
      · exact earlier (current_mem (counts_after es)) hi
      · exact ⟨es, [], rfl, rfl, size⟩
    · simp at hi

/-- Every body with a signature was begun by an event, and has its number from there. -/
theorem origin_of_function {es : List Event} {n : Nat} {b : Body} {signature : Signature}
    (hb : (n, b) ∈ (Ledger.after {} es).bodies (Draft.replay {} es))
    (hs : b.signature = some signature) :
    ∃ before after, es = before ++ .code (.openFunction b.name signature) :: after ∧
      (Ledger.after {} before).begun + 1 = n := by
  induction es using List.reverseRecOn generalizing b with
  | nil =>
    obtain ⟨-, rfl⟩ := mem_bodies_fresh hb
    cases hs
  | append_singleton es e ih =>
    have earlier {b : Body} (hb : (n, b) ∈ (Ledger.after {} es).bodies (Draft.replay {} es))
        (hs : b.signature = some signature) : ∃ before after,
          es ++ [e] = before ++ .code (.openFunction b.name signature) :: after ∧
          (Ledger.after {} before).begun + 1 = n := by
      obtain ⟨before, after, rfl, begun⟩ := ih hb hs
      exact ⟨before, after ++ [e], by simp, begun⟩
    rw [after_append, Draft.replay_append] at hb
    rcases mem_bodies_step (counts_after es) hb with hb | ⟨rfl, rfl⟩ | ⟨link, sig, rfl, rfl, rfl⟩
    · exact earlier hb hs
    · obtain ⟨sameSignature, sameName⟩ := (Draft.replay {} es).current.signature_step e
      rw [sameName]
      exact earlier (current_mem (counts_after es)) (sameSignature ▸ hs)
    · cases hs
      exact ⟨es, [], rfl, rfl⟩

/-! ## Numbers -/

/-- Functions have different numbers, none of which is that of the entry or still to come. -/
structure Numbered (L : Ledger) : Prop where
  distinct : (L.opened ++ L.closed).Nodup
  bounded : ∀ n ∈ L.opened ++ L.closed, 0 < n ∧ n ≤ L.begun

theorem Numbered.apply {L : Ledger} (h : L.Numbered) (e : Event) : (L.apply e).Numbered := by
  cases e with
  | report severity pos problem => exact h
  | scope change =>
    obtain ⟨opened, closed⟩ := L.functions_change change
    have begun : (L.apply (.scope change)).begun = L.begun := by
      cases change with
      | declare symbol => exact L.begun_declare symbol
      | _ => rfl
    exact ⟨by rw [opened, closed]; exact h.distinct, by rw [opened, closed, begun]; exact h.bounded⟩
  | code command =>
    cases command with
    | openFunction link signature =>
      refine ⟨List.nodup_cons.2 ⟨?_, h.distinct⟩, ?_⟩
      · intro hn
        have := (h.bounded _ hn).2
        omega
      · intro n hn
        rcases List.mem_cons.1 hn with rfl | hn
        · exact ⟨Nat.succ_pos _, Nat.le_refl _⟩
        · have := h.bounded n hn
          exact ⟨this.1, Nat.le_succ_of_le this.2⟩
    | closeFunction =>
      rw [Ledger.apply]
      split
      · exact h
      · rename_i n outer hL
        obtain ⟨distinct, bounded⟩ := h
        rw [hL] at distinct bounded
        have same : (outer ++ n :: L.closed).Perm (n :: outer ++ L.closed) := List.perm_middle
        exact ⟨same.nodup_iff.2 distinct, fun m hm => bounded m (same.mem_iff.1 hm)⟩
    | _ => exact h

/-- No two bodies have the same number. -/
theorem Numbered.nodup_bodies {L : Ledger} {d : Draft} (h : L.Numbered) (counts : L.Counts d) :
    ((L.bodies d).map Prod.fst).Nodup := by
  have fst : (L.bodies d).map Prod.fst = 0 :: (L.closed.reverse ++ L.opened) := by
    simp [bodies, List.map_reverse, List.map_fst_zip (Nat.le_of_eq counts.opened),
      List.map_fst_zip (Nat.le_of_eq counts.closed)]
  have same : (L.closed.reverse ++ L.opened).Perm (L.opened ++ L.closed) :=
    List.perm_append_comm.trans ((List.reverse_perm _).append_left _)
  rw [fst, List.nodup_cons, same.nodup_iff, same.mem_iff]
  refine ⟨fun zero => ?_, h.distinct⟩
  exact absurd (h.bounded 0 zero).1 (Nat.lt_irrefl 0)

theorem Numbered.current_le {L : Ledger} (h : L.Numbered) : L.current ≤ L.begun := by
  unfold current
  cases hL : L.opened with
  | nil => exact Nat.zero_le _
  | cons n outer => exact (h.bounded n (by simp [hL])).2

end Ledger

end OnePass
