import Mathlib.Data.List.Nodup
import OnePass.Proofs.Ledger
import OnePass.Proofs.Stateful.Statement

/-!
# Slots

Variables are numbered within their function but found through one stack of scopes, and the only
thing that tells whether a variable belongs to the function at hand is how deep its function was
nested. That this is enough, whatever is read, is shown here: at every moment a visible variable
belongs to the open function at its depth, and the body of that function has its name and type in
its slot.

This is `Ledger.Sound`, which holds at every moment of every trace (`Trace.soundThrough`). With
the log of the references it gives `slots_sound`.
-/

namespace OnePass

namespace Ledger

/-! ## Soundness at a moment -/

/-- Every visible variable belongs to the open function at the depth that its symbol gives. -/
structure Owned (L : Ledger) : Prop where
  made : ∀ D ∈ L.visible, ∀ type slot frame, D.symbol.meaning = .localVar type slot frame →
    D ∈ L.made
  owner : ∀ D ∈ L.visible, ∀ type slot frame, D.symbol.meaning = .localVar type slot frame →
    (0 :: L.opened.reverse)[frame]? = some D.owner

/-- What the ledger says of variables holds in the draft: each has its name and type in its slot,
and no two have the same slot of a function. -/
structure Sound (L : Ledger) (d : Draft) : Prop where
  counts : L.Counts d
  numbered : L.Numbered
  owned : L.Owned
  known : ∀ D ∈ L.made, D.owner ≤ L.begun
  recorded : ∀ D ∈ L.made, ∀ type slot frame, D.symbol.meaning = .localVar type slot frame →
    ∀ b, (D.owner, b) ∈ L.bodies d → b.locals[slot]? = some (D.symbol.name, type)
  distinct : (L.made.filterMap Binding.place?).Nodup

namespace Owned

variable {L L' : Ledger}

/-- Where nothing new is visible, the visible variables still belong where they did. -/
theorem of_visible (h : L.Owned) (visible : ∀ D ∈ L'.visible, D ∈ L.visible)
    (opened : L'.opened = L.opened) (made : ∀ D ∈ L.made, D ∈ L'.made) : L'.Owned where
  made D hD type slot frame hm := made D (h.made D (visible D hD) type slot frame hm)
  owner D hD type slot frame hm := by
    rw [opened]
    exact h.owner D (visible D hD) type slot frame hm

/-- A function that is opened comes at a new depth. -/
theorem openFunction (h : L.Owned) (link : String) (signature : Signature) :
    (L.apply (.code (.openFunction link signature))).Owned where
  made := h.made
  owner D hD type slot frame hm := by
    have owner := h.owner D hD type slot frame hm
    have lt : frame < (0 :: L.opened.reverse).length :=
      (List.getElem?_eq_some_iff.1 owner).1
    change (0 :: ((L.begun + 1) :: L.opened).reverse)[frame]? = _
    rw [List.reverse_cons, ← List.cons_append, List.getElem?_append_left lt]
    exact owner

end Owned

theorem mem_visible_declare {L : Ledger} {symbol : Symbol} {D : Binding} :
    D ∈ (L.declare symbol).visible ↔ D = ⟨symbol, L.current⟩ ∨ D ∈ L.visible := by
  unfold declare visible
  cases L.inner with
  | nil => simp
  | cons scope outer => simp

/-- The innermost function is at the depth of all open ones. -/
theorem getElem?_opened_length (L : Ledger) :
    (0 :: L.opened.reverse)[L.opened.length]? = some L.current := by
  unfold current
  cases L.opened with
  | nil => rfl
  | cons n outer => simp

end Ledger

/-- An event only adds locals to the function that code goes to. -/
theorem Body.locals_step {b : Body} {slot : Nat} {x : String × ValueType} (e : Event)
    (h : b.locals[slot]? = some x) : (b.step e).locals[slot]? = some x := by
  have lt : slot < b.locals.size := (Array.getElem?_eq_some_iff.1 h).1
  cases e with
  | scope change => exact h
  | report severity pos problem => exact h
  | code command =>
    cases command with
    | reserveLocal name type =>
      have pushed : (b.step (.code (.reserveLocal name type))).locals =
          b.locals.push (name, type) := by
        simp [step, extend]
      rw [pushed, Array.getElem?_push, if_neg (Nat.ne_of_lt lt)]
      exact h
    | emit i => simpa [step, extend] using h
    | _ => exact h

namespace Ledger.Sound

variable {L : Ledger} {d : Draft}

/-- At first, nothing is declared. -/
theorem fresh : Sound {} {} where
  counts := ⟨rfl, rfl⟩
  numbered := ⟨.nil, by simp⟩
  owned := ⟨by simp [visible], by simp [visible]⟩
  known := by simp
  recorded := by simp
  distinct := by simp

/-- A body has one number only. -/
theorem eq_current (h : L.Sound d) {b : Body} (hb : (L.current, b) ∈ L.bodies d) :
    b = d.current := by
  have same := List.inj_on_of_nodup_map (h.numbered.nodup_bodies h.counts) hb
    (current_mem h.counts) rfl
  exact congrArg Prod.snd same

/-- An event that makes no declaration keeps the ledger sound, if the visible variables still belong
where they should. -/
theorem step (h : L.Sound d) {e : Event} (made : (L.apply e).made = L.made)
    (owned : (L.apply e).Owned) : (L.apply e).Sound (d.replay [e]) where
  counts := h.counts.apply e
  numbered := h.numbered.apply e
  owned := owned
  known := by
    rw [made]
    intro D hD
    exact Nat.le_trans (h.known D hD) (L.begun_le_apply e)
  recorded := by
    rw [made]
    intro D hD type slot frame hm b hb
    rcases mem_bodies_step h.counts hb with hb | ⟨current, rfl⟩ | ⟨_, _, -, begun, -⟩
    · exact h.recorded D hD type slot frame hm b hb
    · have old := current_mem h.counts
      rw [← current] at old
      exact Body.locals_step e (h.recorded D hD type slot frame hm _ old)
    · -- No declaration belongs to a function that is just begun.
      have := h.known D hD
      omega
  distinct := by
    rw [made]
    exact h.distinct

/-- A symbol may be declared if, in case it is a variable, it is one of the innermost function with
its name and type in a slot that no other declaration has. -/
theorem declare (h : L.Sound d) {symbol : Symbol}
    (new : ∀ type slot frame, symbol.meaning = .localVar type slot frame →
      frame = L.opened.length ∧ d.current.locals[slot]? = some (symbol.name, type) ∧
        ∀ D ∈ L.made, D.place? ≠ some (L.current, slot)) :
    (L.declare symbol).Sound d := by
  have bodies : (L.declare symbol).bodies d = L.bodies d := by
    simp only [Ledger.bodies, opened_declare, closed_declare]
  constructor
  case counts => exact ⟨by simpa using h.counts.opened, by simpa using h.counts.closed⟩
  case numbered => exact ⟨by simpa using h.numbered.distinct, by simpa using h.numbered.bounded⟩
  case owned =>
    constructor
    · intro D hD type slot frame hm
      rw [made_declare]
      rcases mem_visible_declare.1 hD with rfl | hD
      · exact List.mem_cons_self
      · exact List.mem_cons_of_mem _ (h.owned.made D hD type slot frame hm)
    · intro D hD type slot frame hm
      rw [opened_declare]
      rcases mem_visible_declare.1 hD with rfl | hD
      · rw [(new type slot frame hm).1]
        exact L.getElem?_opened_length
      · exact h.owned.owner D hD type slot frame hm
  case known =>
    rw [made_declare, begun_declare]
    intro D hD
    rcases List.mem_cons.1 hD with rfl | hD
    · exact h.numbered.current_le
    · exact h.known D hD
  case recorded =>
    rw [made_declare, bodies]
    intro D hD type slot frame hm b hb
    rcases List.mem_cons.1 hD with rfl | hD
    · rw [h.eq_current hb]
      exact (new type slot frame hm).2.1
    · exact h.recorded D hD type slot frame hm b hb
  case distinct =>
    rw [made_declare]
    cases hm : symbol.meaning with
    | localVar type slot frame =>
      have place : Binding.place? ⟨symbol, L.current⟩ = some (L.current, slot) := by
        simp [Binding.place?, hm]
      rw [List.filterMap_cons_some place, List.nodup_cons]
      refine ⟨fun taken => ?_, h.distinct⟩
      obtain ⟨D, hD, same⟩ := List.mem_filterMap.1 taken
      exact (new type slot frame hm).2.2 D hD same
    | type _ =>
      rw [List.filterMap_cons_none (by simp [Binding.place?, hm])]
      exact h.distinct
    | function _ _ =>
      rw [List.filterMap_cons_none (by simp [Binding.place?, hm])]
      exact h.distinct

/-- A new variable gets the next slot of the innermost function. -/
theorem bindLocal (h : L.Sound d) (name : String) (type : ValueType) (declared : Option Position) :
    L.Sound (d.reserveLocal name type) ∧
      (L.declare ⟨name, .localVar type d.nextSlot L.opened.length, declared⟩).Sound
        (d.reserveLocal name type) := by
  have reserved : L.Sound (d.reserveLocal name type) :=
    h.step (e := .code (.reserveLocal name type)) rfl h.owned
  refine ⟨reserved, reserved.declare ?_⟩
  intro type' slot frame hm
  cases hm
  refine ⟨rfl, ?_, ?_⟩
  · have grown :
        (d.reserveLocal name type).current.locals = d.current.locals.push (name, type) := by
      rw [Draft.reserveLocal, Draft.current_modifyCurrent]
    rw [grown, Draft.nextSlot, Array.getElem?_push_size]
  · -- The slots of the other variables are below.
    intro D hD taken
    unfold Binding.place? at taken
    split at taken
    · rename_i other slot frame hm
      simp only [Option.some.injEq, Prod.mk.injEq] at taken
      obtain ⟨owner, same⟩ := taken
      have mine : (D.owner, d.current) ∈ L.bodies d := by
        rw [owner]
        exact current_mem h.counts
      have lt := (Array.getElem?_eq_some_iff.1 (h.recorded D hD other slot frame hm _ mine)).1
      rw [same, Draft.nextSlot] at lt
      exact absurd lt (Nat.lt_irrefl _)
    · cases taken

end Ledger.Sound

/-! ## Events that a ledger passes over -/

/-- Whether a ledger passes over an event. -/
def Event.isUnlisted : Event → Bool
  | .report _ _ _ | .code (.emit _) | .code .reserveLabel => true
  | _ => false

@[simp] theorem Event.isUnlisted_emit (i : Instruction) : (Event.emit i).isUnlisted := rfl

@[simp] theorem Event.isUnlisted_reserveLabel : (Event.code .reserveLabel).isUnlisted := rfl

theorem Quiet.isUnlisted {env : Env} {es : List Event} (h : Quiet env es) :
    ∀ e ∈ es, e.isUnlisted := by
  induction h with
  | nil => simp
  | report severity pos problem _ ih => exact List.forall_mem_cons.2 ⟨rfl, ih⟩
  | emit _ _ ih => exact List.forall_mem_cons.2 ⟨rfl, ih⟩

namespace Ledger

@[simp] theorem apply_emit (L : Ledger) (i : Instruction) : L.apply (.emit i) = L := rfl

@[simp] theorem apply_reserveLabel (L : Ledger) : L.apply (.code .reserveLabel) = L := rfl

theorem apply_unlisted (L : Ledger) {e : Event} (h : e.isUnlisted) : L.apply e = L := by
  unfold Event.isUnlisted at h
  split at h
  · rfl
  · rfl
  · rfl
  · cases h

theorem after_unlisted (L : Ledger) {es : List Event} (all : ∀ e ∈ es, e.isUnlisted) :
    L.after es = L := by
  induction es with
  | nil => rfl
  | cons e es ih =>
    rw [after_cons, L.apply_unlisted (all e (by simp))]
    exact ih fun e he => all e (by simp [he])

end Ledger

/-! ## Soundness along a trace -/

/-- A ledger stays sound through some events. -/
def Ledger.SoundThrough : Ledger → Draft → List Event → Prop
  | L, d, [] => L.Sound d
  | L, d, e :: es => L.Sound d ∧ SoundThrough (L.apply e) (d.replay [e]) es

namespace Ledger.SoundThrough

variable {L : Ledger} {d : Draft} {es fs : List Event}

theorem last (h : SoundThrough L d es) : (L.after es).Sound (d.replay es) := by
  induction es generalizing L d with
  | nil => exact h
  | cons e es ih =>
    rw [Draft.replay_cons]
    exact ih h.2

theorem append (he : SoundThrough L d es) (hf : SoundThrough (L.after es) (d.replay es) fs) :
    SoundThrough L d (es ++ fs) := by
  induction es generalizing L d with
  | nil => exact hf
  | cons e es ih =>
    refine ⟨he.1, ih he.2 ?_⟩
    rwa [← Draft.replay_cons]

/-- A ledger that stays sound is sound at every moment. -/
theorem moment (h : SoundThrough L d (es ++ fs)) : (L.after es).Sound (d.replay es) := by
  induction es generalizing L d with
  | nil =>
    cases fs with
    | nil => exact h
    | cons e fs => exact h.1
  | cons e es ih =>
    rw [Draft.replay_cons]
    exact ih h.2

theorem unlisted (h : L.Sound d) (all : ∀ e ∈ es, e.isUnlisted) : SoundThrough L d es := by
  induction es generalizing d with
  | nil => exact h
  | cons e es ih =>
    have same := L.apply_unlisted (all e (by simp))
    have next := h.step (e := e) (by rw [same]) (by rw [same]; exact h.owned)
    refine ⟨h, ?_⟩
    rw [same] at next ⊢
    exact ih next fun e he => all e (by simp [he])

theorem before (h : SoundThrough L d es) (all : ∀ e ∈ fs, e.isUnlisted) :
    SoundThrough L d (es ++ fs) :=
  h.append (.unlisted h.last all)

end Ledger.SoundThrough

/-- What is open around a part of a program is the same after it, but for declarations in the
innermost scope. -/
structure Ledger.Kept (L L' : Ledger) : Prop where
  opened : L'.opened = L.opened
  outer : L'.inner.tail = L.inner.tail
  base : L.inner ≠ [] → L'.inner ≠ [] ∧ L'.base = L.base

/-- The same scopes and functions are open, with the same declarations in them. -/
structure Ledger.SameOpen (L L' : Ledger) : Prop where
  inner : L'.inner = L.inner
  base : L'.base = L.base
  opened : L'.opened = L.opened

namespace Ledger

theorem SameOpen.kept {L L' : Ledger} (h : L.SameOpen L') : L.Kept L' :=
  ⟨h.opened, congrArg List.tail h.inner, fun hne => ⟨h.inner ▸ hne, h.base⟩⟩

theorem Kept.refl (L : Ledger) : L.Kept L := ⟨rfl, rfl, fun h => ⟨h, rfl⟩⟩

theorem Kept.trans {L₁ L₂ L₃ : Ledger} (h₁ : L₁.Kept L₂) (h₂ : L₂.Kept L₃) : L₁.Kept L₃ where
  opened := h₂.opened.trans h₁.opened
  outer := h₂.outer.trans h₁.outer
  base h := by
    obtain ⟨inner, base⟩ := h₁.base h
    obtain ⟨inner', base'⟩ := h₂.base inner
    exact ⟨inner', base'.trans base⟩

theorem Kept.declare (L : Ledger) (symbol : Symbol) : L.Kept (L.declare symbol) := by
  unfold Ledger.declare
  cases hL : L.inner with
  | nil => exact ⟨rfl, by simp [hL], by simp [hL]⟩
  | cons scope outer => exact ⟨rfl, by simp [hL], by simp⟩

/-- When a scope is left, what was open before it was entered is open. -/
theorem Kept.leave {L L' : Ledger} (h : (L.apply (.scope .enter)).Kept L') :
    L.SameOpen (L'.apply (.scope .leave)) :=
  ⟨h.outer, (h.base (List.cons_ne_nil _ _)).2, h.opened⟩

/-- When a function is closed, what was open before it was opened is open. -/
theorem Kept.closeFunction {L L' : Ledger} (link : String) (signature : Signature)
    (h : ((L.apply (.code (.openFunction link signature))).apply (.scope .enter)).Kept L') :
    L.SameOpen ((L'.apply (.scope .leave)).apply (.code .closeFunction)) := by
  have opened : L'.opened = (L.begun + 1) :: L.opened := h.opened
  simp only [Ledger.apply, opened]
  exact ⟨h.outer, (h.base (List.cons_ne_nil _ _)).2, rfl⟩

end Ledger

theorem Trace.kept {env : Env} {c c' : Counters} {es : List Event} {scopes : Scopes}
    (h : Trace env c es scopes c') (L : Ledger) : L.Kept (L.after es) := by
  induction h generalizing L with
  | quiet events =>
    rw [L.after_unlisted events.isUnlisted]
    exact .refl L
  | append _ _ ih₁ ih₂ =>
    rw [Ledger.after_append]
    exact (ih₁ L).trans (ih₂ _)
  | block _ ih =>
    have left := (ih (L.apply (.scope .enter))).leave
    rw [Ledger.after_append]
    exact left.kept
  | declare _ => exact .declare L _
  | @define _ c _ _ _ name ret _ p f symbol _ _ _ _ ih =>
    have declared := Ledger.Kept.declare L f
    rw [Ledger.after_append, Ledger.after_append]
    refine declared.trans (Ledger.Kept.closeFunction (c.linkName name) ⟨p.type, ret⟩ ?_).kept
    exact (Ledger.Kept.declare _ symbol).trans (ih _)
  | ifThen _ ih => simpa using ih L
  | ifElse _ _ ih₁ ih₂ => simpa using (ih₁ L).trans (ih₂ _)
  | loop condition _ ih => simpa [L.after_unlisted condition.isUnlisted] using ih L
  | failedLoop condition =>
    simpa [L.after_unlisted condition.isUnlisted] using Ledger.Kept.refl L

namespace Ledger

theorem mem_made_apply {L : Ledger} {D : Binding} (e : Event) (h : D ∈ L.made) :
    D ∈ (L.apply e).made := by
  cases e with
  | report severity pos problem => exact h
  | scope change =>
    cases change with
    | declare symbol =>
      change D ∈ (L.declare symbol).made
      rw [made_declare]
      exact List.mem_cons_of_mem _ h
    | _ => exact h
  | code command =>
    cases command with
    | closeFunction =>
      rw [apply]
      split
      · exact h
      · exact h
    | _ => exact h

/-- No declaration is forgotten. -/
theorem mem_made_after {L : Ledger} {D : Binding} (es : List Event) (h : D ∈ L.made) :
    D ∈ (L.after es).made := by
  induction es generalizing L with
  | nil => exact h
  | cons e es ih => exact ih (mem_made_apply e h)

theorem made_closeFunction (L : Ledger) : (L.apply (.code .closeFunction)).made = L.made := by
  rw [apply]
  split
  · rfl
  · rfl

theorem SameOpen.owned {L L' : Ledger} (h : L.SameOpen L') (owned : L.Owned)
    (made : ∀ D ∈ L.made, D ∈ L'.made) : L'.Owned := by
  have visible : L'.visible = L.visible := by rw [Ledger.visible, h.inner, h.base, Ledger.visible]
  exact owned.of_visible (fun D hD => visible ▸ hD) h.opened made

theorem Sound.enter {L : Ledger} {d : Draft} (h : L.Sound d) :
    (L.apply (.scope .enter)).Sound d :=
  h.step (e := .scope .enter) rfl
    (h.owned.of_visible (fun _ hD => hD) rfl fun _ hD => hD)

theorem Sound.openFunction {L : Ledger} {d : Draft} (h : L.Sound d) (link : String)
    (signature : Signature) :
    (L.apply (.code (.openFunction link signature))).Sound (d.openFunction link signature) :=
  h.step (e := .code (.openFunction link signature)) rfl (h.owned.openFunction link signature)

theorem Sound.leave {L : Ledger} {d : Draft} (h : L.Sound d) :
    (L.apply (.scope .leave)).Sound d := by
  refine h.step (e := .scope .leave) rfl (h.owned.of_visible ?_ rfl fun _ hD => hD)
  intro D hD
  cases hL : L.inner with
  | nil => simpa [visible, apply, hL] using hD
  | cons scope outer =>
    have : D ∈ outer.flatten ∨ D ∈ L.base := by simpa [visible, apply, hL] using hD
    simp only [visible, hL, List.flatten_cons, List.mem_append]
    exact this.imp_left .inr

end Ledger

/-- **Soundness at every moment.** A trace keeps a ledger sound that knows how deep its functions
are nested and which slot comes next. -/
theorem Trace.soundThrough {env : Env} {c c' : Counters} {es : List Event} {scopes : Scopes}
    (h : Trace env c es scopes c') {L : Ledger} {d : Draft} (sound : L.Sound d)
    (frame : L.opened.length = env.frame) (slot : d.nextSlot = c.locals) :
    L.SoundThrough d es := by
  induction h generalizing L d with
  | quiet events => exact .unlisted sound events.isUnlisted
  | append first _ ih₁ ih₂ =>
    have through := ih₁ sound frame slot
    refine through.append (ih₂ through.last ?_ (first.nextSlot_replay slot))
    rw [(first.kept L).opened]
    exact frame
  | block _ ih =>
    have inside := ih sound.enter frame slot
    exact ⟨sound, inside.append ⟨inside.last, inside.last.leave⟩⟩
  | @declare env c name type pos _ =>
    obtain ⟨reserved, declared⟩ := sound.bindLocal name type (some pos)
    rw [slot, frame] at declared
    exact ⟨sound, reserved, declared⟩
  | @define env c _ _ _ name ret pos p f symbol _ hf hs inner ih =>
    have declared : (L.declare f).Sound d := sound.declare (by rw [hf]; nofun)
    have opened := declared.openFunction (c.linkName name) ⟨p.type, ret⟩
    have depth :
        (((L.declare f).apply (.code (.openFunction (c.linkName name) ⟨p.type, ret⟩))).apply
          (.scope .enter)).opened.length = (env.inFunction f ret).frame := by
      simp [Ledger.apply, Env.inFunction, Env.frame, frame]
    obtain ⟨reserved, bound⟩ := opened.enter.bindLocal p.name p.type (some p.pos)
    rw [depth] at bound
    subst hs
    have inside := ih bound ((congrArg _ (Ledger.opened_declare _ _)).trans depth)
      (Draft.nextSlot_reserveLocal ..)
    refine ⟨sound, declared, opened, opened.enter, reserved, inside.append ?_⟩
    refine ⟨inside.last, inside.last.leave, ?_⟩
    refine inside.last.leave.step (e := .code .closeFunction) (Ledger.made_closeFunction _) ?_
    -- When the function is closed, what was visible when it was opened is visible again.
    refine Ledger.SameOpen.owned (L := L.declare f)
      (Ledger.Kept.closeFunction (c.linkName name) ⟨p.type, ret⟩ ?_) declared.owned fun D hD => ?_
    · exact (Ledger.Kept.declare _ _).trans (inner.kept _)
    · refine Ledger.mem_made_apply _ (Ledger.mem_made_after _ ?_)
      rw [Ledger.made_declare]
      exact List.mem_cons_of_mem _ hD
  | @ifThen env c _ _ _ ih =>
    have start : L.SoundThrough d [.code .reserveLabel, .emit (.jumpUnless c.labels)] :=
      .unlisted sound (by simp)
    have inside := ih start.last frame (by simpa [Draft.apply] using slot)
    exact (start.append inside).before (by simp)
  | @ifElse env c c' _ es _ inner _ ih₁ ih₂ =>
    have start : L.SoundThrough d [.code .reserveLabel, .emit (.jumpUnless c.labels)] :=
      .unlisted sound (by simp)
    have first : (d.replay [.code .reserveLabel, .emit (.jumpUnless c.labels)]).nextSlot =
        c.withLabel.locals := by
      simpa [Draft.apply] using slot
    have inside := start.append (ih₁ start.last frame first)
    have middle : L.SoundThrough d
        ([.code .reserveLabel, .emit (.jumpUnless c.labels)] ++ es ++
          [.code .reserveLabel, .emit (.jump c'.labels), .emit (.mark c.labels)]) :=
      inside.before (by simp)
    refine (middle.append (ih₂ middle.last ?_ ?_)).before (by simp)
    · have kept := (inner.kept L).opened
      simpa using kept ▸ frame
    · simpa [Draft.apply] using inner.nextSlot_replay first
  | @loop env c _ es _ condition _ ih =>
    have start : L.SoundThrough d
        ([.code .reserveLabel, .code .reserveLabel, .emit (.mark c.labels)] ++ es ++
          [.emit (.jumpUnless (c.labels + 1))]) :=
      ((Ledger.SoundThrough.unlisted sound (by simp)).before condition.isUnlisted).before (by simp)
    refine (start.append (ih start.last ?_ ?_)).before (by simp)
    · simpa [L.after_unlisted condition.isUnlisted, Env.inLoop, Env.frame] using frame
    · simpa [Draft.apply, condition.nextSlot_replay] using slot
  | failedLoop condition =>
    exact ((Ledger.SoundThrough.unlisted sound (by simp)).before condition.isUnlisted).before
      (by simp)

/-! ## A whole pass -/

theorem Ledger.Sound.bindBase {L : Ledger} {d : Draft} (h : L.Sound d) (name : String)
    (type : ValueType) : (L.apply (.scope (.bindBase name type))).Sound d := by
  have visible {D : Binding} (hD : D ∈ (L.apply (.scope (.bindBase name type))).visible) :
      D = ⟨⟨name, .type type, none⟩, L.current⟩ ∨ D ∈ L.visible := by
    simp only [Ledger.visible, Ledger.apply, List.mem_append, List.mem_cons] at hD ⊢
    rcases hD with hD | hD | hD
    · exact .inr (.inl hD)
    · exact .inl hD
    · exact .inr (.inr hD)
  refine h.step (e := .scope (.bindBase name type)) rfl ⟨?_, ?_⟩
  · intro D hD _ _ _ hm
    rcases visible hD with rfl | hD
    · cases hm
    · exact h.owned.made D hD _ _ _ hm
  · intro D hD _ _ _ hm
    rcases visible hD with rfl | hD
    · cases hm
    · exact h.owned.owner D hD _ _ _ hm

theorem Ledger.SoundThrough.bindTypes {L : Ledger} {d : Draft} (h : L.Sound d)
    (types : List (String × ValueType)) :
    L.SoundThrough d (types.map fun (name, type) => .scope (.bindBase name type)) := by
  induction types generalizing L with
  | nil => exact h
  | cons type types ih => exact ⟨h, ih (h.bindBase type.1 type.2)⟩

/-- At every moment of a pass, the ledger is sound. -/
theorem Pass.soundThrough (structural : Severity) (scopes : Scopes) (s : Tokens) :
    Ledger.SoundThrough {} {} (run structural scopes s).events := by
  have types := Ledger.SoundThrough.bindTypes .fresh ValueType.primitives
  have trace := program_traced { scopes := scopes.withPrimitives, structural } {} s
  exact types.append (trace.soundThrough types.last rfl rfl)

/-! ## Parameters -/

/-- The signature of the function that an event opens. -/
def Event.opens? : Event → Option Signature
  | .code (.openFunction _ signature) => some signature
  | _ => none

/-- Events that begin with a scope for a function and its parameter in the first slot. -/
def BeginsWithParameter (type : ValueType) (es : List Event) : Prop :=
  ∃ name frame pos rest, es = .scope .enter :: .code (.reserveLocal name type) ::
    .scope (.declare ⟨name, .localVar type 0 frame, some pos⟩) :: rest

/-- Every function that is opened begins with its parameter. -/
def ParametersFirst : List Event → Prop
  | [] => True
  | e :: es =>
    (∀ signature, e.opens? = some signature → BeginsWithParameter signature.param es) ∧
      ParametersFirst es

namespace ParametersFirst

variable {es fs : List Event}

theorem append (he : ParametersFirst es) (hf : ParametersFirst fs) :
    ParametersFirst (es ++ fs) := by
  induction es with
  | nil => exact hf
  | cons e es ih =>
    refine ⟨fun signature opens => ?_, ih he.2⟩
    obtain ⟨name, frame, pos, rest, rfl⟩ := he.1 signature opens
    exact ⟨name, frame, pos, rest ++ fs, rfl⟩

theorem cons {e : Event} (none : e.opens? = none) (h : ParametersFirst es) :
    ParametersFirst (e :: es) :=
  ⟨by simp [none], h⟩

theorem of_none (h : ∀ e ∈ es, e.opens? = none) : ParametersFirst es := by
  induction es with
  | nil => trivial
  | cons e es ih =>
    obtain ⟨first, rest⟩ := List.forall_mem_cons.1 h
    exact .cons first (ih rest)

theorem of_unlisted (h : ∀ e ∈ es, e.isUnlisted) : ParametersFirst es := by
  refine of_none fun e he => ?_
  have unlisted := h e he
  unfold Event.isUnlisted at unlisted
  split at unlisted
  · rfl
  · rfl
  · rfl
  · cases unlisted

/-- At the moment when a function is opened, its parameter comes next. -/
theorem moment {before after : List Event} {link : String} {signature : Signature}
    (h : ParametersFirst (before ++ .code (.openFunction link signature) :: after)) :
    BeginsWithParameter signature.param after := by
  induction before with
  | nil => exact h.1 signature rfl
  | cons e before ih => exact ih h.2

end ParametersFirst

theorem Trace.parametersFirst {env : Env} {c c' : Counters} {es : List Event} {scopes : Scopes}
    (h : Trace env c es scopes c') : ParametersFirst es := by
  induction h with
  | quiet events => exact .of_unlisted events.isUnlisted
  | append _ _ ih₁ ih₂ => exact ih₁.append ih₂
  | block _ ih => exact .cons rfl (ih.append (.cons rfl trivial))
  | declare _ => exact .cons rfl (.cons rfl trivial)
  | @define env c _ es _ name ret _ p f symbol _ _ hs _ ih =>
    refine .cons rfl ⟨fun signature opens => ?_, ?_⟩
    · cases opens
      exact ⟨p.name, (env.inFunction f ret).frame, p.pos, _, by rw [hs]; rfl⟩
    · exact .cons rfl (.cons rfl (.cons rfl (ih.append (.cons rfl (.cons rfl trivial)))))
  | ifThen _ ih =>
    refine .append (.append ?_ ih) ?_
    all_goals exact .of_unlisted (by simp)
  | ifElse _ _ ih₁ ih₂ =>
    refine .append (.append (.append (.append ?_ ih₁) ?_) ih₂) ?_
    all_goals exact .of_unlisted (by simp)
  | loop condition _ ih =>
    have plain := ParametersFirst.of_unlisted condition.isUnlisted
    refine .append (.append (.append (.append ?_ plain) ?_) ih) ?_
    all_goals exact .of_unlisted (by simp)
  | failedLoop condition =>
    have plain := ParametersFirst.of_unlisted condition.isUnlisted
    refine .append (.append ?_ plain) ?_
    all_goals exact .of_unlisted (by simp)

theorem Pass.parametersFirst (structural : Severity) (scopes : Scopes) (s : Tokens) :
    ParametersFirst (run structural scopes s).events := by
  have types : ParametersFirst
      (ValueType.primitives.map fun (name, type) => .scope (.bindBase name type)) := by
    refine .of_none fun e he => ?_
    obtain ⟨x, -, rfl⟩ := List.mem_map.1 he
    rfl
  exact types.append
    (program_traced { scopes := scopes.withPrimitives, structural } {} s).parametersFirst

/-! ## References to slots -/

/-- The slot that an instruction loads or stores. -/
def Instruction.slot? : Instruction → Option Nat
  | .load slot | .store slot => some slot
  | _ => none

/-- Every reference in a log is justified at its moment. -/
theorem Noted.moment {scopes : Scopes} {frame : Nat} {before after : List Entry} {e : Entry}
    (h : Noted scopes frame (before ++ e :: after)) :
    e.Justified (scopes.replay (before.map Entry.event))
      (depthAfter frame (before.map Entry.event)) := by
  induction before generalizing scopes frame with
  | nil => exact h.1
  | cons first before ih =>
    have later := ih h.2
    rwa [← Scopes.replay_append] at later

/-- A name is resolved to a slot of the function that code goes to: its innermost declaration is of
a variable in this slot that was made for this function, and the function's body has the name and
the type of the variable there. -/
structure Ledger.Resolves (L : Ledger) (d : Draft) (x : String) (slot : Nat) (D : Binding)
    (type : ValueType) : Prop where
  innermost : L.find? x = some D
  meaning : ∃ frame, D.symbol.meaning = .localVar type slot frame
  made : D ∈ L.made
  owner : D.owner = L.current
  recorded : d.current.locals[slot]? = some (x, type)

theorem Instruction.RefersTo.localVar {frame slot : Nat} {i : Instruction} {meaning : Meaning}
    (refers : i.RefersTo frame meaning) (hi : i.slot? = some slot) :
    ∃ type, meaning = .localVar type slot frame := by
  unfold RefersTo at refers
  split at refers
  · cases hi
    obtain ⟨rfl, rfl⟩ := refers
    exact ⟨_, rfl⟩
  · cases hi
    obtain ⟨rfl, rfl⟩ := refers
    exact ⟨_, rfl⟩
  · cases hi
  · exact refers.elim

theorem Ledger.name_of_find? {L : Ledger} {x : String} {D : Binding}
    (h : L.find? x = some D) : D.symbol.name = x := by
  simpa using List.find?_some h

/-- If a name stands for what an instruction refers to, then it is resolved to the slot of the
instruction. -/
theorem Ledger.Sound.resolves {L : Ledger} {d : Draft} (h : L.Sound d) {scopes : Scopes}
    (shown : L.Shows scopes) {x : Mention} {meaning : Meaning} (stands : x.StandsFor scopes meaning)
    {i : Instruction} (refers : i.RefersTo L.opened.length meaning) {slot : Nat}
    (hi : i.slot? = some slot) : ∃ D type, L.Resolves d x.name slot D type := by
  obtain ⟨type, rfl⟩ := refers.localVar hi
  obtain ⟨D, found, meaning⟩ : ∃ D, L.find? x.name = some D ∧
      D.symbol.meaning = .localVar type slot L.opened.length := by
    unfold Mention.StandsFor at stands
    rw [shown.find?_eq] at stands
    simpa using stands
  have visible : D ∈ L.visible := List.mem_of_find?_eq_some found
  have made := h.owned.made D visible _ _ _ meaning
  have owner : D.owner = L.current := by
    have depth := h.owned.owner D visible _ _ _ meaning
    rw [L.getElem?_opened_length] at depth
    exact (Option.some.inj depth).symm
  have recorded := h.recorded D made _ _ _ meaning d.current (owner ▸ current_mem h.counts)
  rw [name_of_find? found] at recorded
  exact ⟨D, type, found, ⟨_, meaning⟩, made, owner, recorded⟩

/-- Every instruction with a slot was emitted for a name that was resolved to this slot, and the
slot still belongs to the name's variable at the end. -/
theorem Noted.resolved {log : List Entry} {host : String → Option ValueType}
    (noted : Noted { host } 0 log) (sound : Ledger.SoundThrough {} {} (log.map Entry.event))
    {n j slot : Nat} {b : Body} {i : Instruction}
    (hb : (n, b) ∈ (Ledger.after {} (log.map Entry.event)).bodies
      (Draft.replay {} (log.map Entry.event)))
    (hi : b.code[j]? = some i) (hs : i.slot? = some slot) :
    ∃ before x after D type, log = before ++ ⟨.emit i, some x⟩ :: after ∧
      (Ledger.after {} (before.map Entry.event)).current = n ∧
      (Draft.replay {} (before.map Entry.event)).current.code.size = j ∧
      (Ledger.after {} (before.map Entry.event)).Resolves
        (Draft.replay {} (before.map Entry.event)) x.name slot D type ∧
      b.locals[slot]? = some (x.name, type) := by
  obtain ⟨earlier, later, split, current, size⟩ := Ledger.origin_of_code hb hi
  obtain ⟨before, rest, rfl, rfl, hrest⟩ := List.map_eq_append_iff.1 split
  obtain ⟨⟨event, cause⟩, after, rfl, hevent, rfl⟩ := List.map_eq_cons_iff.1 hrest
  obtain rfl : event = .emit i := hevent
  -- At this moment, the instruction is justified and the ledger is sound.
  have reference : i.isReference := by
    unfold Instruction.slot? at hs
    split at hs
    · rfl
    · rfl
    · cases hs
  obtain ⟨x, meaning, hx, stands, refers⟩ := noted.moment i rfl reference
  obtain rfl : cause = some x := hx
  rw [List.map_append] at sound hb
  have moment := sound.moment
  have depth : depthAfter 0 (before.map Entry.event) =
      (Ledger.after {} (before.map Entry.event)).opened.length := by
    rw [moment.counts.opened, Draft.length_opened_replay]
    rfl
  rw [depth] at refers
  have shown := Ledger.Shows.after (L := {}) (s := { host }) ⟨rfl, rfl⟩ (before.map Entry.event)
  obtain ⟨D, type, resolved⟩ := moment.resolves shown stands refers hs
  refine ⟨before, x, after, D, type, rfl, current, size, resolved, ?_⟩
  -- The declaration is not forgotten, so its slot is still recorded at the end.
  obtain ⟨frame, hm⟩ := resolved.meaning
  have owner : D.owner = n := resolved.owner.trans current
  have made := Ledger.mem_made_after (.emit i :: after.map Entry.event) resolved.made
  rw [← Ledger.after_append] at made
  have recorded := sound.last.recorded D made _ _ _ hm b (owner ▸ hb)
  rwa [Ledger.name_of_find? resolved.innermost] at recorded

/-- Every function has its parameter in the first slot. -/
theorem ParametersFirst.parameter {es : List Event} (h : ParametersFirst es)
    (sound : Ledger.SoundThrough {} {} es) {n : Nat} {b : Body} {signature : Signature}
    (hb : (n, b) ∈ (Ledger.after {} es).bodies (Draft.replay {} es))
    (hs : b.signature = some signature) :
    ∃ before after x frame pos, es = before ++ .code (.openFunction b.name signature) ::
        .scope .enter :: .code (.reserveLocal x signature.param) ::
        .scope (.declare ⟨x, .localVar signature.param 0 frame, some pos⟩) :: after ∧
      (Ledger.after {} before).begun + 1 = n ∧ b.locals[0]? = some (x, signature.param) := by
  obtain ⟨before, rest, rfl, begun⟩ := Ledger.origin_of_function hb hs
  obtain ⟨x, frame, pos, after, rfl⟩ := h.moment
  refine ⟨before, after, x, frame, pos, rfl, begun, ?_⟩
  let parameter : Symbol := ⟨x, .localVar signature.param 0 frame, some pos⟩
  have made : (⟨parameter, n⟩ : Binding) ∈ (Ledger.after {} (before ++
      .code (.openFunction b.name signature) :: .scope .enter ::
        .code (.reserveLocal x signature.param) :: .scope (.declare parameter) :: after)).made := by
    rw [Ledger.after_append]
    refine Ledger.mem_made_after after ?_
    change _ ∈ (Ledger.declare _ parameter).made
    rw [Ledger.made_declare, ← begun]
    exact List.mem_cons_self
  exact sound.last.recorded _ made _ _ _ rfl b hb

/-- **Slots are sound**, for every source text, whether it is accepted or not, and every severity.
Let the functions be numbered in the order in which they are begun; then the bodies of the listing
have different numbers, and

* every load and every store is of a slot of its body. When it was emitted, which was for an
  identifier `x` of the source, the innermost declaration of `x` was that of a variable in this
  slot, made while the same function was the innermost one, and the body had the variable's name and
  type in the slot, as it has at the end;
* no two declarations have the same slot of the same function;
* a function has its parameter, which is declared when the function is opened, in slot 0. -/
theorem slots_sound (source : String) (structural : Severity) (host : String → Option ValueType) :
    (∃ error, scan source = .error error ∧
      compile source structural { host } = .error (.lexical error)) ∨
    ∃ ts c, scan source = .ok ts ∧ compile source structural { host } = .ok c ∧
      let log := (Stateful.parse structural { host } (.ofList ts)).state.log
      let ledger (entries : List Entry) := Ledger.after {} (entries.map Entry.event)
      let draft (entries : List Entry) := Draft.replay {} (entries.map Entry.event)
      let bodies := (ledger log).bodies (draft log)
      log.map Entry.event = (Pass.run structural { host } (.ofList ts)).events ∧
      bodies.map Prod.snd = c.listing.bodies ∧ (bodies.map Prod.fst).Nodup ∧
      (∀ n b, (n, b) ∈ bodies → ∀ j i slot, b.code[j]? = some i → i.slot? = some slot →
        slot < b.locals.size ∧
        ∃ before x after D type, log = before ++ ⟨.emit i, some x⟩ :: after ∧ x.StandsIn ts ∧
          (ledger before).current = n ∧ (draft before).current.code.size = j ∧
          (ledger before).Resolves (draft before) x.name slot D type ∧
          b.locals[slot]? = some (x.name, type)) ∧
      ((ledger log).made.filterMap Binding.place?).Nodup ∧
      ∀ n b signature, (n, b) ∈ bodies → b.signature = some signature →
        ∃ before after x frame pos, log.map Entry.event =
            before ++ .code (.openFunction b.name signature) :: .scope .enter ::
              .code (.reserveLocal x signature.param) ::
              .scope (.declare ⟨x, .localVar signature.param 0 frame, some pos⟩) :: after ∧
          (Ledger.after {} before).begun + 1 = n ∧ b.locals[0]? = some (x, signature.param) := by
  cases scanned : scan source with
  | error error => exact .inl ⟨error, rfl, by simp [compile, scanned]⟩
  | ok ts =>
    obtain ⟨c, compiled, listed, -, -⟩ := compile_of_scan scanned structural { host }
    obtain ⟨-, events, -, noted, -⟩ := parse_log structural { host } (.ofList ts)
    have sound := Pass.soundThrough structural { host } (.ofList ts)
    have parameters := Pass.parametersFirst structural { host } (.ofList ts)
    rw [Pass.listing_eq] at listed
    rw [← events] at sound parameters listed
    refine .inr ⟨ts, c, rfl, compiled, events, ?_, ?_, ?_, sound.last.distinct, ?_⟩
    · rw [Ledger.snd_bodies sound.last.counts]
      exact congrArg Listing.bodies (Except.ok.inj listed)
    · exact sound.last.numbered.nodup_bodies sound.last.counts
    · intro n b hb j i slot hi hs
      obtain ⟨before, x, after, D, type, moment, current, size, resolved, recorded⟩ :=
        noted.resolved sound hb hi hs
      have stands : x.StandsIn ts :=
        parse_cites structural { host } ts ⟨.emit i, some x⟩ (by simp [moment]) x rfl
      exact ⟨(Array.getElem?_eq_some_iff.1 recorded).1, before, x, after, D, type, moment, stands,
        current, size, resolved, recorded⟩
    · intro n b signature hb hs
      exact parameters.parameter sound hb hs

end OnePass
