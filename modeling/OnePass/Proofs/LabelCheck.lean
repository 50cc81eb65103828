import Mathlib.Data.List.Count
import Mathlib.Order.Nat
import OnePass.Proofs.Labels
import OnePass.Proofs.NestedLogs

/-!
# The check of the labels

What finishing a draft checks, said of the history of its commands alone. A label is due one mark
from the moment it is reserved: what was marked before that, and labels that nobody reserved, are
not counted. A draft is finished exactly if every reserved label got its one mark, and else the
least label that did not is named.

The counts of a draft are tied to its history by `getElem?_marks_ofHistory`, one command at a time,
and everything else follows from there. Main theorem `finish_verifies_labels`.
-/

namespace OnePass

namespace Draft

/-- A command of the history reserves the label, and `later` are the commands behind it. -/
def Reserved (history : List Command) (label : Nat) (later : List Command) : Prop :=
  ∃ earlier, history = earlier ++ .reserveLabel :: later ∧ (ofHistory earlier).nextLabel = label

def timesMarked (label : Nat) (commands : List Command) : Nat :=
  commands.count (.emit (.mark label))

/-- The label is reserved, but not marked exactly once after that. -/
def Amiss (history : List Command) (label : Nat) : Prop :=
  ∃ later, Reserved history label later ∧ timesMarked label later ≠ 1

/-- Every mark names a label that was reserved before. -/
def MarksReserved (history : List Command) : Prop :=
  ∀ earlier label later, history = earlier ++ .emit (.mark label) :: later →
    ∃ between, Reserved earlier label between

/-! ## The counts of a draft -/

theorem ofHistory_concat (history : List Command) (command : Command) :
    ofHistory (history ++ [command]) = (ofHistory history).apply command := by
  rw [ofHistory, List.foldl_append]
  rfl

theorem ofHistory_eq_replay (history : List Command) :
    ofHistory history = replay {} (history.map .code) := by
  have commands : (history.map Event.code).filterMap Event.command? = history := by
    rw [List.filterMap_map]
    exact List.filterMap_some
  rw [replay, commands, ofHistory]

@[simp] theorem timesMarked_append (label : Nat) (commands more : List Command) :
    timesMarked label (commands ++ more) = timesMarked label commands + timesMarked label more :=
  List.count_append

theorem timesMarked_singleton (label : Nat) (command : Command) :
    timesMarked label [command] = if command = .emit (.mark label) then 1 else 0 := by
  simp [timesMarked, List.count_cons]

theorem count_map_code (commands : List Command) (command : Command) :
    (commands.map Event.code).count (.code command) = commands.count command :=
  List.count_map_of_injective commands Event.code (fun _ _ same => Event.code.inj same) command

/-- Labels are numbered in the order in which they are reserved. -/
theorem nextLabel_ofHistory (history : List Command) :
    (ofHistory history).nextLabel = history.count .reserveLabel := by
  rw [ofHistory_eq_replay, nextLabel_replay, reservedIn, count_map_code]
  exact Nat.zero_add _

/-- The last command reserves a label, or comes behind the labels reserved before. -/
theorem reserved_concat {history : List Command} {command : Command} {label : Nat}
    {later : List Command} :
    Reserved (history ++ [command]) label later ↔
      (command = .reserveLabel ∧ (ofHistory history).nextLabel = label ∧ later = []) ∨
      ∃ before, Reserved history label before ∧ later = before ++ [command] := by
  constructor
  · rintro ⟨earlier, split, number⟩
    rcases List.eq_nil_or_concat' later with rfl | ⟨before, last, rfl⟩
    · obtain ⟨rfl, same⟩ := List.append_inj' split rfl
      cases same
      exact .inl ⟨rfl, number, rfl⟩
    · rw [← List.cons_append, ← List.append_assoc] at split
      obtain ⟨rfl, same⟩ := List.append_inj' split rfl
      cases same
      exact .inr ⟨before, ⟨earlier, rfl, number⟩, rfl⟩
  · rintro (⟨rfl, number, rfl⟩ | ⟨before, ⟨earlier, rfl, number⟩, rfl⟩)
    · exact ⟨history, rfl, number⟩
    · exact ⟨earlier, by simp, number⟩

/-- What one command does to the count of a label: it begins at zero where the label is reserved,
and grows with every mark. -/
theorem getElem?_marks_apply (d : Draft) (command : Command) (label n : Nat) :
    (d.apply command).marks[label]? = some n ↔
      (command = .reserveLabel ∧ d.nextLabel = label ∧ n = 0) ∨
      ∃ m, d.marks[label]? = some m ∧ m + timesMarked label [command] = n := by
  have step : (d.apply command).marks = _ := d.marks_replay_single (.code command)
  rw [step, timesMarked_singleton]
  cases command with
  | reserveLabel =>
    simp only [Array.getElem?_push, nextLabel]
    by_cases new : label = d.marks.size
    · simp [new, eq_comm]
    · simp [new, Ne.symm new]
  | emit i =>
    cases i with
    | mark marked =>
      simp only [marksAfter, Array.getElem?_modify]
      by_cases same : marked = label
      · simp [same]
      · simp [same]
    | _ => simp [marksAfter]
  | _ => simp

/-- A draft counts the marks of a label that come after the label was reserved. -/
theorem getElem?_marks_ofHistory {history : List Command} {label n : Nat} :
    (ofHistory history).marks[label]? = some n ↔
      ∃ later, Reserved history label later ∧ timesMarked label later = n := by
  -- Reserving looks back on the whole history, so the induction adds commands at its end.
  induction history using List.reverseRecOn generalizing n with
  | nil =>
    have nothing : (ofHistory []).marks[label]? = none := rfl
    simp [nothing, Reserved]
  | append_singleton history command ih =>
    rw [ofHistory_concat, getElem?_marks_apply]
    simp only [ih, reserved_concat]
    constructor
    · rintro (⟨rfl, number, rfl⟩ | ⟨_, ⟨later, reserved, rfl⟩, rfl⟩)
      · exact ⟨[], .inl ⟨rfl, number, rfl⟩, rfl⟩
      · exact ⟨_, .inr ⟨later, reserved, rfl⟩, timesMarked_append _ _ _⟩
    · rintro ⟨_, ⟨rfl, number, rfl⟩ | ⟨before, reserved, rfl⟩, rfl⟩
      · exact .inl ⟨rfl, number, rfl⟩
      · exact .inr ⟨_, ⟨before, reserved, rfl⟩, (timesMarked_append _ _ _).symm⟩

theorem exists_reserved_iff {history : List Command} {label : Nat} :
    (∃ later, Reserved history label later) ↔ label < (ofHistory history).nextLabel := by
  have counted : (ofHistory history).marks[label]?.isSome ↔
      label < (ofHistory history).nextLabel := by
    simp [nextLabel]
  rw [← counted, Option.isSome_iff_exists]
  simp [getElem?_marks_ofHistory]

theorem amiss_iff {history : List Command} {label : Nat} :
    Amiss history label ↔ ∃ n, (ofHistory history).marks[label]? = some n ∧ n ≠ 1 := by
  constructor
  · rintro ⟨later, reserved, wrong⟩
    exact ⟨_, getElem?_marks_ofHistory.2 ⟨later, reserved, rfl⟩, wrong⟩
  · rintro ⟨n, count, wrong⟩
    obtain ⟨later, reserved, rfl⟩ := getElem?_marks_ofHistory.1 count
    exact ⟨later, reserved, wrong⟩

/-! ## The fault that is found -/

def faultOf? (label : Nat) : Nat → Option Fault
  | 0 => some (.unmarked label)
  | 1 => none
  | _ => some (.remarked label)

theorem faultOf?_eq_none {label n : Nat} : faultOf? label n = none ↔ n = 1 := by
  unfold faultOf?
  split <;> simp_all

theorem faultOf?_eq_unmarked {label n named : Nat} :
    faultOf? label n = some (.unmarked named) ↔ n = 0 ∧ label = named := by
  unfold faultOf?
  split <;> simp_all

theorem faultOf?_eq_remarked {label n named : Nat} :
    faultOf? label n = some (.remarked named) ↔ 1 < n ∧ label = named := by
  unfold faultOf?
  split <;> simp_all
  omega

theorem faultFrom?_cons (label n : Nat) (counts : List Nat) :
    faultFrom? label (n :: counts) = (faultOf? label n).or (faultFrom? (label + 1) counts) := by
  match n with
  | 0 => rfl
  | 1 => rfl
  | _ + 2 => rfl

/-- The first count other than one is the one that is found. -/
theorem faultFrom?_eq_some {start : Nat} {counts : List Nat} {fault : Fault} :
    faultFrom? start counts = some fault ↔
      ∃ i n, counts[i]? = some n ∧ faultOf? (start + i) n = some fault ∧
        ∀ j < i, counts[j]? = some 1 := by
  induction counts generalizing start with
  | nil => simp [faultFrom?]
  | cons first counts ih =>
    rw [faultFrom?_cons, Option.or_eq_some_iff, faultOf?_eq_none, ih]
    constructor
    · rintro (here | ⟨rfl, i, n, count, wrong, others⟩)
      · exact ⟨0, first, rfl, here, by simp⟩
      · refine ⟨i + 1, n, count, by rwa [← Nat.add_right_comm, Nat.add_assoc] at wrong, ?_⟩
        rintro (_ | j) less
        · rfl
        · exact others j (by omega)
    · rintro ⟨_ | i, n, count, wrong, others⟩
      · cases count
        exact .inl wrong
      · refine .inr ⟨by simpa using others 0 (by omega), i, n, count, ?_, fun j less =>
          others (j + 1) (by omega)⟩
        rwa [← Nat.add_right_comm, Nat.add_assoc]

theorem finish_eq_error {d : Draft} {fault : Fault} :
    d.finish = .error fault ↔ d.fault? = some fault := by
  unfold finish
  split <;> simp_all

theorem finish_eq_ok {d : Draft} {listing : Listing} (finished : d.finish = .ok listing) :
    listing = ⟨d.bodies⟩ := by
  unfold finish at finished
  split at finished
  · cases finished
  · cases finished
    rfl

/-- A draft that cannot be finished names the least label that is amiss. -/
theorem finish_ofHistory_eq_error {history : List Command} {fault : Fault} :
    (ofHistory history).finish = .error fault ↔
      ∃ label, IsLeast {label | Amiss history label} label ∧
        ∃ later, Reserved history label later ∧
          faultOf? label (timesMarked label later) = some fault := by
  rw [finish_eq_error, fault?, faultFrom?_eq_some]
  simp only [Nat.zero_add, Array.getElem?_toList]
  constructor
  · rintro ⟨label, n, count, wrong, others⟩
    have amiss : n ≠ 1 := fun one => by simp [faultOf?_eq_none.2 one] at wrong
    obtain ⟨later, reserved, rfl⟩ := getElem?_marks_ofHistory.1 count
    refine ⟨label, ⟨⟨later, reserved, amiss⟩, fun other otherAmiss => ?_⟩, later, reserved, wrong⟩
    obtain ⟨m, count', amiss'⟩ := amiss_iff.1 otherAmiss
    by_contra less
    rw [others other (by omega)] at count'
    exact amiss' (Option.some.inj count').symm
  · rintro ⟨label, ⟨-, least⟩, later, reserved, wrong⟩
    have count := getElem?_marks_ofHistory.2 ⟨later, reserved, rfl⟩
    refine ⟨label, _, count, wrong, fun other less => ?_⟩
    have known : other < (ofHistory history).marks.size :=
      Nat.lt_trans less (Array.getElem?_eq_some_iff.1 count).1
    have once : (ofHistory history).marks[other] = 1 := by
      by_contra amiss'
      have := least (amiss_iff.2 ⟨_, Array.getElem?_eq_getElem known, amiss'⟩)
      omega
    rw [Array.getElem?_eq_getElem known, once]

/-- A draft can be finished exactly if no label is amiss. -/
theorem finish_ofHistory_isOk {history : List Command} :
    (∃ listing, (ofHistory history).finish = .ok listing) ↔ ∀ label, ¬ Amiss history label := by
  constructor
  · rintro ⟨listing, finished⟩ label amiss
    -- Among the labels that are amiss there is a least one, and it would have been named.
    classical
    have least := Nat.isLeast_find (p := Amiss history) ⟨label, amiss⟩
    obtain ⟨later, reserved, wrong⟩ := least.1
    obtain ⟨fault, named⟩ := Option.ne_none_iff_exists'.1 (mt faultOf?_eq_none.1 wrong)
    have refused := finish_ofHistory_eq_error.2 ⟨_, least, later, reserved, named⟩
    rw [finished] at refused
    cases refused
  · intro inOrder
    cases result : (ofHistory history).finish with
    | ok listing => exact ⟨listing, rfl⟩
    | error fault =>
      obtain ⟨label, ⟨amiss, -⟩, -⟩ := finish_ofHistory_eq_error.1 result
      exact absurd amiss (inOrder label)

/-! ## The marks of a listing -/

/-- Every mark of the history stands in one of the bodies. -/
theorem count_mark_bodies (history : List Command) (label : Nat) :
    ((ofHistory history).bodies.flatMap (·.code.toList)).count (.mark label) =
      timesMarked label history := by
  rw [← marked, ofHistory_eq_replay, marked_replay, marksIn, Event.emit, count_map_code]
  exact Nat.zero_add _

def Command.mark? : Command → Option Nat
  | .emit (.mark label) => some label
  | _ => none

theorem Command.mark?_eq_some {command : Command} {label : Nat} :
    command.mark? = some label ↔ command = .emit (.mark label) := by
  unfold mark?
  split <;> simp_all

theorem marksReserved_iff {history : List Command} :
    MarksReserved history ↔ ∀ i : Fin history.length, ∀ label ∈ history[i].mark?,
      label < (ofHistory (history.take i)).nextLabel := by
  constructor
  · intro known i label mem
    refine exists_reserved_iff.1 (known _ label (history.drop (i + 1)) ?_)
    rw [← Command.mark?_eq_some.1 mem]
    simp
  · intro known earlier label later split
    have less := known ⟨earlier.length, by simp [split]⟩ label (by simp [split, Command.mark?])
    exact exists_reserved_iff.2 (by simpa [split] using less)

instance (history : List Command) : Decidable (MarksReserved history) :=
  decidable_of_iff _ marksReserved_iff.symm

section

variable {history : List Command} (known : MarksReserved history)
include known

/-- A label that is not reserved is not marked. -/
theorem MarksReserved.timesMarked_eq_zero {label : Nat}
    (unknown : ∀ later, ¬ Reserved history label later) : timesMarked label history = 0 := by
  refine List.count_eq_zero.2 fun mem => ?_
  obtain ⟨earlier, later, rfl⟩ := List.append_of_mem mem
  obtain ⟨between, first, rfl, number⟩ := known earlier label later rfl
  exact unknown (between ++ .emit (.mark label) :: later) ⟨first, by simp, number⟩

/-- A label has all its marks after it was reserved. -/
theorem MarksReserved.timesMarked_eq {label : Nat} {later : List Command}
    (reserved : Reserved history label later) :
    timesMarked label history = timesMarked label later := by
  obtain ⟨earlier, rfl, number⟩ := reserved
  have before : timesMarked label earlier = 0 := by
    -- A mark in there would name a label that is not reserved yet.
    refine List.count_eq_zero.2 fun mem => ?_
    obtain ⟨first, rest, rfl⟩ := List.append_of_mem mem
    have less := exists_reserved_iff.1
      (known first label (rest ++ .reserveLabel :: later) (by simp))
    rw [nextLabel_ofHistory] at less number
    rw [List.count_append] at number
    omega
  rw [timesMarked_append, before, Nat.zero_add]
  simp [timesMarked]

end

end Draft

/-- **Labels are verified exactly.** Let a draft be given any history of commands: labels may be
marked before they are reserved, repeatedly, never, or without being reserved at all. It can be
finished if and only if every label that was reserved is marked exactly once by the commands after
that. Otherwise the fault names the least label for which this is not so, as unmarked if there is no
such mark and as remarked if there are several. And where only labels are marked that were reserved
before, the listing has exactly one mark for each reserved label and none for any other. -/
theorem finish_verifies_labels (history : List Draft.Command) :
    ((∃ listing, (Draft.ofHistory history).finish = .ok listing) ↔
      ∀ label later, Draft.Reserved history label later → Draft.timesMarked label later = 1) ∧
    (∀ label, (Draft.ofHistory history).finish = .error (.unmarked label) ↔
      IsLeast {label | Draft.Amiss history label} label ∧
        ∃ later, Draft.Reserved history label later ∧ Draft.timesMarked label later = 0) ∧
    (∀ label, (Draft.ofHistory history).finish = .error (.remarked label) ↔
      IsLeast {label | Draft.Amiss history label} label ∧
        ∃ later, Draft.Reserved history label later ∧ 1 < Draft.timesMarked label later) ∧
    (Draft.MarksReserved history →
      ∀ listing, (Draft.ofHistory history).finish = .ok listing →
        (∀ label later, Draft.Reserved history label later →
          (listing.bodies.flatMap (·.code.toList)).count (.mark label) = 1) ∧
        ∀ label, (∀ later, ¬ Draft.Reserved history label later) →
          .mark label ∉ listing.bodies.flatMap (·.code.toList)) := by
  have success : (∃ listing, (Draft.ofHistory history).finish = .ok listing) ↔
      ∀ label later, Draft.Reserved history label later → Draft.timesMarked label later = 1 := by
    simp [Draft.finish_ofHistory_isOk, Draft.Amiss]
  refine ⟨success, fun label => ?_, fun label => ?_, fun known listing finished => ⟨?_, ?_⟩⟩
  · simp only [Draft.finish_ofHistory_eq_error, Draft.faultOf?_eq_unmarked]
    constructor
    · rintro ⟨_, least, later, reserved, never, rfl⟩
      exact ⟨least, later, reserved, never⟩
    · rintro ⟨least, later, reserved, never⟩
      exact ⟨label, least, later, reserved, never, rfl⟩
  · simp only [Draft.finish_ofHistory_eq_error, Draft.faultOf?_eq_remarked]
    constructor
    · rintro ⟨_, least, later, reserved, again, rfl⟩
      exact ⟨least, later, reserved, again⟩
    · rintro ⟨least, later, reserved, again⟩
      exact ⟨label, least, later, reserved, again, rfl⟩
  · intro label later reserved
    rw [Draft.finish_eq_ok finished, Draft.count_mark_bodies, known.timesMarked_eq reserved]
    exact success.1 ⟨listing, finished⟩ label later reserved
  · intro label unknown
    rw [← List.count_eq_zero, Draft.finish_eq_ok finished, Draft.count_mark_bodies]
    exact known.timesMarked_eq_zero unknown

/-- A history in which no label is marked in the function where it was reserved. -/
def crossedHistory : List Draft.Command :=
  [.reserveLabel, .openFunction "f" ⟨.int, .int⟩, .reserveLabel, .emit (.jump 0),
    .openFunction "g" ⟨.char, .bool⟩, .emit (.mark 0), .closeFunction, .closeFunction,
    .emit (.mark 1), .openFunction "h" ⟨.int, .int⟩, .emit (.jump 2)]

theorem finish_verifies_labels_crossedHistory :
    Draft.MarksReserved crossedHistory ∧
    ∃ listing, (Draft.ofHistory crossedHistory).finish = .ok listing ∧
      (listing.bodies.flatMap (·.code.toList)).count (.mark 1) = 1 ∧
      .mark 2 ∉ listing.bodies.flatMap (·.code.toList) := by
  obtain ⟨-, -, -, marks⟩ := finish_verifies_labels crossedHistory
  have known : Draft.MarksReserved crossedHistory := by decide +kernel
  have finished : (Draft.ofHistory crossedHistory).finish =
    .ok ⟨(Draft.ofHistory crossedHistory).bodies⟩ := rfl
  obtain ⟨once, others⟩ := marks known _ finished
  refine ⟨known, _, finished, once 1 (crossedHistory.drop 3) ⟨crossedHistory.take 2, rfl, rfl⟩,
    others 2 fun later reserved => ?_⟩
  have less := Draft.exists_reserved_iff.1 ⟨later, reserved⟩
  exact absurd less (by decide +kernel)

/-- A mark that comes too early is not counted, but stands in the listing. -/
example : (Draft.ofHistory [.emit (.mark 0), .reserveLabel, .emit (.mark 0)]).finish =
    .ok ⟨[{ name := "main", signature := none, code := #[.mark 0, .mark 0] }]⟩ := rfl

/-- The least label is named, whatever is wrong with the others. -/
example : (Draft.ofHistory [.emit (.mark 1), .reserveLabel, .reserveLabel, .reserveLabel,
    .emit (.mark 2), .emit (.mark 0), .emit (.mark 2), .emit (.mark 7)]).finish =
    .error (.unmarked 1) := rfl

end OnePass
