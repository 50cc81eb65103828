import OnePass.Proofs.Generation

/-!
# Links

Every function of a program is called by a link of its own: the first function of a name by the
name, each further one by the name and how many came before. A name holds no `#`, so a link tells
both.
-/

namespace OnePass

theorem Name.sharp_notMem (f : Name) : '#' ∉ f.text.toList := by
  intro mem
  have valid := f.valid
  unfold isName at valid
  cases spelled : f.text.toList with
  | nil => rw [spelled] at mem; cases mem
  | cons c cs =>
    simp only [spelled, Bool.and_eq_true, List.all_eq_true] at valid
    obtain ⟨⟨first, rest⟩, -⟩ := valid
    rw [spelled] at mem
    rcases List.mem_cons.1 mem with rfl | mem
    · exact absurd first (by decide)
    · exact absurd (rest '#' mem) (by decide)

namespace Inventory

variable {i j : Inventory} {f g : Name}

/-- The characters of a link, up to the first `#`. -/
theorem takeWhile_link (i : Inventory) (f : Name) :
    (i.link f).toList.takeWhile (· ≠ '#') = f.text.toList := by
  have own : ∀ c ∈ f.text.toList, decide (c ≠ '#') = true := by
    intro c mem
    exact decide_eq_true fun sharp => f.sharp_notMem (sharp ▸ mem)
  unfold link
  split
  · rw [← List.append_nil f.text.toList, List.takeWhile_append_of_pos own, List.takeWhile_nil]
  · rw [String.toList_append, String.toList_append, List.append_assoc,
      List.takeWhile_append_of_pos own]
    simp

/-- A link tells the name and how many functions of the name came before. -/
theorem link_inj (h : i.link f = j.link g) : f = g ∧ i.defined.count f = j.defined.count g := by
  have name : f = g := by
    rw [← Name.text_inj, ← String.toList_inj, ← takeWhile_link i f, ← takeWhile_link j g, h]
  subst name
  refine ⟨rfl, ?_⟩
  unfold link at h
  split at h <;> split at h
  · omega
  · exact absurd (by rw [h]; simp) f.sharp_notMem
  · exact absurd (by rw [← h]; simp) f.sharp_notMem
  · have digits := congrArg String.toList ((String.append_right_inj _).1 h)
    rw [Nat.repr_eq_ofList_toDigits, Nat.repr_eq_ofList_toDigits, String.toList_ofList,
      String.toList_ofList] at digits
    have value := congrArg (Nat.ofDigitChars 10 · 0) digits
    simpa only [Nat.ofDigitChars_ten_toDigits] using value

end Inventory

def links : List Name → List String
  | [] => []
  | f :: earlier => Inventory.link ⟨[], earlier⟩ f :: links earlier

theorem mem_links {l : String} {fs : List Name} (h : l ∈ links fs) :
    ∃ f earlier, (f :: earlier) <:+ fs ∧ l = Inventory.link ⟨[], earlier⟩ f := by
  induction fs with
  | nil => cases h
  | cons g gs ih =>
    rcases List.mem_cons.1 h with rfl | h
    · exact ⟨g, gs, List.suffix_refl _, rfl⟩
    · obtain ⟨f, earlier, suffix, rfl⟩ := ih h
      exact ⟨f, earlier, suffix.trans (List.suffix_cons g gs), rfl⟩

/-- **No two functions have the same link.** -/
theorem nodup_links (fs : List Name) : (links fs).Nodup := by
  induction fs with
  | nil => exact List.nodup_nil
  | cons f fs ih =>
    refine List.nodup_cons.2 ⟨?_, ih⟩
    intro mem
    obtain ⟨g, earlier, suffix, same⟩ := mem_links mem
    obtain ⟨rfl, count⟩ := Inventory.link_inj same
    have more := suffix.sublist.count_le f
    rw [List.count_cons_self] at more
    dsimp only at count
    omega

/-- From one inventory to another functions were defined that have the given links. -/
def Inventory.Gains (inv inv' : Inventory) (names : List String) : Prop :=
  ∃ new, links inv'.defined = new ++ links inv.defined ∧ names.Perm new

namespace Inventory.Gains

variable {inv inv₁ inv₂ : Inventory} {names names' : List String}

theorem refl (inv : Inventory) : inv.Gains inv [] := ⟨[], rfl, .nil⟩

theorem append (h : inv.Gains inv₁ names) (h' : inv₁.Gains inv₂ names') :
    inv.Gains inv₂ (names ++ names') := by
  obtain ⟨new, grown, perm⟩ := h
  obtain ⟨new', grown', perm'⟩ := h'
  refine ⟨new' ++ new, by rw [grown', grown, List.append_assoc], ?_⟩
  exact (perm.append perm').trans List.perm_append_comm

/-- A function is defined before those inside it, and listed behind them. -/
theorem define {f : Name} {locals : List (String × ValueType)}
    (h : Gains ⟨locals, f :: inv.defined⟩ inv₁ names) :
    inv.Gains { inv with defined := inv₁.defined } (names ++ [inv.link f]) := by
  obtain ⟨new, grown, perm⟩ := h
  refine ⟨new ++ [inv.link f], ?_, perm.append_right _⟩
  rw [List.append_assoc]
  exact grown

/-- The links of a whole program are distinct. -/
theorem nodup (h : Gains {} inv names) : names.Nodup := by
  obtain ⟨new, grown, perm⟩ := h
  refine perm.nodup_iff.2 ?_
  have all : links inv.defined = new := by rw [grown, links, List.append_nil]
  rw [← all]
  exact nodup_links inv.defined

end Inventory.Gains

end OnePass
