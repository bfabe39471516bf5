import Mathlib.Algebra.Ring.Nat
import Mathlib.Data.List.Basic
import Mathlib.Data.List.MinMax
import Mathlib.Order.Basic

/-! The first place at which a function on `0..n` is least, and the sums of the windows of
a list. -/

universe u

/-- `i` is the first of `0..n` at which `f` is least. -/
structure IsFirstMin {α : Type u} [LinearOrder α] (f : ℕ → α) (n i : ℕ) : Prop where
  lt : i < n
  le : ∀ j < n, f i ≤ f j
  first : ∀ j < i, f i < f j

namespace IsFirstMin

variable {α : Type u} [LinearOrder α] {f g : ℕ → α} {n i j : ℕ}

theorem unique (hi : IsFirstMin f n i) (hj : IsFirstMin f n j) : i = j := by
  by_contra hne
  rcases lt_or_gt_of_ne hne with h | h
  · exact absurd (hj.first i h) (not_lt_of_ge (hi.le j hj.lt))
  · exact absurd (hi.first j h) (not_lt_of_ge (hj.le i hi.lt))

theorem congr (h : IsFirstMin f n i) (hfg : ∀ j < n, f j = g j) : IsFirstMin g n i where
  lt := h.lt
  le j hj := by
    rw [← hfg i h.lt, ← hfg j hj]
    exact h.le j hj
  first j hj := by
    rw [← hfg i h.lt, ← hfg j (hj.trans h.lt)]
    exact h.first j hj

/-- Any other place has a larger value, or the same one and stands behind. -/
theorem beats (h : IsFirstMin f n i) (hj : j < n) (hne : j ≠ i) : f i < f j ∨ f i = f j ∧ i < j := by
  rcases lt_or_gt_of_ne hne with hlt | hlt
  · exact .inl (h.first j hlt)
  · rcases lt_or_eq_of_le (h.le j hj) with hf | hf
    · exact .inl hf
    · exact .inr ⟨hf, hlt⟩

/-- A property holds at the first least place iff every place without it is beaten by one
that has it. -/
theorem holds_iff (h : IsFirstMin f n i) (P : ℕ → Prop) :
    P i ↔ ∀ j < n, ¬ P j → ∃ k < n, P k ∧ (f k < f j ∨ f k = f j ∧ k < j) := by
  refine ⟨fun hP j hj hnot => ?_, fun hall => ?_⟩
  · exact ⟨i, h.lt, hP, h.beats hj fun heq => hnot (heq ▸ hP)⟩
  · by_contra hnot
    obtain ⟨k, hk, -, hlt | ⟨heq, hlt⟩⟩ := hall i h.lt hnot
    · exact absurd hlt (not_lt_of_ge (h.le k hk))
    · exact absurd (h.first k hlt) (not_lt_of_ge (le_of_eq heq))

/-- The first least place is below a bound iff some least place is. -/
theorem lt_iff (h : IsFirstMin f n i) (b : ℕ) : i < b ↔ ∃ k < n, k < b ∧ ∀ j < n, f k ≤ f j := by
  refine ⟨fun hb => ?_, fun ⟨k, hk, hb, hle⟩ => ?_⟩
  · exact ⟨i, h.lt, hb, h.le⟩
  · by_contra hnot
    exact absurd (h.first k (by omega)) (not_lt_of_ge (hle i h.lt))

/-- A program finds the place in two passes: the least value, then where it first stands. -/
theorem of_min? (f : ℕ → α) (hn : 0 < n) :
    ∃ m i, ((List.range n).map f).min? = some m ∧
      ((List.range n).map f).findIdx? (fun x => decide (x = m)) = some i ∧ IsFirstMin f n i := by
  have hne : (List.range n).map f ≠ [] := by
    simp only [ne_eq, List.map_eq_nil_iff, List.range_eq_nil]
    omega
  obtain ⟨m, hm⟩ := Option.isSome_iff_exists.mp (List.isSome_min?_of_ne_nil hne)
  obtain ⟨hmem, hle⟩ := List.min?_eq_some_iff.mp hm
  have hex : ∃ x ∈ (List.range n).map f, decide (x = m) = true := ⟨m, hmem, by simp⟩
  refine ⟨m, _, hm, List.findIdx?_eq_some_of_exists hex, ?_⟩
  obtain ⟨hlt, hat, hbefore⟩ :=
    List.findIdx?_eq_some_iff_getElem.mp (List.findIdx?_eq_some_of_exists hex)
  rw [List.length_map, List.length_range] at hlt
  simp only [List.getElem_map, List.getElem_range, decide_eq_true_eq] at hat hbefore
  have hleast : ∀ j < n, m ≤ f j := fun j hj => hle _ (List.mem_map.mpr ⟨j, List.mem_range.mpr hj, rfl⟩)
  exact
    { lt := hlt
      le := fun j hj => by
        rw [hat]
        exact hleast j hj
      first := fun j hj => by
        rw [hat]
        exact lt_of_le_of_ne (hleast j (hj.trans hlt)) (Ne.symm (hbefore j hj)) }

end IsFirstMin

/-- The sum of the `size` items of `data` from the one at `i` on. -/
def List.windowSum (data : List ℕ) (size i : ℕ) : ℕ := ((data.drop i).take size).sum
