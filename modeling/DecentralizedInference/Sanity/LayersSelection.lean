import DecentralizedInference.Lib.FirstMin
import DecentralizedInference.Spec.LayersSelection

/-! What `select_layers` computes: the two scans find the first and the last uncovered layer,
and the window it falls back on is the first one with the least sum. -/

namespace Dllm

variable {d : List ℕ} {first last layers : ℕ}

/-- `first` and `last` are the first and the last layer that nobody serves. -/
structure Uncovered (d : List ℕ) (first last : ℕ) : Prop where
  atFirst : d[first]? = some 0
  atLast : d[last]? = some 0
  between : ∀ l : ℕ, d[l]? = some 0 → first ≤ l ∧ l ≤ last

namespace Uncovered

theorem le (h : Uncovered d first last) : first ≤ last := (h.between first h.atFirst).2

theorem lt_length (h : Uncovered d first last) : last < d.length :=
  (List.getElem?_eq_some_iff.mp h.atLast).1

theorem unique {first' last' : ℕ} (h : Uncovered d first last) (h' : Uncovered d first' last') :
    first = first' ∧ last = last' := by
  have h1 := h.between _ h'.atFirst
  have h2 := h.between _ h'.atLast
  have h3 := h'.between _ h.atFirst
  have h4 := h'.between _ h.atLast
  omega

end Uncovered

theorem findIdx?_zero_iff {i : ℕ} :
    d.findIdx? (· = 0) = some i ↔ d[i]? = some 0 ∧ ∀ j < i, d[j]? ≠ some 0 := by
  rw [List.findIdx?_eq_some_iff_getElem]
  refine ⟨fun ⟨hlt, hz, hbefore⟩ => ?_, fun ⟨hz, hbefore⟩ => ?_⟩
  · refine ⟨List.getElem?_eq_some_iff.mpr ⟨hlt, by simpa using hz⟩, ?_⟩
    intro j hj hjz
    obtain ⟨hjlt, hjz⟩ := List.getElem?_eq_some_iff.mp hjz
    exact hbefore j hj (by simpa using hjz)
  · obtain ⟨hlt, hz⟩ := List.getElem?_eq_some_iff.mp hz
    refine ⟨hlt, by simpa using hz, ?_⟩
    intro j hj hjz
    exact hbefore j hj (List.getElem?_eq_some_iff.mpr ⟨hj.trans hlt, by simpa using hjz⟩)

theorem findIdx?_zero_none_iff : d.findIdx? (· = 0) = none ↔ ∀ l : ℕ, d[l]? ≠ some 0 := by
  rw [List.findIdx?_eq_none_iff]
  refine ⟨fun h l hl => ?_, fun h c hc => ?_⟩
  · have := h 0 (List.mem_of_getElem? hl)
    simp at this
  · obtain ⟨l, hl⟩ := List.getElem?_of_mem hc
    rw [decide_eq_false_iff_not]
    rintro rfl
    exact h l hl

theorem getElem?_reverse_zero_iff {i : ℕ} :
    d.reverse[i]? = some 0 ↔ i < d.length ∧ d[d.length - i - 1]? = some 0 := by
  refine ⟨fun h => ?_, fun ⟨hlt, h⟩ => ?_⟩
  · have hlt : i < d.length := by simpa using (List.getElem?_eq_some_iff.mp h).1
    rw [List.getElem?_reverse hlt] at h
    exact ⟨hlt, by rwa [Nat.sub_right_comm] at h⟩
  · rw [List.getElem?_reverse hlt, Nat.sub_right_comm]
    exact h

/-- The two scans together find the first and the last uncovered layer. -/
theorem scans_iff {start stop : ℕ} :
    (d.findIdx? (· = 0) = some start ∧ d.reverse.findIdx? (· = 0) = some stop) ↔
      stop < d.length ∧ Uncovered d start (d.length - stop - 1) := by
  rw [findIdx?_zero_iff, findIdx?_zero_iff, getElem?_reverse_zero_iff]
  refine ⟨fun ⟨⟨hs, hbefore⟩, ⟨hlt, he⟩, hbehind⟩ => ?_, fun ⟨hlt, h⟩ => ?_⟩
  · refine ⟨hlt, hs, he, ?_⟩
    intro l hl
    have hll := (List.getElem?_eq_some_iff.mp hl).1
    refine ⟨?_, ?_⟩
    · by_contra hnot
      exact hbefore l (by omega) hl
    · by_contra hnot
      apply hbehind (d.length - l - 1) (by omega)
      rw [getElem?_reverse_zero_iff]
      refine ⟨by omega, ?_⟩
      rwa [show d.length - (d.length - l - 1) - 1 = l by omega]
  · refine ⟨⟨h.atFirst, ?_⟩, ⟨hlt, h.atLast⟩, ?_⟩
    · intro j hj hjz
      have := (h.between j hjz).1
      omega
    · intro j hj hjz
      obtain ⟨hjlt, hjz⟩ := getElem?_reverse_zero_iff.mp hjz
      have := (h.between _ hjz).2
      omega

theorem Uncovered.scans (h : Uncovered d first last) :
    d.findIdx? (· = 0) = some first ∧ d.reverse.findIdx? (· = 0) = some (d.length - last - 1) := by
  have hlast := h.lt_length
  refine scans_iff.mpr ⟨by omega, ?_⟩
  rwa [show d.length - (d.length - last - 1) - 1 = last by omega]

/-- A distribution has a first and a last uncovered layer, or it has none. -/
theorem uncovered_cases (d : List ℕ) :
    (∃ first last, Uncovered d first last) ∨ (∀ l : ℕ, d[l]? ≠ some 0) := by
  cases hs : d.findIdx? (· = 0) with
  | none => exact .inr (findIdx?_zero_none_iff.mp hs)
  | some start =>
    cases he : d.reverse.findIdx? (· = 0) with
    | some stop => exact .inl ⟨_, _, (scans_iff.mp ⟨hs, he⟩).2⟩
    | none =>
      refine .inr fun l hl => ?_
      have hll := (List.getElem?_eq_some_iff.mp hl).1
      apply findIdx?_zero_none_iff.mp he (d.length - l - 1)
      rw [getElem?_reverse_zero_iff]
      refine ⟨by omega, ?_⟩
      rwa [show d.length - (d.length - l - 1) - 1 = l by omega]

/-- The span from the first to the last uncovered layer, as it is computed in 32 bits. -/
def span32 (first last : ℕ) : ℕ := wrapAdd 32 (wrapSub 32 (asU32 last) (asU32 first)) 1

theorem span32_lt (first last : ℕ) : span32 first last < 2 ^ 32 := Nat.mod_lt _ (by decide)

theorem asU32_of_lt {n : ℕ} (h : n < 2 ^ 32) : asU32 n = n := Nat.mod_eq_of_lt h

theorem asU32_le (n : ℕ) : asU32 n ≤ n := Nat.mod_le _ _

/-- While the subtraction does not underflow and the span fits, it is the span. -/
theorem span32_eq (hle : first ≤ last) (hsub : asU32 first ≤ asU32 last)
    (hfit : last - first + 1 < 2 ^ 32) : span32 first last = last - first + 1 := by
  have hsame : asU32 last = asU32 first + (last - first) := by
    unfold asU32 at *
    omega
  rw [span32, wrapSub_of_le hsub, hsame, Nat.add_sub_cancel_left, wrapAdd_of_lt hfit]

theorem minLayers_eq (first last : ℕ) (h : last < d.length) :
    minLayers d first (d.length - last - 1) = span32 first last := by
  rw [minLayers, span32, show d.length - (d.length - last - 1) - 1 = last by omega]

theorem selectLayers_of_uncovered (h : Uncovered d first last) (layers : UInt32) :
    selectLayers d layers =
      if span32 first last > layers.toNat then .ok (.notEnoughLayers (span32 first last))
      else selectRange d layers := by
  have hlast := h.lt_length
  obtain ⟨hs, he⟩ := h.scans
  unfold selectLayers
  simp only [hs, he, minLayers_eq first last hlast]

theorem selectLayers_of_covered (h : ∀ l : ℕ, d[l]? ≠ some 0) (layers : UInt32) :
    selectLayers d layers = selectRange d layers := by
  unfold selectLayers
  simp only [findIdx?_zero_none_iff.mpr h]

theorem selectRange_whole {layers : UInt32} (h : asU32 d.length ≤ layers.toNat) :
    selectRange d layers = .ok (.enoughLayers ⟨0, asU32 d.length⟩) := if_pos h

/-- No layers to select from a model that has some: the assertion on the window size. -/
theorem selectRange_zero {layers : UInt32} (h0 : layers.toNat = 0) (h : 0 < asU32 d.length) :
    selectRange d layers = .error .assertFailed := by
  unfold selectRange sumInWindow
  rw [if_neg (by omega), if_pos (by omega)]
  rfl

theorem selectRange_window {layers : UInt32} (h0 : 0 < layers.toNat) (h : layers.toNat < asU32 d.length) :
    ∃ i, IsFirstMin (sumFrom d layers.toNat) (d.length - layers.toNat + 1) i ∧
      selectRange d layers = .ok (.enoughLayers ⟨asU32 i, wrapAdd 32 (asU32 i) layers.toNat⟩) := by
  have hlen := asU32_le d.length
  obtain ⟨m, i, hm, hi, hmin⟩ :=
    IsFirstMin.of_min? (sumFrom d layers.toNat) (Nat.succ_pos (d.length - layers.toNat))
  refine ⟨i, hmin, ?_⟩
  have hsum : sumInWindow d layers.toNat =
      .ok ((List.range (d.length - layers.toNat + 1)).map (sumFrom d layers.toNat)) := by
    unfold sumInWindow
    rw [if_neg (by omega), if_neg (by omega)]
  unfold selectRange
  rw [if_neg (by omega), hsum]
  simp only [bind, Except.bind, hm, hi]

/-- The inner loop adds up the window, in 64 bits. -/
theorem sumFrom_eq (d : List ℕ) (size i : ℕ) : sumFrom d size i = d.windowSum size i % 2 ^ 64 := by
  induction size with
  | zero => simp [sumFrom, List.windowSum]
  | succ size ih =>
    unfold sumFrom List.windowSum at *
    rw [List.range_succ, List.foldl_append, ih, List.take_add_one, List.sum_append, List.getElem?_drop]
    cases h : d[i + size]? with
    | none => simp [h]
    | some c => simp [h, wrapAdd]

theorem sumFrom_of_lt {size i : ℕ} (h : d.windowSum size i < 2 ^ 64) :
    sumFrom d size i = d.windowSum size i := by
  rw [sumFrom_eq, Nat.mod_eq_of_lt h]

end Dllm
