import DecentralizedInference.Sanity.LayersSelection

/-! When the proposed layers complete the model, and when they are the best ones. -/

namespace Dllm

variable {d : List ℕ} {first last : ℕ}

/-- The range lies in the model and holds every layer that nobody serves. -/
structure CoversGaps (d : List ℕ) (r : Range) : Prop where
  ordered : r.start ≤ r.stop
  inside : r.stop ≤ d.length
  covers : ∀ l : ℕ, d[l]? = some 0 → r.contains l = true

/-- A node that follows the proposal leaves no layer uncovered. -/
def LayerSelectionRes.Completes (d : List ℕ) : LayerSelectionRes → Prop
  | .enoughLayers ranges => CoversGaps d ranges
  | .notEnoughLayers _ => True

/-- The range that `select_layers` names for the window that starts at `i`. -/
def rangeAt (layers : UInt32) (i : ℕ) : Range := ⟨asU32 i, wrapAdd 32 (asU32 i) layers.toNat⟩

/-- The uncovered layers span more than `layers`; or `layers` are enough for the whole model;
or each window that misses an uncovered layer has a larger sum than one that has them all, or
the same sum and stands behind it. Lengths and starts are taken in 32 bits. -/
def GapsDecide (d : List ℕ) (layers : UInt32) : Prop :=
  (∃ first last, Uncovered d first last ∧ layers.toNat < span32 first last) ∨
  (asU32 d.length ≤ layers.toNat ∧ ∀ l : ℕ, d[l]? = some 0 → l < asU32 d.length) ∨
  (0 < layers.toNat ∧ layers.toNat < asU32 d.length ∧
    ∀ j < d.length - layers.toNat + 1, ¬ CoversGaps d (rangeAt layers j) →
      ∃ i < d.length - layers.toNat + 1, CoversGaps d (rangeAt layers i) ∧
        (sumFrom d layers.toNat i < sumFrom d layers.toNat j ∨
          sumFrom d layers.toNat i = sumFrom d layers.toNat j ∧ i < j))

theorem coversGaps_whole_iff :
    CoversGaps d ⟨0, asU32 d.length⟩ ↔ ∀ l : ℕ, d[l]? = some 0 → l < asU32 d.length := by
  refine ⟨fun h l hl => ?_, fun h => ?_⟩
  · exact ((Range.contains_iff _ _).mp (h.covers l hl)).2
  · exact ⟨Nat.zero_le _, asU32_le _, fun l hl => (Range.contains_iff _ _).mpr ⟨Nat.zero_le _, h l hl⟩⟩

/-- The part behind the check: it completes the model exactly under the last two conditions. -/
theorem selectRange_completes_iff (d : List ℕ) (layers : UInt32) :
    (∃ res, selectRange d layers = .ok res ∧ res.Completes d) ↔
      (asU32 d.length ≤ layers.toNat ∧ ∀ l : ℕ, d[l]? = some 0 → l < asU32 d.length) ∨
      (0 < layers.toNat ∧ layers.toNat < asU32 d.length ∧
        ∀ j < d.length - layers.toNat + 1, ¬ CoversGaps d (rangeAt layers j) →
          ∃ i < d.length - layers.toNat + 1, CoversGaps d (rangeAt layers i) ∧
            (sumFrom d layers.toNat i < sumFrom d layers.toNat j ∨
              sumFrom d layers.toNat i = sumFrom d layers.toNat j ∧ i < j)) := by
  by_cases hwhole : asU32 d.length ≤ layers.toNat
  · simp [selectRange_whole hwhole, LayerSelectionRes.Completes, coversGaps_whole_iff, hwhole,
      Nat.not_lt.mpr hwhole]
  · rcases Nat.eq_zero_or_pos layers.toNat with h0 | h0
    · have hassert : selectRange d layers = .error .assertFailed := selectRange_zero h0 (by omega)
      refine iff_of_false (by simp [hassert]) ?_
      rintro (⟨h, -⟩ | ⟨h, -⟩)
      · exact hwhole h
      · omega
    · obtain ⟨i, hi, hres⟩ := selectRange_window h0 (Nat.lt_of_not_le hwhole)
      rw [hres]
      rw [← hi.holds_iff fun i => CoversGaps d (rangeAt layers i)]
      simp [LayerSelectionRes.Completes, hwhole, h0, Nat.lt_of_not_le hwhole, rangeAt]

/-- A suggestion completes the model, and no assertion fails on the way to it, exactly when
the sums of the windows decide for the uncovered layers. -/
theorem suggestion_completes_iff (d : List ℕ) (layers : UInt32) :
    (∃ res, selectLayers d layers = .ok res ∧ res.Completes d) ↔ GapsDecide d layers := by
  unfold GapsDecide
  rcases uncovered_cases d with ⟨first, last, h⟩ | h
  · rw [selectLayers_of_uncovered h]
    by_cases hspan : span32 first last > layers.toNat
    · rw [if_pos hspan]
      simp only [Except.ok.injEq, exists_eq_left', LayerSelectionRes.Completes, true_iff]
      exact .inl ⟨first, last, h, hspan⟩
    · rw [if_neg hspan, selectRange_completes_iff]
      have hnot : ¬ ∃ first last, Uncovered d first last ∧ layers.toNat < span32 first last := by
        rintro ⟨first', last', h', hlt⟩
        obtain ⟨rfl, rfl⟩ := h.unique h'
        exact hspan hlt
      simp only [hnot, false_or]
  · rw [selectLayers_of_covered h, selectRange_completes_iff]
    have hnot : ¬ ∃ first last, Uncovered d first last ∧ layers.toNat < span32 first last := by
      rintro ⟨first, last, h', -⟩
      exact h first h'.atFirst
    simp only [hnot, false_or]

/-- Two uncovered layers on both sides of a popular one: the cheapest window misses the first. -/
theorem suggestion_misses_gaps :
    ¬ ∀ (d : List ℕ) (layers : UInt32), ∃ res, selectLayers d layers = .ok res ∧ res.Completes d := by
  intro h
  obtain ⟨res, hres, hcomp⟩ := h [0, 9, 0, 1, 1, 1] 3
  have heval : selectLayers [0, 9, 0, 1, 1, 1] 3 = .ok (.enoughLayers ⟨2, 5⟩) := by decide
  obtain rfl : LayerSelectionRes.enoughLayers ⟨2, 5⟩ = res := Except.ok.inj (heval.symm.trans hres)
  have := hcomp.covers 0 rfl
  simp at this

/-- What a selection promises: it refuses exactly when the uncovered layers span more than
`layers`, and names the span; else it gives the whole model, or the first one of the windows
with the least sum. -/
structure SelectsBest (d : List ℕ) (layers : UInt32) : Prop where
  refuses : ∀ m, selectLayers d layers = .ok (.notEnoughLayers m) ↔
    ∃ first last, Uncovered d first last ∧ m = last - first + 1 ∧ layers.toNat < m
  spanInside : ∀ first last, Uncovered d first last →
    1 ≤ last - first + 1 ∧ last - first + 1 ≤ d.length
  whole : (∀ first last, Uncovered d first last → last - first + 1 ≤ layers.toNat) →
    d.length ≤ layers.toNat → selectLayers d layers = .ok (.enoughLayers ⟨0, d.length⟩)
  window : (∀ first last, Uncovered d first last → last - first + 1 ≤ layers.toNat) →
    layers.toNat < d.length →
      ∃ i, IsFirstMin (d.windowSum layers.toNat) (d.length - layers.toNat + 1) i ∧
        selectLayers d layers = .ok (.enoughLayers ⟨i, i + layers.toNat⟩)
  noUnderflow : ∀ start stop, d.findIdx? (· = 0) = some start →
    d.reverse.findIdx? (· = 0) = some stop →
      stop + 1 ≤ d.length ∧ asU32 start ≤ asU32 (d.length - stop - 1)

/-- The subtraction of the first uncovered layer from the last does not underflow, and the
span fits. -/
def SpansFit (d : List ℕ) : Prop :=
  ∀ first last, Uncovered d first last → asU32 first ≤ asU32 last ∧ last - first + 1 < 2 ^ 32

/-- `layers` is the number of layers as it is cast, and the window at 0 has the least sum; or
it is less, and a window with the least sum ends before `2 ^ 32`. -/
def LeastFits (d : List ℕ) (layers : UInt32) : Prop :=
  (layers.toNat = asU32 d.length ∧
    ∀ j < d.length - layers.toNat + 1, d.windowSum layers.toNat 0 ≤ d.windowSum layers.toNat j) ∨
  (layers.toNat < asU32 d.length ∧ ∃ i < d.length - layers.toNat + 1, i < 2 ^ 32 - layers.toNat ∧
    ∀ j < d.length - layers.toNat + 1, d.windowSum layers.toNat i ≤ d.windowSum layers.toNat j)

/-- The distribution has fewer than `2 ^ 32` layers; or the span of the uncovered ones is computed
without a wrap, and it is more than `layers` or the window that is due is not cut by a cast. -/
def CastsHarmless (d : List ℕ) (layers : UInt32) : Prop :=
  d.length < 2 ^ 32 ∨
  (SpansFit d ∧ ((∃ first last, Uncovered d first last ∧ layers.toNat < last - first + 1) ∨
    LeastFits d layers))

theorem spansFit_of_lt (hn : d.length < 2 ^ 32) : SpansFit d := by
  intro first last h
  have hle := h.le
  have hlt := h.lt_length
  rw [asU32_of_lt (by omega), asU32_of_lt (by omega)]
  omega

theorem SpansFit.span32_eq (hs : SpansFit d) (h : Uncovered d first last) :
    span32 first last = last - first + 1 :=
  Dllm.span32_eq h.le (hs first last h).1 (hs first last h).2

theorem selectRange_ne_notEnough (d : List ℕ) (layers : UInt32) (m : ℕ) :
    selectRange d layers ≠ .ok (.notEnoughLayers m) := by
  by_cases hwhole : asU32 d.length ≤ layers.toNat
  · simp [selectRange_whole hwhole]
  · rcases Nat.eq_zero_or_pos layers.toNat with h0 | h0
    · have hassert : selectRange d layers = .error .assertFailed := selectRange_zero h0 (by omega)
      simp [hassert]
    · obtain ⟨i, -, hres⟩ := selectRange_window h0 (Nat.lt_of_not_le hwhole)
      simp [hres]

/-- The refusal names the span as it is computed. -/
theorem refuses_iff (d : List ℕ) (layers : UInt32) (m : ℕ) :
    selectLayers d layers = .ok (.notEnoughLayers m) ↔
      ∃ first last, Uncovered d first last ∧ m = span32 first last ∧ layers.toNat < m := by
  rcases uncovered_cases d with ⟨first, last, h⟩ | h
  · rw [selectLayers_of_uncovered h]
    refine ⟨fun hres => ?_, fun hrefused => ?_⟩
    · split at hres
      · rename_i hspan
        obtain rfl : span32 first last = m := by simpa using hres
        exact ⟨first, last, h, rfl, hspan⟩
      · exact absurd hres (selectRange_ne_notEnough d layers m)
    · obtain ⟨first', last', h', rfl, hlt⟩ := hrefused
      obtain ⟨rfl, rfl⟩ := h.unique h'
      rw [if_pos hlt]
  · rw [selectLayers_of_covered h]
    refine iff_of_false (selectRange_ne_notEnough d layers m) ?_
    rintro ⟨first, last, h', -⟩
    exact h first h'.atFirst

/-- Where the layers are enough, what is left is the choice of the range. -/
theorem selectLayers_of_enough {layers : UInt32} (hs : SpansFit d)
    (h : ∀ first last, Uncovered d first last → last - first + 1 ≤ layers.toNat) :
    selectLayers d layers = selectRange d layers := by
  rcases uncovered_cases d with ⟨first, last, hu⟩ | hc
  · have hle := h first last hu
    rw [selectLayers_of_uncovered hu, hs.span32_eq hu, if_neg (by omega)]
  · exact selectLayers_of_covered hc layers

/-- The range that is chosen is the first window with the least sum, if no cast cuts it. -/
theorem selectRange_names_iff {layers : UInt32} {i : ℕ} (h0 : 0 < layers.toNat)
    (hfit : ∀ i, i + layers.toNat ≤ d.length → d.windowSum layers.toNat i < 2 ^ 64)
    (hlt : layers.toNat < d.length)
    (hi : IsFirstMin (d.windowSum layers.toNat) (d.length - layers.toNat + 1) i) :
    selectRange d layers = .ok (.enoughLayers ⟨i, i + layers.toNat⟩) ↔
      (layers.toNat = asU32 d.length ∧ i < 1) ∨
      (layers.toNat < asU32 d.length ∧ i < 2 ^ 32 - layers.toNat) := by
  by_cases hwhole : asU32 d.length ≤ layers.toNat
  · rw [selectRange_whole hwhole]
    simp only [Except.ok.injEq, LayerSelectionRes.enoughLayers.injEq, Range.mk.injEq]
    omega
  · obtain ⟨k, hk, hres⟩ := selectRange_window h0 (Nat.lt_of_not_le hwhole)
    have hki : k = i := by
      apply IsFirstMin.unique (hk.congr fun j hj => ?_) hi
      exact sumFrom_of_lt (hfit j (by omega))
    subst hki
    rw [hres]
    simp only [Except.ok.injEq, LayerSelectionRes.enoughLayers.injEq, Range.mk.injEq]
    have hl := layers.toNat_lt
    refine ⟨fun ⟨hstart, hstop⟩ => ?_, fun h => ?_⟩
    · have hlt32 := Nat.mod_lt (asU32 k + layers.toNat) (show 2 ^ 32 > 0 by decide)
      unfold wrapAdd at hstop
      omega
    · have hk32 : asU32 k = k := asU32_of_lt (by omega)
      rw [hk32, wrapAdd_of_lt (by omega)]
      exact ⟨rfl, rfl⟩

theorem SelectsBest.spansFit {layers : UInt32} (h : SelectsBest d layers) : SpansFit d := by
  intro first last hu
  have hlt := hu.lt_length
  obtain ⟨hs, he⟩ := hu.scans
  have hsub := (h.noUnderflow _ _ hs he).2
  rw [show d.length - (d.length - last - 1) - 1 = last by omega] at hsub
  refine ⟨hsub, ?_⟩
  by_contra hbig
  have hl := layers.toNat_lt
  obtain ⟨first', last', -, hm, -⟩ := (refuses_iff d layers _).mp
    ((h.refuses (last - first + 1)).mpr ⟨first, last, hu, rfl, by omega⟩)
  have := span32_lt first' last'
  omega

/-- Where the layers are enough but not all, the answer is the one promised iff the casts
do not cut it. -/
theorem selectLayers_names_iff {layers : UInt32} {i : ℕ} (h1 : 1 ≤ layers.toNat)
    (hfit : ∀ i, i + layers.toNat ≤ d.length → d.windowSum layers.toNat i < 2 ^ 64) (hs : SpansFit d)
    (henough : ∀ first last, Uncovered d first last → last - first + 1 ≤ layers.toNat)
    (hlt : layers.toNat < d.length)
    (hi : IsFirstMin (d.windowSum layers.toNat) (d.length - layers.toNat + 1) i) :
    selectLayers d layers = .ok (.enoughLayers ⟨i, i + layers.toNat⟩) ↔ LeastFits d layers := by
  rw [selectLayers_of_enough hs henough, selectRange_names_iff h1 hfit hlt hi, hi.lt_iff, hi.lt_iff]
  simp [LeastFits]

theorem leastFits_of_lt {layers : UInt32} (hn : d.length < 2 ^ 32) (hlt : layers.toNat < d.length) :
    LeastFits d layers := by
  obtain ⟨-, i, -, -, hi⟩ :=
    IsFirstMin.of_min? (d.windowSum layers.toNat) (Nat.succ_pos (d.length - layers.toNat))
  have hilt := hi.lt
  have hl := layers.toNat_lt
  refine .inr ⟨by rwa [asU32_of_lt hn], i, hilt, by omega, hi.le⟩

/-- Where the casts to 32 bits do no harm, the selection is the best one, and its threshold the
span. -/
theorem CastsHarmless.selectsBest {layers : UInt32} (h : CastsHarmless d layers) (h1 : 1 ≤ layers.toNat)
    (hfit : ∀ i, i + layers.toNat ≤ d.length → d.windowSum layers.toNat i < 2 ^ 64) : SelectsBest d layers := by
  have hl := layers.toNat_lt
  have hs : SpansFit d := h.elim spansFit_of_lt And.left
  have hleast : (∀ first last, Uncovered d first last → last - first + 1 ≤ layers.toNat) →
      layers.toNat < d.length → LeastFits d layers := by
    intro henough hlt
    rcases h with hn | ⟨-, ⟨first, last, hu, hspan⟩ | hfits⟩
    · exact leastFits_of_lt hn hlt
    · exact absurd (henough first last hu) (by omega)
    · exact hfits
  exact
    { refuses := fun m => by
        rw [refuses_iff]
        refine ⟨fun hrefused => ?_, fun hrefused => ?_⟩
        · obtain ⟨first, last, hu, rfl, hlt⟩ := hrefused
          exact ⟨first, last, hu, hs.span32_eq hu, hlt⟩
        · obtain ⟨first, last, hu, rfl, hlt⟩ := hrefused
          exact ⟨first, last, hu, (hs.span32_eq hu).symm, hlt⟩
      spanInside := fun first last hu => by
        have := hu.lt_length
        omega
      whole := fun henough hle => by
        have hn : asU32 d.length = d.length := asU32_of_lt (by omega)
        rw [selectLayers_of_enough hs henough, selectRange_whole (by omega), hn]
      window := fun henough hlt => by
        obtain ⟨-, i, -, -, hi⟩ :=
          IsFirstMin.of_min? (d.windowSum layers.toNat) (Nat.succ_pos (d.length - layers.toNat))
        exact ⟨i, hi, (selectLayers_names_iff h1 hfit hs henough hlt hi).mpr (hleast henough hlt)⟩
      noUnderflow := fun start stop hstart hstop => by
        obtain ⟨hlt, hu⟩ := scans_iff.mp ⟨hstart, hstop⟩
        exact ⟨hlt, (hs _ _ hu).1⟩ }

/-- Whatever its length, the selection for a distribution is the best one exactly where the casts do
no harm. -/
theorem selectsBest_iff (d : List ℕ) (layers : UInt32) (h1 : 1 ≤ layers.toNat)
    (hfit : ∀ i, i + layers.toNat ≤ d.length → d.windowSum layers.toNat i < 2 ^ 64) :
    SelectsBest d layers ↔ CastsHarmless d layers := by
  have hl := layers.toNat_lt
  refine ⟨fun h => ?_, fun h => h.selectsBest h1 hfit⟩
  by_cases hn : d.length < 2 ^ 32
  · exact .inl hn
  · refine .inr ⟨h.spansFit, ?_⟩
    by_cases hrefuse : ∃ first last, Uncovered d first last ∧ layers.toNat < last - first + 1
    · exact .inl hrefuse
    · have henough : ∀ first last, Uncovered d first last → last - first + 1 ≤ layers.toNat :=
        fun first last hu => Nat.le_of_not_lt fun hlt => hrefuse ⟨first, last, hu, hlt⟩
      obtain ⟨i, hi, hres⟩ := h.window henough (by omega)
      exact .inr ((selectLayers_names_iff h1 hfit h.spansFit henough (by omega) hi).mp hres)

/-- The selection for a model of fewer than `2 ^ 32` layers is the best one, and its threshold the
span. -/
theorem selection_best (d : List ℕ) (layers : UInt32) (hlength : d.length < 2 ^ 32) (h1 : 1 ≤ layers.toNat)
    (hfit : ∀ i, i + layers.toNat ≤ d.length → d.windowSum layers.toNat i < 2 ^ 64) : SelectsBest d layers := by
  have hharmless : CastsHarmless d layers := .inl hlength
  exact hharmless.selectsBest h1 hfit

/-- A distribution in which the two uncovered layers span three: two layers are refused. -/
theorem selection_best_two_gaps : SelectsBest [1, 0, 2, 0, 1] 2 :=
  selection_best [1, 0, 2, 0, 1] 2 (by decide) (by decide) (by
    intro i hi
    have hi : i = 0 ∨ i = 1 ∨ i = 2 ∨ i = 3 := by
      have hle : i + 2 ≤ 5 := hi
      omega
    rcases hi with rfl | rfl | rfl | rfl <;> decide)

/-- A model whose layers are all served once and whose length is cast to 0: an empty range
counts as the whole model. -/
theorem not_selectsBest_of_asU32 {n : ℕ} (hn : 1 < n) (h0 : asU32 n = 0) :
    ¬ SelectsBest (List.replicate n 1) 1 := by
  intro h
  have hserved : ∀ l : ℕ, (List.replicate n 1)[l]? ≠ some 0 := by
    intro l hl
    have := List.eq_of_mem_replicate (List.mem_of_getElem? hl)
    omega
  have hlen : (List.replicate n 1).length = n := List.length_replicate
  obtain ⟨i, -, hres⟩ := h.window (fun first last hu => absurd hu.atFirst (hserved first))
    (by rw [hlen]; exact hn)
  rw [selectLayers_of_covered hserved, selectRange_whole (by rw [hlen, h0]; exact Nat.zero_le _), hlen,
    h0] at hres
  simp at hres

theorem windowSum_replicate (n size i : ℕ) : (List.replicate n 1).windowSum size i ≤ size := by
  unfold List.windowSum
  rw [List.drop_replicate, List.take_replicate, List.sum_replicate_nat]
  omega

/-- A model with `2 ^ 32` layers. -/
theorem selection_cuts_long_model :
    ¬ ∀ (d : List ℕ) (layers : UInt32), 1 ≤ layers.toNat →
      (∀ i, i + layers.toNat ≤ d.length → d.windowSum layers.toNat i < 2 ^ 64) → SelectsBest d layers := by
  intro h
  refine not_selectsBest_of_asU32 (n := 2 ^ 32) (by decide) (by decide) (h _ 1 (by decide) ?_)
  intro i _
  exact lt_of_le_of_lt (windowSum_replicate _ _ _) (by decide)

end Dllm
