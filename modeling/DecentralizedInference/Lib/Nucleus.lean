import Mathlib.Algebra.BigOperators.Group.Finset.Piecewise
import Mathlib.Algebra.Order.BigOperators.Group.Finset
import Mathlib.Algebra.Order.BigOperators.Group.List
import Mathlib.Data.Finset.Max

/-! The heaviest of finitely many weighted things, and the shortest beginnings of a list of them that
weigh enough, where weights are added up in any way. In exact arithmetic, such a beginning of the list
from the heaviest on is a smallest set that weighs enough. -/

variable {ι F : Type*}

/-- The heaviest of all: nothing outside weighs more than what is inside. -/
structure Heaviest [LinearOrder F] (w : ι → F) (all top : Finset ι) : Prop where
  subset : top ⊆ all
  le : ∀ i ∈ top, ∀ j ∈ all, j ∉ top → w j ≤ w i

/-- The weights of things, added up from the left. -/
def addUp (add : F → F → F) (w : ι → F) (sum : F) (is : List ι) : F := is.foldl (fun sum i => add sum (w i)) sum

/-- Taking things as long as the sum of what has been taken is not enough. -/
def takeUntil (add : F → F → F) (enough : F → Bool) (w : ι → F) : F → List ι → List ι
  | _, [] => []
  | sum, i :: is => if enough sum then [] else i :: takeUntil add enough w (add sum (w i)) is

/-- The shortest beginning that adds up to enough, or all things where none does. -/
structure IsShortest (add : F → F → F) (enough : F → Bool) (w : ι → F) (sum : F) (is taken : List ι) : Prop where
  begins : taken <+: is
  short : ∀ before i, before ++ [i] <+: taken → enough (addUp add w sum before) = false
  reaches : taken ≠ is → enough (addUp add w sum taken) = true

section TakeUntil

variable {add : F → F → F} {enough : F → Bool} {w : ι → F} {sum : F} {is : List ι}

theorem takeUntil_isShortest : IsShortest add enough w sum is (takeUntil add enough w sum is) := by
  induction is generalizing sum with
  | nil => exact ⟨List.prefix_rfl, fun before i h => by simp [takeUntil] at h, fun h => absurd rfl h⟩
  | cons i is ih =>
    unfold takeUntil
    split
    case isTrue henough => exact ⟨List.nil_prefix, fun before j h => by simp at h, fun _ => henough⟩
    case isFalse hnot =>
      refine ⟨List.cons_prefix_cons.mpr ⟨rfl, ih.begins⟩, fun before j h => ?_, fun hne => ?_⟩
      · cases before with
        | nil => exact Bool.eq_false_of_not_eq_true hnot
        | cons b before =>
          obtain ⟨rfl, h⟩ := List.cons_prefix_cons.mp h
          exact ih.short before j h
      · exact ih.reaches fun heq => hne (congrArg _ heq)

/-- Things that are weighed as others that stand for them. -/
theorem takeUntil_map {κ : Type*} {e : κ → ι} {w' : κ → F} {js : List κ} (h : ∀ j ∈ js, w' j = w (e j)) :
    takeUntil add enough w sum (js.map e) = (takeUntil add enough w' sum js).map e := by
  induction js generalizing sum with
  | nil => rfl
  | cons j js ih =>
    simp only [List.map_cons, takeUntil]
    split
    · rfl
    · rw [List.map_cons, h j List.mem_cons_self, ih fun j hj => h j (List.mem_cons_of_mem _ hj)]

end TakeUntil

section Exact

variable [AddCommMonoid F] [LinearOrder F]

/-- A smallest set that reaches the weight `p`, of the heaviest; or all of them, where they do not reach it. -/
structure IsNucleus (w : ι → F) (all : Finset ι) (p : F) (nucleus : Finset ι) : Prop extends Heaviest w all nucleus where
  reaches : p ≤ ∑ i ∈ all, w i → p ≤ ∑ i ∈ nucleus, w i
  smallest : ∀ s ⊆ all, p ≤ ∑ i ∈ s, w i → nucleus.card ≤ s.card
  exhausts : ∑ i ∈ all, w i < p → nucleus = all

variable [IsOrderedAddMonoid F] [DecidableEq ι] {w : ι → F} {all top s : Finset ι} {p : F} {is taken : List ι}

/-- No other set of at most as many things weighs more. -/
theorem Heaviest.sum_le (h : Heaviest w all top) (hw : ∀ i ∈ all, 0 ≤ w i) (hs : s ⊆ all) (hcard : s.card ≤ top.card) :
    ∑ i ∈ s, w i ≤ ∑ i ∈ top, w i := by
  have hout : (s \ top).card ≤ (top \ s).card := by
    have h₁ := Finset.card_sdiff_add_card_inter s top
    have h₂ := Finset.card_sdiff_add_card_inter top s
    rw [Finset.inter_comm] at h₂
    omega
  have hexchange : ∑ i ∈ s \ top, w i ≤ ∑ i ∈ top \ s, w i := by
    rcases (top \ s).eq_empty_or_nonempty with hempty | hnonempty
    · rw [hempty, Finset.card_empty, Nat.le_zero, Finset.card_eq_zero] at hout
      rw [hout, hempty]
    · -- the lightest of those that only the top has bounds both sides
      obtain ⟨l, hl, hmin⟩ := Finset.exists_min_image (top \ s) w hnonempty
      obtain ⟨hltop, hls⟩ := Finset.mem_sdiff.mp hl
      have hle : ∀ j ∈ s \ top, w j ≤ w l := by
        intro j hj
        obtain ⟨hjs, hjtop⟩ := Finset.mem_sdiff.mp hj
        exact h.le l hltop j (hs hjs) hjtop
      calc ∑ i ∈ s \ top, w i ≤ (s \ top).card • w l := Finset.sum_le_card_nsmul _ _ _ hle
        _ ≤ (top \ s).card • w l := nsmul_le_nsmul_left (hw l (h.subset hltop)) hout
        _ ≤ ∑ i ∈ top \ s, w i := Finset.card_nsmul_le_sum _ _ _ hmin
  calc ∑ i ∈ s, w i = ∑ i ∈ s ∩ top, w i + ∑ i ∈ s \ top, w i := (Finset.sum_inter_add_sum_sdiff s top w).symm
    _ ≤ ∑ i ∈ top ∩ s, w i + ∑ i ∈ top \ s, w i := by
      rw [Finset.inter_comm]
      exact add_le_add_right hexchange _
    _ = ∑ i ∈ top, w i := Finset.sum_inter_add_sum_sdiff top s w

omit [AddCommMonoid F] [IsOrderedAddMonoid F] in
/-- The first things of a list from the heaviest on. -/
theorem heaviest_of_sorted {is js : List ι} (h : (is ++ js).Pairwise fun i j => w j ≤ w i) :
    Heaviest w (is ++ js).toFinset is.toFinset := by
  refine ⟨fun i hi => by simp_all, fun i hi j hj hout => ?_⟩
  rw [List.mem_toFinset] at hi hj hout
  have hjs : j ∈ js := (List.mem_append.mp hj).resolve_left hout
  exact (List.pairwise_append.mp h).2.2 i hi j hjs

omit [LinearOrder F] [IsOrderedAddMonoid F] [DecidableEq ι] in
theorem addUp_eq_sum (w : ι → F) (sum : F) (is : List ι) : addUp (· + ·) w sum is = sum + (is.map w).sum := by
  unfold addUp
  induction is generalizing sum with
  | nil => simp
  | cons i is ih => rw [List.foldl_cons, ih, List.map_cons, List.sum_cons, add_assoc]

/-- What is taken from the heaviest on is a smallest set that reaches the weight. -/
theorem IsShortest.isNucleus (h : IsShortest (· + ·) (fun sum => decide (p ≤ sum)) w 0 is taken) (hw : ∀ i ∈ is, 0 ≤ w i)
    (hnodup : is.Nodup) (hsorted : is.Pairwise fun i j => w j ≤ w i) : IsNucleus w is.toFinset p taken.toFinset := by
  obtain ⟨rest, rfl⟩ := h.begins
  have hw' : ∀ i ∈ (taken ++ rest).toFinset, 0 ≤ w i := fun i hi => hw i (List.mem_toFinset.mp hi)
  have hnodup' : taken.Nodup := hnodup.sublist (List.sublist_append_left _ _)
  have hsum : ∑ i ∈ (taken ++ rest).toFinset, w i = (taken.map w).sum + (rest.map w).sum := by
    rw [List.sum_toFinset w hnodup, List.map_append, List.sum_append]
  have htaken : ∑ i ∈ taken.toFinset, w i = (taken.map w).sum := List.sum_toFinset w hnodup'
  have hreaches : taken ≠ taken ++ rest → p ≤ (taken.map w).sum := fun hne => by
    have henough := of_decide_eq_true (h.reaches hne)
    rwa [addUp_eq_sum, zero_add] at henough
  refine { toHeaviest := heaviest_of_sorted hsorted, reaches := fun hp => ?_, smallest := fun s hs hp => ?_, exhausts := fun hp => ?_ }
  · by_cases hall : taken = taken ++ rest
    · rwa [← hall] at hp
    · rw [htaken]
      exact hreaches hall
  · rw [List.toFinset_card_of_nodup hnodup']
    rcases taken.eq_nil_or_concat' with hnil | ⟨before, last, hsnoc⟩
    · simp [hnil]
    · by_contra hlt
      rw [hsnoc, List.length_append, List.length_singleton, Nat.not_le, Nat.lt_succ_iff] at hlt
      have hbelow := of_decide_eq_false (h.short before last (hsnoc ▸ List.prefix_rfl))
      rw [addUp_eq_sum, zero_add] at hbelow
      -- the things before the last are the heaviest, too
      subst hsnoc
      have hnodup'' : before.Nodup := hnodup'.sublist (List.sublist_append_left _ _)
      have hbefore : Heaviest w (before ++ [last] ++ rest).toFinset before.toFinset := by
        rw [List.append_assoc] at hsorted ⊢
        exact heaviest_of_sorted hsorted
      have hle := hbefore.sum_le hw' hs (by rwa [List.toFinset_card_of_nodup hnodup''])
      rw [List.sum_toFinset w hnodup''] at hle
      exact hbelow (hp.trans hle)
  · by_contra hne
    have hall : taken ≠ taken ++ rest := fun heq => hne (by rw [← heq])
    have hrest : 0 ≤ (rest.map w).sum := List.sum_nonneg fun v hv => by
      obtain ⟨i, hi, rfl⟩ := List.mem_map.mp hv
      exact hw i (List.mem_append_right _ hi)
    rw [hsum] at hp
    exact absurd ((hreaches hall).trans (le_add_of_nonneg_right hrest)) (not_le.mpr hp)

end Exact
