import Mathlib.Data.List.GetD
import Mathlib.Data.List.Range
import DecentralizedInference.Lib.Nucleus
import DecentralizedInference.Lib.Run
import DecentralizedInference.Spec.Sampling

/-! What the parts of `LogitsProcessor` do to a row of logits. -/

namespace Dllm

/-- The last of the largest numbers of a list. -/
structure LastMax {F : Type} [LinearOrder F] (xs : List F) (i : ℕ) (x : F) : Prop where
  get : xs[i]? = some x
  le : ∀ y ∈ xs, y ≤ x
  lt : ∀ j y, i < j → xs[j]? = some y → y < x

section Maximum

variable {F : Type} [LinearOrder F]

/-- The loop of `max_by` over the numbers and their indices. -/
theorem foldl_laterMax (xs : List F) :
    match xs.zipIdx.foldl laterMax none with
    | none => xs = []
    | some (x, i) => LastMax xs i x := by
  induction xs using List.reverseRecOn with
  | nil => rfl
  | append_singleton xs y ih =>
    rw [List.zipIdx_append, List.foldl_append]
    cases hbest : xs.zipIdx.foldl laterMax none with
    | none =>
      rw [hbest] at ih
      subst ih
      refine ⟨rfl, by simp, fun j z hj hz => ?_⟩
      rw [List.getElem?_eq_none (by simpa using Nat.succ_le_iff.mpr hj)] at hz
      cases hz
    | some best =>
      obtain ⟨x, i⟩ := best
      rw [hbest] at ih
      have hi : i < xs.length := (List.getElem?_eq_some_iff.mp ih.get).1
      simp only [List.zipIdx_singleton, Nat.zero_add, List.foldl_cons, List.foldl_nil, laterMax]
      by_cases hlt : y < x
      · rw [if_pos hlt]
        refine ⟨by rw [List.getElem?_append_left hi, ih.get], fun z hz => ?_, fun j z hj hz => ?_⟩
        · rcases List.mem_append.mp hz with hz | hz
          · exact ih.le z hz
          · exact (List.mem_singleton.mp hz ▸ hlt).le
        · rcases List.getElem?_snoc_eq_some_iff.mp hz with hz | ⟨-, rfl⟩
          · exact ih.lt j z hj hz
          · exact hlt
      · rw [if_neg hlt]
        have hle : x ≤ y := not_lt.mp hlt
        refine ⟨by simp, fun z hz => ?_, fun j z hj hz => ?_⟩
        · rcases List.mem_append.mp hz with hz | hz
          · exact (ih.le z hz).trans hle
          · exact (List.mem_singleton.mp hz).le
        · have hlength := (List.getElem?_eq_some_iff.mp hz).1
          simp at hlength hj
          omega

end Maximum

section Choice

variable {F D : Type} (fl : Floats F D)

/-- The weight of the thing at an index. -/
def weightAt (prs : List F) (i : ℕ) : F := prs.getD i fl.zero

theorem getD_set_self {α : Type} (items : List α) (i : ℕ) (d : α) : (items.set i d).getD i d = d := by
  by_cases hi : i < items.length
  · simp [List.getD_eq_getElem?_getD, hi]
  · simp [List.getD_eq_getElem?_getD, Nat.le_of_not_lt hi]

/-- What the loop over indices that differ leaves of the weights: those that are taken. -/
theorem foldl_clampTurn (topP cumsum : F) (prs : List F) {order : List ℕ} (hnodup : order.Nodup) (i : ℕ) :
    ((order.foldl (clampTurn fl topP) (cumsum, prs)).2).getD i fl.zero =
      if i ∈ order ∧ i ∉ takeUntil fl.add (fun sum => fl.ge sum topP) (weightAt fl prs) cumsum order then fl.zero
      else prs.getD i fl.zero := by
  induction order generalizing cumsum prs with
  | nil => simp
  | cons index order ih =>
    obtain ⟨hindex, hnodup⟩ := List.nodup_cons.mp hnodup
    simp only [List.foldl_cons, clampTurn, takeUntil]
    split
    case isTrue hreached =>
      -- nothing is taken any more
      have hnone : takeUntil fl.add (fun sum => fl.ge sum topP) (weightAt fl (prs.set index fl.zero)) cumsum order = [] := by
        cases order with
        | nil => rfl
        | cons j order => exact if_pos hreached
      rw [ih _ _ hnodup, hnone]
      by_cases hi : i ∈ order
      · simp [hi]
      · by_cases heq : i = index
        · subst heq
          rw [getD_set_self, if_neg fun h => hi h.1, if_pos ⟨List.mem_cons_self, by simp⟩]
        · simp [hi, heq, List.getD_eq_getElem?_getD, List.getElem?_set_ne (Ne.symm heq)]
    case isFalse =>
      rw [ih _ _ hnodup]
      by_cases heq : i = index
      · subst heq
        simp [hindex]
      · simp [heq, weightAt]

theorem length_foldl_clampTurn (topP cumsum : F) (prs : List F) (order : List ℕ) :
    ((order.foldl (clampTurn fl topP) (cumsum, prs)).2).length = prs.length := by
  induction order generalizing cumsum prs with
  | nil => rfl
  | cons index order ih =>
    rw [List.foldl_cons]
    by_cases h : fl.ge cumsum topP = true
    · have hturn : clampTurn fl topP (cumsum, prs) index = (cumsum, prs.set index fl.zero) := if_pos h
      rw [hturn, ih, List.length_set]
    · have hturn : clampTurn fl topP (cumsum, prs) index = (fl.add cumsum (prs.getD index fl.zero), prs) := if_neg h
      rw [hturn, ih]

theorem map_getD_range {α : Type} (items : List α) (d : α) : (List.range items.length).map (items.getD · d) = items := by
  refine List.ext_getElem? fun j => ?_
  by_cases hj : j < items.length
  · simp [List.getD_eq_getElem?_getD, hj]
  · simp [Nat.le_of_not_lt hj]

/-- What the loop leaves of the weights of things. -/
theorem foldl_clampTurn_map {w : ℕ → F} {items order : List ℕ} (hnodup : items.Nodup)
    (horder : order.Perm (List.range items.length)) (topP : F) :
    (order.foldl (clampTurn fl topP) (fl.zero, items.map w)).2 = items.map fun i =>
      if i ∈ (takeUntil fl.add (fun sum => fl.ge sum topP) (weightAt fl (items.map w)) fl.zero order).map (items.getD · 0) then w i
      else fl.zero := by
  have hlength := length_foldl_clampTurn fl topP fl.zero (items.map w) order
  rw [List.length_map] at hlength
  have hclamped := foldl_clampTurn fl topP fl.zero (items.map w) (horder.nodup_iff.mpr List.nodup_range)
  have hbegins : takeUntil fl.add (fun sum => fl.ge sum topP) (weightAt fl (items.map w)) fl.zero order <+: order :=
    takeUntil_isShortest.begins
  generalize takeUntil fl.add (fun sum => fl.ge sum topP) (weightAt fl (items.map w)) fl.zero order = taken at *
  refine List.ext_getElem? fun j => ?_
  by_cases hj : j < items.length
  · have hmem : j ∈ order := horder.mem_iff.mpr (List.mem_range.mpr hj)
    have hin : items[j] ∈ taken.map (items.getD · 0) ↔ j ∈ taken := by
      refine ⟨fun h => ?_, fun h => List.mem_map.mpr ⟨j, h, by simp [List.getD_eq_getElem?_getD, hj]⟩⟩
      obtain ⟨i, hi, heq⟩ := List.mem_map.mp h
      have hlt : i < items.length := List.mem_range.mp (horder.mem_iff.mp (hbegins.subset hi))
      have hget : items[i] = items[j] := by simpa [List.getD_eq_getElem?_getD, hlt] using heq
      obtain rfl : i = j := (hnodup.getElem_inj_iff).mp hget
      exact hi
    have hat := hclamped j
    rw [List.getD_eq_getElem _ _ (by rw [hlength]; exact hj), List.getD_eq_getElem _ _ (by simpa using hj)] at hat
    rw [List.getElem?_eq_getElem (by rw [hlength]; exact hj), List.getElem?_eq_getElem (by simpa using hj), hat]
    simp only [List.getElem_map, hin, hmem, true_and, ite_not]
  · rw [List.getElem?_eq_none (by omega), List.getElem?_eq_none (by rw [List.length_map]; omega)]

variable [LinearOrder F]

theorem descending_total (prs : List F) (i j : ℕ) : (descending fl prs i j || descending fl prs j i) = true := by
  simp only [descending, Bool.or_eq_true, decide_eq_true_iff]
  exact le_total _ _

theorem descending_trans (prs : List F) (i j l : ℕ) (hij : descending fl prs i j = true) (hjl : descending fl prs j l = true) :
    descending fl prs i l = true := by
  simp only [descending, decide_eq_true_iff] at *
  exact hjl.trans hij

/-- Sorting the indices of the weights of things sorts the things. -/
theorem argsort (w : ℕ → F) (items : List ℕ) :
    let order := (List.range (items.map w).length).mergeSort (descending fl (items.map w))
    order.Perm (List.range items.length) ∧ (order.map (items.getD · 0)).Perm items ∧
      (order.map (items.getD · 0)).Pairwise (fun i j => w j ≤ w i) ∧
      ∀ j ∈ order, weightAt fl (items.map w) j = w (items.getD j 0) := by
  intro order
  have hperm : order.Perm (List.range items.length) := by
    have hlength : (items.map w).length = items.length := List.length_map w
    rw [← hlength]
    exact List.mergeSort_perm _ _
  have hweight : ∀ j ∈ order, weightAt fl (items.map w) j = w (items.getD j 0) := by
    intro j hj
    have hj : j < items.length := List.mem_range.mp (hperm.mem_iff.mp hj)
    simp [weightAt, List.getD_eq_getElem?_getD, hj]
  refine ⟨hperm, ?_, ?_, hweight⟩
  · have hmap := hperm.map (items.getD · 0)
    rwa [map_getD_range] at hmap
  · have hpairwise := List.pairwise_mergeSort (descending_trans fl (items.map w)) (descending_total fl (items.map w))
      (List.range (items.map w).length)
    rw [List.pairwise_map]
    refine hpairwise.imp_of_mem fun hi hj hij => ?_
    rw [← hweight _ hi, ← hweight _ hj]
    exact of_decide_eq_true hij

/-- The things from the heaviest on, up to where the sum of their weights reaches a bound; or all of them. -/
def Nucleus (w : ℕ → F) (topP : F) (items : List ℕ) (pool : Finset ℕ) : Prop :=
  ∃ order taken, order.Perm items ∧ order.Pairwise (fun i j => w j ≤ w i) ∧
    IsShortest fl.add (fun sum => fl.ge sum topP) w fl.zero order taken ∧ pool = taken.toFinset

variable {fl}

theorem Nucleus.subset {w : ℕ → F} {topP : F} {items : List ℕ} {pool : Finset ℕ} (h : Nucleus fl w topP items pool) :
    pool ⊆ items.toFinset := by
  obtain ⟨order, taken, hperm, -, hshortest, rfl⟩ := h
  intro i hi
  exact List.mem_toFinset.mpr (hperm.subset (hshortest.begins.subset (List.mem_toFinset.mp hi)))

/-- `sample_topp` of the weights of things that differ: it draws from the heaviest that together reach `top_p`. -/
theorem sampleTopp_eq {R : Type} (rand : WeightedIndex fl R) (w : ℕ → F) {items : List ℕ} (hnodup : items.Nodup) (topP : F) (r : R) :
    ∃ pool, Nucleus fl w topP items pool ∧
      sampleTopp rand (items.map w) topP r = sampleMultinomial rand (items.map fun i => if i ∈ pool then w i else fl.zero) r := by
  obtain ⟨horder, hperm, hsorted, hweight⟩ := argsort fl w items
  unfold sampleTopp
  generalize hsort : (List.range (items.map w).length).mergeSort (descending fl (items.map w)) = order at *
  have htaken : takeUntil fl.add (fun sum => fl.ge sum topP) w fl.zero (order.map (items.getD · 0)) = _ := takeUntil_map hweight
  have hshortest : IsShortest fl.add (fun sum => fl.ge sum topP) w fl.zero (order.map (items.getD · 0)) _ := takeUntil_isShortest
  rw [htaken] at hshortest
  refine ⟨_, ⟨_, _, hperm, hsorted, hshortest, rfl⟩, ?_⟩
  simp only [foldl_clampTurn_map fl hnodup horder, List.mem_toFinset]

/-- What comes before the element of rank `k` are the `k` heaviest. -/
theorem SelectNth.heaviest (nth : SelectNth) (prs : List F) {k : ℕ} (hk : k < prs.length) {before after : List ℕ} {i : ℕ}
    (h : nth.select (descending fl prs) (List.range prs.length) k = (before, i, after)) :
    before.Nodup ∧ before.length = k ∧ Heaviest (weightAt fl prs) (Finset.range prs.length) before.toFinset := by
  obtain ⟨hperm, hlength, hbefore, hafter⟩ := nth.selects (descending fl prs) (List.range prs.length) k (descending_total fl prs)
    (descending_trans fl prs) (by rwa [List.length_range]) before i after h
  have hnodup : (before ++ i :: after).Nodup := hperm.nodup_iff.mpr List.nodup_range
  refine ⟨hnodup.sublist (List.sublist_append_left _ _), hlength, fun j hj => ?_, fun j hj l hl hout => ?_⟩
  · have hmem := hperm.mem_iff.mp (List.mem_append_left _ (List.mem_toFinset.mp hj))
    exact Finset.mem_range.mpr (List.mem_range.mp hmem)
  · rw [List.mem_toFinset] at hj hout
    have hmem : l ∈ before ++ i :: after := hperm.mem_iff.mpr (List.mem_range.mpr (Finset.mem_range.mp hl))
    have hji : weightAt fl prs i ≤ weightAt fl prs j := of_decide_eq_true (hbefore j hj)
    rcases List.mem_cons.mp ((List.mem_append.mp hmem).resolve_left hout) with rfl | hl
    · exact hji
    · exact (of_decide_eq_true (hafter l hl)).trans hji

/-- Where numbers are exact. -/
structure Floats.Exact [AddCommMonoid F] (fl : Floats F D) : Prop where
  zero_eq : fl.zero = 0
  add_eq : fl.add = (· + ·)
  ge_eq : ∀ a b, fl.ge a b = decide (b ≤ a)

/-- In exact arithmetic, such things are a smallest set that reaches the bound. -/
theorem Nucleus.isNucleus [AddCommMonoid F] [IsOrderedAddMonoid F] (hexact : fl.Exact) {w : ℕ → F} {topP : F}
    {items : List ℕ} {pool : Finset ℕ} (hnodup : items.Nodup) (hw : ∀ i ∈ items, 0 ≤ w i) (h : Nucleus fl w topP items pool) :
    IsNucleus w items.toFinset topP pool := by
  obtain ⟨order, taken, hperm, hsorted, hshortest, rfl⟩ := h
  simp only [hexact.zero_eq, hexact.add_eq, hexact.ge_eq] at hshortest
  rw [← List.toFinset_eq_of_perm _ _ hperm]
  exact hshortest.isNucleus (fun i hi => hw i (hperm.subset hi)) (hperm.nodup_iff.mpr hnodup) hsorted

end Choice

section Penalty

variable {F D : Type} (fl : Floats F D)

/-- What the penalty makes of a logit. -/
def penalize (penalty logit : F) : F := if fl.ge logit fl.zero = true then fl.div logit penalty else fl.mul logit penalty

/-- The logits of the tokens in a context are penalized, each of them once. -/
def penalizeAll (penalty : F) (context : List UInt32) (logits : List F) : List F :=
  logits.mapIdx fun i logit => if i ∈ context.map UInt32.toNat then penalize fl penalty logit else logit

theorem penalizeAll_set {penalty logit : F} {context : List UInt32} {logits : List F} {tokenId : UInt32}
    (h : logits[tokenId.toNat]? = some logit) :
    (penalizeAll fl penalty context logits).set tokenId.toNat (penalize fl penalty logit) =
      penalizeAll fl penalty (context ++ [tokenId]) logits := by
  refine List.ext_getElem? fun i => ?_
  unfold penalizeAll
  rw [List.getElem?_set, List.getElem?_mapIdx, List.getElem?_mapIdx, List.length_mapIdx]
  by_cases hi : tokenId.toNat = i
  · subst hi
    obtain ⟨hlt, rfl⟩ := List.getElem?_eq_some_iff.mp h
    simp [hlt]
  · have hne : ¬i = tokenId.toNat := fun h => hi h.symm
    simp [hi, hne]

/-- A token that is not in the vocabulary has no logit. -/
theorem penalizeAll_unknown {penalty : F} {context : List UInt32} {logits : List F} {tokenId : UInt32}
    (h : logits[tokenId.toNat]? = none) : penalizeAll fl penalty (context ++ [tokenId]) logits = penalizeAll fl penalty context logits := by
  refine List.ext_getElem? fun i => ?_
  unfold penalizeAll
  rw [List.getElem?_mapIdx, List.getElem?_mapIdx]
  by_cases hi : i = tokenId.toNat
  · rw [hi, h]
    rfl
  · simp [hi]

theorem penalizeAll_seen {penalty : F} {context : List UInt32} {logits : List F} {tokenId : UInt32}
    (h : tokenId ∈ context) : penalizeAll fl penalty (context ++ [tokenId]) logits = penalizeAll fl penalty context logits := by
  have hmem : ∀ i, i ∈ (context ++ [tokenId]).map UInt32.toNat ↔ i ∈ context.map UInt32.toNat := by
    intro i
    rw [List.map_append, List.mem_append, List.map_singleton, List.mem_singleton]
    refine ⟨fun hi => hi.elim id fun hi => ?_, .inl⟩
    rw [hi]
    exact List.mem_map_of_mem h
  simp only [penalizeAll, hmem]

/-- The loop of `apply_repeat_penalty`. -/
theorem applyRepeatPenalty_eq (logits : List F) (penalty : F) (context : List UInt32) :
    applyRepeatPenalty fl logits penalty context = penalizeAll fl penalty context logits := by
  suffices h : (context.foldl (penaltyTurn fl penalty) (logits, [])).1 = penalizeAll fl penalty context logits ∧
      ∀ tokenId, tokenId ∈ (context.foldl (penaltyTurn fl penalty) (logits, [])).2 ↔ tokenId ∈ context from h.1
  induction context using List.reverseRecOn with
  | nil => exact ⟨List.ext_getElem? fun i => by simp [penalizeAll], fun _ => Iff.rfl⟩
  | append_singleton context tokenId ih =>
    rw [List.foldl_append]
    rcases hloop : context.foldl (penaltyTurn fl penalty) (logits, []) with ⟨logits', alreadySeen⟩
    rw [hloop] at ih
    obtain ⟨rfl, hseen⟩ := ih
    simp only [List.foldl_cons, List.foldl_nil, penaltyTurn, hseen]
    by_cases hmem : tokenId ∈ context
    · rw [if_pos hmem, penalizeAll_seen fl hmem]
      simp [hseen, hmem]
    · rw [if_neg hmem]
      have hget : (penalizeAll fl penalty context logits)[tokenId.toNat]? = logits[tokenId.toNat]? := by
        have hnot : tokenId.toNat ∉ context.map UInt32.toNat := by
          intro h
          obtain ⟨t, ht, heq⟩ := List.mem_map.mp h
          rw [UInt32.toNat_inj] at heq
          exact hmem (heq ▸ ht)
        rw [penalizeAll, List.getElem?_mapIdx]
        simp only [hnot, if_false, Option.map_id']
      rw [hget]
      cases hlogit : logits[tokenId.toNat]? with
      | none => simp [penalizeAll_unknown fl hlogit, hseen, or_comm]
      | some logit =>
        refine ⟨penalizeAll_set fl hlogit, fun t => ?_⟩
        simp [hseen, or_comm]

end Penalty

end Dllm
