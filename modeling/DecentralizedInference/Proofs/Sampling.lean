import Mathlib.Algebra.Field.Rat
import Mathlib.Algebra.Order.Ring.Unbundled.Rat
import Mathlib.Algebra.Order.Field.Rat
import DecentralizedInference.Lib.Softmax
import DecentralizedInference.Sanity.Sampling

/-! What the modes of sampling draw from, and when there is nothing to draw. -/

namespace Dllm

variable {F D R : Type} [LinearOrder F] (fl : Floats F D)

def Sampling.temperature? : Sampling D → Option D
  | .argMax => none
  | .all temperature => some temperature
  | .topK _ temperature => some temperature
  | .topP _ temperature => some temperature
  | .topKThenTopP _ _ temperature => some temperature

/-- The likeliest tokens, as many as are asked for. -/
structure Likeliest (prs : List F) (k : ℕ) (top : Finset ℕ) : Prop
    extends Heaviest (weightAt fl prs) (Finset.range prs.length) top where
  card : top.card = min k prs.length

/-- The tokens that a mode leaves to draw from: the largest logit; all of them; the likeliest `k`; the likeliest that
together reach the probability `p`; such ones of the likeliest `k`, with no regard for what the others had. -/
def Sampling.IsPool (logits : List F) (pool : Finset ℕ) : Sampling D → Prop
  | .argMax => ∃ i logit, LastMax logits i logit ∧ pool = {i}
  | .all _ => pool = Finset.range logits.length
  | .topK k temperature => Likeliest fl (fl.probabilities temperature logits) k pool
  | .topP p temperature =>
    if fl.leZero p = true ∨ fl.geOne p = true then pool = Finset.range logits.length
    else Nucleus fl (weightAt fl (fl.probabilities temperature logits)) (fl.cast p) (List.range logits.length) pool
  | .topKThenTopP k p temperature =>
    let w := weightAt fl (fl.probabilities temperature logits)
    ∃ top : List ℕ, top.Nodup ∧ Likeliest fl (fl.probabilities temperature logits) k top.toFinset ∧
      if k < logits.length ∧
          (fl.ge fl.zero (fl.cast p) = true ∨ fl.ge (fl.cast p) (addUp fl.add w fl.zero top) = true) then
        pool = top.toFinset
      else Nucleus fl w (fl.cast p) top pool

variable {fl}

/-- One of things that differ is drawn, by their weights, unless these are refused. Those outside the pool have no
chance. -/
def DrawnFrom (rand : WeightedIndex fl R) (w : ℕ → F) (pool : Finset ℕ) (r : R) (drawn : Option (UInt32 × R)) : Prop :=
  ∃ items : List ℕ, items.Nodup ∧ pool ⊆ items.toFinset ∧
    (drawn = none ↔ fl.Refuses (items.map fun i => if i ∈ pool then w i else fl.zero)) ∧
    drawn = (rand.sample (items.map fun i => if i ∈ pool then w i else fl.zero) r).map
      fun (i, r) => (.ofNat (items.getD i 0), r)

/-- The token of a mode: by the probabilities, or without a draw. -/
def Sampling.Draws (rand : WeightedIndex fl R) (sampling : Sampling D) (logits : List F) (pool : Finset ℕ) (r : R)
    (drawn : Option (UInt32 × R)) : Prop :=
  match sampling.temperature? with
  | none => ∃ i, pool = {i} ∧ drawn = some (.ofNat i, r)
  | some temperature => DrawnFrom rand (weightAt fl (fl.probabilities temperature logits)) pool r drawn

omit [LinearOrder F] in
/-- What is refused gives nothing. -/
theorem DrawnFrom.of_sample {rand : WeightedIndex fl R} {w : ℕ → F} {pool : Finset ℕ} {r : R} {drawn : Option (UInt32 × R)}
    {items : List ℕ} (hnodup : items.Nodup) (hpool : pool ⊆ items.toFinset)
    (h : drawn = (rand.sample (items.map fun i => if i ∈ pool then w i else fl.zero) r).map
      fun (i, r) => (.ofNat (items.getD i 0), r)) : DrawnFrom rand w pool r drawn := by
  refine ⟨items, hnodup, hpool, ?_, h⟩
  rw [h, Option.map_eq_none_iff, rand.refuses]

section Multinomial

omit [LinearOrder F]

/-- An index that is drawn is one of a thing, and is not cut off when there are no more things than tokens. -/
theorem sampleMultinomial_items (rand : WeightedIndex fl R) {items : List ℕ} (hlength : items.length ≤ 2 ^ 32) (v : ℕ → F) (r : R) :
    (sampleMultinomial rand (items.map v) r).map (fun (index, r) => (UInt32.ofNat (items.getD index.toNat 0), r)) =
      (rand.sample (items.map v) r).map fun (i, r) => (.ofNat (items.getD i 0), r) := by
  unfold sampleMultinomial
  cases hdraw : rand.sample (items.map v) r with
  | none => rfl
  | some drawn =>
    obtain ⟨i, r'⟩ := drawn
    obtain ⟨w, hw, -⟩ := rand.draws _ _ _ _ hdraw
    have hlt : i < items.length := by simpa using (List.getElem?_eq_some_iff.mp hw).1
    simp [UInt32.toNat_ofNat_of_lt' (Nat.lt_of_lt_of_le hlt hlength)]

theorem sampleMultinomial_range (rand : WeightedIndex fl R) (n : ℕ) (v : ℕ → F) (r : R) :
    sampleMultinomial rand ((List.range n).map v) r =
      (rand.sample ((List.range n).map v) r).map fun (i, r) => (.ofNat ((List.range n).getD i 0), r) := by
  unfold sampleMultinomial
  cases hdraw : rand.sample ((List.range n).map v) r with
  | none => rfl
  | some drawn =>
    obtain ⟨i, r'⟩ := drawn
    obtain ⟨w, hw, -⟩ := rand.draws _ _ _ _ hdraw
    have hlt : i < n := by simpa using (List.getElem?_eq_some_iff.mp hw).1
    simp [List.getD_eq_getElem?_getD, hlt]

/-- A draw from all things of a list. -/
theorem map_self_pool {items : List ℕ} (w : ℕ → F) :
    (items.map fun i => if i ∈ items.toFinset then w i else fl.zero) = items.map w :=
  List.map_congr_left fun _ hi => if_pos (List.mem_toFinset.mpr hi)

theorem map_weightAt_range (prs : List F) : (List.range prs.length).map (weightAt fl prs) = prs := map_getD_range prs fl.zero

theorem sum_map (w : ℕ → F) (items : List ℕ) : fl.sum (items.map w) = addUp fl.add w fl.zero items := List.foldl_map

end Multinomial

section Modes

variable (rand : WeightedIndex fl R) (nth : SelectNth) {prs : List F} (r : R)

omit [LinearOrder F] in
theorem drawnFrom_multinomial :
    DrawnFrom rand (weightAt fl prs) (Finset.range prs.length) r (sampleMultinomial rand prs r) := by
  refine DrawnFrom.of_sample List.nodup_range (by rw [List.toFinset_range]) ?_
  rw [← List.toFinset_range, map_self_pool, ← sampleMultinomial_range, map_weightAt_range]

theorem likeliest_all {k : ℕ} (h : prs.length ≤ k) : Likeliest fl prs k (Finset.range prs.length) :=
  ⟨⟨Finset.Subset.refl _, fun _ _ _ hj hout => absurd hj hout⟩, by rw [Finset.card_range, Nat.min_eq_right h]⟩

theorem SelectNth.likeliest {k : ℕ} (hk : k < prs.length) {before after : List ℕ} {i : ℕ}
    (h : nth.select (descending fl prs) (List.range prs.length) k = (before, i, after)) :
    before.Nodup ∧ before.length ≤ prs.length ∧ Likeliest fl prs k before.toFinset := by
  obtain ⟨hnodup, hlength, htop⟩ := nth.heaviest prs hk h
  refine ⟨hnodup, by omega, htop, ?_⟩
  rw [List.toFinset_card_of_nodup hnodup, hlength, Nat.min_eq_left hk.le]

theorem drawnFrom_topk (hlength : prs.length ≤ 2 ^ 32) (k : ℕ) :
    ∃ pool, Likeliest fl prs k pool ∧ DrawnFrom rand (weightAt fl prs) pool r (sampleTopk rand nth prs k r) := by
  unfold sampleTopk
  split
  case isTrue h => exact ⟨_, likeliest_all h, drawnFrom_multinomial rand r⟩
  case isFalse h =>
    rcases hselect : nth.select (descending fl prs) (List.range prs.length) k with ⟨indices, i, after⟩
    obtain ⟨hnodup, hle, htop⟩ := nth.likeliest (Nat.lt_of_not_le h) hselect
    refine ⟨_, htop, DrawnFrom.of_sample hnodup (Finset.Subset.refl _) ?_⟩
    rw [map_self_pool]
    exact sampleMultinomial_items rand (hle.trans hlength) (weightAt fl prs) r

theorem drawnFrom_topp (prs : List F) (r : R) (topP : F) :
    ∃ pool, Nucleus fl (weightAt fl prs) topP (List.range prs.length) pool ∧
      DrawnFrom rand (weightAt fl prs) pool r (sampleTopp rand prs topP r) := by
  obtain ⟨pool, hpool, hsample⟩ := sampleTopp_eq rand (weightAt fl prs) (List.nodup_range : (List.range prs.length).Nodup) topP r
  rw [map_weightAt_range] at hsample
  refine ⟨pool, hpool, DrawnFrom.of_sample List.nodup_range hpool.subset ?_⟩
  rw [hsample, sampleMultinomial_range]

theorem drawnFrom_topkTopp (hlength : prs.length ≤ 2 ^ 32) (k : ℕ) (topP : F) :
    ∃ top : List ℕ, ∃ pool, top.Nodup ∧ Likeliest fl prs k top.toFinset ∧
      (if k < prs.length ∧
          (fl.ge fl.zero topP = true ∨ fl.ge topP (addUp fl.add (weightAt fl prs) fl.zero top) = true) then pool = top.toFinset
        else Nucleus fl (weightAt fl prs) topP top pool) ∧
      DrawnFrom rand (weightAt fl prs) pool r (sampleTopkTopp rand nth prs k topP r) := by
  unfold sampleTopkTopp
  split
  case isTrue h =>
    obtain ⟨pool, hpool, hdrawn⟩ := drawnFrom_topp rand prs r topP
    refine ⟨List.range prs.length, pool, List.nodup_range, ?_, ?_, hdrawn⟩
    · rw [List.toFinset_range]
      exact likeliest_all h
    · rwa [if_neg fun hlt => Nat.not_lt.mpr h hlt.1]
  case isFalse h =>
    rcases hselect : nth.select (descending fl prs) (List.range prs.length) k with ⟨indices, i, after⟩
    obtain ⟨hnodup, hle, htop⟩ := nth.likeliest (Nat.lt_of_not_le h) hselect
    have hmultinomial := sampleMultinomial_items rand (hle.trans hlength)
    have hweights : indices.map (prs.getD · fl.zero) = indices.map (weightAt fl prs) := rfl
    simp only [hweights, sum_map]
    by_cases hall : fl.ge fl.zero topP = true ∨ fl.ge topP (addUp fl.add (weightAt fl prs) fl.zero indices) = true
    · refine ⟨indices, indices.toFinset, hnodup, htop, ?_, DrawnFrom.of_sample hnodup (Finset.Subset.refl _) ?_⟩
      · rw [if_pos ⟨Nat.lt_of_not_le h, hall⟩]
      · rw [map_self_pool, ← hmultinomial (weightAt fl prs) r, if_pos hall]
    · obtain ⟨pool, hpool, hsample⟩ := sampleTopp_eq rand (weightAt fl prs) hnodup topP r
      refine ⟨indices, pool, hnodup, htop, ?_, DrawnFrom.of_sample hnodup hpool.subset ?_⟩
      · rwa [if_neg fun hif => hall hif.2]
      · rw [← hmultinomial, ← hsample, if_neg hall]

end Modes

section Sample

variable (rand : WeightedIndex fl R) (nth : SelectNth) {logits : List F} (r : R)

theorem sampleArgmax_eq (hlogits : logits ≠ []) :
    ∃ i logit, LastMax logits i logit ∧ sampleArgmax logits = some (.ofNat i) := by
  have hmax := foldl_laterMax logits
  unfold sampleArgmax
  cases hbest : logits.zipIdx.foldl laterMax none with
  | none =>
    rw [hbest] at hmax
    exact absurd hmax hlogits
  | some best =>
    rw [hbest] at hmax
    exact ⟨_, _, hmax, rfl⟩

/-- Every mode draws from its pool, by the probabilities of the tokens there. -/
theorem sample_drawn (hlogits : logits ≠ []) (hvocabulary : logits.length ≤ 2 ^ 32) (sampling : Sampling D) :
    ∃ pool, sampling.IsPool fl logits pool ∧ sampling.Draws rand logits pool r (sampling.sample rand nth logits r) := by
  have hlength := fun temperature => fl.length_probabilities temperature logits
  have hmultinomial : ∀ temperature, DrawnFrom rand (weightAt fl (fl.probabilities temperature logits))
      (Finset.range logits.length) r (sampleMultinomial rand (fl.probabilities temperature logits) r) := by
    intro temperature
    rw [← hlength temperature]
    exact drawnFrom_multinomial rand r
  cases sampling with
  | argMax =>
    obtain ⟨i, logit, hmax, hsample⟩ := sampleArgmax_eq hlogits
    exact ⟨{i}, ⟨i, logit, hmax, rfl⟩, i, rfl, by rw [Sampling.sample, hsample]; rfl⟩
  | all temperature => exact ⟨_, rfl, hmultinomial temperature⟩
  | topK k temperature => exact drawnFrom_topk rand nth r (by rwa [hlength]) k
  | topP p temperature =>
    unfold Sampling.IsPool Sampling.sample
    by_cases hp : fl.leZero p = true ∨ fl.geOne p = true
    · simp only [if_pos hp]
      exact ⟨_, rfl, hmultinomial temperature⟩
    · simp only [if_neg hp]
      rw [← hlength temperature]
      exact drawnFrom_topp rand _ r (fl.cast p)
  | topKThenTopP k p temperature =>
    have hle : (fl.probabilities temperature logits).length ≤ 2 ^ 32 := by rwa [hlength]
    obtain ⟨top, pool, hnodup, htop, hpool, hdrawn⟩ := drawnFrom_topkTopp rand nth r hle k (fl.cast p)
    rw [hlength] at hpool
    exact ⟨pool, ⟨top, hnodup, htop, hpool⟩, hdrawn⟩

theorem Sampling.IsPool.subset {sampling : Sampling D} {pool : Finset ℕ} (h : sampling.IsPool fl logits pool) :
    pool ⊆ Finset.range logits.length := by
  have hlength := fun temperature => fl.length_probabilities temperature logits
  cases sampling with
  | argMax =>
    obtain ⟨i, logit, hmax, rfl⟩ := h
    have hi := (List.getElem?_eq_some_iff.mp hmax.get).1
    simpa using hi
  | all temperature =>
    have hall : pool = Finset.range logits.length := h
    rw [hall]
  | topK k temperature =>
    have hlikeliest : Likeliest fl (fl.probabilities temperature logits) k pool := h
    have hsubset := hlikeliest.subset
    rwa [hlength] at hsubset
  | topP p temperature =>
    simp only [Sampling.IsPool] at h
    split at h
    · rw [h]
    · rw [← List.toFinset_range]
      exact h.subset
  | topKThenTopP k p temperature =>
    obtain ⟨top, -, htop, hpool⟩ := h
    have hsubset := htop.subset
    rw [hlength] at hsubset
    split at hpool
    · rwa [hpool]
    · exact hpool.subset.trans hsubset

omit [LinearOrder F] in
theorem Floats.not_gt_self (a : F) : fl.gt a a = false := by simp [Floats.gt]

omit [LinearOrder F] in
/-- What is drawn is in the pool, and has had a chance. -/
theorem DrawnFrom.mem {rand : WeightedIndex fl R} {w : ℕ → F} {pool : Finset ℕ} {r r' : R} {token : UInt32}
    (h : DrawnFrom rand w pool r (some (token, r'))) (hpool : ∀ i ∈ pool, i < 2 ^ 32) :
    token.toNat ∈ pool ∧ fl.gt (w token.toNat) fl.zero = true := by
  obtain ⟨items, -, -, -, heq⟩ := h
  obtain ⟨⟨i, r''⟩, hdraw, hmap⟩ := Option.map_eq_some_iff.mp heq.symm
  obtain ⟨v, hv, hpos⟩ := rand.draws _ _ _ _ hdraw
  rw [List.getElem?_map] at hv
  obtain ⟨j, hj, rfl⟩ := Option.map_eq_some_iff.mp hv
  split at hpos
  case isTrue hmem =>
    have htoken : token.toNat = j := by
      rw [← (Prod.mk.inj hmap).1, List.getD_eq_getElem?_getD, hj]
      exact UInt32.toNat_ofNat_of_lt' (hpool j hmem)
    rw [htoken]
    exact ⟨hmem, hpos⟩
  case isFalse =>
    rw [Floats.not_gt_self] at hpos
    cases hpos

omit [LinearOrder F] in
/-- A token that a mode gives is one of its pool, and has had a chance. -/
theorem Sampling.Draws.mem {rand : WeightedIndex fl R} {sampling : Sampling D} {pool : Finset ℕ} {r r' : R} {token : UInt32}
    (h : sampling.Draws rand logits pool r (some (token, r'))) (hpool : ∀ i ∈ pool, i < 2 ^ 32) :
    token.toNat ∈ pool ∧ ∀ temperature, sampling.temperature? = some temperature →
      fl.gt (weightAt fl (fl.probabilities temperature logits) token.toNat) fl.zero = true := by
  unfold Sampling.Draws at h
  cases htemperature : sampling.temperature? with
  | none =>
    rw [htemperature] at h
    obtain ⟨i, rfl, heq⟩ := h
    have htoken : token = .ofNat i := (Prod.mk.inj (Option.some.inj heq)).1
    rw [htoken, UInt32.toNat_ofNat_of_lt' (hpool i (Finset.mem_singleton_self i))]
    exact ⟨Finset.mem_singleton_self i, fun _ h => by cases h⟩
  | some temperature =>
    rw [htemperature] at h
    obtain ⟨hmem, hpos⟩ := DrawnFrom.mem h hpool
    refine ⟨hmem, fun t ht => ?_⟩
    cases ht
    exact hpos

/-- A token that a mode may give for some logits. -/
def Sampling.Allows (fl : Floats F D) (sampling : Sampling D) (logits : List F) (token : UInt32) : Prop :=
  ∃ pool, sampling.IsPool fl logits pool ∧ token.toNat ∈ pool ∧
    ∀ temperature, sampling.temperature? = some temperature →
      fl.gt (weightAt fl (fl.probabilities temperature logits) token.toNat) fl.zero = true

theorem Sampling.IsPool.lt {sampling : Sampling D} {pool : Finset ℕ} (h : sampling.IsPool fl logits pool)
    (hvocabulary : logits.length ≤ 2 ^ 32) : ∀ i ∈ pool, i < 2 ^ 32 :=
  fun _ hi => Nat.lt_of_lt_of_le (Finset.mem_range.mp (h.subset hi)) hvocabulary

theorem sample_allows (hlogits : logits ≠ []) (hvocabulary : logits.length ≤ 2 ^ 32) {sampling : Sampling D}
    {r r' : R} {token : UInt32} (h : sampling.sample rand nth logits r = some (token, r')) :
    sampling.Allows fl logits token := by
  obtain ⟨pool, hpool, hdraws⟩ := sample_drawn rand nth r hlogits hvocabulary sampling
  rw [h] at hdraws
  exact ⟨pool, hpool, hdraws.mem (hpool.lt hvocabulary)⟩

end Sample

/-- Exact numbers, for probabilities that are all the same. -/
def evenFloats : Floats ℚ ℚ where
  zero := 0
  one := 1
  add := (· + ·)
  mul := (· * ·)
  div := (· / ·)
  ge a b := decide (b ≤ a)
  finite _ := true
  cast p := p
  leZero p := decide (p ≤ 0)
  geOne p := decide (1 ≤ p)
  probabilities temperature logits :=
    softmax (fun x => if x = 0 then 1 else 0) (logits.map fun logit => ((logit / temperature : ℚ) : WithBot ℚ))
  length_probabilities temperature logits := by rw [length_softmax, List.length_map]

theorem exact_evenFloats : evenFloats.Exact := ⟨rfl, rfl, fun _ _ => rfl⟩

theorem evenFloats_sum (weights : List ℚ) : evenFloats.sum weights = weights.sum := by
  have h := addUp_eq_sum (id : ℚ → ℚ) 0 weights
  rwa [List.map_id, zero_add] at h

/-- A generator of zeros: it draws the first that has a chance. -/
def firstChance : WeightedIndex evenFloats Unit where
  sample weights r := if ∃ w ∈ weights, w < 0 then none else (weights.findIdx? fun w => decide (0 < w)).map fun i => (i, r)
  refuses weights r := by
    have hge : ∀ w : ℚ, evenFloats.ge w evenFloats.zero = false ↔ w < 0 := fun w => by simp [evenFloats]
    have heq : evenFloats.eq (evenFloats.sum weights) evenFloats.zero = true ↔ weights.sum = 0 := by
      have hle : ∀ a b : ℚ, evenFloats.ge a b = true ↔ b ≤ a := fun a b => by simp [evenFloats]
      rw [evenFloats_sum, Floats.eq, Bool.and_eq_true, hle, hle, and_comm]
      exact le_antisymm_iff.symm
    simp only [Floats.Refuses, hge, heq]
    split
    case isTrue hneg => exact ⟨fun _ => .inr (.inl hneg), fun _ => rfl⟩
    case isFalse hneg =>
      have hnonneg : ∀ w ∈ weights, 0 ≤ w := fun w hw => not_lt.mp fun hlt => hneg ⟨w, hw, hlt⟩
      rw [Option.map_eq_none_iff, List.findIdx?_eq_none_iff]
      refine ⟨fun h => .inr (.inr (.inl (List.sum_eq_zero fun w hw => ?_))), fun h w hw => ?_⟩
      · exact le_antisymm (not_lt.mp (of_decide_eq_false (h w hw))) (hnonneg w hw)
      · rcases h with rfl | h | h | h
        · simp at hw
        · exact absurd h hneg
        · exact decide_eq_false (not_lt.mpr (h ▸ List.single_le_sum hnonneg w hw))
        · cases h
  draws weights r i r' h := by
    split at h
    · cases h
    · obtain ⟨j, hj, heq⟩ := Option.map_eq_some_iff.mp h
      obtain rfl : j = i := (Prod.mk.inj heq).1
      obtain ⟨hlt, hpos, -⟩ := List.findIdx?_eq_some_iff_getElem.mp hj
      have hpos := of_decide_eq_true hpos
      exact ⟨_, List.getElem?_eq_getElem hlt, by simp [Floats.gt, evenFloats, hpos, hpos.le]⟩

/-- The element of a rank by sorting. -/
def sortNth : SelectNth where
  select le is k :=
    let sorted := is.insertionSort fun i j => le i j = true
    (sorted.take k, sorted.getD k 0, sorted.drop (k + 1))
  selects le is k htotal htrans hk before nth after h := by
    have htotal' : Std.Total fun i j => le i j = true := ⟨fun i j => by simpa using htotal i j⟩
    have htrans' : IsTrans ℕ fun i j => le i j = true := ⟨htrans⟩
    have hsorted := List.pairwise_insertionSort (fun i j => le i j = true) is
    have hperm := List.perm_insertionSort (fun i j => le i j = true) is
    have hlength : k < (is.insertionSort fun i j => le i j = true).length := by rwa [List.length_insertionSort]
    obtain ⟨hbefore, hnth, hafter⟩ := Prod.mk.inj h |>.imp id Prod.mk.inj
    have hsplit : (is.insertionSort fun i j => le i j = true) = before ++ nth :: after := by
      rw [← hbefore, ← hnth, ← hafter, List.getD_eq_getElem _ _ hlength, List.cons_getElem_drop_succ, List.take_append_drop]
    rw [hsplit] at hsorted hperm
    obtain ⟨-, hrest, hcross⟩ := List.pairwise_append.mp hsorted
    refine ⟨hperm, ?_, fun i hi => hcross i hi nth List.mem_cons_self, (List.pairwise_cons.mp hrest).1⟩
    rw [← hbefore, List.length_take]
    omega

end Dllm
