import Mathlib.Data.List.Basic
import Mathlib.Data.List.Induction

/-! Stages in series, each with a cache, that are fed a sequence in pieces. A stage is incremental
if it gives for a piece what a causal function of the whole sequence gives there; a series of such
stages computes the composition of their functions, whatever the pieces are. -/

variable {α β κ ι : Type}

/-- A function of sequences that never looks ahead; `f before xs` is what it gives for `xs` after
`before`. -/
structure Causal (f : List α → List α → List β) : Prop where
  length : ∀ before xs, (f before xs).length = xs.length
  append : ∀ before xs ys, f before (xs ++ ys) = f before xs ++ f (before ++ xs) ys

/-- For every input the value of `g` at it and at what comes before it. -/
def along (g : List α → α → β) : List α → List α → List β
  | _, [] => []
  | before, x :: xs => g before x :: along g (before ++ [x]) xs

theorem causal_along (g : List α → α → β) : Causal (along g) where
  length before xs := by
    induction xs generalizing before with
    | nil => rfl
    | cons x xs ih => simp [along, ih]
  append before xs ys := by
    induction xs generalizing before with
    | nil => simp [along]
    | cons x xs ih => simp [along, ih]

@[simp] theorem length_along (g : List α → α → β) (before xs : List α) : (along g before xs).length = xs.length :=
  (causal_along g).length before xs

theorem getElem_along (g : List α → α → β) (before : List α) {xs : List α} {i : ℕ} (hi : i < (along g before xs).length) :
    (along g before xs)[i] = g (before ++ xs.take i) (xs.get ⟨i, by simpa using hi⟩) := by
  induction xs generalizing before i with
  | nil => simp [along] at hi
  | cons x xs ih =>
    cases i with
    | zero => simp [along]
    | succ i => simpa [along] using ih (before ++ [x]) (i := i) (by simpa [along] using hi)

theorem along_singleton (g : List α → α → β) (before : List α) (x : α) : along g before [x] = [g before x] := rfl

theorem map_along {γ : Type} (h : β → γ) (g : List α → α → β) (before xs : List α) :
    (along g before xs).map h = along (fun before x => h (g before x)) before xs := by
  induction xs generalizing before with
  | nil => rfl
  | cons x xs ih => simp [along, ih]

/-- Outputs combined with their inputs. -/
theorem zipWith_along {γ : Type} (h : β → α → γ) (g : List α → α → β) (before xs : List α) :
    List.zipWith h (along g before xs) xs = along (fun before x => h (g before x) x) before xs := by
  induction xs generalizing before with
  | nil => rfl
  | cons x xs ih => simp [along, ih]

theorem zipWith_along_along {γ δ : Type} (h : β → γ → δ) (g : List α → α → β) (g' : List α → α → γ) (before xs : List α) :
    List.zipWith h (along g before xs) (along g' before xs) = along (fun before x => h (g before x) (g' before x)) before xs := by
  induction xs generalizing before with
  | nil => rfl
  | cons x xs ih => simp [along, ih]

namespace Causal

variable {f : List α → List α → List β}

theorem nil (h : Causal f) (before : List α) : f before [] = [] :=
  List.eq_nil_of_length_eq_zero (h.length before [])

/-- What comes later changes no output. -/
theorem split (h : Causal f) (before xs : List α) : f [] (before ++ xs) = f [] before ++ f before xs := by
  rw [h.append, List.nil_append]

end Causal

/-- A stage makes outputs of inputs that come at a position, or fails, and changes its cache. -/
abbrev CachedStage (α κ : Type) := List α → ℕ → κ → Option (List α) × κ

/-- One stage after the other, each with its own cache. -/
def inSeries : List (CachedStage α κ) → CachedStage α (List κ)
  | [], xs, _, caches => (some xs, caches)
  | _ :: _, _, _, [] => (none, [])
  | stage :: stages, xs, pos, cache :: caches =>
    match stage xs pos cache with
    | (none, cache) => (none, cache :: caches)
    | (some ys, cache) =>
      let (zs, caches) := inSeries stages ys pos caches
      (zs, cache :: caches)

/-- What may come after `before` in one piece: any number of inputs at the beginning, and later one. -/
def MayFollow (before xs : List α) : Prop := before = [] ∧ xs ≠ [] ∨ xs.length = 1

def MayFollowAll : List α → List (List α) → Prop
  | _, [] => True
  | before, xs :: pieces => MayFollow before xs ∧ MayFollowAll (before ++ xs) pieces

/-- A first piece, and then inputs one at a time. -/
theorem mayFollowAll_singletons (before xs : List α) (h : MayFollow before xs) (rest : List α) :
    MayFollowAll before (xs :: rest.map fun x => [x]) := by
  refine ⟨h, ?_⟩
  generalize before ++ xs = fed
  induction rest generalizing fed with
  | nil => trivial
  | cons x rest ih => exact ⟨.inr rfl, ih _⟩

theorem MayFollowAll.of_append {before : List α} {pieces rest : List (List α)} (h : MayFollowAll before (pieces ++ rest)) :
    MayFollowAll before pieces := by
  induction pieces generalizing before with
  | nil => trivial
  | cons xs pieces ih => exact ⟨h.1, ih h.2⟩

theorem mayFollowAll_snoc {before xs : List α} {pieces : List (List α)} :
    MayFollowAll before (pieces ++ [xs]) ↔ MayFollowAll before pieces ∧ MayFollow (before ++ pieces.flatten) xs := by
  induction pieces generalizing before with
  | nil => simp [MayFollowAll]
  | cons ys pieces ih =>
    simp only [List.cons_append, MayFollowAll, ih, List.flatten_cons, List.append_assoc, and_assoc]

/-- What `f` makes of pieces, one after the other. -/
def pieceByPiece (f : List α → List α → List α) : List α → List (List α) → List (List α)
  | _, [] => []
  | before, xs :: pieces => f before xs :: pieceByPiece f (before ++ xs) pieces

theorem pieceByPiece_append (f : List α → List α → List α) (before : List α) (pieces pieces' : List (List α)) :
    pieceByPiece f before (pieces ++ pieces') =
      pieceByPiece f before pieces ++ pieceByPiece f (before ++ pieces.flatten) pieces' := by
  induction pieces generalizing before with
  | nil => simp [pieceByPiece]
  | cons xs pieces ih => simp only [List.cons_append, pieceByPiece, ih, List.flatten_cons, List.append_assoc]

@[simp] theorem length_pieceByPiece (f : List α → List α → List α) (before : List α) (pieces : List (List α)) :
    (pieceByPiece f before pieces).length = pieces.length := by
  induction pieces generalizing before with
  | nil => rfl
  | cons xs pieces ih => simp [pieceByPiece, ih]

/-- Together that is what it makes of all of them at once. -/
theorem flatten_pieceByPiece {f : List α → List α → List α} (hf : Causal f) (pieces : List (List α)) :
    (pieceByPiece f [] pieces).flatten = f [] pieces.flatten := by
  induction pieces using List.reverseRecOn with
  | nil => exact (hf.nil []).symm
  | append_singleton pieces xs ih =>
    simp only [pieceByPiece_append, List.nil_append, pieceByPiece, List.flatten_append, List.flatten_cons, List.flatten_nil,
      List.append_nil, ih, hf.split]

/-- A stage that computes `f` from what its cache has kept of the pieces before, up to `max` inputs. -/
structure Incremental (stage : CachedStage α κ) (max : ℕ) (f : List α → List α → List α) (after : List α → κ) : Prop where
  causal : Causal f
  fits : ∀ before xs, MayFollow before xs → before.length + xs.length ≤ max →
    stage xs before.length (after before) = (some (f before xs), after (before ++ xs))
  exceeds : ∀ before xs, MayFollow before xs → max < before.length + xs.length →
    (stage xs before.length (after before)).1 = none

section Layers

variable (f : ι → List α → List α → List α) (after : ι → List α → κ)

/-- What layers make of inputs after others. -/
def throughLayers : List ι → List α → List α → List α
  | [], _, xs => xs
  | l :: ls, before, xs => throughLayers ls (f l [] before) (f l before xs)

/-- The caches of layers that have been fed. -/
def layerCaches : List ι → List α → List κ
  | [], _ => []
  | l :: ls, before => after l before :: layerCaches ls (f l [] before)

variable {f after} {stage : ι → CachedStage α κ} {max : ℕ} {ls : List ι}

@[simp] theorem length_layerCaches (ls : List ι) (before : List α) : (layerCaches f after ls before).length = ls.length := by
  induction ls generalizing before with
  | nil => rfl
  | cons l ls ih => simp [layerCaches, ih]

theorem causal_throughLayers (h : ∀ l ∈ ls, Causal (f l)) : Causal (throughLayers f ls) := by
  induction ls with
  | nil => exact ⟨fun _ _ => rfl, fun _ _ _ => rfl⟩
  | cons l ls ih =>
    have hhead := h l List.mem_cons_self
    have htail := ih fun l hl => h l (List.mem_cons_of_mem _ hl)
    refine ⟨fun before xs => ?_, fun before xs ys => ?_⟩
    · rw [throughLayers, htail.length, hhead.length]
    · simp only [throughLayers]
      rw [hhead.append before xs ys, htail.append, hhead.split]

theorem Causal.follows {f : List α → List α → List α} (hf : Causal f) {before xs : List α} (h : MayFollow before xs) :
    MayFollow (f [] before) (f before xs) := by
  rcases h with ⟨rfl, hxs⟩ | h
  · refine .inl ⟨hf.nil [], ?_⟩
    rw [← List.length_pos_iff] at hxs ⊢
    rwa [hf.length]
  · exact .inr (by rw [hf.length, h])

theorem throughLayers_map {γ : Type} (g : γ → ι) (cs : List γ) (before xs : List α) :
    throughLayers f (cs.map g) before xs = throughLayers (fun c => f (g c)) cs before xs := by
  induction cs generalizing before xs with
  | nil => rfl
  | cons c cs ih => exact ih _ _

theorem throughLayers_append (h : ∀ l, Causal (f l)) (ls ls' : List ι) (before xs : List α) :
    throughLayers f (ls ++ ls') before xs =
      throughLayers f ls' (throughLayers f ls [] before) (throughLayers f ls before xs) := by
  induction ls generalizing before xs with
  | nil => rfl
  | cons l ls ih =>
    simp only [List.cons_append, throughLayers, ih]
    rw [(h l).nil]

/-- Layers that stand in groups. -/
theorem throughLayers_flatMap {γ : Type} (h : ∀ l, Causal (f l)) (g : γ → List ι) (cs : List γ) (before xs : List α) :
    throughLayers f (cs.flatMap g) before xs = throughLayers (fun c => throughLayers f (g c)) cs before xs := by
  induction cs generalizing before xs with
  | nil => rfl
  | cons c cs ih =>
    rw [List.flatMap_cons, throughLayers_append h, ih]
    rfl

/-- Incremental layers in series compute what they make of the whole sequence. -/
theorem inSeries_of_fits (h : ∀ l ∈ ls, Incremental (stage l) max (f l) (after l)) {before xs : List α}
    (hfollows : MayFollow before xs) (hfits : before.length + xs.length ≤ max) :
    inSeries (ls.map stage) xs before.length (layerCaches f after ls before) =
      (some (throughLayers f ls before xs), layerCaches f after ls (before ++ xs)) := by
  induction ls generalizing before xs with
  | nil => rfl
  | cons l ls ih =>
    obtain ⟨hcausal, hhead, -⟩ := h l List.mem_cons_self
    have htail := ih (fun l hl => h l (List.mem_cons_of_mem _ hl)) (hcausal.follows hfollows)
      (by rw [hcausal.length, hcausal.length]; exact hfits)
    rw [hcausal.length, ← hcausal.split] at htail
    simp only [List.map_cons, layerCaches, inSeries, hhead before xs hfollows hfits, throughLayers, htail]

/-- Where inputs do not fit, the first layer fails. -/
theorem inSeries_of_exceeds (h : ∀ l ∈ ls, Incremental (stage l) max (f l) (after l)) (hls : ls ≠ [])
    {before xs : List α} (hfollows : MayFollow before xs) (hover : max < before.length + xs.length) :
    (inSeries (ls.map stage) xs before.length (layerCaches f after ls before)).1 = none := by
  obtain ⟨l, ls, rfl⟩ := List.exists_cons_of_ne_nil hls
  have hhead := (h l List.mem_cons_self).exceeds before xs hfollows hover
  rw [List.map_cons, layerCaches, inSeries]
  rcases hstage : stage l xs before.length (after l before) with ⟨_ | ys, k⟩
  · rfl
  · rw [hstage] at hhead
    cases hhead

theorem incremental_inSeries (h : ∀ l ∈ ls, Incremental (stage l) max (f l) (after l)) (hls : ls ≠ []) :
    Incremental (inSeries (ls.map stage)) max (throughLayers f ls) (layerCaches f after ls) where
  causal := causal_throughLayers fun l hl => (h l hl).causal
  fits _ _ hfollows hfits := inSeries_of_fits h hfollows hfits
  exceeds _ _ hfollows hover := inSeries_of_exceeds h hls hfollows hover

end Layers

/-- Stages that are told the length of the input of the first one, and that keep it. -/
theorem inSeries_of_length {stage : ι → ℕ → CachedStage α κ}
    (hlen : ∀ l n xs pos cache ys, (stage l n xs pos cache).1 = some ys → ys.length = xs.length) (ls : List ι)
    (xs : List α) (pos : ℕ) (caches : List κ) :
    inSeries (ls.map fun l => stage l xs.length) xs pos caches =
      inSeries (ls.map fun l xs => stage l xs.length xs) xs pos caches := by
  generalize hn : xs.length = n
  induction ls generalizing xs caches with
  | nil => rfl
  | cons l ls ih =>
    cases caches with
    | nil => rfl
    | cons cache caches =>
      simp only [List.map_cons, inSeries, hn]
      rcases hstage : stage l n xs pos cache with ⟨_ | ys, k⟩
      · rfl
      · have hys : ys.length = n := (hlen l n xs pos cache ys (congrArg Prod.fst hstage)).trans hn
        simp only [ih ys caches hys]
