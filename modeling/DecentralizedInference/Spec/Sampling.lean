import Mathlib.Data.List.Sort
import DecentralizedInference.Lib.Nucleus
import DecentralizedInference.Spec.LlamaModel

/-! `LogitsProcessor` of `crates/models/src/logits_processor.rs`, `apply_repeat_penalty` of
`utils.rs`, and how `LlamaModel::chat` puts them to use. What its numbers are is left open. -/

namespace Dllm

/-- What the sampling computes with numbers of type `f32` and of type `f64`. Those of type `f32` are
in the order of `total_cmp`, which their other comparisons need not agree with. -/
structure Floats (F D : Type) where
  zero : F
  one : F
  add : F → F → F
  mul : F → F → F
  div : F → F → F
  /-- `>=`, which is false if either is not a number. -/
  ge : F → F → Bool
  finite : F → Bool
  /-- `as f32`. -/
  cast : D → F
  /-- `<= 0.0` and `>= 1.0`. -/
  leZero : D → Bool
  geOne : D → Bool
  /-- `softmax_last_dim` of some logits over a temperature. -/
  probabilities : D → List F → List F
  length_probabilities : ∀ temperature logits, (probabilities temperature logits).length = logits.length

namespace Floats

variable {F D : Type} (fl : Floats F D)

/-- `==`. -/
def eq (a b : F) : Bool := fl.ge a b && fl.ge b a

/-- `>`. -/
def gt (a b : F) : Bool := fl.ge a b && !fl.ge b a

/-- `iter().sum()`. -/
def sum (xs : List F) : F := xs.foldl fl.add fl.zero

/-- Where there is no `WeightedIndex`: without weights, with one that is negative or not a number, or
with a sum that is zero or that overflows. -/
def Refuses (weights : List F) : Prop :=
  weights = [] ∨ (∃ w ∈ weights, fl.ge w fl.zero = false) ∨ fl.eq (fl.sum weights) fl.zero = true ∨
    fl.finite (fl.sum weights) = false

end Floats

/-- `ChatCfg`, as far as sampling reads it. -/
structure ChatCfg (F D : Type) where
  temperature : D
  topK : Option ℕ
  topP : Option D
  repeatPenalty : F
  repeatLastN : ℕ

inductive Sampling (D : Type) where
  | argMax
  | all (temperature : D)
  | topK (k : ℕ) (temperature : D)
  | topP (p temperature : D)
  | topKThenTopP (k : ℕ) (p temperature : D)

/-- `WeightedIndex` of the `rand` crate with a generator. What it draws is an index with a chance. -/
structure WeightedIndex {F D : Type} (fl : Floats F D) (R : Type) where
  sample : List F → R → Option (ℕ × R)
  refuses : ∀ weights r, sample weights r = none ↔ fl.Refuses weights
  draws : ∀ weights r i r', sample weights r = some (i, r') → ∃ w, weights[i]? = some w ∧ fl.gt w fl.zero = true

/-- `select_nth_unstable_by`: what comes before the element of that rank, the element, and what comes
after it. Both of these are in no particular order. -/
structure SelectNth where
  select : (ℕ → ℕ → Bool) → List ℕ → ℕ → List ℕ × ℕ × List ℕ
  selects : ∀ le is k, (∀ i j, le i j || le j i) → (∀ i j l, le i j → le j l → le i l) → k < is.length →
    ∀ before nth after, select le is k = (before, nth, after) →
      (before ++ nth :: after).Perm is ∧ before.length = k ∧ (∀ i ∈ before, le i nth) ∧ ∀ j ∈ after, le nth j

section LogitsProcessor

variable {F D R : Type} (fl : Floats F D)

def ChatCfg.sampling (cfg : ChatCfg F D) : Sampling D :=
  if fl.leZero cfg.temperature = true then .argMax
  else
    match cfg.topK, cfg.topP with
    | none, none => .all cfg.temperature
    | some k, none => .topK k cfg.temperature
    | none, some p => .topP p cfg.temperature
    | some k, some p => .topKThenTopP k p cfg.temperature

/-- A turn of the loop that clamps smaller probabilities to zero. -/
def clampTurn (topP : F) (s : F × List F) (index : ℕ) : F × List F :=
  let (cumsum, prs) := s
  if fl.ge cumsum topP = true then (cumsum, prs.set index fl.zero) else (fl.add cumsum (prs.getD index fl.zero), prs)

/-- A turn of the loop in `apply_repeat_penalty`: the logits, and the tokens that have been seen. -/
def penaltyTurn (penalty : F) (s : List F × List UInt32) (tokenId : UInt32) : List F × List UInt32 :=
  let (logits, alreadySeen) := s
  if tokenId ∈ alreadySeen then (logits, alreadySeen)
  else
    match logits[tokenId.toNat]? with
    | none => (logits, tokenId :: alreadySeen)
    | some logit =>
      (logits.set tokenId.toNat (if fl.ge logit fl.zero = true then fl.div logit penalty else fl.mul logit penalty),
        tokenId :: alreadySeen)

def applyRepeatPenalty (logits : List F) (penalty : F) (context : List UInt32) : List F :=
  (context.foldl (penaltyTurn fl penalty) (logits, [])).1

/-- The logits that `LlamaModel::chat` samples from. -/
def ChatCfg.penalized (cfg : ChatCfg F D) (tokens : List UInt32) (logits : List F) : List F :=
  if fl.eq cfg.repeatPenalty fl.one = true then logits
  else applyRepeatPenalty fl logits cfg.repeatPenalty (tokens.drop (tokens.length - cfg.repeatLastN))

variable {fl}

def sampleMultinomial (rand : WeightedIndex fl R) (prs : List F) (r : R) : Option (UInt32 × R) :=
  (rand.sample prs r).map fun (i, r) => (.ofNat i, r)

variable [LinearOrder F]

/-- `max_by`: of equal ones, the last. -/
def laterMax (best : Option (F × ℕ)) (x : F × ℕ) : Option (F × ℕ) :=
  match best with
  | none => some x
  | some b => if x.1 < b.1 then some b else some x

/-- No logits are a panic of `unwrap`. -/
def sampleArgmax (logits : List F) : Option UInt32 :=
  (logits.zipIdx.foldl laterMax none).map fun x => .ofNat x.2

/-- The indices of two probabilities in the order of a comparison that puts the larger one first. -/
def descending (fl : Floats F D) (prs : List F) (i j : ℕ) : Bool := decide (prs.getD j fl.zero ≤ prs.getD i fl.zero)

def sampleTopp (rand : WeightedIndex fl R) (prs : List F) (topP : F) (r : R) : Option (UInt32 × R) :=
  let argsortIndices := (List.range prs.length).mergeSort (descending fl prs)
  let (_, prs) := argsortIndices.foldl (clampTurn fl topP) (fl.zero, prs)
  sampleMultinomial rand prs r

def sampleTopk (rand : WeightedIndex fl R) (nth : SelectNth) (prs : List F) (topK : ℕ) (r : R) : Option (UInt32 × R) :=
  if prs.length ≤ topK then sampleMultinomial rand prs r
  else
    let (indices, _, _) := nth.select (descending fl prs) (List.range prs.length) topK
    let prs := indices.map (prs.getD · fl.zero)
    (sampleMultinomial rand prs r).map fun (index, r) => (.ofNat (indices.getD index.toNat 0), r)

def sampleTopkTopp (rand : WeightedIndex fl R) (nth : SelectNth) (prs : List F) (topK : ℕ) (topP : F) (r : R) :
    Option (UInt32 × R) :=
  if prs.length ≤ topK then sampleTopp rand prs topP r
  else
    let (indices, _, _) := nth.select (descending fl prs) (List.range prs.length) topK
    let prs := indices.map (prs.getD · fl.zero)
    let sumP := fl.sum prs
    let index :=
      if fl.ge fl.zero topP = true ∨ fl.ge topP sumP = true then sampleMultinomial rand prs r else sampleTopp rand prs topP r
    index.map fun (index, r) => (.ofNat (indices.getD index.toNat 0), r)

/-- `LogitsProcessor::sample`. -/
def Sampling.sample (rand : WeightedIndex fl R) (nth : SelectNth) (sampling : Sampling D) (logits : List F) (r : R) :
    Option (UInt32 × R) :=
  match sampling with
  | .argMax => (sampleArgmax logits).map fun token => (token, r)
  | .all temperature => sampleMultinomial rand (fl.probabilities temperature logits) r
  | .topP p temperature =>
    let prs := fl.probabilities temperature logits
    if fl.leZero p = true ∨ fl.geOne p = true then sampleMultinomial rand prs r else sampleTopp rand prs (fl.cast p) r
  | .topK k temperature => sampleTopk rand nth (fl.probabilities temperature logits) k r
  | .topKThenTopP k p temperature => sampleTopkTopp rand nth (fl.probabilities temperature logits) k (fl.cast p) r

/-- A turn of `LlamaModel::chat` from its logits on, as far as its next token. -/
def ChatCfg.nextToken (rand : WeightedIndex fl R) (nth : SelectNth) (cfg : ChatCfg F D) (tokens : List UInt32)
    (logits : List F) (r : R) : Option (UInt32 × R) :=
  (cfg.sampling fl).sample rand nth (cfg.penalized fl tokens logits) r

/-- A model whose chat samples as its configuration says. The generator is part of its state. -/
def LlamaModel.withCfg {d : LlamaDims} {N σ : Type} (m : LlamaModel d N (List F) (R × σ)) (rand : WeightedIndex fl R)
    (nth : SelectNth) (cfg : ChatCfg F D) : LlamaModel d N (List F) (R × σ) where
  __ := m
  sample tokens logits s :=
    match cfg.nextToken rand nth tokens logits s.1 with
    | none => (none, s)
    | some (next, r) => (some next, r, s.2)

end LogitsProcessor

end Dllm
