import DecentralizedInference.Spec.Basic

/-! `select_layers` of `crates/registry/src/client/layers_selection.rs`, which proposes the
layers that a new node should serve. A distribution says for each layer how many nodes
serve it. -/

namespace Dllm

inductive LayerSelectionRes where
  | enoughLayers (ranges : Range)
  | notEnoughLayers (minLayers : ℕ)
deriving DecidableEq, Repr

/-- `as u32` -/
def asU32 (n : ℕ) : ℕ := n % 2 ^ 32

/-- The inner loop of `sum_in_window`, which adds up counts of 64 bits. -/
def sumFrom (data : List ℕ) (windowSize i : ℕ) : ℕ :=
  (List.range windowSize).foldl (fun sum j =>
    match data[i + j]? with
    | some c => wrapAdd 64 sum c
    | none => sum) 0

def sumInWindow (data : List ℕ) (windowSize : ℕ) : Except Panic (List ℕ) :=
  if ¬ windowSize > 0 then .error .assertFailed
  else if ¬ windowSize < data.length then .error .assertFailed
  else .ok ((List.range (data.length - windowSize + 1)).map (sumFrom data windowSize))

/-- The layers from the first one that nobody serves to the last, of which `start` stand
before and `stop` behind. -/
def minLayers (distribution : List ℕ) (start stop : ℕ) : ℕ :=
  wrapAdd 32 (wrapSub 32 (asU32 (distribution.length - stop - 1)) (asU32 start)) 1

/-- `select_layers` from where it has found that `layers` are enough. -/
def selectRange (distribution : List ℕ) (layers : UInt32) : Except Panic LayerSelectionRes :=
  if layers.toNat ≥ asU32 distribution.length then
    .ok (.enoughLayers ⟨0, asU32 distribution.length⟩)
  else do
    let sumLayers ← sumInWindow distribution layers.toNat
    match sumLayers.min? with
    | none => .error .unwrapOnError
    | some minSum =>
      match sumLayers.findIdx? (· = minSum) with
      | none => .error .unwrapOnError
      | some index => .ok (.enoughLayers ⟨asU32 index, wrapAdd 32 (asU32 index) layers.toNat⟩)

def selectLayers (distribution : List ℕ) (layers : UInt32) : Except Panic LayerSelectionRes :=
  let startToLayers := distribution.findIdx? (· = 0)
  let endToLayers := distribution.reverse.findIdx? (· = 0)
  match startToLayers, endToLayers with
  | some start, some stop =>
    if minLayers distribution start stop > layers.toNat then
      .ok (.notEnoughLayers (minLayers distribution start stop))
    else selectRange distribution layers
  | _, _ => selectRange distribution layers

end Dllm
