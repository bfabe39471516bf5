import DecentralizedInference.Spec.LayersWorker
import DecentralizedInference.Spec.LlamaModel

/-! `LlamaModel::chat` at the root of a chain, where `layers_worker` is a `VirtualModelLayers`. -/

namespace Dllm

/-- Layers that are elsewhere, as a chat meets them: the answers that its forwards are going to get, after which they
fail, and the rows and positions that it has sent. -/
structure Elsewhere (α : Type) where
  answers : List (List α)
  calls : List (List α × UInt32) := []

def Elsewhere.forward {α : Type} (x : List α) (indexPos : UInt32) (s : Elsewhere α) : Option (List α) × Elsewhere α :=
  (s.answers.head?, ⟨s.answers.tail, s.calls ++ [(x, indexPos)]⟩)

/-- The rows that have been sent. -/
def Elsewhere.sent {α : Type} (s : Elsewhere α) : List (List α) := s.calls.map Prod.fst

/-- The model without its layers. START and END are not part of it. -/
def LlamaModel.rootParts {d : LlamaDims} {F L σ : Type} (m : LlamaModel d F L σ) :
    ChatParts (σ × Elsewhere (Row F d.hiddenSize)) (List (Row F d.hiddenSize)) where
  encode := m.encode
  start _ s := (true, s)
  pre input s := (input.mapM m.wte, s)
  forward _ x indexPos s :=
    let (y, elsewhere) := s.2.forward x indexPos
    (y, s.1, elsewhere)
  sample penalized y s :=
    match y.getLast? with
    | none => (none, s)
    | some row =>
      let (next, t) := m.sample penalized (m.logits row) s.1
      (next, t, s.2)
  emit token s :=
    let (emitted, t) := m.emit token s.1
    (emitted, t, s.2)
  decodeRest s :=
    let (emitted, t) := m.decodeRest s.1
    (emitted, t, s.2)
  finish s := s
  eos := m.eos

end Dllm
