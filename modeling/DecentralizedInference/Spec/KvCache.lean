import DecentralizedInference.Spec.Chat

/-! The caches for keys and values that the layers of a chat fill, as
`CausalSelfAttention::forward` of `crates/models/src/llama` and `LayerWeights::forward_attn` of
`crates/models/src/phi3` do. Of a key and its value, a cache holds here the position that it was
rotated by. -/

namespace Dllm

/-- The layers of a model, along a chain of nodes or at one, and the rows of its tables of
rotary embeddings. -/
structure LayersConfig where
  layers : ℕ
  layers_pos : 0 < layers
  maxSeqLen : UInt32

/-- What `pre` makes of tokens, with their `seq_len`. -/
structure Embedding (E : Type) where
  ids : List UInt32
  tensor : E
  seqLen : UInt32

/-- A call of the layers, with what their caches hold when it arrives. -/
structure FedCall where
  ids : List UInt32
  seqLen : UInt32
  indexPos : UInt32
  caches : List (List ℕ)
deriving DecidableEq, Repr

/-- A model with the caches of its layers and, for the observer, the calls that these have had. -/
structure CachedState (σ : Type) where
  parts : σ
  caches : List (List ℕ) := []
  calls : List FedCall := []

/-- The attention of a layer. There must be a row of the tables for every position, and then the
cache has the positions appended to it. -/
def forwardAttn (maxSeqLen : UInt32) (seqLen indexPos : ℕ) (cache : List ℕ) : Option (List ℕ) :=
  if indexPos + seqLen ≤ maxSeqLen.toNat then some (cache ++ List.range' indexPos seqLen) else none

/-- A model whose layers have caches, new ones for every chat. What a call that fails leaves in them
does not matter, since it is the last of its chat. -/
def ChatParts.withCaches {σ E : Type} (m : ChatParts σ E) (cfg : LayersConfig) :
    ChatParts (CachedState σ) (Embedding E) where
  encode := m.encode
  start maxLen s :=
    let (ok, parts) := m.start maxLen s.parts
    (ok, { s with parts, caches := List.replicate cfg.layers [] })
  pre input s :=
    let (x, parts) := m.pre input s.parts
    (x.map fun tensor => { ids := input, tensor, seqLen := .ofNat input.length }, { s with parts })
  forward step x indexPos s :=
    let calls := s.calls ++ [{ ids := x.ids, seqLen := x.seqLen, indexPos, caches := s.caches }]
    match s.caches.mapM (forwardAttn cfg.maxSeqLen x.ids.length indexPos.toNat) with
    | none => (none, { s with calls })
    | some caches =>
      let (y, parts) := m.forward step x.tensor indexPos s.parts
      (y.map fun tensor => { x with tensor }, { parts, caches, calls })
  sample penalized y s :=
    let (next, parts) := m.sample penalized y.tensor s.parts
    (next, { s with parts })
  emit token s :=
    let (emitted, parts) := m.emit token s.parts
    (emitted, { s with parts })
  decodeRest s :=
    let (emitted, parts) := m.decodeRest s.parts
    (emitted, { s with parts })
  finish s := { s with parts := m.finish s.parts, caches := [] }
  eos := m.eos

end Dllm
