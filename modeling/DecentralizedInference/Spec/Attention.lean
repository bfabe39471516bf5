import Mathlib.Algebra.BigOperators.Fin
import DecentralizedInference.Lib.ForLoop
import DecentralizedInference.Lib.Stages

/-! The layers of `crates/models/src/llama/internal` and of `crates/models/src/phi3`, with the
caches for keys and values that a session fills. A tensor is a list of rows, one for each position
of the one sequence in a batch. What `candle` makes of numbers and tensors is given to the layers. -/

namespace Dllm

abbrev Row (F : Type) (n : ℕ) := Fin n → F

/-- A row that is cut into heads. -/
abbrev HeadRows (F : Type) (heads dim : ℕ) := Fin heads → Row F dim

/-- What a position has for each head: a number for each of the keys. -/
abbrev Scores (F : Type) (heads : ℕ) := Fin heads → List F

/-- What `candle` computes: from numbers, in its rotation of a head by the rows of the tables at a
position, and from the tensors of all heads. -/
structure Kernels (F : Type) where
  add : F → F → F
  mul : F → F → F
  silu : F → F
  negInfinity : F
  rope : {dim : ℕ} → ℕ → Row F dim → Row F dim
  /-- `q.matmul(&k.t())`, over the root of the dimension. -/
  scores : {heads dim : ℕ} → List (HeadRows F heads dim) → List (HeadRows F heads dim) → List (Scores F heads)
  /-- `softmax`, along its last dimension. -/
  softmax : {heads : ℕ} → List (Scores F heads) → List (Scores F heads)
  /-- `att.matmul(&v)`. -/
  weigh : {heads dim : ℕ} → List (Scores F heads) → List (HeadRows F heads dim) → List (HeadRows F heads dim)

section Attention

variable {F : Type} {heads dim : ℕ}

/-- `mask` of `Cache` and of `Phi3LayersWorker`: the positions that a position must not see. -/
def causalMask (t : ℕ) : List (List Bool) := (List.range t).map fun i => (List.range t).map fun j => decide (j > i)

/-- `masked_fill` with minus infinity, of the scores of one position and head. -/
def Kernels.maskedRow (k : Kernels F) (mask : List Bool) (att : List F) : List F :=
  List.zipWith (fun m a => if m then k.negInfinity else a) mask att

/-- `masked_fill`, with the mask for all heads. -/
def Kernels.maskedFill (k : Kernels F) (mask : List (List Bool)) (att : List (Scores F heads)) : List (Scores F heads) :=
  List.zipWith (fun mask att h => k.maskedRow mask (att h)) mask att

/-- The attention of all queries to all keys. A mask for `t` positions has the shape of the scores
if there are as many queries and as many keys, and cannot be broadcast to it otherwise. -/
def attention (k : Kernels F) (t : Option ℕ) (q keys values : List (HeadRows F heads dim)) :
    Option (List (HeadRows F heads dim)) :=
  let att := k.scores q keys
  match t with
  | none => some (k.weigh (k.softmax att) values)
  | some t =>
    if t = q.length ∧ t = keys.length then some (k.weigh (k.softmax (k.maskedFill (causalMask t) att)) values) else none

/-- The sum of two tensors. -/
def Kernels.addRows {n : ℕ} (k : Kernels F) (ys xs : List (Row F n)) : List (Row F n) :=
  List.zipWith (fun y x c => k.add (y c) (x c)) ys xs

end Attention

/-- What `Config` of a Llama model says of its layers. Rows can be cut into heads, and the heads of
the keys shared out among those of the queries. -/
structure LlamaDims where
  hiddenSize : ℕ
  intermediateSize : ℕ
  numAttentionHeads : ℕ
  numKeyValueHeads : ℕ
  maxPositionEmbeddings : UInt32
  heads_dvd : numAttentionHeads ∣ hiddenSize
  kv_dvd : numKeyValueHeads ∣ numAttentionHeads

def LlamaDims.headDim (d : LlamaDims) : ℕ := d.hiddenSize / d.numAttentionHeads

/-- `repeat_kv`: each head comes as often as there are heads of the queries to it. -/
def LlamaDims.repeatKv {α : Type} (d : LlamaDims) (xs : Fin d.numKeyValueHeads → α) : Fin d.numAttentionHeads → α :=
  fun h => xs ⟨h / (d.numAttentionHeads / d.numKeyValueHeads), by
    refine Nat.div_lt_of_lt_mul ?_
    rw [Nat.div_mul_cancel d.kv_dvd]
    exact h.isLt⟩

section Llama

variable {F : Type} {d : LlamaDims}

/-- `CausalSelfAttention`. A linear map is applied to each row of a tensor; its rows are cut into heads
after it, or have been so before. -/
structure CausalSelfAttention (d : LlamaDims) (F : Type) where
  qProj : Row F d.hiddenSize → HeadRows F d.numAttentionHeads d.headDim
  kProj : Row F d.hiddenSize → HeadRows F d.numKeyValueHeads d.headDim
  vProj : Row F d.hiddenSize → HeadRows F d.numKeyValueHeads d.headDim
  oProj : HeadRows F d.numAttentionHeads d.headDim → Row F d.hiddenSize

/-- `Mlp`, whose linear maps are applied to each row as well, and so are the norms of a block. -/
structure LlamaMlp (d : LlamaDims) (F : Type) where
  cFc1 : Row F d.hiddenSize → Row F d.intermediateSize
  cFc2 : Row F d.hiddenSize → Row F d.intermediateSize
  cProj : Row F d.intermediateSize → Row F d.hiddenSize

structure Block (d : LlamaDims) (F : Type) where
  rms1 : Row F d.hiddenSize → Row F d.hiddenSize
  attn : CausalSelfAttention d F
  rms2 : Row F d.hiddenSize → Row F d.hiddenSize
  mlp : LlamaMlp d F

/-- The keys and values that a layer has cached, if any. -/
abbrev Kvs (d : LlamaDims) (F : Type) :=
  Option (List (HeadRows F d.numKeyValueHeads d.headDim) × List (HeadRows F d.numKeyValueHeads d.headDim))

/-- `Cache`, without the tables of its embeddings and the masks that it has made. -/
structure LlamaCache (d : LlamaDims) (F : Type) where
  useKvCache : Bool
  kvs : List (Kvs d F)

def LlamaCache.new (d : LlamaDims) (F : Type) (useKvCache : Bool) (numHiddenLayers : ℕ) : LlamaCache d F :=
  ⟨useKvCache, List.replicate numHiddenLayers none⟩

/-- `forward` on the cached keys and values of its layer. -/
def CausalSelfAttention.forward (attn : CausalSelfAttention d F) (k : Kernels F) (useKvCache : Bool)
    (x : List (Row F d.hiddenSize)) (indexPos : ℕ) (cached : Kvs d F) : Option (List (Row F d.hiddenSize)) × Kvs d F :=
  -- the tables of the embeddings have a row for each position
  if d.maxPositionEmbeddings.toNat < indexPos + x.length then (none, cached)
  else
    let q := x.mapIdx fun i r h => k.rope (indexPos + i) (attn.qProj r h)
    let keys := x.mapIdx fun i r h => k.rope (indexPos + i) (attn.kProj r h)
    let values := x.map attn.vProj
    let before := if useKvCache then cached else none
    -- what is compared with the limit is the number of heads, and what would be cut is the length of each
    if before.isSome = true ∧ d.maxPositionEmbeddings.toNat < d.numKeyValueHeads then (none, cached)
    else
      let keys := (before.getD ([], [])).1 ++ keys
      let values := (before.getD ([], [])).2 ++ values
      let y := attention k (if x.length = 1 then none else some x.length) q (keys.map d.repeatKv) (values.map d.repeatKv)
      (y.map fun y => y.map attn.oProj, if useKvCache then some (keys, values) else cached)

def LlamaMlp.forward (mlp : LlamaMlp d F) (k : Kernels F) (x : Row F d.hiddenSize) : Row F d.hiddenSize :=
  mlp.cProj fun c => k.mul (k.silu (mlp.cFc1 x c)) (mlp.cFc2 x c)

def Block.forward (block : Block d F) (k : Kernels F) (useKvCache : Bool) (x : List (Row F d.hiddenSize)) (indexPos : ℕ)
    (cached : Kvs d F) : Option (List (Row F d.hiddenSize)) × Kvs d F :=
  let (y, cached) := block.attn.forward k useKvCache (x.map block.rms1) indexPos cached
  (y.map fun y =>
    let x := k.addRows y x
    k.addRows (x.map fun r => block.mlp.forward k (block.rms2 r)) x, cached)

/-- A block of the loop, with its index. A cache without a place for it is a panic. -/
def blockTurn (k : Kernels F) (indexPos : ℕ) (block : Block d F × ℕ) (s : List (Row F d.hiddenSize) × LlamaCache d F) :
    LoopTurn (List (Row F d.hiddenSize) × LlamaCache d F) :=
  match s.2.kvs[block.2]? with
  | none => .leave s
  | some cached =>
    match block.1.forward k s.2.useKvCache s.1 indexPos cached with
    | (none, cached) => .leave (s.1, { s.2 with kvs := s.2.kvs.set block.2 cached })
    | (some x, cached) => .next (x, { s.2 with kvs := s.2.kvs.set block.2 cached })

/-- `LlamaLayers::forward`. -/
def llamaForward (blocks : List (Block d F)) (k : Kernels F) (x : List (Row F d.hiddenSize)) (indexPos : ℕ)
    (cache : LlamaCache d F) : Option (List (Row F d.hiddenSize)) × LlamaCache d F :=
  match forEach (blockTurn k indexPos) blocks.zipIdx (x, cache) with
  | .leave s => (none, s.2)
  | .brk s => (some s.1, s.2)
  | .next s => (some s.1, s.2)

end Llama

/-- What the file of a Phi3 model says of its layers. The keys are cut into as many heads as the
queries, so a model with fewer heads for them does not get that far. -/
structure Phi3Dims where
  embeddingLength : ℕ
  iSize : ℕ
  nHead : ℕ
  maxSeqLen : UInt32
  heads_dvd : nHead ∣ embeddingLength

def Phi3Dims.headDim (d : Phi3Dims) : ℕ := d.embeddingLength / d.nHead

section Phi3

variable {F : Type} {d : Phi3Dims}

structure Phi3Mlp (d : Phi3Dims) (F : Type) where
  ffnUp : Row F d.embeddingLength → Row F (d.iSize + d.iSize)
  ffnDown : Row F d.iSize → Row F d.embeddingLength

/-- `LayerWeights`; the row that `attn_qkv` gives is cut into heads. -/
structure LayerWeights (d : Phi3Dims) (F : Type) where
  attnQkv : Row F d.embeddingLength → HeadRows F (d.nHead + d.nHead + d.nHead) d.headDim
  attnOutput : HeadRows F d.nHead d.headDim → Row F d.embeddingLength
  attnNorm : Row F d.embeddingLength → Row F d.embeddingLength
  ffnNorm : Row F d.embeddingLength → Row F d.embeddingLength
  mlp : Phi3Mlp d F

/-- `KvCache`, with room for `max_seq_len` positions. -/
abbrev KvCache (d : Phi3Dims) (F : Type) := List (HeadRows F d.nHead d.headDim) × List (HeadRows F d.nHead d.headDim)

def KvCache.append (keys values : List (HeadRows F d.nHead d.headDim)) (cache : KvCache d F) : Option (KvCache d F) :=
  if d.maxSeqLen.toNat < cache.1.length + keys.length then none else some (cache.1 ++ keys, cache.2 ++ values)

/-- The mask that `Phi3LayersWorker::forward` makes, for as many positions as are said to come. -/
def phi3Mask (seqLen : UInt32) : Option ℕ := if seqLen = 1 then none else some seqLen.toNat

/-- `forward_attn`, with the mask for so many positions if there is one. -/
def LayerWeights.forwardAttn (layer : LayerWeights d F) (k : Kernels F) (x : List (Row F d.embeddingLength)) (mask : Option ℕ)
    (indexPos : ℕ) (cache : KvCache d F) : Option (List (Row F d.embeddingLength)) × KvCache d F :=
  if d.maxSeqLen.toNat < indexPos + x.length then (none, cache)
  else
    let qkv := x.map layer.attnQkv
    let q := qkv.mapIdx fun i r h => k.rope (indexPos + i) (r (Fin.castAdd _ (Fin.castAdd _ h)))
    let keys := qkv.mapIdx fun i r h => k.rope (indexPos + i) (r (Fin.castAdd _ (Fin.natAdd _ h)))
    let values := qkv.map fun r h => r (Fin.natAdd _ h)
    match cache.append keys values with
    | none => (none, cache)
    | some cache => ((attention k mask q cache.1 cache.2).map fun y => y.map layer.attnOutput, cache)

def Phi3Mlp.forward (mlp : Phi3Mlp d F) (k : Kernels F) (x : Row F d.embeddingLength) : Row F d.embeddingLength :=
  let upStates := mlp.ffnUp x
  mlp.ffnDown fun c => k.mul (upStates (Fin.natAdd _ c)) (k.silu (upStates (Fin.castAdd _ c)))

/-- The loop body of `Phi3LayersWorker::forward`. -/
def LayerWeights.forward (layer : LayerWeights d F) (k : Kernels F) (mask : Option ℕ) (xs : List (Row F d.embeddingLength))
    (indexPos : ℕ) (cache : KvCache d F) : Option (List (Row F d.embeddingLength)) × KvCache d F :=
  let (ys, cache) := layer.forwardAttn k (xs.map layer.attnNorm) mask indexPos cache
  (ys.map fun ys =>
    let ys := k.addRows ys xs
    k.addRows (ys.map fun r => layer.mlp.forward k (layer.ffnNorm r)) ys, cache)

end Phi3
end Dllm
