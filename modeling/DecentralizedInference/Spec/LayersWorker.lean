import DecentralizedInference.Lib.Keyed
import DecentralizedInference.Spec.Attention
import DecentralizedInference.Spec.ChatRun

/-! `LlamaLayersWorker` and `Phi3LayersWorker` of `crates/models/src`, the layers that a node has
loaded. Calls of different sessions come in any order; each of them runs without a wait. -/

namespace Dllm

/-- The trait `ModelLayersWorker`. -/
structure LayersWorker (W E : Type) where
  sessions : LayerSessions W
  forward : LayersForward W E

inductive WorkerCall (E : Type) where
  | start (session : UInt64)
  | forward (session : UInt64) (step : UInt32) (x : E × UInt32) (indexPos : UInt32)
  | finish (session : UInt64)

def WorkerCall.session {E : Type} : WorkerCall E → UInt64
  | start session => session
  | forward session _ _ _ => session
  | finish session => session

/-- A forward that panics or returns an error gives nothing. -/
inductive WorkerAnswer (E : Type) where
  | started (ok : Bool)
  | forwarded (y : Option (E × UInt32))
  | finished

def LayersWorker.call {W E : Type} (w : LayersWorker W E) : WorkerCall E → W → WorkerAnswer E × W
  | .start session, s =>
    let (ok, s) := w.sessions.start session s
    (.started ok, s)
  | .forward session step x indexPos, s =>
    let (y, s) := w.forward session step x indexPos s
    (.forwarded y, s)
  | .finish session, s => (.finished, w.sessions.finish session s)

section Workers

variable {F : Type}

/-- `LlamaLayersWorker`, with a cache for each session. -/
def llamaLayersWorker {d : LlamaDims} (k : Kernels F) (blocks : List (Block d F)) (numHiddenLayers : ℕ) :
    LayersWorker (SharedHashMap UInt64 (LlamaCache d F)) (List (Row F d.hiddenSize)) where
  sessions := cacheSessions (.new d F true numHiddenLayers)
  forward := cacheForward fun x indexPos cache => llamaForward blocks k x.1 indexPos.toNat cache

/-- `LayersCache`: a map of sessions for each layer. -/
abbrev LayersCache (d : Phi3Dims) (F : Type) := List (SharedHashMap UInt64 (KvCache d F))

namespace LayersCache

variable {d : Phi3Dims}

def addCache (idx : ℕ) (session : UInt64) (caches : LayersCache d F) : LayersCache d F :=
  caches.modify idx fun m => m.insert session ([], [])

def getCache (idx : ℕ) (session : UInt64) (caches : LayersCache d F) : Option (KvCache d F) :=
  caches[idx]?.bind fun m => m.getClone session

/-- What `forward_attn` does to the cache that it has got. -/
def setCache (idx : ℕ) (session : UInt64) (cache : KvCache d F) (caches : LayersCache d F) : LayersCache d F :=
  caches.modify idx fun m => m.insert session cache

def delCache (idx : ℕ) (session : UInt64) (caches : LayersCache d F) : LayersCache d F :=
  caches.modify idx fun m => m.remove session

end LayersCache

/-- A layer of the loop in `Phi3LayersWorker::forward`, with its index. -/
def layerTurn {d : Phi3Dims} (k : Kernels F) (session : UInt64) (mask : Option ℕ) (indexPos : ℕ)
    (layer : LayerWeights d F × ℕ) (s : List (Row F d.embeddingLength) × LayersCache d F) :
    LoopTurn (List (Row F d.embeddingLength) × LayersCache d F) :=
  match s.2.getCache layer.2 session with
  | none => .leave s
  | some cache =>
    match layer.1.forward k mask s.1 indexPos cache with
    | (none, cache) => .leave (s.1, s.2.setCache layer.2 session cache)
    | (some xs, cache) => .next (xs, s.2.setCache layer.2 session cache)

/-- `Phi3LayersWorker`. -/
def phi3LayersWorker {d : Phi3Dims} (k : Kernels F) (layers : List (LayerWeights d F)) :
    LayersWorker (LayersCache d F) (List (Row F d.embeddingLength)) where
  sessions := {
    start session c := (true, (List.range layers.length).foldl (fun c idx => c.addCache idx session) c)
    finish session c := (List.range layers.length).foldl (fun c idx => c.delCache idx session) c }
  forward session _ x indexPos c :=
    match forEach (layerTurn k session (phi3Mask x.2) indexPos.toNat) layers.zipIdx (x.1, c) with
    | .leave s => (none, s.2)
    | .brk s => (some (s.1, x.2), s.2)
    | .next s => (some (s.1, x.2), s.2)

end Workers

/-- `LlamaLayers::load`, from the weights of all layers. -/
def loadLayers {F : Type} {d : LlamaDims} (vb : ℕ → Block d F) (range : Range) : List (Block d F) := range.layers.map vb

/-- Rows that the root feeds to the chain of a session, one piece after the other and each at its
position, and the answers that `VirtualModelLayers::forward` reads. -/
inductive World.Feeds {Node S W α : Type} {N : ℕ} [DecidableEq Node] (w : World Node S W N) (buf : TensorBuf (List α))
    (layers : Node → LayersForward W (List α)) (other : Net Node S W → Node × Part Node N → Net Node S W → Prop)
    (root : Node) (session : UInt64) (net : Net Node S W) :
    List (Node × Part Node N) → Net Node S W → List (List α) → List (List α) → Prop
  | none : Feeds w buf layers other root session net [] net [] []
  | more {es es' : List (Node × Part Node N)} {net₁ net₂ : Net Node S W} {pieces answers : List (List α)} {step : UInt32}
      {xs ys : List α} {res : ForwardRes} {vs : List (Visit Node S W ForwardReq ForwardRes)}
      (hbefore : Feeds w buf layers other root session net es net₁ pieces answers)
      (hserved : Served (w.forwardFirst buf layers) w.forwardLast other 0 root
        (VirtualModelLayers.forwardReq session step (buf.toVec xs) (.ofNat xs.length) (.ofNat pieces.flatten.length))
        net₁ es' res net₂ vs)
      (hsuccess : res.success = true) (hanswer : buf.toTensor res.embedding = some ys) :
      Feeds w buf layers other root session net (es ++ es') net₂ (pieces ++ [xs]) (answers ++ [ys])

end Dllm
