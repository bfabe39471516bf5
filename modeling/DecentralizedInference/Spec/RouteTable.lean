import DecentralizedInference.Lib.Assoc
import DecentralizedInference.Spec.Basic

/-! The route table of `crates/model-router/src/table.rs`. A table holds, for
each model layer, the peers that offer a chain from this layer to the end of the
model, and caches the cheapest of them. -/

namespace Dllm

/-- A route is removed after this many milliseconds without an update. -/
def ROUTE_TIMEOUT_MS : ℕ := 5000

structure LayerRemoteInfo where
  cost : ℕ
  lastUpdated : ℕ
deriving DecidableEq, Repr

/-- The remote part of a `RoutePath`, a tuple in the source. -/
structure RemoteHop (Node : Type) where
  dest : Node
  layers : Range
  cost : ℕ
  lastUpdated : ℕ
deriving DecidableEq, Repr

/-- The source's field `local` is `localRange`. -/
structure RoutePath (Node : Type) where
  localRange : Option Range
  remote : Option (RemoteHop Node)
deriving DecidableEq, Repr

def RoutePath.cost {Node : Type} (p : RoutePath Node) : ℕ :=
  match p.remote with
  | some r => r.cost
  | none => 0

def RoutePath.lastUpdated {Node : Type} (p : RoutePath Node) : Option ℕ :=
  match p.remote with
  | some r => some r.lastUpdated
  | none => none

/-- One `Option<LayerRemoteInfo>` per layer. -/
structure RouteSync where
  layers : List (Option LayerRemoteInfo)
deriving DecidableEq, Repr

structure LayerRemotePaths (Node : Type) where
  remotes : AList fun _ : Node => LayerRemoteInfo
  next : Option (Node × LayerRemoteInfo)

/-- The iteration order of one layer's `remotes`. -/
abbrev RemoteOrder (Node : Type) := IterOrder (Σ _ : Node, LayerRemoteInfo)

namespace LayerRemotePaths

variable {Node : Type}

def empty : LayerRemotePaths Node := ⟨∅, none⟩

/-- `min_by` returns the first least element of the iteration. -/
def updateBest (ord : RemoteOrder Node) (p : LayerRemotePaths Node) : LayerRemotePaths Node :=
  { p with
    next := ((ord.run p.remotes.entries).argmin fun e => e.2.cost).map fun e => (e.1, e.2) }

variable [DecidableEq Node]

/-- The body of the loop in `on_tick`. -/
def onTick (ord : RemoteOrder Node) (nowMs : ℕ) (p : LayerRemotePaths Node) :
    LayerRemotePaths Node :=
  let kept : LayerRemotePaths Node :=
    { p with
      remotes := p.remotes.retain fun _ info =>
        decide (wrapAdd 64 info.lastUpdated ROUTE_TIMEOUT_MS > nowMs) }
  if kept.remotes.entries.length ≠ p.remotes.entries.length then kept.updateBest ord else kept

/-- The body of the loop in `on_disconnected`. -/
def onDisconnected (ord : RemoteOrder Node) (node : Node) (p : LayerRemotePaths Node) :
    LayerRemotePaths Node :=
  if (p.remotes.lookup node).isSome then
    { p with remotes := p.remotes.erase node }.updateBest ord
  else p

/-- The body of the loop in `apply_sync`; `advertised` is `sync.layers.get(layer)`. -/
def applySync (ord : RemoteOrder Node) (src : Node) (rtt : ℕ)
    (advertised : Option (Option LayerRemoteInfo)) (p : LayerRemotePaths Node) :
    LayerRemotePaths Node :=
  match advertised with
  | some (some info) =>
    { p with
      remotes := p.remotes.insert src { info with cost := wrapAdd 32 info.cost rtt } }.updateBest ord
  | _ => { p with remotes := p.remotes.erase src }.updateBest ord

end LayerRemotePaths

/-- `MODEL_LAYERS` is the parameter `N`. -/
structure RouteTable (Node : Type) (N : ℕ) where
  remoteLayers : Fin N → LayerRemotePaths Node
  localLayers : Range

namespace RouteTable

variable {Node : Type} {N : ℕ}

def new (localLayers : Range) : RouteTable Node N := ⟨fun _ => .empty, localLayers⟩

/-- `self.remote_layers[i]`. -/
def remoteLayer (t : RouteTable Node N) (i : ℕ) : Except Panic (LayerRemotePaths Node) :=
  if h : i < N then .ok (t.remoteLayers ⟨i, h⟩) else .error .indexOutOfBounds

def selectNext (t : RouteTable Node N) (nextLayer : ℕ) :
    Except Panic (Option (RoutePath Node)) :=
  if t.localLayers.contains nextLayer then
    -- some layers can be processed here
    if t.localLayers.stop = N then
      .ok (some ⟨some ⟨nextLayer, N⟩, none⟩)
    else do
      let route ← t.remoteLayer t.localLayers.stop
      return route.next.map fun (dest, info) =>
        ⟨some ⟨nextLayer, t.localLayers.stop⟩,
          some ⟨dest, ⟨t.localLayers.stop, N⟩, info.cost, info.lastUpdated⟩⟩
  else do
    let route ← t.remoteLayer nextLayer
    return route.next.map fun (dest, info) =>
      ⟨none, some ⟨dest, ⟨nextLayer, N⟩, info.cost, info.lastUpdated⟩⟩

def ready (t : RouteTable Node N) : Except Panic Bool :=
  (t.selectNext 0).map Option.isSome

/-- The body of the loop in `create_sync`. -/
def advertise (t : RouteTable Node N) (nowMs layer : ℕ) :
    Except Panic (Option LayerRemoteInfo) := do
  let route ← t.selectNext layer
  return route.map fun n => ⟨n.cost, n.lastUpdated.getD nowMs⟩

def createSync (t : RouteTable Node N) (nowMs : ℕ) : Except Panic RouteSync := do
  let layers ← (List.range N).mapM (t.advertise nowMs)
  return ⟨layers⟩

variable [DecidableEq Node]

def onTick (ord : ℕ → RemoteOrder Node) (nowMs : ℕ) (t : RouteTable Node N) :
    RouteTable Node N :=
  { t with remoteLayers := fun l => (t.remoteLayers l).onTick (ord l) nowMs }

def onDisconnected (ord : ℕ → RemoteOrder Node) (node : Node) (t : RouteTable Node N) :
    RouteTable Node N :=
  { t with remoteLayers := fun l => (t.remoteLayers l).onDisconnected (ord l) node }

def applySync (ord : ℕ → RemoteOrder Node) (src : Node) (rtt : ℕ) (sync : RouteSync)
    (t : RouteTable Node N) : RouteTable Node N :=
  { t with
    remoteLayers := fun l => (t.remoteLayers l).applySync (ord l) src rtt sync.layers[l.val]? }

end RouteTable
end Dllm
