import DecentralizedInference.Spec.Chat
import DecentralizedInference.Spec.OnReq

/-! `VirtualModelLayers` of `crates/worker/src/virtual_model_layers.rs`, the layers of a chat
at the node that runs it: each call goes to the node's own `ModelService`. -/

namespace Dllm

/-- What a call meets at its node: what other tasks have done there since the last one, the
table and the session id drawn for a START, what they do while it waits for the next node of
the chain, and how it fares there. -/
structure CallSetting (Node S W : Type) (N : ℕ) where
  before : NodeState Node S W → NodeState Node S W
  router : RouteTable Node N
  remoteSession : UInt64
  meanwhile : NodeState Node S W → NodeState Node S W
  wait : RpcWait

/-- The node and how often it has been called. -/
structure VirtualState (Node S W : Type) where
  node : NodeState Node S W
  calls : ℕ

/-- `VirtualModelLayers` as its node sees it, where the rest of the chain is what the calls meet. -/
structure VirtualLayers (Node S W E : Type) (N : ℕ) where
  modelService : ServiceEnv S W E
  setting : ℕ → CallSetting Node S W N

namespace VirtualLayers

variable {Node S W E : Type} {N : ℕ}

/-- `none` for a call that panics or never ends. -/
def call (v : VirtualLayers Node S W E N) (c : VirtualCall) (s : VirtualState Node S W) :
    Option ServiceRes × VirtualState Node S W :=
  let setting := v.setting s.calls
  match v.modelService.run setting.router setting.remoteSession c.req setting.meanwhile setting.wait
      (setting.before s.node) with
  | (.returned res, node) => (some res, ⟨node, s.calls + 1⟩)
  | (_, node) => (none, ⟨node, s.calls + 1⟩)

def start (v : VirtualLayers Node S W E N) (session : UInt64) (maxLen : UInt32) (s : VirtualState Node S W) :
    Bool × VirtualState Node S W :=
  match v.call (.start session maxLen) s with
  | (some (.start res), s) => (res.success, s)
  | (_, s) => (false, s)

def forward (v : VirtualLayers Node S W E N) (session : UInt64) (step : UInt32) (x : E × UInt32)
    (indexPos : UInt32) (s : VirtualState Node S W) : Option (E × UInt32) × VirtualState Node S W :=
  let (tensor, seqLen) := x
  match v.call (.forward session step (v.modelService.buf.toVec tensor) seqLen indexPos) s with
  | (some (.forward res), s) =>
    if res.success then ((v.modelService.buf.toTensor res.embedding).map fun y => (y, seqLen), s) else (none, s)
  | (_, s) => (none, s)

def finish (v : VirtualLayers Node S W E N) (session : UInt64) (s : VirtualState Node S W) :
    VirtualState Node S W := (v.call (.finish session) s).2

end VirtualLayers

/-- A model whose layers are behind `VirtualModelLayers`. Its other parts do not touch the
node. -/
def ChatParts.overVirtual {Node S W E σ : Type} {N : ℕ} (m : ChatParts σ (E × UInt32))
    (v : VirtualLayers Node S W E N) (session : UInt64) :
    ChatParts (σ × VirtualState Node S W) (E × UInt32) where
  encode := m.encode
  start maxLen s :=
    let (ok, t) := v.start session maxLen s.2
    (ok, s.1, t)
  pre input s :=
    let (x, p) := m.pre input s.1
    (x, p, s.2)
  forward step x indexPos s :=
    let (y, t) := v.forward session step x indexPos s.2
    (y, s.1, t)
  sample penalized y s :=
    let (next, p) := m.sample penalized y s.1
    (next, p, s.2)
  emit token s :=
    let (emitted, p) := m.emit token s.1
    (emitted, p, s.2)
  decodeRest s :=
    let (emitted, p) := m.decodeRest s.1
    (emitted, p, s.2)
  finish s := (s.1, v.finish session s.2)
  eos := m.eos

end Dllm
