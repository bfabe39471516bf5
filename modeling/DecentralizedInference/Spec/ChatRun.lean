import DecentralizedInference.Lib.Run
import DecentralizedInference.Spec.ChainCalls

/-! A chat from its start to its end, in a network that serves other chats at the same
time. Between any two parts of a call that a node runs without a wait, other nodes and the
same one may run parts of calls of other chats. -/

namespace Dllm

/-- `start` and `finish` of `LlamaLayersWorker` and of `Phi3LayersWorker`, whose caches for
a session, one or one a layer, come and go together. -/
def cacheSessions {K : Type} (new : K) : LayerSessions (SharedHashMap UInt64 K) where
  start session caches := (true, caches.insert session new)
  finish session caches := caches.remove session

/-- Their `forward`, which runs the layers of the `model` on the cache of the session. -/
def cacheForward {K E : Type} (model : E × UInt32 → UInt32 → K → Option E × K) :
    LayersForward (SharedHashMap UInt64 K) E :=
  fun session _ x indexPos caches =>
    match caches.getClone session with
    | none => (none, caches)
    | some cache =>
      let (y, cache) := model x indexPos cache
      (y.map fun y => (y, x.2), caches.insert session cache)

/-- A part of a call that a `ModelService` runs before or after it waits for the next node. -/
inductive Part (Node : Type) (N : ℕ) where
  | startBegin (router : RouteTable Node N) (remoteSession : UInt64) (req : StartReq)
  | startEnd (req : StartReq) (res : StartRes)
  | forwardBegin (req : ForwardReq)
  | forwardEnd (chatId : UInt64) (req : ForwardReq) (res : ForwardRes)
  | endBegin (req : EndReq)
  | endEnd (chatId : UInt64) (req : EndReq) (res : EndRes)

namespace Part

variable {Node S W E : Type} {N : ℕ}

/-- What a part makes of the node, with whatever result. -/
def run (usage : WorkerUsageService S) (worker : LayerSessions W) (buf : TensorBuf E) (forward : LayersForward W E) :
    Part Node N → NodeState Node S W → NodeState Node S W
  | startBegin router remoteSession req, st => (ModelService.startBegin usage worker router remoteSession req st).2
  | startEnd req res, st => (ModelService.startEnd usage req res st).2
  | forwardBegin req, st => (ModelService.forwardBegin usage buf forward req st).2
  | forwardEnd chatId req res, st => (ModelService.forwardEnd usage chatId req res st).2
  | endBegin req, st => (ModelService.endBegin usage worker req st).2
  | endEnd chatId req res, st => (ModelService.endEnd usage chatId req res st).2

/-- The session that a part looks up or stores. -/
def session : Part Node N → Option UInt64
  | startBegin _ _ req => some req.session
  | forwardBegin req => some req.session
  | endBegin req => some req.session
  | startEnd .. | forwardEnd .. | endEnd .. => none

/-- A part of another chat's call: it has a session of its own, and another chat. -/
def Foreign (ids : List UInt64) (chat : UInt64) : Part Node N → Prop
  | startBegin _ _ req => req.session ∉ ids ∧ req.chatId ≠ chat
  | startEnd req _ => req.chatId ≠ chat
  | forwardBegin req => req.session ∉ ids
  | forwardEnd chatId _ _ => chatId ≠ chat
  | endBegin req => req.session ∉ ids
  | endEnd chatId _ _ => chatId ≠ chat

instance (ids : List UInt64) (chat : UInt64) : (part : Part Node N) → Decidable (part.Foreign ids chat)
  | startBegin _ _ req => inferInstanceAs (Decidable (req.session ∉ ids ∧ req.chatId ≠ chat))
  | startEnd req _ => inferInstanceAs (Decidable (req.chatId ≠ chat))
  | forwardBegin req => inferInstanceAs (Decidable (req.session ∉ ids))
  | forwardEnd chatId _ _ => inferInstanceAs (Decidable (chatId ≠ chat))
  | endBegin req => inferInstanceAs (Decidable (req.session ∉ ids))
  | endEnd chatId _ _ => inferInstanceAs (Decidable (chatId ≠ chat))

end Part

/-- The call `req` at the node `n` is answered with `res`, and so are all the calls that it
makes. It takes the network from one state to another, with the events `es` of others in
between. -/
inductive Served {Node S W Req Res Ctx ε : Type} [DecidableEq Node]
    (first : ℕ → Node → Req → NodeState Node S W → Outcome (NodeState Node S W) (Ctx × Progress Node Req Res))
    (last : Node → Ctx → Req → Res → NodeState Node S W → Outcome (NodeState Node S W) Res)
    (other : Net Node S W → ε → Net Node S W → Prop) :
    ℕ → Node → Req → Net Node S W → List ε → Res → Net Node S W → List (Visit Node S W Req Res) → Prop
  | replies {hop : ℕ} {n : Node} {req : Req} {net net₀ : Net Node S W} {es : List ε} {ctx : Ctx} {res : Res}
      {st : NodeState Node S W} (hbefore : Run other net es net₀)
      (hfirst : first hop n req (net₀ n) = (.ok (ctx, .reply res), st)) :
      Served first last other hop n req net es res (Function.update net₀ n st) [⟨n, req, .reply res, st⟩]
  | ends {hop : ℕ} {n : Node} {req req' : Req} {net net₀ net₁ net' : Net Node S W} {es es' : List ε} {ctx : Ctx}
      {res res' : Res} {st : NodeState Node S W} (hbefore : Run other net es net₀)
      (hfirst : first hop n req (net₀ n) = (.ok (ctx, .proceed req' res none), st))
      (hmeanwhile : Run other (Function.update net₀ n st) es' net₁)
      (hlast : finishAt last n ctx req' res net₁ = (.returned res', net')) :
      Served first last other hop n req net (es ++ es') res' net' [⟨n, req, .proceed req' res none, st⟩]
  | answered {hop : ℕ} {n : Node} {req req' : Req} {net net₀ net₁ net₂ net' : Net Node S W} {es es₁ es₂ : List ε}
      {ctx : Ctx} {res answer res' : Res} {d : Downstream Node Req} {st : NodeState Node S W}
      {vs : List (Visit Node S W Req Res)} (hbefore : Run other net es net₀)
      (hfirst : first hop n req (net₀ n) = (.ok (ctx, .proceed req' res (some d)), st))
      (hrest : Served first last other (hop + 1) d.dest d.req (Function.update net₀ n st) es₁ answer net₁ vs)
      (hmeanwhile : Run other net₁ es₂ net₂)
      (hlast : finishAt last n ctx req' answer net₂ = (.returned res', net')) :
      Served first last other hop n req net (es ++ es₁ ++ es₂) res' net'
        (⟨n, req, .proceed req' res (some d), st⟩ :: vs)

namespace VirtualModelLayers

def forwardReq (session : UInt64) (step : UInt32) (embedding : List UInt8) (seqLen indexPos : UInt32) : ForwardReq :=
  { session, embedding, step, seqLen, indexPos, metadata := [], chainIndex := 0 }

def endReq (session : UInt64) : EndReq := { session, metadata := [], chainIndex := 0 }

end VirtualModelLayers

/-- The session ids of a chat: those of the STARTs along its chain. -/
def chatIds {Node S W : Type} (starts : List (Visit Node S W StartReq StartRes)) : List UInt64 :=
  starts.map fun v => v.req.session

namespace World

variable {Node S W E : Type} {N : ℕ} [DecidableEq Node]

/-- The two parts of `forward`. -/
def forwardFirst (w : World Node S W N) (buf : TensorBuf E) (layers : Node → LayersForward W E) (_ : ℕ) (n : Node)
    (req : ForwardReq) (st : NodeState Node S W) :
    Outcome (NodeState Node S W) (UInt64 × Progress Node ForwardReq ForwardRes) :=
  ModelService.forwardBegin (w.usage n).toWorkerUsageService buf (layers n) req st

def forwardLast (w : World Node S W N) (n : Node) (chatId : UInt64) (req : ForwardReq) (res : ForwardRes)
    (st : NodeState Node S W) : Outcome (NodeState Node S W) ForwardRes :=
  ModelService.forwardEnd (w.usage n).toWorkerUsageService chatId req res st

/-- A node runs a part of a call. -/
def does (w : World Node S W N) (buf : TensorBuf E) (layers : Node → LayersForward W E) (e : Node × Part Node N)
    (net : Net Node S W) : Net Node S W :=
  Function.update net e.1
    (e.2.run (w.usage e.1).toWorkerUsageService (w.worker e.1) buf (layers e.1) (net e.1))

/-- The part does not belong to the chat with these session ids. -/
def Other (w : World Node S W N) (buf : TensorBuf E) (layers : Node → LayersForward W E) (ids : List UInt64)
    (chat : UInt64) (net : Net Node S W) (e : Node × Part Node N) (net' : Net Node S W) : Prop :=
  e.2.Foreign ids chat ∧ net' = w.does buf layers e net

/-- Forwards of a session that the root asks for one after the other and that all succeed,
with the visits of each. -/
inductive Forwards (w : World Node S W N) (buf : TensorBuf E) (layers : Node → LayersForward W E)
    (other : Net Node S W → Node × Part Node N → Net Node S W → Prop) (root : Node) (session : UInt64)
    (net : Net Node S W) :
    List (Node × Part Node N) → Net Node S W → List (List (Visit Node S W ForwardReq ForwardRes)) → Prop
  | none : Forwards w buf layers other root session net [] net []
  | more {es es' : List (Node × Part Node N)} {net₁ net₂ : Net Node S W}
      {rounds : List (List (Visit Node S W ForwardReq ForwardRes))} {step seqLen indexPos : UInt32}
      {embedding : List UInt8} {res : ForwardRes} {vs : List (Visit Node S W ForwardReq ForwardRes)}
      (hbefore : Forwards w buf layers other root session net es net₁ rounds)
      (hserved : Served (w.forwardFirst buf layers) w.forwardLast other 0 root
        (VirtualModelLayers.forwardReq session step embedding seqLen indexPos) net₁ es' res net₂ vs)
      (hsuccess : res.success = true) :
      Forwards w buf layers other root session net (es ++ es') net₂ (rounds ++ [vs])

/-- A chat of the root: a start that succeeds, forwards that all do, and an end that
returns. -/
inductive Chat (w : World Node S W N) (buf : TensorBuf E) (layers : Node → LayersForward W E) (root : Node)
    (session : UInt64) (maxLen : UInt32) (starts : List (Visit Node S W StartReq StartRes)) (net : Net Node S W) :
    List (Node × Part Node N) → Net Node S W → List (List (Visit Node S W ForwardReq ForwardRes)) → Prop
  | completed {es es₁ es₂ : List (Node × Part Node N)} {net₁ net₂ net₃ : Net Node S W} {res : StartRes} {res' : EndRes}
      {rounds : List (List (Visit Node S W ForwardReq ForwardRes))} {ends : List (Visit Node S W EndReq EndRes)}
      (hstart : Served w.startFirst w.startLast (w.Other buf layers (chatIds starts) session) 0 root
        (VirtualModelLayers.startReq session maxLen) net es res net₁ starts)
      (hsuccess : res.success = true)
      (hforwards : Forwards w buf layers (w.Other buf layers (chatIds starts) session) root session net₁ es₁ net₂ rounds)
      (hend : Served w.endFirst w.endLast (w.Other buf layers (chatIds starts) session) 0 root
        (VirtualModelLayers.endReq session) net₂ es₂ res' net₃ ends) :
      Chat w buf layers root session maxLen starts net (es ++ es₁ ++ es₂) net₃ rounds

end World
end Dllm
