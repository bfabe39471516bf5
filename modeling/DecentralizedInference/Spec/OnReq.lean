import DecentralizedInference.Spec.ModelService

/-! A `ModelService` among its callers: `on_req`, which serves the requests of peers, the
requests that `VirtualModelLayers` issues at the node itself, and the tasks of both that
wait for the answer of the next node of a chain. -/

namespace Dllm

structure RpcReq where
  seq : UInt32
  cmd : String
  payload : List UInt8
deriving DecidableEq, Repr

structure RpcRes where
  seq : UInt32
  success : Bool
  payload : List UInt8
deriving DecidableEq, Repr

/-- `prost::Message`. -/
structure MessageCodec (α : Type) where
  encode : α → List UInt8
  decode : List UInt8 → Option α

/-- The messages of `llm.proto` on the wire. -/
structure LlmCodec where
  startReq : MessageCodec StartReq
  startRes : MessageCodec StartRes
  forwardReq : MessageCodec ForwardReq
  forwardRes : MessageCodec ForwardRes
  endReq : MessageCodec EndReq
  endRes : MessageCodec EndRes

/-- A call of `start`, `forward` or `end`. -/
inductive ServiceReq where
  | start (req : StartReq)
  | forward (req : ForwardReq)
  | finish (req : EndReq)
deriving DecidableEq, Repr

inductive ServiceRes where
  | start (res : StartRes)
  | forward (res : ForwardRes)
  | finish (res : EndRes)
deriving DecidableEq, Repr

namespace LlmCodec

def encodeReq (c : LlmCodec) : ServiceReq → String × List UInt8
  | .start req => ("START", c.startReq.encode req)
  | .forward req => ("FORWARD", c.forwardReq.encode req)
  | .finish req => ("END", c.endReq.encode req)

def encodeRes (c : LlmCodec) : ServiceRes → List UInt8
  | .start res => c.startRes.encode res
  | .forward res => c.forwardRes.encode res
  | .finish res => c.endRes.encode res

/-- The call that a request asks for: `none` for a command that is not known, and a panic
for a payload that cannot be decoded. -/
def parse (c : LlmCodec) (req : RpcReq) : Except Panic (Option ServiceReq) :=
  match req.cmd with
  | "START" =>
    match c.startReq.decode req.payload with
    | none => .error .unwrapOnError
    | some r => .ok (some (.start r))
  | "FORWARD" =>
    match c.forwardReq.decode req.payload with
    | none => .error .unwrapOnError
    | some r => .ok (some (.forward r))
  | "END" =>
    match c.endReq.decode req.payload with
    | none => .error .unwrapOnError
    | some r => .ok (some (.finish r))
  | _ => .ok none

end LlmCodec

/-- How `rx.await` in `RpcClientTx::request` fares: it gives a response that has come, or an error
(`none`) when the sender of the channel has been dropped, or it never ends. -/
inductive RpcWait where
  | ends (reply : Option RpcRes)
  | never
deriving DecidableEq, Repr

/-- What `RpcClientTx::request` returns when its wait has ended: the decoded answer, or `none`
for its errors, which are `RPC_ERROR` for a response that is no success, `DECODE_ERROR`, and that
of a dropped channel. -/
def rpcResult {Res : Type} (c : MessageCodec Res) : Option RpcRes → Option Res
  | none => none
  | some res => if res.success then c.decode res.payload else none

/-- A call that waits for the next node, with the answer that stands for a failed
request. -/
inductive Task where
  | start (req : StartReq) (failed : StartRes)
  | forward (chatId : UInt64) (req : ForwardReq) (failed : ForwardRes)
  | finish (chatId : UInt64) (req : EndReq) (failed : EndRes)
deriving DecidableEq, Repr

/-- Who a call is made for. -/
inductive Origin (Node : Type) where
  | peer (node : Node) (seq : UInt32)
  | virtualLayers
deriving DecidableEq, Repr

structure Waiting (Node : Type) where
  origin : Origin Node
  task : Task
deriving DecidableEq, Repr

/-- Where a call stands after its first part. -/
inductive Stage (Node : Type) where
  | answered (res : ServiceRes)
  | waiting (task : Task) (dest : Node) (next : ServiceReq)

/-- What a message from the node is: a request to the next node or an answer to a peer. -/
inductive Outgoing (Node : Type) where
  | request (dest : Node) (cmd : String) (payload : List UInt8)
  | response (dest : Node) (res : RpcRes)
deriving DecidableEq, Repr

/-- What a `ModelService` is made with. -/
structure ServiceEnv (S W E : Type) where
  usage : WorkerUsageService S
  worker : LayerSessions W
  forward : LayersForward W E
  buf : TensorBuf E
  codec : LlmCodec

namespace ServiceEnv

variable {Node S W E Req Res : Type} {N : ℕ}

/-- The rest of a call whose first part is done, up to the request to the next node. -/
def stage (answer : Res → ServiceRes) (task : Req → Res → Task) (call : Req → ServiceReq)
    (finish : Req → Res → NodeState Node S W → Outcome (NodeState Node S W) Res) :
    Progress Node Req Res → NodeState Node S W → Outcome (NodeState Node S W) (Stage Node)
  | .reply res, st => (.ok (.answered (answer res)), st)
  | .proceed req res none, st =>
    let (r, st) := finish req res st
    (r.map fun res => .answered (answer res), st)
  | .proceed req res (some next), st => (.ok (.waiting (task req res) next.dest (call next.req)), st)

/-- A call up to the request to the next node, or to its end if there is no next node. -/
def serve (env : ServiceEnv S W E) (router : RouteTable Node N) (remoteSession : UInt64) :
    ServiceReq → NodeState Node S W → Outcome (NodeState Node S W) (Stage Node)
  | .start req, st =>
    match ModelService.startBegin env.usage env.worker router remoteSession req st with
    | (.error p, st) => (.error p, st)
    | (.ok progress, st) => stage .start .start .start (ModelService.startEnd env.usage) progress st
  | .forward req, st =>
    match ModelService.forwardBegin env.usage env.buf env.forward req st with
    | (.error p, st) => (.error p, st)
    | (.ok (chatId, progress), st) =>
      stage .forward (.forward chatId) .forward (ModelService.forwardEnd env.usage chatId) progress st
  | .finish req, st =>
    match ModelService.endBegin env.usage env.worker req st with
    | (.error p, st) => (.error p, st)
    | (.ok (chatId, progress), st) =>
      stage .finish (.finish chatId) .finish (ModelService.endEnd env.usage chatId) progress st

/-- The rest of a call that has waited for the next node. -/
def resume (env : ServiceEnv S W E) (reply : Option RpcRes) :
    Task → NodeState Node S W → Outcome (NodeState Node S W) ServiceRes
  | .start req failed, st =>
    let res := (rpcResult env.codec.startRes reply).getD failed
    let (r, st) := ModelService.startEnd env.usage req res st
    (r.map .start, st)
  | .forward chatId req failed, st =>
    let res := (rpcResult env.codec.forwardRes reply).getD failed
    let (r, st) := ModelService.forwardEnd env.usage chatId req res st
    (r.map .forward, st)
  | .finish chatId req failed, st =>
    let res := (rpcResult env.codec.endRes reply).getD failed
    let (r, st) := ModelService.endEnd env.usage chatId req res st
    (r.map .finish, st)

/-- A call from its start to its end, where `wait` is how it fares if it waits for the next node
and `meanwhile` is what the other tasks do to the node while it does. -/
def run (env : ServiceEnv S W E) (router : RouteTable Node N) (remoteSession : UInt64) (req : ServiceReq)
    (meanwhile : NodeState Node S W → NodeState Node S W) (wait : RpcWait) (st : NodeState Node S W) :
    Ending ServiceRes × NodeState Node S W :=
  match env.serve router remoteSession req st with
  | (.error p, st) => (.panicked p, st)
  | (.ok (.answered res), st) => (.returned res, st)
  | (.ok (.waiting task _ _), st) =>
    match wait with
    | .never => (.pending, meanwhile st)
    | .ends reply =>
      let (r, st) := env.resume reply task (meanwhile st)
      (.of r, st)

/-- `on_req` from its start to its end. -/
def onReq (env : ServiceEnv S W E) (router : RouteTable Node N) (remoteSession : UInt64) (req : RpcReq)
    (meanwhile : NodeState Node S W → NodeState Node S W) (wait : RpcWait) (st : NodeState Node S W) :
    Ending RpcRes × NodeState Node S W :=
  match env.codec.parse req with
  | .error p => (.panicked p, st)
  | .ok none => (.returned ⟨req.seq, false, []⟩, st)
  | .ok (some r) =>
    let (res, st) := env.run router remoteSession r meanwhile wait st
    (res.map fun res => ⟨req.seq, true, env.codec.encodeRes res⟩, st)

/-- The answer of a call goes back to the peer that has asked for it; for a local call it
is the result of the function. -/
def respond (env : ServiceEnv S W E) (res : ServiceRes) : Origin Node → List (Outgoing Node)
  | .peer node seq => [.response node ⟨seq, true, env.codec.encodeRes res⟩]
  | .virtualLayers => []

end ServiceEnv

/-- A node: what its `ModelService` keeps, the tasks that wait, and what it has sent. -/
structure Service (Node S W : Type) where
  node : NodeState Node S W
  waiting : List (Waiting Node)
  outbox : List (Outgoing Node)

/-- A call of one of the methods of `VirtualModelLayers`; the tensor is given by its
bytes. -/
inductive VirtualCall where
  | start (session : UInt64) (maxLen : UInt32)
  | forward (session : UInt64) (step : UInt32) (embedding : List UInt8) (seqLen indexPos : UInt32)
  | finish (session : UInt64)
deriving DecidableEq, Repr

def VirtualCall.req : VirtualCall → ServiceReq
  | .start session maxLen =>
    .start {
      session
      chatId := session
      fromLayer := 0
      metadata := []
      chainIndex := 0
      maxTokens := maxLen }
  | .forward session step embedding seqLen indexPos =>
    .forward {
      session
      embedding
      step
      seqLen
      indexPos
      metadata := []
      chainIndex := 0 }
  | .finish session => .finish { session, metadata := [], chainIndex := 0 }

namespace Service

variable {Node S W E : Type} {N : ℕ}

/-- Run a call. A panic ends its task and nothing else. -/
def call (env : ServiceEnv S W E) (router : RouteTable Node N) (remoteSession : UInt64)
    (origin : Origin Node) (req : ServiceReq) (s : Service Node S W) : Service Node S W :=
  match env.serve router remoteSession req s.node with
  | (.error _, node) => { s with node }
  | (.ok (.answered res), node) => { s with node, outbox := s.outbox ++ env.respond res origin }
  | (.ok (.waiting task dest next), node) =>
    { node
      waiting := s.waiting ++ [⟨origin, task⟩]
      outbox := s.outbox ++ [.request dest (env.codec.encodeReq next).1 (env.codec.encodeReq next).2] }

/-- `on_req`, in a task of its own. Where the request comes from is used for the answer
only. -/
def onReq (env : ServiceEnv S W E) (router : RouteTable Node N) (remoteSession : UInt64)
    (sender : Node) (req : RpcReq) (s : Service Node S W) : Service Node S W :=
  match env.codec.parse req with
  | .error _ => s
  | .ok none => { s with outbox := s.outbox ++ [.response sender ⟨req.seq, false, []⟩] }
  | .ok (some r) => s.call env router remoteSession (.peer sender req.seq) r

/-- A task that has waited for the next node goes on. -/
def resume [DecidableEq Node] (env : ServiceEnv S W E) (w : Waiting Node) (reply : Option RpcRes)
    (s : Service Node S W) : Service Node S W :=
  match env.resume reply w.task s.node with
  | (.error _, node) => { s with node, waiting := s.waiting.erase w }
  | (.ok res, node) =>
    { node
      waiting := s.waiting.erase w
      outbox := s.outbox ++ env.respond res w.origin }

end Service

/-- What happens at a node: a peer's request or a local call comes in, with the table and
the random session id that it meets, or a waiting task gets its answer. -/
inductive ServiceEvent (Node : Type) (N : ℕ) where
  | rpcReq (sender : Node) (req : RpcReq) (router : RouteTable Node N) (remoteSession : UInt64)
  | virtualCall (call : VirtualCall) (router : RouteTable Node N) (remoteSession : UInt64)
  | rpcRes (w : Waiting Node) (reply : Option RpcRes)

/-- Whether an event is the work of peers: their request, or the answer that it waits
for. -/
def ServiceEvent.byPeer {Node : Type} {N : ℕ} : ServiceEvent Node N → Bool
  | .rpcReq .. => true
  | .virtualCall .. => false
  | .rpcRes w _ =>
    match w.origin with
    | .peer .. => true
    | .virtualLayers => false

/-- The steps of a node. Requests are served in any order and each waits for as long as it
takes. -/
inductive ServiceStep {Node S W E : Type} {N : ℕ} [DecidableEq Node] (env : ServiceEnv S W E) :
    Service Node S W → ServiceEvent Node N → Service Node S W → Prop
  | rpcReq (s : Service Node S W) (sender : Node) (req : RpcReq) (router : RouteTable Node N)
      (rs : UInt64) : ServiceStep env s (.rpcReq sender req router rs) (s.onReq env router rs sender req)
  | virtualCall (s : Service Node S W) (c : VirtualCall) (router : RouteTable Node N) (rs : UInt64) :
      ServiceStep env s (.virtualCall c router rs) (s.call env router rs .virtualLayers c.req)
  | rpcRes (s : Service Node S W) (w : Waiting Node) (reply : Option RpcRes) (hw : w ∈ s.waiting) :
      ServiceStep env s (.rpcRes w reply) (s.resume env w reply)

end Dllm
