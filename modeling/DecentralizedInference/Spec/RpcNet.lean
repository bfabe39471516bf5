import DecentralizedInference.Spec.ChatRun
import DecentralizedInference.Spec.Communication

/-! Nodes that call each other by messages. The calls of `VirtualModelLayers` and those that `on_req` serves are tasks,
a task that needs the next node waits for the oneshot of its request, and requests and responses are on their way for
as long as it takes, come in any order, or are lost. -/

namespace Dllm

/-- A call after its first part: it has its answer, or it goes on with the one of the next node, if there is one. -/
inductive Begun (Node : Type) where
  | answered (res : ServiceRes)
  | goesOn (task : Task) (next : Option (Node × ServiceReq))

namespace ServiceEnv

variable {Node S W E Req Res : Type} {N : ℕ}

def begun (answer : Res → ServiceRes) (task : Req → Res → Task) (call : Req → ServiceReq) :
    Progress Node Req Res → Begun Node
  | .reply res => .answered (answer res)
  | .proceed req res next => .goesOn (task req res) (next.map fun d => (d.dest, call d.req))

/-- A call up to the request to the next node, or up to `post_*` if there is no next node. -/
def first (env : ServiceEnv S W E) (router : RouteTable Node N) (remoteSession : UInt64) :
    ServiceReq → NodeState Node S W → Outcome (NodeState Node S W) (Begun Node)
  | .start req, st =>
    let (r, st) := ModelService.startBegin env.usage env.worker router remoteSession req st
    (r.map fun progress => begun .start .start .start progress, st)
  | .forward req, st =>
    let (r, st) := ModelService.forwardBegin env.usage env.buf env.forward req st
    (r.map fun x => begun .forward (.forward x.1) .forward x.2, st)
  | .finish req, st =>
    let (r, st) := ModelService.endBegin env.usage env.worker req st
    (r.map fun x => begun .finish (.finish x.1) .finish x.2, st)

/-- The part that a task runs when it goes on. -/
def lastPart (env : ServiceEnv S W E) (reply : Option RpcRes) : Task → Part Node N
  | .start req failed => .startEnd req ((rpcResult env.codec.startRes reply).getD failed)
  | .forward chatId req failed => .forwardEnd chatId req ((rpcResult env.codec.forwardRes reply).getD failed)
  | .finish chatId req failed => .endEnd chatId req ((rpcResult env.codec.endRes reply).getD failed)

end ServiceEnv

/-- The part that a call begins with. -/
def ServiceReq.part {Node : Type} {N : ℕ} (router : RouteTable Node N) (remoteSession : UInt64) :
    ServiceReq → Part Node N
  | .start req => .startBegin router remoteSession req
  | .forward req => .forwardBegin req
  | .finish req => .endBegin req

/-- A call that is not done, at a node. `call` is the oneshot that it waits for; and `root` is for the observer: the
call of `VirtualModelLayers` that it has been made for. -/
structure RpcTask (Node : Type) extends Waiting Node where
  root : ℕ
  node : Node
  call : Option ℕ

inductive Packet (Node : Type) where
  | request (src dest : Node) (req : RpcReq)
  | response (src dest : Node) (res : RpcRes)

/-- The nodes with their RPC clients and tasks, and the messages on their way. For the observer: how many calls
`VirtualModelLayers` has made, what they have returned, and for which of them a request has been made. -/
structure RpcNet (Node S W : Type) where
  nodes : Net Node S W
  rpc : Node → RpcClientRx Node := fun _ => {}
  tasks : List (RpcTask Node) := []
  wire : List (Packet Node) := []
  calls : ℕ := 0
  returned : List (ℕ × ServiceRes) := []
  roots : Node → ℕ → ℕ := fun _ _ => 0

namespace RpcNet

variable {Node S W E : Type} {N : ℕ} [DecidableEq Node]

def setNode (s : RpcNet Node S W) (n : Node) (st : NodeState Node S W) : RpcNet Node S W :=
  { s with nodes := Function.update s.nodes n st }

/-- A call at the node `n` is done. -/
def respond (codec : LlmCodec) (root : ℕ) (n : Node) (origin : Origin Node) (res : ServiceRes) (s : RpcNet Node S W) :
    RpcNet Node S W :=
  match origin with
  | .peer dest seq => { s with wire := s.wire ++ [.response n dest ⟨seq, true, codec.encodeRes res⟩] }
  | .virtualLayers => { s with returned := s.returned ++ [(root, res)] }

/-- A task that can go on at once. -/
def ready (root : ℕ) (n : Node) (origin : Origin Node) (task : Task) (s : RpcNet Node S W) : RpcNet Node S W :=
  { s with tasks := s.tasks ++ [⟨⟨origin, task⟩, root, n, none⟩] }

/-- A task that requests something of another node. -/
def ask (root : ℕ) (n : Node) (origin : Origin Node) (task : Task) (c : RpcCall Node) (s : RpcNet Node S W) :
    RpcNet Node S W :=
  { s with
    rpc := Function.update s.rpc n ((s.rpc n).request c)
    tasks := s.tasks ++ [⟨⟨origin, task⟩, root, n, some (s.rpc n).oneshots⟩]
    roots := Function.update s.roots n (Function.update (s.roots n) (s.rpc n).oneshots root) }

/-- The first part of a call at the node `n`. A panic ends its task and nothing else. -/
def first (env : Node → ServiceEnv S W E) (router : RouteTable Node N) (remoteSession : UInt64) (root : ℕ) (n : Node)
    (origin : Origin Node) (req : ServiceReq) (s : RpcNet Node S W) : RpcNet Node S W :=
  match (env n).first router remoteSession req (s.nodes n) with
  | (.error _, st) => s.setNode n st
  | (.ok (.answered res), st) => (s.setNode n st).respond (env n).codec root n origin res
  | (.ok (.goesOn task none), st) => (s.setNode n st).ready root n origin task
  | (.ok (.goesOn task (some (dest, next))), st) =>
    let (cmd, payload) := (env n).codec.encodeReq next
    (s.setNode n st).ask root n origin task ⟨dest, cmd, payload⟩

/-- The rest of a task that goes on with `reply`. -/
def last (env : Node → ServiceEnv S W E) (reply : Option RpcRes) (t : RpcTask Node) (s : RpcNet Node S W) :
    RpcNet Node S W :=
  match (env t.node).resume reply t.task (s.nodes t.node) with
  | (.error _, st) => s.setNode t.node st
  | (.ok res, st) => (s.setNode t.node st).respond (env t.node).codec t.root t.node t.origin res

/-- What the request that waits under a number at its node has been made for. -/
def rootOf (s : RpcNet Node S W) (n : Node) (seq : UInt32) : ℕ := ((s.rpc n).waits.lookup seq).elim 0 (s.roots n)

end RpcNet

/-- The steps of the nodes, with the part of a call that is run in it, where it is, and what for. A message that cannot
be decoded is lost with its task. `tables` says which route tables a node may have. -/
inductive RpcStep {Node S W E : Type} {N : ℕ} [DecidableEq Node] (env : Node → ServiceEnv S W E)
    (tables : Node → RouteTable Node N → Prop) :
    RpcNet Node S W → Option (ℕ × Node × Part Node N) → RpcNet Node S W → Prop
  | call (s : RpcNet Node S W) (n : Node) (c : VirtualCall) {router : RouteTable Node N} (htable : tables n router)
      (rs : UInt64) : RpcStep env tables s (some (s.calls, n, c.req.part router rs))
        (({ s with calls := s.calls + 1 } : RpcNet Node S W).first env router rs s.calls n .virtualLayers c.req)
  | send {s : RpcNet Node S W} {n dest : Node} {req : RpcReq} {rpc : RpcClientRx Node}
      (hrecv : (s.rpc n).recv = some (dest, req, rpc)) :
      RpcStep env tables s none { s with rpc := Function.update s.rpc n rpc, wire := s.wire ++ [.request n dest req] }
  | lose {s : RpcNet Node S W} {before after : List (Packet Node)} {p : Packet Node}
      (hwire : s.wire = before ++ p :: after) : RpcStep env tables s none { s with wire := before ++ after }
  | serve {s : RpcNet Node S W} {before after : List (Packet Node)} {src dest : Node} {req : RpcReq} {call : ServiceReq}
      (hwire : s.wire = before ++ .request src dest req :: after)
      (hparse : (env dest).codec.parse req = .ok (some call)) {router : RouteTable Node N} (htable : tables dest router)
      (rs : UInt64) : RpcStep env tables s (some (s.rootOf src req.seq, dest, call.part router rs))
        (({ s with wire := before ++ after } : RpcNet Node S W).first env router rs (s.rootOf src req.seq) dest
          (.peer src req.seq) call)
  | refuse {s : RpcNet Node S W} {before after : List (Packet Node)} {src dest : Node} {req : RpcReq}
      (hwire : s.wire = before ++ .request src dest req :: after) (hparse : (env dest).codec.parse req = .ok none) :
      RpcStep env tables s none { s with wire := before ++ after ++ [.response dest src ⟨req.seq, false, []⟩] }
  | hear {s : RpcNet Node S W} {before after : List (Packet Node)} {src dest : Node} {res : RpcRes}
      {rpc : RpcClientRx Node} (hwire : s.wire = before ++ .response src dest res :: after)
      (hres : (s.rpc dest).onRes res = .ok rpc) :
      RpcStep env tables s none { s with rpc := Function.update s.rpc dest rpc, wire := before ++ after }
  | resume {s : RpcNet Node S W} {before after : List (RpcTask Node)} {t : RpcTask Node} {call : ℕ} {res : RpcRes}
      (htasks : s.tasks = before ++ t :: after) (hcall : t.call = some call)
      (hres : (call, res) ∈ (s.rpc t.node).resolved) :
      RpcStep env tables s (some (t.root, t.node, (env t.node).lastPart (some res) t.task))
        (({ s with tasks := before ++ after } : RpcNet Node S W).last env (some res) t)
  | finish {s : RpcNet Node S W} {before after : List (RpcTask Node)} {t : RpcTask Node}
      (htasks : s.tasks = before ++ t :: after) (hcall : t.call = none) :
      RpcStep env tables s (some (t.root, t.node, (env t.node).lastPart none t.task))
        (({ s with tasks := before ++ after } : RpcNet Node S W).last env none t)

/-- What the parts of other calls are, in the order of a run. -/
def othersOf {Node : Type} {N : ℕ} (root : ℕ) (es : List (Option (ℕ × Node × Part Node N))) : List (Node × Part Node N) :=
  es.filterMap fun e => e.bind fun (r, part) => if r = root then none else some part

/-- The nodes of a world, with the messages of `llm.proto` between them. -/
def World.env {Node S W E : Type} {N : ℕ} (w : World Node S W N) (buf : TensorBuf E) (layers : Node → LayersForward W E)
    (codec : LlmCodec) (n : Node) : ServiceEnv S W E :=
  ⟨(w.usage n).toWorkerUsageService, w.worker n, layers n, buf, codec⟩

/-- The tables of the nodes and the random session ids that a START meets, hop by hop. -/
def World.meets {Node S W : Type} {N : ℕ} (w : World Node S W N) (met : ℕ → (Node → RouteTable Node N) × UInt64) :
    World Node S W N :=
  { w with router := fun hop => (met hop).1, rand := fun hop => (met hop).2 }

end Dllm
