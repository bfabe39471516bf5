import DecentralizedInference.Spec.ModelService
import DecentralizedInference.Spec.RouteNet

/-! A START or a FORWARD on its way through a network of `ModelService`s: every node serves
the request, passes it on to the next one if there is one, and finishes it with the
answer. -/

namespace Dllm

/-- How a request to another node fares. It is answered; or `RpcClientTx::request` returns an
error, since the response says so or cannot be decoded, or since the channel it would come by
is dropped; or no response ever comes, and `request` waits for ever. The other node may have
served it in each of these cases. -/
inductive RpcFate where
  | answered
  | errorUnserved
  | errorServed
  | silentUnserved
  | silentServed
deriving DecidableEq, Repr

def RpcFate.served : RpcFate → Bool
  | .answered | .errorServed | .silentServed => true
  | .errorUnserved | .silentUnserved => false

/-- `request` returns an error. -/
def RpcFate.isError : RpcFate → Bool
  | .errorUnserved | .errorServed => true
  | .answered | .silentUnserved | .silentServed => false

/-- Observer data: a request that a node has served up to the next node, and the state in
which it left the node then. -/
structure Visit (Node S W Req Res : Type) where
  node : Node
  req : Req
  progress : Progress Node Req Res
  after : NodeState Node S W

abbrev Net (Node S W : Type) := Node → NodeState Node S W

section Serve

variable {Node S W Req Res Ctx : Type} [DecidableEq Node]

/-- The second part of a request at the node `n`. -/
def finishAt (last : Node → Ctx → Req → Res → NodeState Node S W → Outcome (NodeState Node S W) Res)
    (n : Node) (c : Ctx) (req : Req) (res : Res) (net : Net Node S W) : Ending Res × Net Node S W :=
  match last n c req res (net n) with
  | (.ok res, st) => (.returned res, Function.update net n st)
  | (.error p, st) => (.panicked p, Function.update net n st)

/-- A request at the node `n` and its way from there, the `hop`-th of its chain. Requests
can be sent in circles; `fuel` bounds how far this is followed. -/
def serve (first : ℕ → Node → Req → NodeState Node S W →
      Outcome (NodeState Node S W) (Ctx × Progress Node Req Res))
    (last : Node → Ctx → Req → Res → NodeState Node S W → Outcome (NodeState Node S W) Res)
    (fate : ℕ → RpcFate) :
    ℕ → ℕ → Node → Req → Net Node S W →
      Ending Res × Net Node S W × List (Visit Node S W Req Res)
  | 0, _, _, _, net => (.pending, net, [])
  | fuel + 1, hop, n, req, net =>
    match first hop n req (net n) with
    | (.error p, st) => (.panicked p, Function.update net n st, [])
    | (.ok (c, progress), st) =>
      let net := Function.update net n st
      let visit : Visit Node S W Req Res := ⟨n, req, progress, st⟩
      match progress with
      | .reply res => (.returned res, net, [visit])
      | .proceed req res none =>
        let (ending, net) := finishAt last n c req res net
        (ending, net, [visit])
      | .proceed req res (some next) =>
        match fate hop with
        | .errorUnserved =>
          let (ending, net) := finishAt last n c req res net
          (ending, net, [visit])
        | .errorServed =>
          let (_, net, visits) := serve first last fate fuel (hop + 1) next.dest next.req net
          let (ending, net) := finishAt last n c req res net
          (ending, net, visit :: visits)
        | .silentUnserved => (.pending, net, [visit])
        | .silentServed =>
          let (_, net, visits) := serve first last fate fuel (hop + 1) next.dest next.req net
          (.pending, net, visit :: visits)
        | .answered =>
          match serve first last fate fuel (hop + 1) next.dest next.req net with
          | (.returned answer, net, visits) =>
            let (ending, net) := finishAt last n c req answer net
            (ending, net, visit :: visits)
          | (_, net, visits) => (.pending, net, visit :: visits)

end Serve

/-- What a chain meets on its way: the usage services and layers workers of the nodes,
the table of each node when the `hop`-th request reaches it, the session id that is drawn
then, and the fate of the START that is sent on. -/
structure World (Node S W : Type) (N : ℕ) where
  usage : Node → LawfulUsageService S
  worker : Node → LayerSessions W
  router : ℕ → Node → RouteTable Node N
  rand : ℕ → UInt64
  fate : ℕ → RpcFate

namespace World

variable {Node S W E : Type} {N : ℕ} [DecidableEq Node]

/-- `ModelService::start` at the node `n`. -/
def start (w : World Node S W N) : ℕ → ℕ → Node → StartReq → Net Node S W →
    Ending StartRes × Net Node S W × List (Visit Node S W StartReq StartRes) :=
  serve
    (fun hop n req st =>
      let (r, st) := ModelService.startBegin (w.usage n).toWorkerUsageService (w.worker n)
        (w.router hop n) (w.rand hop) req st
      (r.map fun progress => ((), progress), st))
    (fun n _ req res st => ModelService.startEnd (w.usage n).toWorkerUsageService req res st)
    w.fate

/-- `ModelService::forward` at the node `n`; the requests of a forward have a fate of their
own. -/
def forward (w : World Node S W N) (buf : TensorBuf E) (layers : Node → LayersForward W E)
    (fate : ℕ → RpcFate) : ℕ → ℕ → Node → ForwardReq → Net Node S W →
      Ending ForwardRes × Net Node S W × List (Visit Node S W ForwardReq ForwardRes) :=
  serve
    (fun _ n req st =>
      ModelService.forwardBegin (w.usage n).toWorkerUsageService buf (layers n) req st)
    (fun n chatId req res st =>
      ModelService.forwardEnd (w.usage n).toWorkerUsageService chatId req res st)
    fate

/-- Where the START that enters at `x` stands after `k` hops, if it gets that far. -/
def route (w : World Node S W N) (hop : ℕ) : ℕ → Node × ℕ → Option (Node × ℕ)
  | 0, x => some x
  | k + 1, x => (startHop (w.router hop) x).bind (w.route (hop + 1) k)

end World

/-- The caches of a layers worker: one for every session that was started and not
finished. -/
abbrev LayerCaches := SharedHashMap UInt64 Unit

def blockSessions : LayerSessions LayerCaches where
  start session caches := (true, caches.insert session ())
  finish session caches := caches.remove session

/-- `LlamaLayersWorker::forward` and `Phi3LayersWorker::forward` for a worker loaded with
the layers of a range: all of them, one after the other, whatever part of the range the
session was started for. `block l seqLen indexPos` is layer `l`. -/
def blockForward {E : Type} (block : ℕ → UInt32 → UInt32 → E → E) (loaded : Range) :
    LayersForward LayerCaches E :=
  fun session _ x indexPos caches =>
    match caches.getClone session with
    | none => (none, caches)
    | some () =>
      (some ((List.range' loaded.start (loaded.stop - loaded.start)).foldl
        (fun y l => block l x.2 indexPos y) x.1, x.2), caches)

end Dllm
