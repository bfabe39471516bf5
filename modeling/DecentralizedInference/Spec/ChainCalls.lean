import DecentralizedInference.Spec.ModelChain

/-! The requests along a chain as calls of each other, END through a network, and the
`VirtualModelLayers` of `crates/worker/src/virtual_model_layers.rs`, from which a chain
starts. -/

namespace Dllm

/-- A request that a node serves, the `hop`-th of its chain, and the network it meets. -/
structure Call (Node S W Req : Type) where
  fuel : ℕ
  hop : ℕ
  node : Node
  req : Req
  net : Net Node S W

section Calls

variable {Node S W Req Res Ctx : Type} [DecidableEq Node]

def Call.run (first : ℕ → Node → Req → NodeState Node S W →
      Outcome (NodeState Node S W) (Ctx × Progress Node Req Res))
    (last : Node → Ctx → Req → Res → NodeState Node S W → Outcome (NodeState Node S W) Res)
    (fate : ℕ → RpcFate) (c : Call Node S W Req) : Ending Res × Net Node S W × List (Visit Node S W Req Res) :=
  serve first last fate c.fuel c.hop c.node c.req c.net

/-- What a call does before it waits for the next node, if it is followed at all. -/
def Call.Begins (first : ℕ → Node → Req → NodeState Node S W →
      Outcome (NodeState Node S W) (Ctx × Progress Node Req Res))
    (c : Call Node S W Req) (ctx : Ctx) (progress : Progress Node Req Res) (st : NodeState Node S W) : Prop :=
  c.fuel ≠ 0 ∧ first c.hop c.node c.req (c.net c.node) = (.ok (ctx, progress), st)

/-- The call that a call makes to the next node. -/
def Call.next (c : Call Node S W Req) (st : NodeState Node S W) (d : Downstream Node Req) :
    Call Node S W Req :=
  ⟨c.fuel - 1, c.hop + 1, d.dest, d.req, Function.update c.net c.node st⟩

/-- One call makes the other, which reaches its node. -/
inductive Sends (first : ℕ → Node → Req → NodeState Node S W →
      Outcome (NodeState Node S W) (Ctx × Progress Node Req Res))
    (fate : ℕ → RpcFate) (c : Call Node S W Req) : Call Node S W Req → Prop
  | request {ctx : Ctx} {req : Req} {res : Res} {d : Downstream Node Req} {st : NodeState Node S W}
      (hbegin : c.Begins first ctx (.proceed req res (some d)) st) (hfate : (fate c.hop).served = true) :
      Sends first fate c (c.next st d)

/-- A call is turned away without the next node. -/
def Call.Rejects (first : ℕ → Node → Req → NodeState Node S W →
      Outcome (NodeState Node S W) (Ctx × Progress Node Req Res)) (c : Call Node S W Req) : Prop :=
  ∃ ctx res st, c.Begins first ctx (.reply res) st

/-- The request of a call to the next node ends with an RPC error. -/
def Call.RpcFails (first : ℕ → Node → Req → NodeState Node S W →
      Outcome (NodeState Node S W) (Ctx × Progress Node Req Res)) (fate : ℕ → RpcFate)
    (c : Call Node S W Req) : Prop :=
  (∃ ctx req res d st, c.Begins first ctx (.proceed req res (some d)) st) ∧ (fate c.hop).isError = true

end Calls

namespace World

variable {Node S W : Type} {N : ℕ} [DecidableEq Node]

/-- The two parts of `start` in this world. -/
def startFirst (w : World Node S W N) (hop : ℕ) (n : Node) (req : StartReq) (st : NodeState Node S W) :
    Outcome (NodeState Node S W) (Unit × Progress Node StartReq StartRes) :=
  let (r, st) := ModelService.startBegin (w.usage n).toWorkerUsageService (w.worker n)
    (w.router hop n) (w.rand hop) req st
  (r.map fun progress => ((), progress), st)

def startLast (w : World Node S W N) (n : Node) (_ : Unit) (req : StartReq) (res : StartRes)
    (st : NodeState Node S W) : Outcome (NodeState Node S W) StartRes :=
  ModelService.startEnd (w.usage n).toWorkerUsageService req res st

/-- The two parts of `end`. -/
def endFirst (w : World Node S W N) (_ : ℕ) (n : Node) (req : EndReq) (st : NodeState Node S W) :
    Outcome (NodeState Node S W) (UInt64 × Progress Node EndReq EndRes) :=
  ModelService.endBegin (w.usage n).toWorkerUsageService (w.worker n) req st

def endLast (w : World Node S W N) (n : Node) (chatId : UInt64) (req : EndReq) (res : EndRes)
    (st : NodeState Node S W) : Outcome (NodeState Node S W) EndRes :=
  ModelService.endEnd (w.usage n).toWorkerUsageService chatId req res st

/-- `ModelService::end` at the node `n`; the requests of an end have a fate of their own. -/
def finish (w : World Node S W N) (fate : ℕ → RpcFate) : ℕ → ℕ → Node → EndReq → Net Node S W →
    Ending EndRes × Net Node S W × List (Visit Node S W EndReq EndRes) :=
  serve w.endFirst w.endLast fate

end World

namespace VirtualModelLayers

def startReq (session : UInt64) (maxLen : UInt32) : StartReq :=
  { session, chatId := session, fromLayer := 0, metadata := [], chainIndex := 0, maxTokens := maxLen }

/-- `start` at the root, which is `Ok` if the flag is set and else `Err`. -/
def start {Node S W : Type} {N : ℕ} [DecidableEq Node] (w : World Node S W N) (fuel : ℕ) (root : Node)
    (session : UInt64) (maxLen : UInt32) (net : Net Node S W) : Ending Bool × Net Node S W :=
  match w.start fuel 0 root (startReq session maxLen) net with
  | (.returned res, net, _) => (.returned res.success, net)
  | (.panicked p, net, _) => (.panicked p, net)
  | (.pending, net, _) => (.pending, net)

end VirtualModelLayers

end Dllm
