import DecentralizedInference.Spec.RouteTable
import DecentralizedInference.Spec.UsageService

/-! `ModelService` of `crates/worker/src/model_service.rs`, which serves START, FORWARD
and END at one node. Each of them is cut where it waits for the next node of the chain:
`startBegin` is what happens before, `startEnd` what happens with the answer. Counters
for the statistics are left out. -/

namespace Dllm

structure SessionContainer (Node : Type) where
  chatId : UInt64
  localRange : Option Range
  remote : Option (Node × UInt64)
deriving DecidableEq, Repr

/-- The sessions of the trait `ModelLayersWorker`: `start`, which may fail, and `finish`. -/
structure LayerSessions (W : Type) where
  start : UInt64 → W → Bool × W
  finish : UInt64 → W → W

/-- `forward` of the trait `ModelLayersWorker`, from the session, the step, the input with
its length and the position. It gives `none` where it panics or its error is unwrapped. -/
abbrev LayersForward (W E : Type) :=
  UInt64 → UInt32 → E × UInt32 → UInt32 → W → Option (E × UInt32) × W

/-- `TensorBuf`, between tensors and the bytes that nodes exchange. -/
structure TensorBuf (E : Type) where
  toVec : E → List UInt8
  toTensor : List UInt8 → Option E
  roundTrip : ∀ x, toTensor (toVec x) = some x

/-- Tensors that are their own bytes. -/
def TensorBuf.raw : TensorBuf (List UInt8) := ⟨id, some, fun _ => rfl⟩

/-- What a `ModelService` keeps: its sessions, its layers worker and its usage service. -/
structure NodeState (Node S W : Type) where
  sessions : SharedHashMap UInt64 (SessionContainer Node)
  layers : W
  usage : S

/-- A task's end, seen from the node that asked for it: an answer, or a panic or an endless
wait, after which no answer comes. -/
inductive Ending (Res : Type) where
  | returned (res : Res)
  | panicked (p : Panic)
  | pending
deriving DecidableEq, Repr

/-- The end of a task from what its last part gives. -/
def Ending.of {Res : Type} : Except Panic Res → Ending Res
  | .ok res => .returned res
  | .error p => .panicked p

def Ending.map {Res Res' : Type} (f : Res → Res') : Ending Res → Ending Res'
  | .returned res => .returned (f res)
  | .panicked p => .panicked p
  | .pending => .pending

theorem Ending.of_eq_returned_iff {Res : Type} {r : Except Panic Res} {res : Res} :
    Ending.of r = .returned res ↔ r = .ok res := by
  cases r <;> simp [Ending.of]

/-- A request to the next node of the chain. -/
structure Downstream (Node Req : Type) where
  dest : Node
  req : Req
deriving DecidableEq, Repr

/-- Where a request stands when its first part is done: it is answered, or it goes on
with `post_*`, after the answer of the next node if there is one. -/
inductive Progress (Node Req Res : Type) where
  | reply (res : Res)
  | proceed (req : Req) (res : Res) (next : Option (Downstream Node Req))

namespace ModelService

variable {Node S W E : Type} {N : ℕ}

abbrev NodeOutcome (Node S W α : Type) := Outcome (NodeState Node S W) α

def startFailure : StartRes := ⟨false, []⟩

/-- `start` up to the request to the next node; `remoteSession` is the id drawn for it.
When there is no next node, `proceed` holds the answer; else the one that stands for a
failed request. -/
def startBegin (usage : WorkerUsageService S) (worker : LayerSessions W) (router : RouteTable Node N)
    (remoteSession : UInt64) (req : StartReq) (st : NodeState Node S W) :
    NodeOutcome Node S W (Progress Node StartReq StartRes) :=
  match usage.preStart req st.usage with
  | (.error p, u) => (.error p, { st with usage := u })
  | (.ok none, u) => (.ok (.reply startFailure), { st with usage := u })
  | (.ok (some req), u) =>
    match router.selectNext req.fromLayer with
    | .error p => (.error p, { st with usage := u })
    | .ok none => (.ok (.reply startFailure), { st with usage := u })
    | .ok (some route) =>
      let container : SessionContainer Node :=
        ⟨req.chatId, route.localRange, route.remote.map fun r => (r.dest, remoteSession)⟩
      let sessions := st.sessions.insert req.session container
      let (started, layers) :=
        match route.localRange with
        | some _ => worker.start req.session st.layers
        | none => (true, st.layers)
      let st : NodeState Node S W := ⟨sessions, layers, u⟩
      if started = false then (.ok (.reply startFailure), st)
      else
        (.ok (.proceed req ⟨route.remote.isNone, req.metadata⟩ (route.remote.map fun r =>
          { dest := r.dest
            req := {
              session := remoteSession
              chatId := req.chatId
              fromLayer := r.layers.start
              metadata := req.metadata
              chainIndex := req.chainIndex + 1
              maxTokens := req.maxTokens } })), st)

def startEnd (usage : WorkerUsageService S) (req : StartReq) (res : StartRes)
    (st : NodeState Node S W) : NodeOutcome Node S W StartRes :=
  let (r, u) := usage.postStart req res st.usage
  (r, { st with usage := u })

def forwardFailure : ForwardRes := ⟨false, [], []⟩

/-- The local part of `forward`: the embedding that goes on. -/
def forwardLocal (buf : TensorBuf E) (forward : LayersForward W E) (localRange : Option Range)
    (req : ForwardReq) (layers : W) : Outcome W (List UInt8) :=
  match localRange with
  | none => (.ok req.embedding, layers)
  | some _ =>
    match buf.toTensor req.embedding with
    | none => (.error .unwrapOnError, layers)
    | some x =>
      match forward req.session req.step (x, req.seqLen) req.indexPos layers with
      | (none, layers) => (.error .unwrapOnError, layers)
      | (some (y, _), layers) => (.ok (buf.toVec y), layers)

/-- `forward` up to the request to the next node, with the chat of the session. -/
def forwardBegin (usage : WorkerUsageService S) (buf : TensorBuf E) (forward : LayersForward W E)
    (req : ForwardReq) (st : NodeState Node S W) :
    NodeOutcome Node S W (UInt64 × Progress Node ForwardReq ForwardRes) :=
  match st.sessions.getClone req.session with
  | none => (.ok (0, .reply forwardFailure), st)
  | some container =>
    match usage.preForward container.chatId req st.usage with
    | (.error p, u) => (.error p, { st with usage := u })
    | (.ok none, u) => (.ok (container.chatId, .reply forwardFailure), { st with usage := u })
    | (.ok (some req), u) =>
      match forwardLocal buf forward container.localRange req st.layers with
      | (.error p, layers) => (.error p, { st with usage := u, layers })
      | (.ok embedding, layers) =>
        let st := { st with usage := u, layers }
        match container.remote with
        | none => (.ok (container.chatId, .proceed req ⟨true, embedding, req.metadata⟩ none), st)
        | some (dest, remoteSession) =>
          (.ok (container.chatId, .proceed req ⟨false, [], req.metadata⟩ (some {
            dest
            req := {
              session := remoteSession
              embedding
              step := req.step
              seqLen := req.seqLen
              indexPos := req.indexPos
              metadata := req.metadata
              chainIndex := req.chainIndex + 1 } })), st)

def forwardEnd (usage : WorkerUsageService S) (chatId : UInt64) (req : ForwardReq) (res : ForwardRes)
    (st : NodeState Node S W) : NodeOutcome Node S W ForwardRes :=
  let (r, u) := usage.postForward chatId req res st.usage
  (r, { st with usage := u })

def endFailure : EndRes := ⟨false, []⟩

/-- `end` up to the request to the next node, with the chat of the session. -/
def endBegin (usage : WorkerUsageService S) (worker : LayerSessions W) (req : EndReq)
    (st : NodeState Node S W) : NodeOutcome Node S W (UInt64 × Progress Node EndReq EndRes) :=
  match st.sessions.getClone req.session with
  | none => (.ok (0, .reply endFailure), st)
  | some container =>
    let st := { st with sessions := st.sessions.remove req.session }
    match usage.preEnd container.chatId req st.usage with
    | (.error p, u) => (.error p, { st with usage := u })
    | (.ok none, u) => (.ok (container.chatId, .reply endFailure), { st with usage := u })
    | (.ok (some req), u) =>
      let layers :=
        match container.localRange with
        | some _ => worker.finish req.session st.layers
        | none => st.layers
      let st := { st with usage := u, layers }
      (.ok (container.chatId, .proceed req ⟨container.remote.isNone, req.metadata⟩
        (container.remote.map fun (dest, remoteSession) =>
          { dest, req := ⟨remoteSession, req.metadata, req.chainIndex + 1⟩ })), st)

def endEnd (usage : WorkerUsageService S) (chatId : UInt64) (req : EndReq) (res : EndRes)
    (st : NodeState Node S W) : NodeOutcome Node S W EndRes :=
  let (r, u) := usage.postEnd chatId req res st.usage
  (r, { st with usage := u })

end ModelService

end Dllm
