import DecentralizedInference.Spec.NetworkNode
import DecentralizedInference.Spec.OnReq
import DecentralizedInference.Spec.Registry
import DecentralizedInference.Spec.RouteNet

/-! `WorkerCommunication` of `crates/worker/src/communication.rs`: one loop that drives the
network, the route table, the registry client and the RPC client of a node. With it the
parts it calls: `SharedUdpPort`, the queue of `RegistryClient`, and `RpcClientRx` with the
channel and the oneshots of `RpcClientTx::request`. -/

namespace Dllm

/-- `shared_port.rs`: which task a datagram is for, by its remote address or by the ICE
user name in its STUN message. -/
structure SharedUdpPort (Addr Task : Type) where
  taskRemotes : AList fun _ : Addr => Task := ∅
  taskRemotesMap : AList fun _ : Task => List Addr := ∅
  taskUfrags : AList fun _ : String => Task := ∅
  taskUfragsReverse : AList fun _ : Task => String := ∅

namespace SharedUdpPort

variable {Addr Task : Type} [DecidableEq Addr] [DecidableEq Task]

omit [DecidableEq Addr] in
def addUfrag (p : SharedUdpPort Addr Task) (ufrag : String) (task : Task) : SharedUdpPort Addr Task :=
  { p with
    taskUfrags := p.taskUfrags.insert ufrag task
    taskUfragsReverse := p.taskUfragsReverse.insert task ufrag }

/-- Each `?` returns with what has been removed before it. -/
def removeTask (p : SharedUdpPort Addr Task) (task : Task) : SharedUdpPort Addr Task :=
  match p.taskUfragsReverse.lookup task with
  | none => p
  | some ufrag =>
    let p := { p with taskUfragsReverse := p.taskUfragsReverse.erase task }
    match p.taskUfrags.lookup ufrag with
    | none => p
    | some _ =>
      let p := { p with taskUfrags := p.taskUfrags.erase ufrag }
      match p.taskRemotesMap.lookup task with
      | none => p
      | some remotes =>
        { p with
          taskRemotesMap := p.taskRemotesMap.erase task
          taskRemotes := remotes.foldl (fun m remote => m.erase remote) p.taskRemotes }

/-- `username` is what the datagram names, if it is a STUN message with a user name. -/
def mapRemote (p : SharedUdpPort Addr Task) (remote : Addr) (username : Option String) :
    Option Task × SharedUdpPort Addr Task :=
  match p.taskRemotes.lookup remote with
  | some task => (some task, p)
  | none =>
    match username.bind fun username => p.taskUfrags.lookup username with
    | none => (none, p)
    | some task =>
      (some task,
        { p with
          taskRemotes := p.taskRemotes.insert remote task
          taskRemotesMap := p.taskRemotesMap.insert task
            ((p.taskRemotesMap.lookup task).getD [] ++ [remote]) })

/-- `pop_conn` removes the task of a connection when it queues its disconnect. -/
def afterEvents {Node Msg : Type} (p : SharedUdpPort Addr UInt64) (events : List (NodeEvent Node Msg)) :
    SharedUdpPort Addr UInt64 :=
  events.foldl (fun p e =>
    match e with
    | .nodeDisconnected connId _ => p.removeTask connId
    | _ => p) p

end SharedUdpPort

/-- A `NetworkNode` with its `shared_udp`. -/
structure UdpNode (Addr Node Msg : Type) where
  node : NetworkNode Node Msg := .new
  sharedUdp : SharedUdpPort Addr UInt64 := {}

namespace UdpNode

variable {Addr Node Msg : Type} [DecidableEq Addr] [DecidableEq Node]

/-- The node becomes `node`, and the port `port` follows the events this has queued. -/
def after (s : UdpNode Addr Node Msg) (port : SharedUdpPort Addr UInt64) (node : NetworkNode Node Msg) :
    UdpNode Addr Node Msg :=
  ⟨node, port.afterEvents (node.events.drop s.node.events.length)⟩

/-- `ufrag` is the one that the new connection is given. -/
def connect (decode : List UInt8 → Option Msg) (dest : Node) (connId : UInt64) (ufrag : String)
    (outputs : List RtcOutput) (s : UdpNode Addr Node Msg) : Option UInt64 × UdpNode Addr Node Msg :=
  match s.node.connect decode dest connId outputs with
  | (none, _) => (none, s)
  | (some connId, node) => (some connId, s.after (s.sharedUdp.addUfrag ufrag connId) node)

/-- The ufrag is registered before the offer is looked into. -/
def onOffer (decode : List UInt8 → Option Msg) (connId : UInt64) (ufrag : String) (sender : Node)
    (offer : SdpFate) (outputs : List RtcOutput) (s : UdpNode Addr Node Msg) :
    Except IncomingError Unit × UdpNode Addr Node Msg :=
  if (s.node.conns.lookup connId).isSome then (.error .alreadyHas, s)
  else
    let port := s.sharedUdp.addUfrag ufrag connId
    let (answer, node) := s.node.onOffer decode connId sender offer outputs
    (answer, s.after port node)

def onAnswer (decode : List UInt8 → Option Msg) (connId : UInt64) (sender : Node) (answer : SdpFate)
    (outputs : List RtcOutput) (s : UdpNode Addr Node Msg) : UdpNode Addr Node Msg :=
  s.after s.sharedUdp (s.node.onAnswer decode connId sender answer outputs).2

def send (decode : List UInt8 → Option Msg) (dest : Node) (buf : List UInt8) (outputs : List RtcOutput)
    (s : UdpNode Addr Node Msg) : Except SendError Unit × UdpNode Addr Node Msg :=
  let (r, node) := s.node.send decode dest buf outputs
  (r, s.after s.sharedUdp node)

def broadcast (decode : List UInt8 → Option Msg) (buf : List UInt8) (order : List UInt64)
    (outputs : UInt64 → List RtcOutput) (s : UdpNode Addr Node Msg) : UdpNode Addr Node Msg :=
  s.after s.sharedUdp (s.node.touchAll decode (RemoteConn.sendData · buf) order outputs)

def tick (decode : List UInt8 → Option Msg) (order : List UInt64) (outputs : UInt64 → List RtcOutput)
    (s : UdpNode Addr Node Msg) : UdpNode Addr Node Msg :=
  s.after s.sharedUdp (s.node.touchAll decode id order outputs)

def datagram (decode : List UInt8 → Option Msg) (remote : Addr) (username : Option String)
    (outputs : List RtcOutput) (s : UdpNode Addr Node Msg) : UdpNode Addr Node Msg :=
  match s.sharedUdp.mapRemote remote username with
  | (none, port) => { s with sharedUdp := port }
  | (some connId, port) => s.after port (s.node.touch decode id connId outputs)

end UdpNode

/-- What the registry relays from node to node. -/
inductive RelayData where
  | offer (connId : UInt64) (sdp : String)
  | answer (connId : UInt64) (sdp : String)
deriving DecidableEq, Repr

/-- What `RegistryClient` has queued for the registry. -/
structure RegistryClient (Node Stats : Type) where
  queue : List (ToRegistry Node Stats RelayData) := []

namespace RegistryClient

variable {Node Stats : Type}

def push (c : RegistryClient Node Stats) (e : ToRegistry Node Stats RelayData) : RegistryClient Node Stats :=
  { c with queue := c.queue ++ [e] }

def updateStats (c : RegistryClient Node Stats) (stats : Stats) : RegistryClient Node Stats :=
  c.push (.stats stats)

def updateLayer (c : RegistryClient Node Stats) (layersRange : Range) : RegistryClient Node Stats :=
  c.push (.update layersRange.start layersRange.stop)

def offer (c : RegistryClient Node Stats) (dest : Node) (connId : UInt64) (offer : String) :
    RegistryClient Node Stats :=
  c.push (.relay dest (.offer connId offer))

/-- The answer is unwrapped. -/
def answer {E : Type} (c : RegistryClient Node Stats) (dest : Node) (connId : UInt64) :
    Except E String → Except Panic (RegistryClient Node Stats)
  | .error _ => .error .unwrapOnError
  | .ok sdp => .ok (c.push (.relay dest (.answer connId sdp)))

end RegistryClient

/-- What `RpcClientTx::request` puts into the channel, with the request encoded. -/
structure RpcCall (Node : Type) where
  dest : Node
  cmd : String
  payload : List UInt8
deriving DecidableEq, Repr

/-- The oneshot of a call is given by the number of the call, and `oneshots` is how many there
have been. `resolved` holds what was sent into them, and `abandoned` tells which calls do not
wait any more. -/
structure RpcClientRx (Node : Type) where
  seqSeed : UInt32 := 0
  waits : AList fun _ : UInt32 => ℕ := ∅
  rx : List (ℕ × RpcCall Node) := []
  oneshots : ℕ := 0
  resolved : List (ℕ × RpcRes) := []
  abandoned : List ℕ := []

namespace RpcClientRx

variable {Node : Type}

/-- `RpcClientTx::request`, once the channel has taken the call. -/
def request (r : RpcClientRx Node) (c : RpcCall Node) : RpcClientRx Node :=
  { r with rx := r.rx ++ [(r.oneshots, c)], oneshots := r.oneshots + 1 }

/-- The caller drops its end of the oneshot. -/
def abandon (r : RpcClientRx Node) (call : ℕ) : RpcClientRx Node :=
  { r with abandoned := call :: r.abandoned }

/-- `expect("Should send res to waits")` is the panic. -/
def onRes (r : RpcClientRx Node) (res : RpcRes) : Except Panic (RpcClientRx Node) :=
  match r.waits.lookup res.seq with
  | none => .ok r
  | some call =>
    if call ∈ r.abandoned then .error .unwrapOnError
    else .ok { r with waits := r.waits.erase res.seq, resolved := r.resolved ++ [(call, res)] }

/-- The next call from the channel, registered under a number of its own. -/
def recv (r : RpcClientRx Node) : Option (Node × RpcReq × RpcClientRx Node) :=
  match r.rx with
  | [] => none
  | (call, c) :: rx =>
    let seq := r.seqSeed + 1
    some (c.dest, ⟨seq, c.cmd, c.payload⟩,
      { r with seqSeed := seq, waits := r.waits.insert seq call, rx })

end RpcClientRx

/-- `protocol::worker::Event`; its one field may be missing. -/
inductive WorkerEvent where
  | syncReq (sync : RouteSync)
  | syncRes
  | rpcReq (req : RpcReq)
  | rpcRes (res : RpcRes)
deriving DecidableEq, Repr

abbrev EventCodec := MessageCodec (Option WorkerEvent)

/-- `handlers` are the tasks that run `on_req` for a peer. -/
structure WorkerCommunication (Addr Node Stats : Type) (N : ℕ) where
  registryClient : RegistryClient Node Stats
  router : RouteTable Node N
  network : UdpNode Addr Node (Option WorkerEvent) := {}
  rpcRx : RpcClientRx Node := {}
  resRx : List (Node × RpcRes) := []
  handlers : List (Node × RpcReq) := []

/-- A node that `connect` may be called for, with the id and the ufrag that are drawn, the
text of the offer, and what the library puts out. -/
structure Neighbour (Node : Type) where
  node : Node
  connId : UInt64
  ufrag : String
  offer : String
  outputs : List RtcOutput

/-- The branches of the loop, and what happens around it: a task calls `request` or gives it
up, a handler is done, the network moves while `recv` waits for it, the registry client
writes its queue. -/
inductive CommEvent (Addr Node Stats : Type) where
  | request (c : RpcCall Node)
  | abandon (call : ℕ)
  | handled (i : ℕ) (res : RpcRes)
  | written
  | networkTick (order : List UInt64) (outputs : UInt64 → List RtcOutput)
  | datagram (remote : Addr) (username : Option String) (outputs : List RtcOutput)
  | tick (nowMs : ℕ) (stats : Stats) (ord : ℕ → RemoteOrder Node) (order : List UInt64)
      (outputs : UInt64 → List RtcOutput)
  | answer (sender : Node) (connId : UInt64) (sdp : SdpFate) (outputs : List RtcOutput)
  | offer (sender : Node) (connId : UInt64) (ufrag : String) (sdp : SdpFate) (answer : String)
      (outputs : List RtcOutput)
  | neighbours (nodes : List (Neighbour Node))
  | network (ord : ℕ → RemoteOrder Node)
  | rpc (outputs : List RtcOutput)
  | res (outputs : List RtcOutput)

namespace WorkerCommunication

variable {Addr Node Stats : Type} {N : ℕ} [DecidableEq Addr] [DecidableEq Node]

/-- The branch of `recv` for an offer that the registry relays. -/
def onOffer (codec : EventCodec) (sender : Node) (connId : UInt64) (ufrag : String) (sdp : SdpFate)
    (answer : String) (outputs : List RtcOutput) (s : WorkerCommunication Addr Node Stats N) :
    Except Panic (WorkerCommunication Addr Node Stats N) := do
  let (r, network) := s.network.onOffer codec.decode connId ufrag sender sdp outputs
  let registryClient ← s.registryClient.answer sender connId (r.map fun _ => answer)
  return { s with network, registryClient }

/-- The body of the loop over the neighbours. -/
def onNeighbour (codec : EventCodec) (s : WorkerCommunication Addr Node Stats N) (n : Neighbour Node) :
    WorkerCommunication Addr Node Stats N :=
  match s.network.connect codec.decode n.node n.connId n.ufrag n.outputs with
  | (none, network) => { s with network }
  | (some connId, network) =>
    { s with network, registryClient := s.registryClient.offer n.node connId n.offer }

/-- The branch for the ticker. -/
def onTick (codec : EventCodec) (nowMs : ℕ) (stats : Stats) (ord : ℕ → RemoteOrder Node)
    (order : List UInt64) (outputs : UInt64 → List RtcOutput) (s : WorkerCommunication Addr Node Stats N) :
    Except Panic (WorkerCommunication Addr Node Stats N) := do
  let sync ← s.router.createSync nowMs
  return { s with
    registryClient := s.registryClient.updateStats stats
    network := s.network.broadcast codec.decode (codec.encode (some (.syncReq sync))) order outputs
    router := s.router.onTick ord nowMs }

/-- The branch for an event of the network, which is taken off its queue already. `none` for
a message without a content: `recv` returns. -/
def onNodeEvent (ord : ℕ → RemoteOrder Node) (s : WorkerCommunication Addr Node Stats N) :
    NodeEvent Node (Option WorkerEvent) → Except Panic (Option (WorkerCommunication Addr Node Stats N))
  | .nodeConnected _ _ => .ok (some s)
  | .nodeMsg _ _ none => .ok none
  | .nodeMsg _ remote (some (.syncReq sync)) =>
    .ok (some { s with router := s.router.applySync ord remote FAKE_RTT sync })
  | .nodeMsg _ _ (some .syncRes) => .ok (some s)
  | .nodeMsg _ remote (some (.rpcReq req)) => .ok (some { s with handlers := s.handlers ++ [(remote, req)] })
  | .nodeMsg _ _ (some (.rpcRes res)) => (s.rpcRx.onRes res).map fun rpcRx => some { s with rpcRx }
  | .nodeDisconnected _ node => .ok (some { s with router := s.router.onDisconnected ord node })

/-- A message to a node; an error is logged. -/
def sendTo (codec : EventCodec) (dest : Node) (e : WorkerEvent) (outputs : List RtcOutput)
    (s : WorkerCommunication Addr Node Stats N) : WorkerCommunication Addr Node Stats N :=
  { s with network := (s.network.send codec.decode dest (codec.encode (some e)) outputs).2 }

/-- One event, where it can happen, if the loop goes on after it. -/
def step (codec : EventCodec) (s : WorkerCommunication Addr Node Stats N) :
    CommEvent Addr Node Stats → Option (WorkerCommunication Addr Node Stats N)
  | .request c => some { s with rpcRx := s.rpcRx.request c }
  | .abandon call => if call < s.rpcRx.oneshots then some { s with rpcRx := s.rpcRx.abandon call } else none
  | .handled i res =>
    s.handlers[i]?.map fun h =>
      { s with handlers := s.handlers.eraseIdx i, resRx := s.resRx ++ [(h.1, res)] }
  | .written => some { s with registryClient := { s.registryClient with queue := [] } }
  | .networkTick order outputs =>
    match s.network.node.events with
    | [] => some { s with network := s.network.tick codec.decode order outputs }
    | _ :: _ => none
  | .datagram remote username outputs =>
    match s.network.node.events with
    | [] => some { s with network := s.network.datagram codec.decode remote username outputs }
    | _ :: _ => none
  | .tick nowMs stats ord order outputs => (s.onTick codec nowMs stats ord order outputs).toOption
  | .answer sender connId sdp outputs =>
    some { s with network := s.network.onAnswer codec.decode connId sender sdp outputs }
  | .offer sender connId ufrag sdp answer outputs =>
    (s.onOffer codec sender connId ufrag sdp answer outputs).toOption
  | .neighbours nodes => some (nodes.foldl (onNeighbour codec) s)
  | .network ord =>
    match s.network.node.recv with
    | (none, _) => none
    | (some e, node) =>
      match onNodeEvent ord { s with network := { s.network with node } } e with
      | .error _ => none
      | .ok s => s
  | .rpc outputs =>
    s.rpcRx.recv.map fun (dest, req, rpcRx) => { s with rpcRx }.sendTo codec dest (.rpcReq req) outputs
  | .res outputs =>
    match s.resRx with
    | [] => none
    | (dest, res) :: resRx => some ({ s with resRx }.sendTo codec dest (.rpcRes res) outputs)

/-- A fresh node that serves `range`. -/
def new (range : Range) : WorkerCommunication Addr Node Stats N where
  registryClient := ({} : RegistryClient Node Stats).updateLayer range
  router := .new range

end WorkerCommunication
end Dllm
