import DecentralizedInference.Lib.Assoc
import DecentralizedInference.Lib.Run
import DecentralizedInference.Lib.Tally
import DecentralizedInference.Spec.Basic

/-! The registry of `crates/registry/src/server`: `SessionManager`, the main loop around
`RegistryServer::recv`, the tasks that serve the websocket connections, and the bounded
channels between them. Statistics and relayed data are not looked into. -/

namespace Dllm

/-- The events of `ToRegistry`. -/
inductive ToRegistry (Node Stats Data : Type) where
  | update (fromLayer toLayer : ℕ)
  | neighbours
  | relay (dest : Node) (data : Data)
  | stats (stats : Stats)
deriving DecidableEq, Repr

/-- The events of `ToWorker`. -/
inductive ToWorker (Node Data : Type) where
  | update (neighbours : List Node)
  | neighbours (neighbours : List Node)
  | relay (source : Node) (data : Data)
deriving DecidableEq, Repr

structure NodeInfo (Stats : Type) where
  layers : Option Range
  stats : Stats
deriving DecidableEq, Repr

structure SessionManager (Node Stats Data : Type) where
  nodes : AList fun _ : Node => NodeInfo Stats := ∅
  events : List (Node × ToWorker Node Data) := []

namespace SessionManager

variable {Node Stats Data : Type} [DecidableEq Node]

def onStart [Inhabited Stats] (m : SessionManager Node Stats Data) (node : Node) :
    SessionManager Node Stats Data :=
  { m with nodes := m.nodes.insert node ⟨none, default⟩ }

/-- The other nodes, in the order in which the map iterates. -/
def others (ord : IterOrder Node) (m : SessionManager Node Stats Data) (node : Node) : List Node :=
  (ord.run m.nodes.keys).filter (· ≠ node)

/-- `expect("Should have node")` is the panic. -/
def onEvent (ord : IterOrder Node) (m : SessionManager Node Stats Data) (node : Node) :
    ToRegistry Node Stats Data → Except Panic (SessionManager Node Stats Data)
  | .update fromLayer toLayer =>
    match m.nodes.lookup node with
    | none => .error .unwrapOnError
    | some info =>
      let m := { m with nodes := m.nodes.insert node { info with layers := some ⟨fromLayer, toLayer⟩ } }
      .ok { m with events := m.events ++ [(node, .update (m.others ord node))] }
  | .neighbours => .ok { m with events := m.events ++ [(node, .neighbours (m.others ord node))] }
  | .relay dest data =>
    if (m.nodes.lookup dest).isSome then
      .ok { m with events := m.events ++ [(dest, .relay node data)] }
    else .ok m
  | .stats stats =>
    match m.nodes.lookup node with
    | none => .error .unwrapOnError
    | some info => .ok { m with nodes := m.nodes.insert node { info with stats } }

def onEnd (m : SessionManager Node Stats Data) (node : Node) : SessionManager Node Stats Data :=
  { m with nodes := m.nodes.erase node }

omit [DecidableEq Node] in
/-- How many nodes have each layer. -/
def getDistribution (m : SessionManager Node Stats Data) : List ℕ :=
  let ranges := m.nodes.entries.filterMap fun e => e.2.layers
  let maxLayer := ranges.foldl (fun n r => if r.stop > n then r.stop else n) 0
  ranges.foldl (fun layers r =>
    (List.range' r.start (r.stop - r.start)).foldl (fun layers l => layers.modify l (· + 1)) layers)
    (List.replicate maxLayer 0)

omit [DecidableEq Node] in
/-- `get_distribution` loop by loop, each with the order in which the map iterates, and with the
check of every index. -/
def getDistributionIn (ord ord' : IterOrder (Sigma fun _ : Node => NodeInfo Stats))
    (m : SessionManager Node Stats Data) : Except Panic (List ℕ) :=
  let maxLayer := (ord.run m.nodes.entries).foldl (fun maxLayer e =>
    match e.2.layers with
    | some layers => if layers.stop > maxLayer then layers.stop else maxLayer
    | none => maxLayer) 0
  (ord'.run m.nodes.entries).foldlM (fun layers e =>
    match e.2.layers with
    | some nodeLayers =>
      (List.range' nodeLayers.start (nodeLayers.stop - nodeLayers.start)).foldlM
        (incrementAt .indexOutOfBounds) layers
    | none => .ok layers) (List.replicate maxLayer 0)

end SessionManager

/-- `End` is `finish`; `tx` is the sender to a connection, given by the connection's number,
and `reply` the one to an HTTP request. -/
inductive StreamEvent (Model Node Stats Data : Type) where
  | start (model : Model) (node : Node) (tx : ℕ)
  | event (model : Model) (node : Node) (event : ToRegistry Node Stats Data)
  | finish (model : Model) (node : Node)
  | distribution (model : Model) (reply : ℕ)
  | health (reply : ℕ)

/-- An event in the queue. Which connection has sent it, if it was one, is kept for the
observer: the source's events do not say. -/
structure Posted (Model Node Stats Data : Type) where
  source : Option ℕ
  event : StreamEvent Model Node Stats Data

/-- Where a `ws` task stands: it waits to send to the main loop, it waits in `select!`, or
it is done and its receiver is dropped. -/
inductive WsPhase (Model Node Stats Data : Type) where
  | sending (event : StreamEvent Model Node Stats Data)
  | selecting
  | closed

structure WsTask (Model Node Stats Data : Type) where
  model : Model
  node : Node
  phase : WsPhase Model Node Stats Data
  rx : List (ToWorker Node Data)

/-- The main loop waits for an event, or for room in the channel of a connection, or it has
panicked. -/
inductive MainPhase (Model Node Data : Type) where
  | receiving
  | sending (model : Model) (tx : ℕ) (out : ToWorker Node Data)
  | panicked

/-- The answer to an HTTP request. The sizes of the models, which are constants, are left
out of the health report. -/
inductive HttpReply (Model Node Stats : Type) where
  | distribution (layers : List ℕ)
  | health (models : List (Model × List (Node × NodeInfo Stats)))

/-- The capacity of every channel. -/
def CHANNEL_SIZE : ℕ := 10

/-- `tasks` are the connections in the order in which they were accepted; what the main loop
has taken off the queue is kept for the observer. -/
structure Registry (Model Node Stats Data : Type) where
  models : AList (fun _ : Model => SessionManager Node Stats Data) := ∅
  streamsTx : AList (fun _ : Model × Node => ℕ) := ∅
  streamRx : List (Posted Model Node Stats Data) := []
  main : MainPhase Model Node Data := .receiving
  tasks : List (WsTask Model Node Stats Data) := []
  replies : List (ℕ × HttpReply Model Node Stats) := []
  handled : List (Posted Model Node Stats Data) := []

inductive RegistryAction (Model Node Stats Data : Type) where
  /-- A websocket connection is accepted. -/
  | connect (model : Model) (node : Node)
  /-- The task puts the event it waits with into the queue. -/
  | post (c : ℕ)
  /-- The client's next message. -/
  | read (c : ℕ) (event : ToRegistry Node Stats Data)
  /-- The client is gone or sends something else. -/
  | hangUp (c : ℕ)
  /-- A message of the main loop goes to the client, which always reads. -/
  | write (c : ℕ)
  /-- The main loop has dropped the sender to the connection. -/
  | dropped (c : ℕ)
  | httpDistribution (model : Model) (reply : ℕ)
  | httpHealth (reply : ℕ)
  /-- The main loop takes an event off the queue. -/
  | recv (ord : IterOrder Node)
  /-- The main loop gets room in the channel it sends to. -/
  | deliver

namespace Registry

variable {Model Node Stats Data : Type} [DecidableEq Model] [DecidableEq Node]

/-- `models.entry(model).or_default()`. -/
def entry (s : Registry Model Node Stats Data) (model : Model) : SessionManager Node Stats Data :=
  (s.models.lookup model).getD {}

def setEntry (s : Registry Model Node Stats Data) (model : Model)
    (m : SessionManager Node Stats Data) : Registry Model Node Stats Data :=
  { s with models := s.models.insert model m }

/-- Pop events until one has a stream to go to. -/
def popOuts (streamsTx : AList fun _ : Model × Node => ℕ) (model : Model) :
    List (Node × ToWorker Node Data) →
      Option (ℕ × ToWorker Node Data) × List (Node × ToWorker Node Data)
  | [] => (none, [])
  | (dest, out) :: events =>
    match streamsTx.lookup (model, dest) with
    | some tx => (some (tx, out), events)
    | none => popOuts streamsTx model events

/-- The loop over `pop_out` in `recv`, up to the next `send`. -/
def relay (s : Registry Model Node Stats Data) (model : Model) : Registry Model Node Stats Data :=
  match popOuts s.streamsTx model (s.entry model).events with
  | (some (tx, out), events) =>
    { s.setEntry model { s.entry model with events } with main := .sending model tx out }
  | (none, events) => { s.setEntry model { s.entry model with events } with main := .receiving }

/-- `recv` with the event that it takes off the queue, up to its first `send`. The replies to
HTTP requests go into channels of their own that are still empty. -/
def handle [Inhabited Stats] (ord : IterOrder Node) (s : Registry Model Node Stats Data) :
    StreamEvent Model Node Stats Data → Registry Model Node Stats Data
  | .start model node tx =>
    { s.setEntry model ((s.entry model).onStart node) with
      streamsTx := s.streamsTx.insert (model, node) tx }
  | .event model node event =>
    match (s.entry model).onEvent ord node event with
    | .error _ => { s with main := .panicked }
    | .ok m => (s.setEntry model m).relay model
  | .finish model node =>
    { s.setEntry model ((s.entry model).onEnd node) with
      streamsTx := s.streamsTx.erase (model, node) }
  | .distribution model reply =>
    { s with
      replies := s.replies ++
        [(reply, .distribution ((s.models.lookup model).elim [] SessionManager.getDistribution))] }
  | .health reply =>
    { s with
      replies := s.replies ++ [(reply, .health (s.models.entries.map fun e =>
        (e.1, e.2.nodes.entries.map fun n => (n.1, n.2))))] }

/-- A sender to the connection exists: it is in its `Start`, or among the streams. -/
def hasSender (s : Registry Model Node Stats Data) (c : ℕ) (t : WsTask Model Node Stats Data) : Bool :=
  s.streamsTx.lookup (t.model, t.node) = some c ||
    s.streamRx.any fun p =>
      match p.event with
      | .start _ _ tx => tx = c
      | _ => false

def post (s : Registry Model Node Stats Data) (p : Posted Model Node Stats Data) :
    Registry Model Node Stats Data :=
  { s with streamRx := s.streamRx ++ [p] }

/-- The event `p` is taken off the queue, `rest` stays. -/
def take (s : Registry Model Node Stats Data) (p : Posted Model Node Stats Data)
    (rest : List (Posted Model Node Stats Data)) : Registry Model Node Stats Data :=
  { s with streamRx := rest, handled := s.handled ++ [p] }

/-- A `ws` task is done when its `End` is sent. -/
def phaseAfter : StreamEvent Model Node Stats Data → WsPhase Model Node Stats Data
  | .finish _ _ => .closed
  | _ => .selecting

/-- One step of a task or of the main loop, if it is possible; a `send` is possible when the
channel has room and the main loop has not panicked. -/
def step [Inhabited Stats] (s : Registry Model Node Stats Data) :
    RegistryAction Model Node Stats Data → Option (Registry Model Node Stats Data)
  | .connect model node =>
    some { s with tasks := s.tasks ++ [⟨model, node, .sending (.start model node s.tasks.length), []⟩] }
  | .post c =>
    match s.tasks[c]?, s.main with
    | _, .panicked => none
    | none, _ => none
    | some t, _ =>
      match t.phase with
      | .sending event =>
        if s.streamRx.length < CHANNEL_SIZE then
          some { s.post ⟨some c, event⟩ with tasks := s.tasks.set c { t with phase := phaseAfter event } }
        else none
      | _ => none
  | .read c event =>
    match s.tasks[c]? with
    | some ⟨model, node, .selecting, rx⟩ =>
      some { s with tasks := s.tasks.set c ⟨model, node, .sending (.event model node event), rx⟩ }
    | _ => none
  | .hangUp c =>
    match s.tasks[c]? with
    | some ⟨model, node, .selecting, rx⟩ =>
      some { s with tasks := s.tasks.set c ⟨model, node, .sending (.finish model node), rx⟩ }
    | _ => none
  | .write c =>
    match s.tasks[c]? with
    | some ⟨model, node, .selecting, _ :: rx⟩ =>
      some { s with tasks := s.tasks.set c ⟨model, node, .selecting, rx⟩ }
    | _ => none
  | .dropped c =>
    match s.tasks[c]? with
    | some ⟨model, node, .selecting, []⟩ =>
      if s.hasSender c ⟨model, node, .selecting, []⟩ then none
      else some { s with tasks := s.tasks.set c ⟨model, node, .sending (.finish model node), []⟩ }
    | _ => none
  | .httpDistribution model reply =>
    match s.main with
    | .panicked => none
    | _ =>
      if s.streamRx.length < CHANNEL_SIZE then some (s.post ⟨none, .distribution model reply⟩) else none
  | .httpHealth reply =>
    match s.main with
    | .panicked => none
    | _ => if s.streamRx.length < CHANNEL_SIZE then some (s.post ⟨none, .health reply⟩) else none
  | .recv ord =>
    match s.main, s.streamRx with
    | .receiving, p :: rest => some ((s.take p rest).handle ord p.event)
    | _, _ => none
  | .deliver =>
    match s.main with
    | .sending model tx out =>
      match s.tasks[tx]? with
      | none => none
      | some t =>
        match t.phase with
        | .closed => some (s.relay model)
        | _ =>
          if t.rx.length < CHANNEL_SIZE then
            some ({ s with tasks := s.tasks.set tx { t with rx := t.rx ++ [out] } }.relay model)
          else none
    | _ => none

def Step [Inhabited Stats] (s : Registry Model Node Stats Data) (a : RegistryAction Model Node Stats Data)
    (s' : Registry Model Node Stats Data) : Prop := s.step a = some s'

end Registry
end Dllm
