import DecentralizedInference.Spec.ConnectionBuffer

/-! `NetworkNode` of `crates/p2p-network/src/node.rs`: the connections of a node, by their
ids and by the nodes they lead to, and the events that they queue for `recv`. What the
WebRTC library puts out for a connection, the texts of offers and answers, and which
connection a datagram belongs to come from outside. -/

namespace Dllm

/-- The outputs of `Rtc::poll_output` that `pop_outgoing` tells apart; `other` stands for
the rest of the events and for timeouts. -/
inductive RtcOutput where
  | transmit (datagram : List UInt8)
  | iceDisconnected
  | channelOpen (channel : ℕ)
  | channelData (data : List UInt8)
  | channelClose
  | other
deriving DecidableEq, Repr

/-- What becomes of the text of an offer or an answer: it cannot be parsed, the library
refuses it, or takes it. -/
inductive SdpFate where
  | malformed
  | refused
  | accepted
deriving DecidableEq, Repr

inductive RemoteConnOut where
  | transmit (datagram : List UInt8)
  | connected
  | message (data : List UInt8)
  | disconnected
deriving DecidableEq, Repr

/-- `pending` says whether an offer waits for its answer. -/
structure RemoteConn (Node : Type) where
  remote : Node
  pending : Bool := false
  channel : Option ℕ := none
  buffer : ConnectionBuffer 4096 150000 := {}

/-- Everything that the window lets through, as the loop of `pop_outgoing_buffer` takes it;
there are no more chunks than the two queues hold. -/
def ConnectionBuffer.popSendAll {C A : UInt64} : ℕ → ConnectionBuffer C A → ConnectionBuffer C A
  | 0, b => b
  | k + 1, b =>
    match b.popSend with
    | none => b
    | some (_, b) => b.popSendAll k

namespace RemoteConn

variable {Node : Type}

/-- The chunks are handed to the WebRTC library. -/
def popOutgoingBuffer (conn : RemoteConn Node) : RemoteConn Node :=
  match conn.channel with
  | none => conn
  | some _ =>
    { conn with
      buffer := conn.buffer.popSendAll
        (conn.buffer.highPriority.length + conn.buffer.lowPriority.length) }

def createOffer (conn : RemoteConn Node) : RemoteConn Node := { conn with pending := true }

/-- Only an answer that can be parsed uses up the pending offer. -/
def onAnswer (conn : RemoteConn Node) : SdpFate → Option Unit × RemoteConn Node
  | .malformed => (none, conn)
  | .refused => (none, { conn with pending := false })
  | .accepted => (if conn.pending then some () else none, { conn with pending := false })

/-- A frame that `push_frame` cannot cut ends the task; with chunks of 4096 bytes there is
none. -/
def sendData (conn : RemoteConn Node) (buf : List UInt8) : RemoteConn Node :=
  match conn.buffer.pushFrame buf with
  | .error _ => conn
  | .ok buffer => { conn with buffer }.popOutgoingBuffer

def shutdown (conn : RemoteConn Node) : RemoteConn Node := { conn with channel := none }

/-- What `pop_outgoing` makes of one output. -/
def onOutput (conn : RemoteConn Node) : RtcOutput → List RemoteConnOut × RemoteConn Node
  | .transmit datagram => ([.transmit datagram], conn)
  | .iceDisconnected => ([.disconnected], conn)
  | .channelOpen channel => ([.connected], { conn with channel := some channel })
  | .channelData data =>
    let buffer := (conn.buffer.onReceived data).getD conn.buffer
    (buffer.outs.map .message,
      popOutgoingBuffer { conn with buffer := { buffer with outs := [] } })
  | .channelClose =>
    match conn.channel with
    | some _ => ([.disconnected], { conn with channel := none })
    | none => ([], conn)
  | .other => ([], conn)

end RemoteConn

inductive IncomingError where
  | remoteNotFound
  | sdpError
  | alreadyHas
deriving DecidableEq, Repr

inductive SendError where
  | noNode
  | noConnection
deriving DecidableEq, Repr

/-- The statistics event of the source is never queued. -/
inductive NodeEvent (Node Msg : Type) where
  | nodeConnected (conn : UInt64) (node : Node)
  | nodeMsg (conn : UInt64) (node : Node) (msg : Msg)
  | nodeDisconnected (conn : UInt64) (node : Node)
deriving DecidableEq

structure NetworkNode (Node Msg : Type) where
  conns : AList fun _ : UInt64 => RemoteConn Node
  nodes : AList fun _ : Node => UInt64
  events : List (NodeEvent Node Msg)

namespace NetworkNode

variable {Node Msg : Type} [DecidableEq Node]

def new : NetworkNode Node Msg := ⟨∅, ∅, []⟩

/-- The event that `pop_conn` queues for an output; datagrams go to the socket, and a
message that cannot be decoded is dropped. -/
def eventOf (decode : List UInt8 → Option Msg) (connId : UInt64) (remote : Node) :
    RemoteConnOut → Option (NodeEvent Node Msg)
  | .transmit _ => none
  | .connected => some (.nodeConnected connId remote)
  | .message data => (decode data).map (.nodeMsg connId remote)
  | .disconnected => some (.nodeDisconnected connId remote)

/-- `pop_conn`, when the library has these outputs for the connection. -/
def popConn (decode : List UInt8 → Option Msg) (connId : UInt64) :
    List RtcOutput → RemoteConn Node → RemoteConn Node × List (NodeEvent Node Msg)
  | [], conn => (conn, [])
  | o :: outputs, conn =>
    let (outs, conn') := conn.onOutput o
    let (conn'', events) := popConn decode connId outputs conn'
    (conn'', outs.filterMap (eventOf decode connId conn.remote) ++ events)

/-- Do something with a connection, if it is there, and `pop_conn`: the body of the loops
over the connections, and what `recv` does with a datagram. -/
def touch (decode : List UInt8 → Option Msg) (act : RemoteConn Node → RemoteConn Node)
    (connId : UInt64) (outputs : List RtcOutput) (s : NetworkNode Node Msg) : NetworkNode Node Msg :=
  match s.conns.lookup connId with
  | none => s
  | some conn =>
    let (conn, events) := popConn decode connId outputs (act conn)
    { s with conns := s.conns.insert connId conn, events := s.events ++ events }

/-- A loop over the connections, in the order of its iteration. -/
def touchAll (decode : List UInt8 → Option Msg) (act : RemoteConn Node → RemoteConn Node)
    (order : List UInt64) (outputs : UInt64 → List RtcOutput) (s : NetworkNode Node Msg) :
    NetworkNode Node Msg :=
  order.foldl (fun s connId => s.touch decode act connId (outputs connId)) s

/-- `connId` is the id that is drawn. -/
def connect (decode : List UInt8 → Option Msg) (dest : Node) (connId : UInt64)
    (outputs : List RtcOutput) (s : NetworkNode Node Msg) :
    Option UInt64 × NetworkNode Node Msg :=
  if (s.nodes.lookup dest).isSome then (none, s)
  else
    let (conn, events) := popConn decode connId outputs { remote := dest : RemoteConn Node }.createOffer
    (some connId,
      { conns := s.conns.insert connId conn
        nodes := s.nodes.insert dest connId
        events := s.events ++ events })

def onOffer (decode : List UInt8 → Option Msg) (connId : UInt64) (sender : Node) (offer : SdpFate)
    (outputs : List RtcOutput) (s : NetworkNode Node Msg) :
    Except IncomingError Unit × NetworkNode Node Msg :=
  if (s.conns.lookup connId).isSome then (.error .alreadyHas, s)
  else if offer ≠ .accepted then (.error .sdpError, s)
  else
    let (conn, events) := popConn decode connId outputs { remote := sender : RemoteConn Node }
    (.ok (),
      { conns := s.conns.insert connId conn
        nodes := s.nodes.insert sender connId
        events := s.events ++ events })

def onAnswer (decode : List UInt8 → Option Msg) (connId : UInt64) (sender : Node) (answer : SdpFate)
    (outputs : List RtcOutput) (s : NetworkNode Node Msg) :
    Except IncomingError Unit × NetworkNode Node Msg :=
  match s.conns.lookup connId with
  | none => (.error .remoteNotFound, s)
  | some conn =>
    if conn.remote = sender then
      match conn.onAnswer answer with
      | (none, conn) => (.error .sdpError, { s with conns := s.conns.insert connId conn })
      | (some (), conn) =>
        let (conn, events) := popConn decode connId outputs conn
        (.ok (), { s with conns := s.conns.insert connId conn, events := s.events ++ events })
    else (.error .remoteNotFound, s)

/-- The number of bytes that `send` returns is that of the message. -/
def send (decode : List UInt8 → Option Msg) (dest : Node) (buf : List UInt8)
    (outputs : List RtcOutput) (s : NetworkNode Node Msg) :
    Except SendError Unit × NetworkNode Node Msg :=
  match s.nodes.lookup dest with
  | none => (.error .noNode, s)
  | some connId =>
    if (s.conns.lookup connId).isNone then (.error .noConnection, s)
    else (.ok (), s.touch decode (RemoteConn.sendData · buf) connId outputs)

/-- The first event in the queue; `recv` waits for the network only if there is none. -/
def recv (s : NetworkNode Node Msg) : Option (NodeEvent Node Msg) × NetworkNode Node Msg :=
  match s.events with
  | [] => (none, s)
  | .nodeDisconnected connId node :: events =>
    (some (.nodeDisconnected connId node),
      ⟨s.conns.erase connId, s.nodes.erase node, events⟩)
  | out :: events => (some out, { s with events })

end NetworkNode

/-- The calls on a node, and what happens in `recv` while it waits. `order` is the order in
which the map of connections iterates. -/
inductive NodeCall (Node : Type) where
  | connect (dest : Node) (connId : UInt64) (outputs : List RtcOutput)
  | onOffer (connId : UInt64) (sender : Node) (sdp : SdpFate) (outputs : List RtcOutput)
  | onAnswer (connId : UInt64) (sender : Node) (sdp : SdpFate) (outputs : List RtcOutput)
  | send (dest : Node) (buf : List UInt8) (outputs : List RtcOutput)
  | broadcast (buf : List UInt8) (order : List UInt64) (outputs : UInt64 → List RtcOutput)
  | shutdown (order : List UInt64) (outputs : UInt64 → List RtcOutput)
  | tick (order : List UInt64) (outputs : UInt64 → List RtcOutput)
  | datagram (connId : UInt64) (outputs : List RtcOutput)
  | recv

namespace NetworkNode

variable {Node Msg : Type} [DecidableEq Node]

/-- The ids that `ConnId::rand` draws are not in use. The id in an offer is that of the
other node. -/
inductive Step (decode : List UInt8 → Option Msg) :
    NetworkNode Node Msg → NodeCall Node → NetworkNode Node Msg → Prop
  | connect (s : NetworkNode Node Msg) (dest : Node) (connId : UInt64) (outputs : List RtcOutput)
      (hfresh : s.conns.lookup connId = none) :
      Step decode s (.connect dest connId outputs) (s.connect decode dest connId outputs).2
  | onOffer (s : NetworkNode Node Msg) (connId : UInt64) (sender : Node) (sdp : SdpFate)
      (outputs : List RtcOutput) :
      Step decode s (.onOffer connId sender sdp outputs)
        (s.onOffer decode connId sender sdp outputs).2
  | onAnswer (s : NetworkNode Node Msg) (connId : UInt64) (sender : Node) (sdp : SdpFate)
      (outputs : List RtcOutput) :
      Step decode s (.onAnswer connId sender sdp outputs)
        (s.onAnswer decode connId sender sdp outputs).2
  | send (s : NetworkNode Node Msg) (dest : Node) (buf : List UInt8) (outputs : List RtcOutput) :
      Step decode s (.send dest buf outputs) (s.send decode dest buf outputs).2
  | broadcast (s : NetworkNode Node Msg) (buf : List UInt8) (order : List UInt64)
      (outputs : UInt64 → List RtcOutput) (horder : order.Perm s.conns.keys) :
      Step decode s (.broadcast buf order outputs)
        (s.touchAll decode (RemoteConn.sendData · buf) order outputs)
  | shutdown (s : NetworkNode Node Msg) (order : List UInt64) (outputs : UInt64 → List RtcOutput)
      (horder : order.Perm s.conns.keys) :
      Step decode s (.shutdown order outputs)
        (s.touchAll decode RemoteConn.shutdown order outputs)
  | tick (s : NetworkNode Node Msg) (order : List UInt64) (outputs : UInt64 → List RtcOutput)
      (horder : order.Perm s.conns.keys) (hidle : s.events = []) :
      Step decode s (.tick order outputs) (s.touchAll decode id order outputs)
  | datagram (s : NetworkNode Node Msg) (connId : UInt64) (outputs : List RtcOutput)
      (hidle : s.events = []) :
      Step decode s (.datagram connId outputs) (s.touch decode id connId outputs)
  | recv (s : NetworkNode Node Msg) (hevents : s.events ≠ []) :
      Step decode s .recv s.recv.2

end NetworkNode
end Dllm
