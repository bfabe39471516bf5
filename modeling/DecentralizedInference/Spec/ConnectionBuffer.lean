import DecentralizedInference.Lib.Assoc
import DecentralizedInference.Lib.Bytes
import DecentralizedInference.Lib.Run
import DecentralizedInference.Spec.Basic

/-! `ConnectionBuffer` of `crates/p2p-network/src/node/remote_conn.rs`, which cuts
frames into chunks, sends them inside a window and puts them together again, and
two such buffers joined by a data channel in each direction. -/

namespace Dllm

inductive ConnectionChunk where
  | chunk (frameId : UInt32) (chunkId chunkCount : UInt16) (data : List UInt8)
  | chunkAck (frameId : UInt32) (chunkId chunkCount : UInt16)
deriving DecidableEq, Repr

namespace ConnectionChunk

/-- `bincode::serialize`: the number of the variant in four bytes, then the fields,
all little-endian, a vector after its length in eight bytes. -/
def serialize : ConnectionChunk → List UInt8
  | chunk frameId chunkId chunkCount data =>
    leBytes 4 0 ++ (leBytes 4 frameId.toNat ++ (leBytes 2 chunkId.toNat ++
      (leBytes 2 chunkCount.toNat ++ (leBytes 8 data.length ++ data))))
  | chunkAck frameId chunkId chunkCount =>
    leBytes 4 1 ++ (leBytes 4 frameId.toNat ++ (leBytes 2 chunkId.toNat ++
      leBytes 2 chunkCount.toNat))

/-- `bincode::deserialize`, which does not mind bytes after the value. -/
def deserialize (bs : List UInt8) : Option ConnectionChunk := do
  let (variant, bs) ← readLE 4 bs
  let (frameId, bs) ← readLE 4 bs
  let (chunkId, bs) ← readLE 2 bs
  let (chunkCount, bs) ← readLE 2 bs
  match variant with
  | 0 =>
    let (len, bs) ← readLE 8 bs
    if len ≤ bs.length then
      some (chunk (.ofNat frameId) (.ofNat chunkId) (.ofNat chunkCount) (bs.take len))
    else none
  | 1 => some (chunkAck (.ofNat frameId) (.ofNat chunkId) (.ofNat chunkCount))
  | _ => none

def inAirSize : ConnectionChunk → ℕ
  | c@(chunk ..) => c.serialize.length
  | chunkAck .. => 0

end ConnectionChunk

structure IncomingFrame where
  chunkCount : UInt16
  chunks : Std.TreeMap UInt16 (List UInt8)

structure OutgoingFrame where
  chunks : Std.TreeMap UInt16 ℕ

/-- The chunks of a frame too long for one, in order. Their numbers and their
count are cast to sixteen bits. -/
def splitFrame (CHUNK_SIZE : UInt64) (frameId : UInt32) (data : List UInt8) :
    List ConnectionChunk :=
  let chunks := data.chunks CHUNK_SIZE.toNat
  chunks.zipIdx.map fun c => .chunk frameId (.ofNat c.2) (.ofNat chunks.length) c.1

/-- The sizes that `push_frame` notes for the chunks it queues. -/
def OutgoingFrame.ofChunks (cs : List ConnectionChunk) : OutgoingFrame :=
  ⟨cs.foldl (fun m c =>
    match c with
    | .chunk _ chunkId _ _ => m.insert chunkId c.inAirSize
    | .chunkAck .. => m) ∅⟩

structure ConnectionBuffer (CHUNK_SIZE AIR_LIMIT : UInt64) where
  frameIdSeed : UInt32 := 0
  highPriority : List ConnectionChunk := []
  lowPriority : List ConnectionChunk := []
  incomings : AList (fun _ : UInt32 => IncomingFrame) := ∅
  outgoings : AList (fun _ : UInt32 => OutgoingFrame) := ∅
  outs : List (List UInt8) := []
  inAirSize : ℕ := 0

namespace ConnectionBuffer

variable {CHUNK_SIZE AIR_LIMIT : UInt64}

def pushFrame (b : ConnectionBuffer CHUNK_SIZE AIR_LIMIT) (data : List UInt8) :
    Except Panic (ConnectionBuffer CHUNK_SIZE AIR_LIMIT) :=
  let frameId := b.frameIdSeed
  if data.length ≤ CHUNK_SIZE.toNat then
    let chunk := .chunk frameId 0 1 data
    .ok { b with
      frameIdSeed := frameId + 1
      outgoings := b.outgoings.insert frameId (.ofChunks [chunk])
      highPriority := b.highPriority ++ [chunk] }
  else if CHUNK_SIZE = 0 then .error .zeroChunkSize
  else
    let chunks := splitFrame CHUNK_SIZE frameId data
    .ok { b with
      frameIdSeed := frameId + 1
      outgoings := b.outgoings.insert frameId (.ofChunks chunks)
      lowPriority := b.lowPriority ++ chunks }

/-- The branch of `on_received` for a data chunk. -/
def onChunk (b : ConnectionBuffer CHUNK_SIZE AIR_LIMIT) (frameId : UInt32)
    (chunkId chunkCount : UInt16) (data : List UInt8) : ConnectionBuffer CHUNK_SIZE AIR_LIMIT :=
  let high := b.highPriority ++ [.chunkAck frameId chunkId chunkCount]
  if chunkCount = 1 then { b with highPriority := high, outs := b.outs ++ [data] }
  else
    let frame : IncomingFrame := (b.incomings.lookup frameId).getD ⟨chunkCount, ∅⟩
    let chunks := frame.chunks.insert chunkId data
    if chunks.size = frame.chunkCount.toNat then
      { b with
        highPriority := high
        incomings := b.incomings.erase frameId
        outs := b.outs ++ [(chunks.toList.map Prod.snd).flatten] }
    else
      { b with
        highPriority := high
        incomings := b.incomings.insert frameId ⟨frame.chunkCount, chunks⟩ }

/-- The branch of `on_received` for an acknowledgement. -/
def onAck (b : ConnectionBuffer CHUNK_SIZE AIR_LIMIT) (frameId : UInt32) (chunkId : UInt16) :
    ConnectionBuffer CHUNK_SIZE AIR_LIMIT :=
  match b.outgoings.lookup frameId with
  | none => b
  | some frame =>
    match frame.chunks[chunkId]? with
    | none => b
    | some size =>
      let chunks := frame.chunks.erase chunkId
      { b with
        inAirSize := wrapSub 64 b.inAirSize size
        outgoings :=
          if chunks.isEmpty then b.outgoings.erase frameId
          else b.outgoings.insert frameId ⟨chunks⟩ }

/-- `None`, with the buffer as it was, for bytes that are no chunk. -/
def onReceived (b : ConnectionBuffer CHUNK_SIZE AIR_LIMIT) (data : List UInt8) :
    Option (ConnectionBuffer CHUNK_SIZE AIR_LIMIT) :=
  (ConnectionChunk.deserialize data).map fun
    | .chunk frameId chunkId chunkCount data => b.onChunk frameId chunkId chunkCount data
    | .chunkAck frameId chunkId _ => b.onAck frameId chunkId

/-- The chunk that goes next, and the queues without it. -/
def popFront (b : ConnectionBuffer CHUNK_SIZE AIR_LIMIT) :
    Option (ConnectionChunk × ConnectionBuffer CHUNK_SIZE AIR_LIMIT) :=
  match b.highPriority, b.lowPriority with
  | c :: high, _ => some (c, { b with highPriority := high })
  | [], c :: low => some (c, { b with lowPriority := low })
  | [], [] => none

def popSend (b : ConnectionBuffer CHUNK_SIZE AIR_LIMIT) :
    Option (List UInt8 × ConnectionBuffer CHUNK_SIZE AIR_LIMIT) := do
  let (first, rest) ← b.popFront
  if wrapAdd 64 first.inAirSize b.inAirSize ≤ AIR_LIMIT.toNat then
    some (first.serialize, { rest with inAirSize := wrapAdd 64 b.inAirSize first.inAirSize })
  else none

def popRecv (b : ConnectionBuffer CHUNK_SIZE AIR_LIMIT) :
    Option (List UInt8 × ConnectionBuffer CHUNK_SIZE AIR_LIMIT) :=
  match b.outs with
  | [] => none
  | frame :: outs => some (frame, { b with outs })

end ConnectionBuffer

inductive Side where
  | a
  | b
deriving DecidableEq, Repr

def Side.peer : Side → Side
  | a => b
  | b => a

/-- Two buffers and, for each side, the messages it has sent that have not arrived,
oldest first: the data channel is reliable and keeps the order. -/
structure Duplex (CHUNK_SIZE AIR_LIMIT : UInt64) where
  buf : Side → ConnectionBuffer CHUNK_SIZE AIR_LIMIT
  chan : Side → List (List UInt8)

/-- `deliver x` is the arrival of the oldest message of `x` at its peer. -/
inductive DuplexEvent where
  | push (x : Side) (frame : List UInt8)
  | send (x : Side)
  | deliver (x : Side)
  | recv (x : Side) (frame : List UInt8)

namespace Duplex

variable {CHUNK_SIZE AIR_LIMIT : UInt64}

def init : Duplex CHUNK_SIZE AIR_LIMIT := ⟨fun _ => {}, fun _ => []⟩

def setBuf (σ : Duplex CHUNK_SIZE AIR_LIMIT) (x : Side) (b : ConnectionBuffer CHUNK_SIZE AIR_LIMIT) :
    Duplex CHUNK_SIZE AIR_LIMIT :=
  { σ with buf := Function.update σ.buf x b }

def setChan (σ : Duplex CHUNK_SIZE AIR_LIMIT) (x : Side) (msgs : List (List UInt8)) :
    Duplex CHUNK_SIZE AIR_LIMIT :=
  { σ with chan := Function.update σ.chan x msgs }

inductive Step : Duplex CHUNK_SIZE AIR_LIMIT → DuplexEvent → Duplex CHUNK_SIZE AIR_LIMIT → Prop
  | push (σ : Duplex CHUNK_SIZE AIR_LIMIT) (x : Side) (frame : List UInt8)
      (b : ConnectionBuffer CHUNK_SIZE AIR_LIMIT) (hb : (σ.buf x).pushFrame frame = .ok b) :
      Step σ (.push x frame) (σ.setBuf x b)
  | send (σ : Duplex CHUNK_SIZE AIR_LIMIT) (x : Side) (msg : List UInt8)
      (b : ConnectionBuffer CHUNK_SIZE AIR_LIMIT) (hb : (σ.buf x).popSend = some (msg, b)) :
      Step σ (.send x) ((σ.setBuf x b).setChan x (σ.chan x ++ [msg]))
  | deliver (σ : Duplex CHUNK_SIZE AIR_LIMIT) (x : Side) (msg : List UInt8)
      (rest : List (List UInt8)) (hmsg : σ.chan x = msg :: rest) :
      Step σ (.deliver x)
        ((σ.setBuf x.peer (((σ.buf x.peer).onReceived msg).getD (σ.buf x.peer))).setChan x rest)
  | recv (σ : Duplex CHUNK_SIZE AIR_LIMIT) (x : Side) (frame : List UInt8)
      (b : ConnectionBuffer CHUNK_SIZE AIR_LIMIT) (hb : (σ.buf x).popRecv = some (frame, b)) :
      Step σ (.recv x frame) (σ.setBuf x b)

end Duplex
end Dllm
