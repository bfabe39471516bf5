import DecentralizedInference.Spec.Communication

/-! `RegistryClient::recv` of `crates/registry/src/client`, await point by await point: it pops
each queued message and writes it to the websocket, then it reads. `select!` drops its future
whenever another branch is ready, and calls it again later. -/

namespace Dllm

/-- The calls that queue a message. -/
inductive RegistryCall (Node Stats : Type) where
  | updateStats (stats : Stats)
  | updateLayer (layersRange : Range)
  | offer (dest : Node) (connId : UInt64) (offer : String)
  | answer (dest : Node) (connId : UInt64) (answer : Except Unit String)

/-- Where the future stands: there is none, `send` waits for the sink, the sink has taken the
message and flushes it, or the queue is empty and the stream is read. -/
inductive RecvPhase (Node Stats : Type) where
  | idle
  | waiting (req : ToRegistry Node Stats RelayData)
  | flushing
  | reading
deriving DecidableEq

/-- `failed` is an error of the sink, `returned` the end of the read, and `drop` comes from
outside. -/
inductive RecvEvent (Node Stats : Type) where
  | queue (c : RegistryCall Node Stats)
  | call
  | ready
  | flushed
  | failed
  | returned
  | drop

/-- The client with its future. For the observer, `pushed` lists the messages that have been
queued, and `taken` those that the sink has taken. -/
structure ClientRecv (Node Stats : Type) where
  client : RegistryClient Node Stats := {}
  phase : RecvPhase Node Stats := .idle
  taken : List (ToRegistry Node Stats RelayData) := []
  pushed : List (ToRegistry Node Stats RelayData) := []

variable {Node Stats : Type}

def RegistryCall.apply (c : RegistryClient Node Stats) :
    RegistryCall Node Stats → Except Panic (RegistryClient Node Stats)
  | .updateStats stats => .ok (c.updateStats stats)
  | .updateLayer layersRange => .ok (c.updateLayer layersRange)
  | .offer dest connId sdp => .ok (c.offer dest connId sdp)
  | .answer dest connId sdp => c.answer dest connId sdp

namespace ClientRecv

/-- `while let Some(req) = self.queue.pop_front()`. -/
def popFront (s : ClientRecv Node Stats) : ClientRecv Node Stats :=
  match s.client.queue with
  | [] => { s with phase := .reading }
  | req :: queue => { s with client := ⟨queue⟩, phase := .waiting req }

/-- One event, where it can happen. `recv` borrows the client, so calls come between its
futures only. -/
def step (s : ClientRecv Node Stats) (e : RecvEvent Node Stats) : Option (ClientRecv Node Stats) :=
  match s.phase, e with
  | .idle, .queue c =>
    (c.apply s.client).toOption.map fun client =>
      { s with client, pushed := s.pushed ++ client.queue.drop s.client.queue.length }
  | .idle, .call => some s.popFront
  | .waiting req, .ready => some { s with phase := .flushing, taken := s.taken ++ [req] }
  | .flushing, .flushed => some s.popFront
  | .waiting _, .failed => some { s with phase := .idle }
  | .flushing, .failed => some { s with phase := .idle }
  | .reading, .returned => some { s with phase := .idle }
  | .waiting _, .drop => some { s with phase := .idle }
  | .flushing, .drop => some { s with phase := .idle }
  | .reading, .drop => some { s with phase := .idle }
  | _, _ => none

def run (s : ClientRecv Node Stats) (es : List (RecvEvent Node Stats)) : Option (ClientRecv Node Stats) :=
  es.foldlM step s

end ClientRecv
end Dllm
