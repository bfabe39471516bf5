import Mathlib.Data.List.Basic
import Mathlib.Data.Nat.Notation

/-! `AsyncReadRx` of `crates/openai-http/src/api_chat.rs`: the texts of an answer, from the
channel that they are sent into to the body of a response. -/

namespace Dllm

/-- The receiver with its channel, which is closed when all senders are gone. A `String` is its
bytes. -/
structure AsyncReadRx where
  rx : List (List UInt8) := []
  closed : Bool := false
  buffer : Option (List UInt8) := none
  offset : ℕ := 0

/-- What `poll_read` returns, with what it has put into the read buffer. -/
inductive ReadPoll where
  | ready (written : List UInt8)
  | pending
deriving DecidableEq, Repr

def ReadPoll.written : ReadPoll → List UInt8
  | ready written => written
  | pending => []

namespace AsyncReadRx

/-- The part of the loop for data in the buffer, with the bytes that it copies. -/
def copy (remaining : ℕ) (s : AsyncReadRx) : List UInt8 × AsyncReadRx :=
  match s.buffer with
  | none => ([], s)
  | some buffer =>
    let available := buffer.length - s.offset
    let toRead := min available remaining
    let written := (buffer.drop s.offset).take toRead
    let offset := s.offset + toRead
    if offset ≥ buffer.length then (written, { s with buffer := none, offset := 0 })
    else (written, { s with offset })

/-- `poll_read` for a read buffer with `remaining` free bytes. After `budget` messages
`poll_recv` says `Pending` in any case. -/
def pollRead (remaining : ℕ) : ℕ → AsyncReadRx → ReadPoll × AsyncReadRx
  | budget, s =>
    let (written, s) := s.copy remaining
    if written ≠ [] then (.ready written, s)
    else
      match budget with
      | 0 => (.pending, s)
      | budget + 1 =>
        match s.rx with
        | msg :: rx => pollRead remaining budget { s with rx, buffer := some msg, offset := 0 }
        | [] => if s.closed then (.ready [], s) else (.pending, s)

end AsyncReadRx

/-- The reader, with all bytes that have been sent and all that have been read. -/
structure HttpStream where
  reader : AsyncReadRx := {}
  sent : List UInt8 := []
  written : List UInt8 := []

inductive StreamAct where
  | send (msg : List UInt8)
  | close
  | poll (remaining budget : ℕ)

/-- One event, where it can happen: the channel has room for ten messages. -/
def HttpStream.step (s : HttpStream) : StreamAct → Option HttpStream
  | .send msg =>
    if s.reader.closed = false ∧ s.reader.rx.length < 10 then
      some { s with reader := { s.reader with rx := s.reader.rx ++ [msg] }, sent := s.sent ++ msg }
    else none
  | .close => some { s with reader := { s.reader with closed := true } }
  | .poll remaining budget =>
    let (res, reader) := s.reader.pollRead remaining budget
    some { s with reader, written := s.written ++ res.written }

end Dllm
