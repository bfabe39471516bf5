import DecentralizedInference.Lib.ForLoop
import DecentralizedInference.Spec.Basic

/-! `LlamaModel::chat` and `Phi3Model::chat` of `crates/models/src`: the loops that feed a
prompt to the layers and sample an answer. What the parts of a model compute (tokenizer, pre-
and postprocessing, layers, sampling with its repeat penalty) comes from outside. -/

namespace Dllm

/-- What becomes of a token: it cannot be decoded, the receiver of the texts is gone, or it is
passed on. -/
inductive Emitted where
  | undecodable
  | closed
  | sent
deriving DecidableEq, Repr

/-- The parts of a model, with a state of their own. `pre`, `forward` and `sample` give `none`
where a call fails, and `sample` covers everything from the postprocessing on, with the tokens
that the penalty is for. -/
structure ChatParts (σ E : Type) where
  encode : String → Option (List UInt32)
  start : UInt32 → σ → Bool × σ
  pre : List UInt32 → σ → Option E × σ
  forward : UInt32 → E → UInt32 → σ → Option E × σ
  sample : List UInt32 → E → σ → Option UInt32 × σ
  emit : UInt32 → σ → Emitted × σ
  decodeRest : σ → Emitted × σ
  finish : σ → σ
  eos : Option (List UInt32)

/-- The variables of a chat. For the observer, `forwards` lists the calls of
`layers_worker.forward` by step and position, and `loopBound` holds the two sides of the
subtraction in the bound of a loop, once it is computed. -/
structure ChatState (σ : Type) where
  parts : σ
  tokens : List UInt32 := []
  nextToken : UInt32 := 0
  indexPos : UInt32 := 0
  forwards : List (UInt32 × UInt32) := []
  loopBound : Option (UInt32 × UInt32) := none

inductive ChatEnd where
  | ok
  | err
  | panic (p : Panic)
deriving DecidableEq, Repr

namespace ChatParts

variable {σ E : Type}

/-- From an input to the next token, by one call of the layers. -/
def infer (m : ChatParts σ E) (input : List UInt32) (step indexPos : UInt32) (penalized : List UInt32)
    (s : ChatState σ) : Option UInt32 × ChatState σ :=
  match m.pre input s.parts with
  | (none, parts) => (none, { s with parts })
  | (some x, parts) =>
    let forwards := s.forwards ++ [(step, indexPos)]
    match m.forward step x indexPos parts with
    | (none, parts) => (none, { s with parts, forwards })
    | (some y, parts) =>
      let (next, parts) := m.sample penalized y parts
      (next, { s with parts, forwards })

/-- The end of a chat whose loop is over; `undecodable` is what a failure of `decode_rest` is. -/
def close (m : ChatParts σ E) (undecodable : ChatEnd) (s : ChatState σ) : ChatEnd × ChatState σ :=
  match m.decodeRest s.parts with
  | (.undecodable, parts) => (undecodable, { s with parts })
  | (_, parts) => (.ok, { s with parts := m.finish parts })

/-- The loop of `LlamaModel::chat`, with the cache for keys and values. -/
def llamaTurn (m : ChatParts σ E) (index : ℕ) (s : ChatState σ) : LoopTurn (ChatState σ) :=
  let (contextSize, contextIndex) := if 0 < index then (1, s.indexPos) else (s.tokens.length, 0)
  let ctxt := s.tokens.drop (s.tokens.length - contextSize)
  match m.infer ctxt 0 contextIndex s.tokens s with
  | (none, s) => .leave s
  | (some next, s) =>
    let s := { s with indexPos := s.indexPos + .ofNat ctxt.length, tokens := s.tokens ++ [next] }
    if next ∈ m.eos.getD [] then .brk s
    else
      match m.emit next s.parts with
      | (.undecodable, parts) => .leave { s with parts }
      | (.closed, parts) => .brk { s with parts }
      | (.sent, parts) => .next { s with parts }

def llamaChat (m : ChatParts σ E) (maxLen : UInt32) (prompt : String) (parts : σ) : ChatEnd × ChatState σ :=
  match m.encode prompt with
  | none => (.panic .unwrapOnError, { parts })
  | some tokens =>
    match m.start maxLen parts with
    | (false, parts) => (.err, { parts, tokens })
    | (true, parts) =>
      match forEach m.llamaTurn (List.range maxLen.toNat) { parts, tokens } with
      | .leave s => (.err, s)
      | .brk s => m.close (.panic .unwrapOnError) s
      | .next s => m.close (.panic .unwrapOnError) s

/-- The loop of `Phi3Model::chat` over the prompt, token by token with their positions. -/
def promptTurn (m : ChatParts σ E) (token : UInt32 × ℕ) (s : ChatState σ) : LoopTurn (ChatState σ) :=
  match m.infer [token.1] 0 (.ofNat token.2) [] s with
  | (none, s) => .leave s
  | (some next, s) => .next { s with nextToken := next }

/-- The loop over the answer. -/
def phi3Turn (m : ChatParts σ E) (eos : List UInt32) (promptLen : UInt32) (index : ℕ) (s : ChatState σ) :
    LoopTurn (ChatState σ) :=
  match m.infer [s.nextToken] (.ofNat index + 1) (promptLen + .ofNat index) s.tokens s with
  | (none, s) => .leave s
  | (some next, s) =>
    let s := { s with nextToken := next, tokens := s.tokens ++ [next] }
    match m.emit next s.parts with
    | (.undecodable, parts) => .leave { s with parts }
    | (.closed, parts) => .brk { s with parts }
    | (.sent, parts) => if next ∈ eos then .brk { s with parts } else .next { s with parts }

/-- The rest of `Phi3Model::chat` when the first token of the answer is there. -/
def phi3Answer (m : ChatParts σ E) (maxLen promptLen : UInt32) (s : ChatState σ) : ChatEnd × ChatState σ :=
  let s := { s with tokens := [s.nextToken] }
  match m.emit s.nextToken s.parts with
  | (.undecodable, parts) => (.err, { s with parts })
  | (.closed, parts) => (.panic .unwrapOnError, { s with parts })
  | (.sent, parts) =>
    match m.eos with
    | none => (.panic .unwrapOnError, { s with parts })
    | some eos =>
      let s := { s with parts, loopBound := some (maxLen, promptLen) }
      match forEach (m.phi3Turn eos promptLen) (List.range (maxLen - promptLen).toNat) s with
      | .leave s => (.err, s)
      | .brk s => m.close .err s
      | .next s => m.close .err s

def phi3Chat (m : ChatParts σ E) (maxLen : UInt32) (prompt : String) (parts : σ) : ChatEnd × ChatState σ :=
  match m.encode prompt with
  | none => (.panic .unwrapOnError, { parts })
  | some tokens =>
    match m.start maxLen parts with
    | (false, parts) => (.err, { parts })
    | (true, parts) =>
      match forEach m.promptTurn tokens.zipIdx { parts } with
      | .leave s => (.err, s)
      | .brk s => m.phi3Answer maxLen (.ofNat tokens.length) s
      | .next s => m.phi3Answer maxLen (.ofNat tokens.length) s

end ChatParts
end Dllm
