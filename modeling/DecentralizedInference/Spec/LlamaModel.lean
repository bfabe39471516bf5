import DecentralizedInference.Spec.Attention
import DecentralizedInference.Spec.Chat

/-! `LlamaModel` of `crates/models/src/llama` with all its layers in its own worker, and its chat
for either value of `USE_KV_CACHE`. -/

namespace Dllm

namespace ChatParts

variable {σ E : Type}

/-- The loop of `LlamaModel::chat`. Without the cache, each turn feeds all tokens from the beginning. -/
def llamaTurnWith (useKvCache : Bool) (m : ChatParts σ E) (index : ℕ) (s : ChatState σ) : LoopTurn (ChatState σ) :=
  let (contextSize, contextIndex) := if useKvCache = true ∧ 0 < index then (1, s.indexPos) else (s.tokens.length, 0)
  let ctxt := s.tokens.drop (s.tokens.length - contextSize)
  match m.infer ctxt 0 contextIndex s.tokens s with
  | (none, s) => .leave s
  | (some next, s) =>
    let s := { s with indexPos := s.indexPos + .ofNat ctxt.length, tokens := s.tokens ++ [next] }
    if next ∈ m.eos.getD [] then .brk s
    else
      match m.emit next s.parts with
      | (.undecodable, parts) => .leave { s with parts }
      | (.closed, parts) => .brk { s with parts }
      | (.sent, parts) => .next { s with parts }

def llamaChatWith (useKvCache : Bool) (m : ChatParts σ E) (maxLen : UInt32) (prompt : String) (parts : σ) :
    ChatEnd × ChatState σ :=
  match m.encode prompt with
  | none => (.panic .unwrapOnError, { parts })
  | some tokens =>
    match m.start maxLen parts with
    | (false, parts) => (.err, { parts, tokens })
    | (true, parts) =>
      match forEach (m.llamaTurnWith useKvCache) (List.range maxLen.toNat) { parts, tokens } with
      | .leave s => (.err, s)
      | .brk s => m.close (.panic .unwrapOnError) s
      | .next s => m.close (.panic .unwrapOnError) s

/-- The value that the constant has. -/
theorem llamaChatWith_true (m : ChatParts σ E) (maxLen : UInt32) (prompt : String) (parts : σ) :
    m.llamaChatWith true maxLen prompt parts = m.llamaChat maxLen prompt parts := by
  have hturn : m.llamaTurnWith true = m.llamaTurn := by
    funext index s
    simp only [llamaTurnWith, true_and]
    rfl
  unfold llamaChatWith
  rw [hturn]
  rfl

end ChatParts

/-- A model and its layers. `wte` embeds a token of the vocabulary, `logits` is `post` for one row, and
`sample` goes on from there; that, the tokenizer and the receiver of the texts keep a state `σ`. -/
structure LlamaModel (d : LlamaDims) (F L σ : Type) where
  encode : String → Option (List UInt32)
  eos : Option (List UInt32)
  wte : UInt32 → Option (Row F d.hiddenSize)
  blocks : List (Block d F)
  numHiddenLayers : ℕ
  blocks_le : blocks.length ≤ numHiddenLayers
  logits : Row F d.hiddenSize → L
  sample : List UInt32 → L → σ → Option UInt32 × σ
  emit : UInt32 → σ → Emitted × σ
  decodeRest : σ → Emitted × σ

/-- `post` takes the last of the rows, and there must be one. -/
def LlamaModel.parts {d : LlamaDims} {F L σ : Type} (m : LlamaModel d F L σ) (k : Kernels F)
    (useKvCache : Bool) : ChatParts (σ × LlamaCache d F) (List (Row F d.hiddenSize)) where
  encode := m.encode
  start _ s := (true, s.1, .new d F useKvCache m.numHiddenLayers)
  pre input s := (input.mapM m.wte, s)
  forward _ x indexPos s :=
    let (y, cache) := llamaForward m.blocks k x indexPos.toNat s.2
    (y, s.1, cache)
  sample penalized y s :=
    match y.getLast? with
    | none => (none, s)
    | some row =>
      let (next, t) := m.sample penalized (m.logits row) s.1
      (next, t, s.2)
  emit token s :=
    let (emitted, t) := m.emit token s.1
    (emitted, t, s.2)
  decodeRest s :=
    let (emitted, t) := m.decodeRest s.1
    (emitted, t, s.2)
  finish s := (s.1, { s.2 with kvs := [] })
  eos := m.eos

end Dllm
