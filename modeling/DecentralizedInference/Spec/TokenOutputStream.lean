import DecentralizedInference.Lib.Utf8
import DecentralizedInference.Spec.Basic

/-! `TokenOutputStream` of `crates/models/src/token_output_stream.rs`: the text of an answer,
piece by piece as its tokens come. A text is the list of its characters. -/

namespace Dllm

/-- What the code takes from the tokenizer and from the character tables: `decode` without special
tokens, `none` where it fails, and `char::is_alphanumeric`. -/
structure TextTools where
  decode : List UInt32 → Option (List Char)
  isAlphanumeric : Char → Bool

structure TokenOutputStream where
  tokens : List UInt32 := []
  prevIndex : ℕ := 0
  currentIndex : ℕ := 0
deriving DecidableEq, Repr

/-- `&l[a..b]`. -/
def slice {α : Type} (l : List α) (a b : ℕ) : Except Panic (List α) :=
  if a ≤ b ∧ b ≤ l.length then .ok ((l.take b).drop a) else .error .indexOutOfBounds

/-- `split_at(n).1`. -/
def splitOff (text : List Char) (n : ℕ) : Except Panic (List Char) :=
  match splitAtByte text n with
  | none => .error .indexOutOfBounds
  | some (_, rest) => .ok rest

namespace TokenOutputStream

/-- The text of the tokens between the indices; there is nothing to decode before the first token. -/
def prevText (tools : TextTools) (s : TokenOutputStream) : Except Panic (Option (List Char)) :=
  if s.tokens = [] then .ok (some [])
  else do
    let tokens ← slice s.tokens s.prevIndex s.currentIndex
    return tools.decode tokens

/-- `none` is a failure of `decode`, after which the stream is what it is. -/
def nextToken (tools : TextTools) (token : UInt32) (s : TokenOutputStream) :
    Except Panic (Option (Option (List Char)) × TokenOutputStream) := do
  match ← s.prevText tools with
  | none => return (none, s)
  | some prevText =>
    let s := { s with tokens := s.tokens ++ [token] }
    let tokens ← slice s.tokens s.prevIndex s.tokens.length
    match tools.decode tokens with
    | none => return (none, s)
    | some text =>
      if byteLen text > byteLen prevText then
        match text.getLast? with
        | none => throw .unwrapOnError
        | some last =>
          if tools.isAlphanumeric last then
            let rest ← splitOff text (byteLen prevText)
            return (some (some rest), { s with prevIndex := s.currentIndex, currentIndex := s.tokens.length })
          else return (some none, s)
      else return (some none, s)

def decodeRest (tools : TextTools) (s : TokenOutputStream) : Except Panic (Option (Option (List Char))) := do
  match ← s.prevText tools with
  | none => return none
  | some prevText =>
    let tokens ← slice s.tokens s.prevIndex s.tokens.length
    match tools.decode tokens with
    | none => return none
    | some text =>
      if byteLen text > byteLen prevText then
        let rest ← splitOff text (byteLen prevText)
        return some (some rest)
      else return some none

def decodeAll (tools : TextTools) (s : TokenOutputStream) : Option (List Char) := tools.decode s.tokens

/-- One token after the other, with what `next_token` gives for each; `none` when it fails. -/
def feed (tools : TextTools) : List UInt32 → TokenOutputStream →
    Except Panic (Option (List (Option (List Char)) × TokenOutputStream))
  | [], s => .ok (some ([], s))
  | token :: tokens, s => do
    match ← s.nextToken tools token with
    | (none, _) => return none
    | (some out, s) =>
      let rest ← feed tools tokens s
      return rest.map fun r => (out :: r.1, r.2)

end TokenOutputStream
end Dllm
