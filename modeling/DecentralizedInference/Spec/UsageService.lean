import DecentralizedInference.Spec.Basic

/-! The messages of `crates/protocol/protobuf/llm.proto` and the hooks that a usage
service runs around them, `crates/usage-service/src/lib.rs`. -/

namespace Dllm

/-- A layer is a `u32` on the wire. -/
structure StartReq where
  session : UInt64
  chatId : UInt64
  fromLayer : ℕ
  metadata : List UInt8
  chainIndex : UInt32
  maxTokens : UInt32
deriving DecidableEq, Repr

structure StartRes where
  success : Bool
  metadata : List UInt8
deriving DecidableEq, Repr

structure ForwardReq where
  session : UInt64
  step : UInt32
  embedding : List UInt8
  indexPos : UInt32
  seqLen : UInt32
  metadata : List UInt8
  chainIndex : UInt32
deriving DecidableEq, Repr

structure ForwardRes where
  success : Bool
  embedding : List UInt8
  metadata : List UInt8
deriving DecidableEq, Repr

structure EndReq where
  session : UInt64
  metadata : List UInt8
  chainIndex : UInt32
deriving DecidableEq, Repr

structure EndRes where
  success : Bool
  metadata : List UInt8
deriving DecidableEq, Repr

/-- What a call on a shared state leaves behind: its result, or the panic that ended
its task, and the state. -/
abbrev Outcome (S α : Type) := Except Panic α × S

/-- The trait `WorkerUsageService`; a hook that returns `Err` gives `none`. -/
structure WorkerUsageService (S : Type) where
  preStart : StartReq → S → Outcome S (Option StartReq)
  postStart : StartReq → StartRes → S → Outcome S StartRes
  preEnd : UInt64 → EndReq → S → Outcome S (Option EndReq)
  postEnd : UInt64 → EndReq → EndRes → S → Outcome S EndRes
  preForward : UInt64 → ForwardReq → S → Outcome S (Option ForwardReq)
  postForward : UInt64 → ForwardReq → ForwardRes → S → Outcome S ForwardRes

/-- What the implementations of the trait have in common: a request goes on with
nothing but its metadata changed, a failed start is not turned into a success, and
the answer of a forward is left alone. -/
structure LawfulUsageService (S : Type) extends WorkerUsageService S where
  preStart_keeps : ∀ req s req' s', preStart req s = (.ok (some req'), s') →
    req' = { req with metadata := req'.metadata }
  postStart_success : ∀ req res s res' s', postStart req res s = (.ok res', s') →
    res'.success = true → res.success = true
  preForward_keeps : ∀ chatId req s req' s', preForward chatId req s = (.ok (some req'), s') →
    req' = { req with metadata := req'.metadata }
  postForward_eq : ∀ chatId req res s, postForward chatId req res s = (.ok res, s)

/-- `PassthroughUsageService`. -/
def passthroughUsageService (S : Type) : LawfulUsageService S where
  preStart req s := (.ok (some req), s)
  postStart _ res s := (.ok res, s)
  preEnd _ req s := (.ok (some req), s)
  postEnd _ _ res s := (.ok res, s)
  preForward _ req s := (.ok (some req), s)
  postForward _ _ res s := (.ok res, s)
  preStart_keeps := by
    intro req s req' s' h
    cases h
    rfl
  postStart_success := by
    intro req res s res' s' h hs
    cases h
    exact hs
  preForward_keeps := by
    intro chatId req s req' s' h
    cases h
    rfl
  postForward_eq := fun _ _ _ _ => rfl

end Dllm
