import DecentralizedInference.Lib.Bytes
import DecentralizedInference.Spec.UsageService

/-! `OnChainService` of `crates/contract/src`: the root of a chain signs a checkpoint
for every token it asks for, and the workers of the chain check it and claim what
they have earned. Signatures, the encoding of the metadata and the answers of the
chain come from outside and are parameters. -/

namespace Dllm

structure Checkpoint where
  tokenCount : UInt64
  signature : List UInt8
deriving DecidableEq, Repr

/-- The signature scheme. `parses` says whether `VerifyingKey::from_bytes` accepts the
bytes of a key. -/
structure Ed25519 (SecretKey PublicKey : Type) where
  publicKey : SecretKey → PublicKey
  sign : SecretKey → List UInt8 → List UInt8
  parses : PublicKey → Bool
  verifyStrict : PublicKey → List UInt8 → List UInt8 → Bool

structure OnChainServiceMetadata (Address PublicKey : Type) where
  addresses : List Address
  rootAddress : Address
  rootPk : PublicKey
  layers : List UInt64
  checkpoint : Option Checkpoint

/-- `bincode` on the metadata. -/
structure MetadataCodec (Address PublicKey : Type) where
  serialize : OnChainServiceMetadata Address PublicKey → List UInt8
  deserialize : List UInt8 → Option (OnChainServiceMetadata Address PublicKey)

/-- A transaction that the account submits. -/
inductive Submission (Address : Type) where
  | createSession (chatId maxTokens : UInt64) (addresses : List Address) (layers : List UInt64)
  | claimTokens (clientAddress : Address) (chatId tokenCount : UInt64) (signature : List UInt8)
deriving DecidableEq

/-- What an `OnChainService` is made with: the scheme and the encoding, the account,
the layers of the node, and whether the chain accepts the `n`-th transaction. -/
structure OnChainAccount (Address SecretKey PublicKey : Type) where
  ed25519 : Ed25519 SecretKey PublicKey
  codec : MetadataCodec Address PublicKey
  address : Address
  secretKey : SecretKey
  layers : Range
  accepts : ℕ → Bool

/-- The maps of an `OnChainService`. What its key has signed and what its account has
submitted, in order, is kept for the observer. -/
structure OnChainState (Address PublicKey : Type) where
  earning : SharedHashMap UInt64 UInt64
  spending : SharedHashMap UInt64 UInt64
  rootPks : SharedHashMap UInt64 PublicKey
  checkpoints : SharedHashMap UInt64 Checkpoint
  signed : List UInt64
  submitted : List (Submission Address)

/-- `OnChainStorage`. -/
abbrev OnChainStorage := SharedHashMap UInt64 UInt64

namespace OnChainStorage

def increase (m : OnChainStorage) (chatId tokenCount : UInt64) : OnChainStorage :=
  m.insert chatId ((m.getClone chatId).getD 0 + tokenCount)

def get (m : OnChainStorage) (chatId : UInt64) : UInt64 := (m.getClone chatId).getD 0

def finish (m : OnChainStorage) (chatId : UInt64) : UInt64 × OnChainStorage :=
  ((m.getClone chatId).getD 0, m.remove chatId)

end OnChainStorage

/-- `bcs::to_bytes(&token_count)`, the message that is signed. -/
def checkpointBytes (tokenCount : UInt64) : List UInt8 := leBytes 8 tokenCount.toNat

namespace OnChainAccount

variable {Address SecretKey PublicKey : Type}

def publicKey (a : OnChainAccount Address SecretKey PublicKey) : PublicKey :=
  a.ed25519.publicKey a.secretKey

/-- The metadata of a request that the account issues itself. -/
def rootMetadata (a : OnChainAccount Address SecretKey PublicKey) (checkpoint : Option Checkpoint) :
    List UInt8 :=
  a.codec.serialize ⟨[], a.address, a.publicKey, [], checkpoint⟩

def signCheckpoint (a : OnChainAccount Address SecretKey PublicKey) (tokenCount : UInt64)
    (s : OnChainState Address PublicKey) : List UInt8 × OnChainState Address PublicKey :=
  (a.ed25519.sign a.secretKey (checkpointBytes tokenCount),
    { s with signed := s.signed ++ [tokenCount] })

def createCheckpoint (a : OnChainAccount Address SecretKey PublicKey) (chatId tokenCount : UInt64)
    (s : OnChainState Address PublicKey) : Checkpoint × OnChainState Address PublicKey :=
  let (signature, s) := a.signCheckpoint tokenCount s
  let checkpoint := ⟨tokenCount, signature⟩
  (checkpoint, { s with checkpoints := s.checkpoints.insert chatId checkpoint })

def verifyCheckpoint (a : OnChainAccount Address SecretKey PublicKey) (chatId : UInt64)
    (checkpoint : Checkpoint) (s : OnChainState Address PublicKey) : Except Panic Bool :=
  match s.rootPks.getClone chatId with
  | none => .ok false
  | some pk =>
    if a.ed25519.parses pk = false then .error .unwrapOnError
    else if checkpoint.signature.length ≠ 64 then .error .sliceLength
    else .ok (a.ed25519.verifyStrict pk (checkpointBytes checkpoint.tokenCount) checkpoint.signature)

/-- `none` for an invalid checkpoint. -/
def updateCheckpoint (a : OnChainAccount Address SecretKey PublicKey) (chatId : UInt64)
    (checkpoint : Checkpoint) (s : OnChainState Address PublicKey) :
    Outcome (OnChainState Address PublicKey) (Option Unit) :=
  match a.verifyCheckpoint chatId checkpoint s with
  | .error p => (.error p, s)
  | .ok false => (.ok none, s)
  | .ok true => (.ok (some ()), { s with checkpoints := s.checkpoints.insert chatId checkpoint })

/-- Submit a transaction and wait for the answer of the chain. -/
def submit (a : OnChainAccount Address SecretKey PublicKey) (t : Submission Address)
    (s : OnChainState Address PublicKey) : Bool × OnChainState Address PublicKey :=
  (a.accepts s.submitted.length, { s with submitted := s.submitted ++ [t] })

def preStart (a : OnChainAccount Address SecretKey PublicKey) (req : StartReq)
    (s : OnChainState Address PublicKey) :
    Outcome (OnChainState Address PublicKey) (Option StartReq) :=
  if req.chainIndex = 0 then (.ok (some { req with metadata := a.rootMetadata none }), s)
  else
    match a.codec.deserialize req.metadata with
    | none => (.error .unwrapOnError, s)
    | some m => (.ok (some req), { s with rootPks := s.rootPks.insert req.chatId m.rootPk })

def postStart (a : OnChainAccount Address SecretKey PublicKey) (req : StartReq) (res : StartRes)
    (s : OnChainState Address PublicKey) : Outcome (OnChainState Address PublicKey) StartRes :=
  match a.codec.deserialize res.metadata with
  | none => (.error .unwrapOnError, s)
  | some m =>
    if req.chainIndex = 0 then
      let (ok, s) := a.submit (.createSession req.chatId req.maxTokens.toUInt64 m.addresses m.layers) s
      if ok then (.ok res, s) else (.ok { res with success := false }, s)
    else
      let count := wrapAdd 32 (wrapSub 32 a.layers.stop req.fromLayer) 1
      let m' : OnChainServiceMetadata Address PublicKey :=
        ⟨m.addresses ++ [a.address], m.rootAddress, m.rootPk, m.layers ++ [.ofNat count], none⟩
      (.ok { res with metadata := a.codec.serialize m' }, s)

def preEnd (a : OnChainAccount Address SecretKey PublicKey) (chatId : UInt64) (req : EndReq)
    (s : OnChainState Address PublicKey) : Outcome (OnChainState Address PublicKey) (Option EndReq) :=
  if req.chainIndex = 0 then
    -- `commit_session`
    let (_, spending) := OnChainStorage.finish s.spending chatId
    (.ok (some { req with metadata := a.rootMetadata none }), { s with spending })
  else (.ok (some req), s)

/-- The claim is submitted by a task of its own whose outcome nobody waits for. -/
def postEnd (a : OnChainAccount Address SecretKey PublicKey) (chatId : UInt64) (req : EndReq)
    (res : EndRes) (s : OnChainState Address PublicKey) :
    Outcome (OnChainState Address PublicKey) EndRes :=
  if req.chainIndex = 0 then (.ok res, s)
  else
    match a.codec.deserialize res.metadata with
    | none => (.error .unwrapOnError, s)
    | some m =>
      let (tokenCount, earning) := OnChainStorage.finish s.earning chatId
      let s := { s with earning }
      match s.checkpoints.getClone chatId with
      | none => (.ok { res with success := false }, s)
      | some checkpoint =>
        (.ok res, (a.submit (.claimTokens m.rootAddress chatId tokenCount checkpoint.signature) s).2)

def preForward (a : OnChainAccount Address SecretKey PublicKey) (chatId : UInt64) (req : ForwardReq)
    (s : OnChainState Address PublicKey) :
    Outcome (OnChainState Address PublicKey) (Option ForwardReq) :=
  if req.chainIndex = 0 then
    let s := { s with spending := OnChainStorage.increase s.spending chatId 1 }
    let (checkpoint, s) := a.createCheckpoint chatId (OnChainStorage.get s.spending chatId) s
    (.ok (some { req with metadata := a.rootMetadata (some checkpoint) }), s)
  else
    match a.codec.deserialize req.metadata with
    | none => (.error .unwrapOnError, s)
    | some m =>
      match m.checkpoint with
      | none => (.ok none, s)
      | some checkpoint =>
        match a.updateCheckpoint chatId checkpoint s with
        | (.error p, s) => (.error p, s)
        | (.ok none, s) => (.ok none, s)
        | (.ok (some ()), s) =>
          (.ok (some req), { s with earning := OnChainStorage.increase s.earning chatId 1 })

def postForward (_ : OnChainAccount Address SecretKey PublicKey) (_ : UInt64) (_ : ForwardReq)
    (res : ForwardRes) (s : OnChainState Address PublicKey) :
    Outcome (OnChainState Address PublicKey) ForwardRes := (.ok res, s)

end OnChainAccount
end Dllm
