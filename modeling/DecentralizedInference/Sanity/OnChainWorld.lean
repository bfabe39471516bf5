import DecentralizedInference.Sanity.ChainCalls
import DecentralizedInference.Sanity.OnChainService

/-! Networks in which every node uses an `OnChainService`: what the hooks around START and
END do with the metadata of answers, and an encoding of the metadata. -/

namespace Dllm

variable {Address SecretKey PublicKey Node W : Type} {N : ℕ}

/-- The next place of a chain. -/
theorem toNat_succ {i : ℕ} {idx : UInt32} (h : idx.toNat = i) (hlt : i + 1 < 2 ^ 32) : (idx + 1).toNat = i + 1 := by
  have hone : (1 : UInt32).toNat = 1 := rfl
  rw [UInt32.toNat_add, h, hone]
  exact Nat.mod_eq_of_lt hlt

theorem ne_zero_of_toNat {i : ℕ} {idx : UInt32} (h : idx.toNat = i) (hpos : i ≠ 0) : idx ≠ 0 := by
  rintro rfl
  exact hpos h.symm

/-- Every node has an account of its own, and all encode the metadata the same way. What is
assumed of the encoding is that it can be read back, and that nothing is read from nothing. -/
structure OnChainWorld (w : World Node (OnChainState Address PublicKey) W N)
    (acct : Node → OnChainAccount Address SecretKey PublicKey) (codec : MetadataCodec Address PublicKey) :
    Prop where
  usage : ∀ n, w.usage n = (acct n).service
  codec_eq : ∀ n, (acct n).codec = codec
  roundTrip : ∀ m, codec.deserialize (codec.serialize m) = some m
  nil : codec.deserialize [] = none

namespace OnChainAccount

variable {a : OnChainAccount Address SecretKey PublicKey} {s u : OnChainState Address PublicKey}

/-- The metadata that a start goes on with is what the root writes, or could be read. -/
theorem preStart_metadata {req req' : StartReq} (h : a.preStart req s = (.ok (some req'), u)) :
    req.chainIndex = 0 ∧ req'.metadata = a.rootMetadata none ∨
      req.chainIndex ≠ 0 ∧ req' = req ∧ ∃ m, a.codec.deserialize req.metadata = some m := by
  unfold preStart at h
  split at h
  case isTrue hidx =>
    cases h
    exact .inl ⟨hidx, rfl⟩
  case isFalse hidx =>
    split at h
    case h_1 => cases h
    case h_2 m hm =>
      cases h
      exact .inr ⟨hidx, rfl, m, hm⟩

/-- A node passes an answer on whose metadata it can read, and panics at any other. -/
theorem postStart_ok_iff {req : StartReq} {res : StartRes} :
    (∃ res', (a.postStart req res s).1 = .ok res') ↔ ∃ m, a.codec.deserialize res.metadata = some m := by
  unfold postStart
  cases hm : a.codec.deserialize res.metadata with
  | none => simp
  | some m =>
    simp only
    split
    · split <;> simp
    · simp

/-- What is passed on has failed if the answer had, and can be read. -/
theorem postStart_failure (hround : ∀ m, a.codec.deserialize (a.codec.serialize m) = some m)
    {req : StartReq} {res res' : StartRes} (hfail : res.success = false)
    (h : (a.postStart req res s).1 = .ok res') :
    res'.success = false ∧ ∃ m, a.codec.deserialize res'.metadata = some m := by
  unfold postStart at h
  split at h
  case h_1 => cases h
  case h_2 m hm =>
    split at h
    · rcases ha : a.accepts s.submitted.length
      · simp only [submit, ha, Bool.false_eq_true, if_false] at h
        cases h
        exact ⟨rfl, m, hm⟩
      · simp only [submit, ha, if_true] at h
        cases h
        exact ⟨hfail, m, hm⟩
    · cases h
      exact ⟨hfail, _, hround _⟩

/-- What the node above a worker is told: its address and its count of layers are appended. -/
theorem postStart_worker {req : StartReq} {res res' : StartRes} (hidx : req.chainIndex ≠ 0)
    (h : (a.postStart req res s).1 = .ok res') :
    ∃ m, a.codec.deserialize res.metadata = some m ∧
      res' = { res with metadata := a.codec.serialize ⟨m.addresses ++ [a.address], m.rootAddress, m.rootPk,
        m.layers ++ [.ofNat (wrapAdd 32 (wrapSub 32 a.layers.stop req.fromLayer) 1)], none⟩ } := by
  unfold postStart at h
  split at h
  case h_1 => cases h
  case h_2 m hm =>
    rw [if_neg hidx] at h
    cases h
    exact ⟨m, hm, rfl⟩

/-- The root puts what it is told on the chain, if it can read it, whatever the answer says. -/
theorem postStart_root {req : StartReq} {res : StartRes} (hidx : req.chainIndex = 0) :
    (a.postStart req res s).2.submitted =
      match a.codec.deserialize res.metadata with
      | none => s.submitted
      | some m => s.submitted ++ [.createSession req.chatId req.maxTokens.toUInt64 m.addresses m.layers] := by
  unfold postStart
  cases hm : a.codec.deserialize res.metadata with
  | none => rfl
  | some m =>
    rcases ha : a.accepts s.submitted.length <;> simp [hidx, submit, ha]

theorem preEnd_metadata {chatId : UInt64} {req req' : EndReq} (h : a.preEnd chatId req s = (.ok (some req'), u)) :
    req.chainIndex = 0 ∧ req' = { req with metadata := a.rootMetadata none } ∨
      req.chainIndex ≠ 0 ∧ req' = req := by
  unfold preEnd at h
  split at h
  case isTrue hidx =>
    cases h
    exact .inl ⟨hidx, rfl⟩
  case isFalse hidx =>
    cases h
    exact .inr ⟨hidx, rfl⟩

theorem postEnd_ok_iff {chatId : UInt64} {req : EndReq} {res : EndRes} :
    (∃ res', (a.postEnd chatId req res s).1 = .ok res') ↔
      req.chainIndex = 0 ∨ ∃ m, a.codec.deserialize res.metadata = some m := by
  unfold postEnd
  split
  case isTrue hidx => simp [hidx]
  case isFalse hidx =>
    cases hm : a.codec.deserialize res.metadata with
    | none => simp [hidx]
    | some m =>
      simp only
      split <;> simp

theorem postEnd_failure {chatId : UInt64} {req : EndReq} {res res' : EndRes} (hfail : res.success = false)
    (h : (a.postEnd chatId req res s).1 = .ok res') : res'.success = false ∧ res'.metadata = res.metadata := by
  unfold postEnd at h
  split at h
  · cases h
    exact ⟨hfail, rfl⟩
  · split at h
    · cases h
    · simp only at h
      split at h
      · cases h
        exact ⟨rfl, rfl⟩
      · cases h
        exact ⟨hfail, rfl⟩

end OnChainAccount

def readByte (bs : List UInt8) : Option (UInt8 × List UInt8) := bs.head?.map fun b => (b, bs.tail)

def readWord (bs : List UInt8) : Option (UInt64 × List UInt8) := (readLE 8 bs).map fun r => (.ofNat r.1, r.2)

def checkpointCode (c : Checkpoint) : List UInt8 :=
  leBytes 8 c.tokenCount.toNat ++ marked (fun b => [b]) c.signature

def readCheckpoint (bs : List UInt8) : Option (Checkpoint × List UInt8) :=
  (readWord bs).bind fun t => (readMarked readByte t.2.length t.2).map fun s => (⟨t.1, s.1⟩, s.2)

theorem readWord_leBytes (n : UInt64) (rest : List UInt8) :
    readWord (leBytes 8 n.toNat ++ rest) = some (n, rest) := by
  have hn : n.toNat % 256 ^ 8 = n.toNat := Nat.mod_eq_of_lt n.toNat_lt
  unfold readWord
  rw [readLE_leBytes, hn]
  simp

theorem readMarked_append {α : Type} {enc : α → List UInt8} {dec : List UInt8 → Option (α × List UInt8)}
    (hdec : ∀ a rest, dec (enc a ++ rest) = some (a, rest)) (as : List α) (rest : List UInt8) :
    readMarked dec (marked enc as ++ rest).length (marked enc as ++ rest) = some (as, rest) := by
  apply readMarked_marked hdec
  rw [List.length_append]
  exact Nat.lt_add_right _ (length_lt_marked enc as)

theorem readCheckpoint_code (c : Checkpoint) (rest : List UInt8) :
    readCheckpoint (checkpointCode c ++ rest) = some (c, rest) := by
  unfold readCheckpoint checkpointCode
  rw [List.append_assoc, readWord_leBytes, Option.bind_some, readMarked_append fun _ _ => rfl]
  rfl

/-- An encoding of the metadata for addresses and keys of one byte. -/
def byteCodec : MetadataCodec UInt8 UInt8 where
  serialize m :=
    marked (fun a => [a]) m.addresses ++ (m.rootAddress :: m.rootPk ::
      (marked (fun l : UInt64 => leBytes 8 l.toNat) m.layers ++ (marked checkpointCode m.checkpoint.toList ++ [])))
  deserialize bs :=
    (readMarked readByte bs.length bs).bind fun addresses =>
      (readByte addresses.2).bind fun address =>
        (readByte address.2).bind fun pk =>
          (readMarked readWord pk.2.length pk.2).bind fun layers =>
            (readMarked readCheckpoint layers.2.length layers.2).map fun c =>
              ⟨addresses.1, address.1, pk.1, layers.1, c.1.head?⟩

theorem byteCodec_roundTrip (m : OnChainServiceMetadata UInt8 UInt8) :
    byteCodec.deserialize (byteCodec.serialize m) = some m := by
  obtain ⟨addresses, address, pk, layers, checkpoint⟩ := m
  have hbytes : ∀ (b : UInt8) (rest : List UInt8), readByte (b :: rest) = some (b, rest) := fun _ _ => rfl
  unfold byteCodec
  simp only
  rw [readMarked_append hbytes, Option.bind_some, hbytes, Option.bind_some, hbytes, Option.bind_some,
    readMarked_append readWord_leBytes, Option.bind_some, readMarked_append readCheckpoint_code, Option.map_some]
  cases checkpoint <;> rfl

/-- Keys of one byte that sign a message by following it. -/
def byteKeys : Ed25519 UInt8 UInt8 where
  publicKey k := k
  sign k msg := (msg ++ List.replicate 64 k).take 64
  parses _ := true
  verifyStrict k msg sig := sig == (msg ++ List.replicate 64 k).take 64

/-- The root has the key 1 and the first two of three layers, the other node has the key 2
and the layers of `r`. -/
def byteAccount (r : Range) (n : Bool) : OnChainAccount UInt8 UInt8 UInt8 where
  ed25519 := byteKeys
  codec := byteCodec
  address := if n then 20 else 10
  secretKey := if n then 2 else 1
  layers := if n then r else ⟨0, 2⟩
  accepts _ := true

/-- The root knows the other node for the layer that it does not have. -/
def byteWorld (r : Range) (fate : ℕ → RpcFate) : World Bool (OnChainState UInt8 UInt8) LayerCaches 3 where
  usage n := (byteAccount r n).service
  worker _ := blockSessions
  router _ n :=
    if n then .new r
    else ⟨fun l => ⟨∅, if l.val = 2 then some (true, ⟨50, 0⟩) else none⟩, ⟨0, 2⟩⟩
  rand hop := .ofNat (hop + 100)
  fate := fate

theorem byteWorld_onChain (r : Range) (fate : ℕ → RpcFate) :
    OnChainWorld (byteWorld r fate) (byteAccount r) byteCodec :=
  ⟨fun _ => rfl, fun _ => rfl, byteCodec_roundTrip, rfl⟩

def byteNet : Net Bool (OnChainState UInt8 UInt8) LayerCaches :=
  fun _ => ⟨.new, .new, ⟨.new, .new, .new, .new, [], []⟩⟩

end Dllm
