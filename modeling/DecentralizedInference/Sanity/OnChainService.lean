import DecentralizedInference.Spec.OnChainService

/-! What the hooks of an `OnChainService` do, and that it is a usage service like the
others. -/

namespace Dllm

variable {Address SecretKey PublicKey : Type}

theorem checkpointBytes_injective : Function.Injective checkpointBytes := by
  intro t t' h
  have hread := congrArg (fun bs => readLE 8 (bs ++ [])) h
  simp only [checkpointBytes, readLE_leBytes, Option.some.injEq, Prod.mk.injEq, and_true] at hread
  have ht : t.toNat < 256 ^ 8 := t.toNat_lt
  have ht' : t'.toNat < 256 ^ 8 := t'.toNat_lt
  rw [Nat.mod_eq_of_lt ht, Nat.mod_eq_of_lt ht'] at hread
  exact UInt64.toNat_inj.mp hread

namespace OnChainStorage

theorem get_insert (m : OnChainStorage) (k c v : UInt64) : get (m.insert k v) c = if c = k then v else get m c := by
  unfold get
  rw [SharedHashMap.getClone_insert]
  split <;> rfl

theorem get_increase (m : OnChainStorage) (k c v : UInt64) :
    get (increase m k v) c = if c = k then get m k + v else get m c := get_insert m k c _

theorem get_finish (m : OnChainStorage) (k c : UInt64) : get (finish m k).2 c = if c = k then 0 else get m c := by
  unfold get finish
  rw [SharedHashMap.getClone_remove]
  split <;> rfl

end OnChainStorage

namespace OnChainAccount

variable {a : OnChainAccount Address SecretKey PublicKey} {s s' : OnChainState Address PublicKey}

/-- A worker either accepts a forward, on the strength of a checkpoint that the key
registered for the chat verifies, or leaves everything as it was. -/
theorem preForward_worker {chatId : UInt64} {req : ForwardReq} (hidx : req.chainIndex ≠ 0)
    {r : Except Panic (Option ForwardReq)} (h : a.preForward chatId req s = (r, s')) :
    (∃ m cp pk, a.codec.deserialize req.metadata = some m ∧ m.checkpoint = some cp ∧
      s.rootPks.getClone chatId = some pk ∧
      a.ed25519.verifyStrict pk (checkpointBytes cp.tokenCount) cp.signature = true ∧
      r = .ok (some req) ∧
      s' = { s with
        checkpoints := s.checkpoints.insert chatId cp
        earning := OnChainStorage.increase s.earning chatId 1 }) ∨
    ((∀ req', r ≠ .ok (some req')) ∧ s' = s) := by
  simp only [preForward, if_neg hidx] at h
  cases hm : a.codec.deserialize req.metadata with
  | none =>
    simp only [hm] at h
    cases h
    exact .inr ⟨by simp, rfl⟩
  | some m =>
    simp only [hm] at h
    cases hcp : m.checkpoint with
    | none =>
      simp only [hcp] at h
      cases h
      exact .inr ⟨by simp, rfl⟩
    | some cp =>
      simp only [hcp, updateCheckpoint] at h
      cases hv : a.verifyCheckpoint chatId cp s with
      | error p =>
        simp only [hv] at h
        cases h
        exact .inr ⟨by simp, rfl⟩
      | ok b =>
        cases b with
        | false =>
          simp only [hv] at h
          cases h
          exact .inr ⟨by simp, rfl⟩
        | true =>
          simp only [hv] at h
          cases h
          refine .inl ⟨m, cp, ?_⟩
          simp only [verifyCheckpoint] at hv
          split at hv
          case h_1 => cases hv
          case h_2 pk hpk =>
            split_ifs at hv
            exact ⟨pk, rfl, hcp, hpk, Except.ok.inj hv, rfl, rfl⟩

/-- The checkpoint for a token count. -/
def checkpoint (a : OnChainAccount Address SecretKey PublicKey) (tokenCount : UInt64) : Checkpoint :=
  ⟨tokenCount, a.ed25519.sign a.secretKey (checkpointBytes tokenCount)⟩

theorem preForward_of_verified {chatId : UInt64} {req : ForwardReq} (hidx : req.chainIndex ≠ 0)
    {m : OnChainServiceMetadata Address PublicKey} {cp : Checkpoint}
    (hm : a.codec.deserialize req.metadata = some m) (hcp : m.checkpoint = some cp)
    (hv : a.verifyCheckpoint chatId cp s = .ok true) :
    a.preForward chatId req s = (.ok (some req),
      { s with
        checkpoints := s.checkpoints.insert chatId cp
        earning := OnChainStorage.increase s.earning chatId 1 }) := by
  simp only [preForward, if_neg hidx, hm, hcp, updateCheckpoint, hv]

/-- `OnChainService`. -/
def service (a : OnChainAccount Address SecretKey PublicKey) :
    LawfulUsageService (OnChainState Address PublicKey) where
  preStart := a.preStart
  postStart := a.postStart
  preEnd := a.preEnd
  postEnd := a.postEnd
  preForward := a.preForward
  postForward := a.postForward
  preStart_keeps := by
    intro req s req' s' h
    simp only [preStart] at h
    split at h
    · cases h
      rfl
    · split at h
      · cases h
      · cases h
        rfl
  postStart_success := by
    intro req res s res' s' h hs
    simp only [postStart] at h
    split at h
    · cases h
    · split at h
      · split at h
        · cases h
          exact hs
        · cases h
          cases hs
      · cases h
        exact hs
  preForward_keeps := by
    intro chatId req s req' s' h
    by_cases hidx : req.chainIndex = 0
    · simp only [preForward, if_pos hidx] at h
      cases h
      rfl
    · rcases preForward_worker hidx h with ⟨m, cp, pk, -, -, -, -, hr, -⟩ | ⟨hr, -⟩
      · cases hr
        rfl
      · exact absurd rfl (hr req')
  postForward_eq := fun _ _ _ _ => rfl

end OnChainAccount
end Dllm
