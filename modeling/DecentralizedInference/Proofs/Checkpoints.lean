import DecentralizedInference.Lib.Run
import DecentralizedInference.Sanity.OnChainService

/-! What a worker knows when it accepts a forward. The signature of a checkpoint
covers its token count alone, and nothing compares it with the checkpoint stored
before: a checkpoint that the root has created once, for whatever chat, is good for
any number of forwards of any chat of that root. What the worker does keep is the
number of forwards it has accepted. -/

namespace Dllm

variable {Address SecretKey PublicKey : Type}

/-- Verification succeeds exactly for the messages that the holder of the key has signed:
those of the checkpoints it created, each for a chat and a token count. -/
def Ed25519.Ideal (scheme : Ed25519 SecretKey PublicKey)
    (created : PublicKey → List (UInt64 × UInt64)) : Prop :=
  ∀ pk msg, (∃ sig, scheme.verifyStrict pk msg sig = true) ↔
    ∃ ct ∈ created pk, msg = checkpointBytes ct.2

/-- A forward that a worker was asked for, and what its `pre_forward` made of it. -/
structure ForwardCall where
  chatId : UInt64
  req : ForwardReq
  outcome : Except Panic (Option ForwardReq)

def ForwardCall.accepted (e : ForwardCall) : Bool :=
  match e.outcome with
  | .ok (some _) => true
  | _ => false

namespace OnChainAccount

variable {a : OnChainAccount Address SecretKey PublicKey} {s s' : OnChainState Address PublicKey}
  {e : ForwardCall}

/-- A worker's `pre_forward`. -/
def WorkerStep (a : OnChainAccount Address SecretKey PublicKey) (s : OnChainState Address PublicKey)
    (e : ForwardCall) (s' : OnChainState Address PublicKey) : Prop :=
  e.req.chainIndex ≠ 0 ∧ a.preForward e.chatId e.req s = (e.outcome, s')

/-- The checkpoint that a request carries. -/
def carried (a : OnChainAccount Address SecretKey PublicKey) (req : ForwardReq) : Option Checkpoint :=
  (a.codec.deserialize req.metadata).bind fun m => m.checkpoint

/-- The checkpoint that the accepted calls leave for a chat, if there are any. -/
def lastAccepted (a : OnChainAccount Address SecretKey PublicKey) (chatId : UInt64)
    (es : List ForwardCall) : Option Checkpoint :=
  ((es.filter fun e => e.accepted && e.chatId == chatId).getLast?).bind fun e => a.carried e.req

/-- How many calls of a chat were accepted. -/
def acceptedCount (chatId : UInt64) (es : List ForwardCall) : ℕ :=
  (es.filter fun e => e.accepted && e.chatId == chatId).length

/-- One call of `pre_forward`, accepted or not. -/
theorem workerStep_cases (h : a.WorkerStep s e s') :
    (e.accepted = true ∧ ∃ cp pk, a.carried e.req = some cp ∧
      s.rootPks.getClone e.chatId = some pk ∧
      a.ed25519.verifyStrict pk (checkpointBytes cp.tokenCount) cp.signature = true ∧
      s' = { s with
        checkpoints := s.checkpoints.insert e.chatId cp
        earning := OnChainStorage.increase s.earning e.chatId 1 }) ∨
    (e.accepted = false ∧ s' = s) := by
  obtain ⟨hidx, hpre⟩ := h
  rcases preForward_worker hidx hpre with ⟨m, cp, pk, hm, hcp, hpk, hv, hr, hs'⟩ | ⟨hr, hs'⟩
  · exact .inl ⟨by rw [ForwardCall.accepted, hr], cp, pk, by simp [carried, hm, hcp], hpk, hv, hs'⟩
  · right
    refine ⟨?_, hs'⟩
    rw [ForwardCall.accepted]
    split
    case h_1 req' heq => exact absurd heq (hr req')
    case h_2 => rfl

theorem acceptedCount_snoc (chatId : UInt64) (es : List ForwardCall) (e : ForwardCall) :
    acceptedCount chatId (es ++ [e]) =
      acceptedCount chatId es + if e.accepted && e.chatId == chatId then 1 else 0 := by
  simp only [acceptedCount, List.filter_append, List.length_append]
  split <;> simp_all

theorem lastAccepted_snoc (chatId : UInt64) (es : List ForwardCall) (e : ForwardCall) :
    a.lastAccepted chatId (es ++ [e]) =
      if e.accepted && e.chatId == chatId then a.carried e.req else a.lastAccepted chatId es := by
  simp only [lastAccepted, List.filter_append]
  split <;> simp_all

/-- The books of a worker after any number of calls for any chats: it has counted the
accepted ones, stored the checkpoint of the last of each chat, and changed nothing
else. -/
structure Kept (a : OnChainAccount Address SecretKey PublicKey) (s s' : OnChainState Address PublicKey)
    (es : List ForwardCall) : Prop where
  frame : s' = { s with earning := s'.earning, checkpoints := s'.checkpoints }
  earning : ∀ chatId, OnChainStorage.get s'.earning chatId =
    OnChainStorage.get s.earning chatId + .ofNat (acceptedCount chatId es)
  checkpoints : ∀ chatId, s'.checkpoints.getClone chatId =
    (a.lastAccepted chatId es).or (s.checkpoints.getClone chatId)

theorem Kept.snoc {s₀ : OnChainState Address PublicKey} {es : List ForwardCall} (hk : a.Kept s₀ s es)
    (h : a.WorkerStep s e s') : a.Kept s₀ s' (es ++ [e]) := by
  rcases workerStep_cases h with ⟨hacc, cp, pk, hcp, -, -, rfl⟩ | ⟨hacc, rfl⟩
  · refine ⟨by rw [hk.frame], fun chatId => ?_, fun chatId => ?_⟩
    · rw [OnChainStorage.get_increase, hk.earning, hk.earning, acceptedCount_snoc, hacc, Bool.true_and]
      by_cases hc : chatId = e.chatId
      · simp [hc, UInt64.add_assoc]
      · simp [hc, Ne.symm hc]
    · rw [lastAccepted_snoc, hacc, Bool.true_and, SharedHashMap.getClone_insert, hk.checkpoints]
      by_cases hc : chatId = e.chatId
      · simp [hc, hcp]
      · simp [hc, Ne.symm hc]
  · refine ⟨hk.frame, fun chatId => ?_, fun chatId => ?_⟩
    · rw [hk.earning, acceptedCount_snoc, hacc]
      simp
    · rw [hk.checkpoints, lastAccepted_snoc, hacc]
      simp

theorem kept_run {es : List ForwardCall} (h : Run a.WorkerStep s es s') : a.Kept s s' es := by
  induction h with
  | nil =>
    refine ⟨rfl, fun chatId => ?_, fun chatId => rfl⟩
    simp [acceptedCount]
  | snoc _ hs ih => exact ih.snoc hs

/-- Whatever forwards a worker is asked for, in whatever order: each one that it accepts
carries a checkpoint that the root of its chat has created, for this chat or for another;
the last one for a chat is the one it stores, and it counts them all. -/
theorem worker_accepts_created {created : PublicKey → List (UInt64 × UInt64)}
    (hideal : a.ed25519.Ideal created) {es : List ForwardCall} (hrun : Run a.WorkerStep s es s') :
    (∀ e ∈ es, e.accepted = true → ∃ pk cp, s.rootPks.getClone e.chatId = some pk ∧
      a.carried e.req = some cp ∧ ∃ chatId, (chatId, cp.tokenCount) ∈ created pk) ∧
    a.Kept s s' es := by
  refine ⟨?_, kept_run hrun⟩
  induction hrun with
  | nil => simp
  | @snoc es t t' e hrun hs ih =>
    intro e' he' hacc
    rcases List.mem_append.mp he' with he' | he'
    · exact ih e' he' hacc
    · rw [List.mem_singleton.mp he'] at hacc ⊢
      rcases workerStep_cases hs with ⟨-, cp, pk, hcp, hpk, hv, -⟩ | ⟨hrej, -⟩
      · rw [(kept_run hrun).frame] at hpk
        obtain ⟨⟨chatId, t⟩, hmem, hmsg⟩ := (hideal pk _).mp ⟨cp.signature, hv⟩
        have ht := checkpointBytes_injective hmsg
        exact ⟨pk, cp, hpk, hcp, chatId, ht ▸ hmem⟩
      · rw [hrej] at hacc
        cases hacc

end OnChainAccount

/-- A scheme whose only key has signed one checkpoint, for one token. -/
def oneSignature : Ed25519 Unit Unit where
  publicKey k := k
  sign _ msg := msg ++ List.replicate 56 0
  parses _ := true
  verifyStrict _ msg sig := msg == checkpointBytes 1 && sig == msg ++ List.replicate 56 0

def oneCheckpoint : Checkpoint := ⟨1, oneSignature.sign () (checkpointBytes 1)⟩

/-- A worker that knows how to read this checkpoint. -/
def oneWorker : OnChainAccount Unit Unit Unit where
  ed25519 := oneSignature
  codec := {
    serialize := fun m => if m.checkpoint.isSome then [1] else [0]
    deserialize := fun bs => if bs = [1] then some ⟨[], (), (), [], some oneCheckpoint⟩ else none }
  address := ()
  secretKey := ()
  layers := ⟨0, 1⟩
  accepts _ := true

/-- The worker after the STARTs of two chats of the root. -/
def oneWorkerState : OnChainState Unit Unit where
  earning := .new
  spending := .new
  rootPks := fun chatId => if chatId = 7 ∨ chatId = 8 then some () else none
  checkpoints := .new
  signed := []
  submitted := []

theorem oneSignature_ideal : oneSignature.Ideal fun _ => [(7, 1)] := by
  intro pk msg
  simp [oneSignature]

def oneForward : ForwardReq := ⟨7, 0, [], 0, 1, [1], 1⟩

def oneCall (chatId : UInt64) : ForwardCall := ⟨chatId, oneForward, .ok (some oneForward)⟩

theorem oneCall_step (s : OnChainState Unit Unit) (chatId : UInt64)
    (h : s.rootPks.getClone chatId = some ()) : oneWorker.WorkerStep s (oneCall chatId)
      { s with
        checkpoints := s.checkpoints.insert chatId oneCheckpoint
        earning := OnChainStorage.increase s.earning chatId 1 } := by
  have hv : oneWorker.verifyCheckpoint chatId oneCheckpoint s = .ok true := by
    rw [OnChainAccount.verifyCheckpoint, h]
    rfl
  have hidx : oneForward.chainIndex ≠ 0 := by decide
  exact ⟨hidx, OnChainAccount.preForward_of_verified hidx rfl rfl hv⟩

/-- One checkpoint, created for one token of chat 7, is accepted twice for that chat and
once for chat 8. -/
theorem replayed_checkpoint_accepted :
    ∃ (created : Unit → List (UInt64 × UInt64)) (s' : OnChainState Unit Unit) (es : List ForwardCall),
      oneSignature.Ideal created ∧ Run oneWorker.WorkerStep oneWorkerState es s' ∧
      OnChainAccount.acceptedCount 7 es = 2 ∧ OnChainAccount.acceptedCount 8 es = 1 ∧
      s'.checkpoints.getClone 7 = some oneCheckpoint ∧ oneCheckpoint.tokenCount.toNat < 2 ∧
      ∀ t, (8, t) ∉ created () := by
  have h0 : Run oneWorker.WorkerStep oneWorkerState [] _ := .nil
  have h1 := h0.snoc (oneCall_step _ 7 rfl)
  have h2 := h1.snoc (oneCall_step _ 7 rfl)
  have h3 := h2.snoc (oneCall_step _ 8 rfl)
  exact ⟨_, _, _, oneSignature_ideal, h3, rfl, rfl, rfl, by decide, by simp⟩

/-- The root may as well have signed its one checkpoint for both chats. -/
def bothCreated : Unit → List (UInt64 × UInt64) := fun _ => [(7, 1), (8, 1)]

theorem oneSignature_ideal_both : oneSignature.Ideal bothCreated := by
  intro pk msg
  simp [oneSignature, bothCreated]

/-- A forward of a chat that has not been started. -/
def unknownCall : ForwardCall := ⟨9, oneForward, .ok none⟩

/-- Each of two chats has a forward accepted, a third one has not. -/
def threeCalls : List ForwardCall := [oneCall 7, unknownCall, oneCall 8]

theorem worker_accepts_created_two_chats : ∃ s',
    Run oneWorker.WorkerStep oneWorkerState threeCalls s' ∧
      (∀ e ∈ threeCalls, e.accepted = true → ∃ pk cp, oneWorkerState.rootPks.getClone e.chatId = some pk ∧
        oneWorker.carried e.req = some cp ∧ ∃ chatId, (chatId, cp.tokenCount) ∈ bothCreated pk) ∧
      oneWorker.Kept oneWorkerState s' threeCalls ∧
      OnChainAccount.acceptedCount 7 threeCalls = 1 ∧ OnChainAccount.acceptedCount 8 threeCalls = 1 ∧
      OnChainAccount.acceptedCount 9 threeCalls = 0 := by
  have h0 : Run oneWorker.WorkerStep oneWorkerState [] _ := .nil
  have h1 := h0.snoc (oneCall_step _ 7 rfl)
  have hidx : oneForward.chainIndex ≠ 0 := by decide
  have h2 := h1.snoc (e := unknownCall) ⟨hidx, rfl⟩
  have h3 := h2.snoc (oneCall_step _ 8 rfl)
  obtain ⟨haccepted, hkept⟩ := OnChainAccount.worker_accepts_created oneSignature_ideal_both h3
  exact ⟨_, h3, haccepted, hkept, rfl, rfl, rfl⟩

end Dllm
