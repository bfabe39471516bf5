import Mathlib.Logic.Encodable.Basic
import Mathlib.Logic.Equiv.List
import DecentralizedInference.Proofs.DistributedInference
import DecentralizedInference.Sanity.CallFrames

/-! Calls by messages are calls. Whatever the nodes send each other and in which order it comes, a call that returns has
been served along a chain of nodes, one part after the other, and what goes on in between are parts of other calls. So
what holds of every call that is served holds of those that are made by messages. -/

namespace Dllm

variable {Node S W E Req Res Ctx : Type} {N : ℕ} [DecidableEq Node]

section Calls

variable {env : Node → ServiceEnv S W E} {kind : CallKind env N Req Res Ctx} {P : Node × Part Node N → Prop} {root : ℕ}
  {tables : ℕ → Met Node N} {n₀ n : Node} {req₀ req : Req} {net₀ net : Net Node S W} {ts mine : List (RpcTask Node)}
  {hop : ℕ} {origin : Origin Node} {es es' : List (Node × Part Node N)} {rets : List (ℕ × ServiceRes)}
  {s s' : RpcNet Node S W} {T : Node → RouteTable Node N → Prop}

omit [DecidableEq Node] in
theorem othersOf_snoc (es : List (Option (ℕ × Node × Part Node N))) (e : Option (ℕ × Node × Part Node N)) :
    othersOf root (es ++ [e]) = othersOf root es ++ othersOf root [e] := by simp [othersOf, List.filterMap_append]

/-- What a run makes of the call `root`. -/
theorem CallKind.Tracked.run {es₁ : List (Option (ℕ × Node × Part Node N))} (h : kind.Tracked T P root n₀ req₀ net₀ s es)
    (hsound : s.Sound) (hrooted : s.Rooted) (hrun : Run (RpcStep env T) s es₁ s')
    (hfew : ∀ n, (s'.rpc n).oneshots < 2 ^ 32)
    (hP : ∀ x ∈ othersOf root es₁, P x) : kind.Tracked T P root n₀ req₀ net₀ s' (es ++ othersOf root es₁) := by
  have hkeeps : s'.Sound ∧ s'.Rooted ∧
      ((∀ x ∈ othersOf root es₁, P x) → kind.Tracked T P root n₀ req₀ net₀ s' (es ++ othersOf root es₁)) := by
    refine RpcNet.run_few (P := fun s' es₁ => s'.Sound ∧ s'.Rooted ∧
      ((∀ x ∈ othersOf root es₁, P x) → kind.Tracked T P root n₀ req₀ net₀ s' (es ++ othersOf root es₁))) hrun hfew
      ⟨hsound, hrooted, fun _ => by simpa [othersOf] using h⟩ fun a e b es₂ hstep hfew' ⟨hsound', hrooted', htracked⟩ => ?_
    have hfew₀ : ∀ n, (a.rpc n).oneshots < 2 ^ 32 := fun n => Nat.lt_of_le_of_lt (hstep.oneshots_le n) (hfew' n)
    refine ⟨hsound'.step hfew₀ hstep, hrooted'.step hsound' hfew₀ hstep, fun hP' => ?_⟩
    rw [othersOf_snoc] at hP' ⊢
    rw [← List.append_assoc]
    exact (htracked fun x hx => hP' x (List.mem_append_left _ hx)).step hsound' hrooted' hfew' hstep
      fun x hx => hP' x (List.mem_append_right _ hx)
  exact hkeeps.2.2 hP

/-- A call begins. -/
theorem CallKind.call_tracked (kind : CallKind env N Req Res Ctx) (P : Node × Part Node N → Prop) (hsound : s.Sound)
    (hrooted : s.Rooted) (htables : ∀ n, ∃ router, T n router) (n : Node) (req : Req) {router : RouteTable Node N}
    (htable : T n router) (rs : UInt64)
    (hfew : ∀ m, ((({ s with calls := s.calls + 1 } : RpcNet Node S W).first env router rs s.calls n .virtualLayers
      (kind.req req)).rpc m).oneshots < 2 ^ 32) :
    kind.Tracked T P s.calls n req s.nodes
      (({ s with calls := s.calls + 1 } : RpcNet Node S W).first env router rs s.calls n .virtualLayers (kind.req req))
      [] := by
  have hcalls : ({ s with calls := s.calls + 1 } : RpcNet Node S W).Sound :=
    ⟨hsound.counted, hsound.once, hsound.known, hsound.packets, hsound.tasks⟩
  choose routers hrouters using htables
  have hframes : kind.Frames T P s.calls n req s.nodes { s with calls := s.calls + 1 } (fun _ => (routers, rs)) [] 0
      .virtualLayers n req s.nodes [] [] [] := by
    refine ⟨.nil, ⟨fun t ht => (by cases ht), .nil, fun m call hlt hroot _ => ?_⟩, ?_, ?_, Nat.lt_succ_self _, fun _ => hrouters⟩
    · exact absurd hroot (Nat.ne_of_lt (hrooted.roots m call hlt))
    · rw [List.filter_eq_nil_iff.mpr fun t ht => by simpa using Nat.ne_of_lt (hrooted.tasks t ht)]
      exact .nil
    · exact List.filter_eq_nil_iff.mpr fun x hx => by simpa using Nat.ne_of_lt (hrooted.returned x hx)
  exact hframes.first hcalls trivial .nil htable rs hfew

/-- A call that has returned has been served. -/
theorem CallKind.Tracked.answered (h : kind.Tracked T P root n₀ req₀ net₀ s es) {res : ServiceRes}
    (hreturned : (root, res) ∈ s.returned) :
    ∃ tables answer, (∀ hop n, T n ((tables hop).1 n)) ∧ res = kind.res answer ∧
      kind.Answered P tables 0 n₀ req₀ net₀ es answer s.nodes := by
  obtain ⟨tables, ts, hop, origin, n, req, net, es₁, es₂, mine, rets, rfl, hframes, hfocus⟩ := h
  have hmem : (root, res) ∈ rets := by
    rw [← hframes.returned]
    simpa using hreturned
  have hstack := hframes.stack
  cases hfocus with
  | going | ready | lost => cases hmem
  | @returned es₁' es₂' net₁ answer vs hserved hmeanwhile hheld =>
    cases hstack with
    | push => cases hmem
    | nil =>
      obtain ⟨-, rfl⟩ := Prod.mk.inj (List.mem_singleton.mp hmem)
      exact ⟨tables, answer, hframes.met, rfl, es₁', es₂', net₁, vs, rfl, hserved, hmeanwhile⟩

theorem oneshots_le_of_run {es₁ : List (Option (ℕ × Node × Part Node N))} (hrun : Run (RpcStep env T) s es₁ s')
    (m : Node) :
    (s.rpc m).oneshots ≤ (s'.rpc m).oneshots := by
  induction hrun with
  | nil => exact Nat.le_refl _
  | snoc _ hstep ih => exact Nat.le_trans ih (hstep.oneshots_le m)

/-- A call that returns has been served along its chain, with the parts of other calls in between. -/
theorem CallKind.returned_answered (kind : CallKind env N Req Res Ctx) {nodes : Net Node S W}
    {es es' : List (Option (ℕ × Node × Part Node N))} (hbefore : Run (RpcStep env T) { nodes } es s)
    (htables : ∀ n, ∃ router, T n router) {router : RouteTable Node N} (htable : T n router) {rs : UInt64}
    (hrun : Run (RpcStep env T) (({ s with calls := s.calls + 1 } : RpcNet Node S W).first env router rs s.calls n
      .virtualLayers (kind.req req)) es' s') (hfew : ∀ m, (s'.rpc m).oneshots < 2 ^ 32)
    (hothers : ∀ x ∈ othersOf s.calls es', P x) {res : ServiceRes} (hreturned : (s.calls, res) ∈ s'.returned) :
    ∃ tables answer, (∀ hop n, T n ((tables hop).1 n)) ∧ res = kind.res answer ∧
      kind.Answered P tables 0 n req s.nodes (othersOf s.calls es') answer s'.nodes := by
  have hfew₁ : ∀ m, ((({ s with calls := s.calls + 1 } : RpcNet Node S W).first env router rs s.calls n .virtualLayers
      (kind.req req)).rpc m).oneshots < 2 ^ 32 := fun m => Nat.lt_of_le_of_lt (oneshots_le_of_run hrun m) (hfew m)
  have hfew₀ : ∀ m, (s.rpc m).oneshots < 2 ^ 32 := fun m =>
    Nat.lt_of_le_of_lt (RpcNet.first_oneshots_le { s with calls := s.calls + 1 } m) (hfew₁ m)
  obtain ⟨hsound, hrooted⟩ : s.Sound ∧ s.Rooted :=
    RpcNet.run_few (P := fun s _ => s.Sound ∧ s.Rooted) hbefore hfew₀ ⟨.init nodes, .init nodes⟩
      fun a e b _ hstep hfew' ⟨hsound', hrooted'⟩ =>
        have hfew'' : ∀ m, (a.rpc m).oneshots < 2 ^ 32 := fun m => Nat.lt_of_le_of_lt (hstep.oneshots_le m) (hfew' m)
        ⟨hsound'.step hfew'' hstep, hrooted'.step hsound' hfew'' hstep⟩
  have hcalls : ({ s with calls := s.calls + 1 } : RpcNet Node S W).Sound :=
    ⟨hsound.counted, hsound.once, hsound.known, hsound.packets, hsound.tasks⟩
  have hrooted' : ({ s with calls := s.calls + 1 } : RpcNet Node S W).Rooted :=
    hrooted.of_eq (fun _ => rfl) rfl (fun _ ht => ht) rfl (Nat.le_succ _)
  have hfree : ({ s with calls := s.calls + 1 } : RpcNet Node S W).Free .virtualLayers := trivial
  have hbegun := kind.call_tracked P hsound hrooted htables n req htable rs hfew₁
  have hended := hbegun.run (hcalls.first hfree).1
    (hrooted'.of_advances hcalls (hcalls.first hfree).2 (RpcNet.first_adds _) (Nat.lt_succ_self _)
      fun _ _ hfor => by cases hfor)
    hrun hfew hothers
  exact hended.answered hreturned

end Calls

section Worlds

variable {w : World Node S W N} {buf : TensorBuf E} {layers : Node → LayersForward W E} {codec : LlmCodec}
  {T : Node → RouteTable Node N → Prop}

/-- A call of the node `n` is served, and others go on. -/
def World.Returns (w : World Node S W N) (buf : TensorBuf E) (layers : Node → LayersForward W E)
    (T : Node → RouteTable Node N → Prop) (other : Net Node S W → Node × Part Node N → Net Node S W → Prop) (n : Node)
    (net : Net Node S W)
    (es : List (Node × Part Node N)) (net' : Net Node S W) : ServiceReq → ServiceRes → Prop
  | .start req, .start res => ∃ met es₁ es₂ net₁ vs, es = es₁ ++ es₂ ∧ (∀ hop n, T n ((w.meets met).router hop n)) ∧
      Served (w.meets met).startFirst w.startLast other 0 n req net es₁ res net₁ vs ∧ Run other net₁ es₂ net'
  | .forward req, .forward res => ∃ es₁ es₂ net₁ vs, es = es₁ ++ es₂ ∧
      Served (w.forwardFirst buf layers) w.forwardLast other 0 n req net es₁ res net₁ vs ∧ Run other net₁ es₂ net'
  | .finish req, .finish res => ∃ es₁ es₂ net₁ vs, es = es₁ ++ es₂ ∧
      Served w.endFirst w.endLast other 0 n req net es₁ res net₁ vs ∧ Run other net₁ es₂ net'
  | _, _ => False

/-- Calls by messages are calls. In whatever order messages come, are lost, and are taken up: a call that returns has
been served along its chain, with the parts of other calls in between. -/
theorem World.calls_are_served (hcodec : codec.RoundTrip N) {nodes : Net Node S W} {s s' : RpcNet Node S W}
    {es es' : List (Option (ℕ × Node × Part Node N))} (hbefore : Run (RpcStep (w.env buf layers codec) T) { nodes } es s)
    (htables : ∀ n, ∃ router, T n router) {n : Node} {c : VirtualCall} {router : RouteTable Node N} (htable : T n router)
    {rs : UInt64}
    (hrun : Run (RpcStep (w.env buf layers codec) T) (({ s with calls := s.calls + 1 } : RpcNet Node S W).first
      (w.env buf layers codec) router rs s.calls n .virtualLayers c.req) es' s')
    (hfew : ∀ m, (s'.rpc m).oneshots < 2 ^ 32) {P : Node × Part Node N → Prop} (hothers : ∀ e ∈ othersOf s.calls es', P e)
    {res : ServiceRes} (hreturned : (s.calls, res) ∈ s'.returned) :
    w.Returns buf layers T (fun net e net' => P e ∧ net' = w.does buf layers e net) n s.nodes
      (othersOf s.calls es') s'.nodes
      c.req res := by
  cases c with
  | start session maxLen =>
    obtain ⟨met, answer, hmet, rfl, es₁, es₂, net₁, vs, hes, hserved, hmeanwhile⟩ :=
      (startKind w buf layers hcodec).returned_answered (P := P) hbefore htables htable hrun hfew hothers hreturned
    exact ⟨met, es₁, es₂, net₁, vs, hes, hmet, hserved, hmeanwhile⟩
  | forward session step embedding seqLen indexPos =>
    obtain ⟨met, answer, hmet, rfl, es₁, es₂, net₁, vs, hes, hserved, hmeanwhile⟩ :=
      (forwardKind w buf layers hcodec).returned_answered (P := P) hbefore htables htable hrun hfew hothers hreturned
    exact ⟨es₁, es₂, net₁, vs, hes, hserved, hmeanwhile⟩
  | finish session =>
    obtain ⟨met, answer, hmet, rfl, es₁, es₂, net₁, vs, hes, hserved, hmeanwhile⟩ :=
      (endKind w buf layers hcodec).returned_answered (P := P) hbefore htables htable hrun hfew hothers hreturned
    exact ⟨es₁, es₂, net₁, vs, hes, hserved, hmeanwhile⟩

end Worlds

section Mean

/-- As many bytes as the number of a message. -/
def MessageCodec.counted (α : Type) [Encodable α] : MessageCodec α where
  encode x := List.replicate (Encodable.encode x) 0
  decode bytes := Encodable.decode bytes.length

theorem MessageCodec.counted_roundTrip {α : Type} [Encodable α] (x : α) :
    (MessageCodec.counted α).decode ((MessageCodec.counted α).encode x) = some x := by
  simp [MessageCodec.counted]

/-- A codec that encodes one message to some bytes, and others to more bytes. -/
def MessageCodec.wired {α : Type} [Encodable α] [DecidableEq α] (x : α) (wire : List UInt8) : MessageCodec α where
  encode y := if y = x then wire else List.replicate (Encodable.encode y + (wire.length + 1)) 0
  decode bytes := if bytes = wire then some x else Encodable.decode (bytes.length - (wire.length + 1))

theorem MessageCodec.wired_roundTrip {α : Type} [Encodable α] [DecidableEq α] (x : α) (wire : List UInt8) (y : α) :
    (MessageCodec.wired x wire).decode ((MessageCodec.wired x wire).encode y) = some y := by
  unfold wired
  by_cases hy : y = x
  · simp [hy]
  · have hne : List.replicate (Encodable.encode y + (wire.length + 1)) 0 ≠ wire := by
      intro heq
      have hlength := congrArg List.length heq
      rw [List.length_replicate] at hlength
      omega
    simp [hy, hne]

instance encodableUInt8 : Encodable UInt8 := .ofLeftInverse UInt8.toNat UInt8.ofNat fun _ => UInt8.ofNat_toNat
instance encodableUInt32 : Encodable UInt32 := .ofLeftInverse UInt32.toNat UInt32.ofNat fun _ => UInt32.ofNat_toNat
instance encodableUInt64 : Encodable UInt64 := .ofLeftInverse UInt64.toNat UInt64.ofNat fun _ => UInt64.ofNat_toNat

instance encodableStartReq : Encodable StartReq :=
  .ofLeftInverse (fun r => (r.session, r.chatId, r.fromLayer, r.metadata, r.chainIndex, r.maxTokens))
    (fun (session, chatId, fromLayer, metadata, chainIndex, maxTokens) =>
      ⟨session, chatId, fromLayer, metadata, chainIndex, maxTokens⟩) fun _ => rfl

instance encodableStartRes : Encodable StartRes :=
  .ofLeftInverse (fun r => (r.success, r.metadata)) (fun (success, metadata) => ⟨success, metadata⟩) fun _ => rfl

instance encodableForwardReq : Encodable ForwardReq :=
  .ofLeftInverse (fun r => (r.session, r.step, r.embedding, r.indexPos, r.seqLen, r.metadata, r.chainIndex))
    (fun (session, step, embedding, indexPos, seqLen, metadata, chainIndex) =>
      ⟨session, step, embedding, indexPos, seqLen, metadata, chainIndex⟩) fun _ => rfl

instance encodableForwardRes : Encodable ForwardRes :=
  .ofLeftInverse (fun r => (r.success, r.embedding, r.metadata))
    (fun (success, embedding, metadata) => ⟨success, embedding, metadata⟩)
    fun _ => rfl

instance encodableEndReq : Encodable EndReq :=
  .ofLeftInverse (fun r => (r.session, r.metadata, r.chainIndex))
    (fun (session, metadata, chainIndex) => ⟨session, metadata, chainIndex⟩)
    fun _ => rfl

instance encodableEndRes : Encodable EndRes :=
  .ofLeftInverse (fun r => (r.success, r.metadata)) (fun (success, metadata) => ⟨success, metadata⟩) fun _ => rfl

/-- The bytes of protobuf for the START that the root below sends and for its answer. -/
def startCodec : LlmCodec :=
  ⟨.wired ⟨100, 7, 2, [], 1, 10⟩ [8, 100, 16, 7, 24, 2, 40, 1, 48, 10], .wired ⟨true, []⟩ [8, 1], .counted _, .counted _,
    .counted _, .counted _⟩

theorem startCodec_roundTrip : startCodec.RoundTrip 3 where
  startReq x _ := MessageCodec.wired_roundTrip _ _ x
  startRes := MessageCodec.wired_roundTrip _ _
  forwardReq := MessageCodec.counted_roundTrip
  forwardRes := MessageCodec.counted_roundTrip
  endReq := MessageCodec.counted_roundTrip
  endRes := MessageCodec.counted_roundTrip

def meanEnv (codec : LlmCodec) := meanWorld.env meanBuf (fun n => (meanWorker n).forward) codec

def meanTables (n : Bool) (router : RouteTable Bool 3) : Prop := router = meanWorld.router 0 n

abbrev MeanRpcNet := RpcNet Bool Unit (SharedHashMap UInt64 (LlamaCache oneNumber (WithBot ℚ)))

/-- The root of the two nodes calls START. -/
def meanCalled (codec : LlmCodec) : MeanRpcNet :=
  ({ nodes := meanNet, calls := 1 } : MeanRpcNet).first (meanEnv codec)
    (meanWorld.router 0 false) 100 0 false .virtualLayers
    (VirtualCall.start 7 10).req

/-- The request is on its way. -/
def meanSent (codec : LlmCodec) : MeanRpcNet :=
  { meanCalled codec with
    rpc := Function.update (meanCalled codec).rpc false ⟨1, AList.insert 1 0 ∅, [], 1, [], []⟩
    wire := [.request false true ⟨1, "START", codec.startReq.encode ⟨100, 7, 2, [], 1, 10⟩⟩] }

/-- The second node has begun to serve it. -/
def meanServed (codec : LlmCodec) : MeanRpcNet :=
  ({ meanSent codec with wire := [] } : MeanRpcNet).first (meanEnv codec) (meanWorld.router 0 true) 101 0 true
    (.peer false 1)
    (.start ⟨100, 7, 2, [], 1, 10⟩)

/-- The task of the root, and that of the second node. -/
def meanTask : RpcTask Bool := ⟨⟨.virtualLayers, .start ⟨7, 7, 0, [], 0, 10⟩ ⟨false, []⟩⟩, 0, false, some 0⟩

def meanLastTask : RpcTask Bool := ⟨⟨.peer false 1, .start ⟨100, 7, 2, [], 1, 10⟩ ⟨true, []⟩⟩, 0, true, none⟩

/-- The answer is on its way. -/
def meanAnswered (codec : LlmCodec) : MeanRpcNet :=
  ({ meanServed codec with tasks := [meanTask] } : MeanRpcNet).last (meanEnv codec) none meanLastTask

/-- The answer has come. -/
def meanHeard (codec : LlmCodec) : MeanRpcNet :=
  { meanAnswered codec with
    rpc := Function.update (meanAnswered codec).rpc false
      ⟨1, AList.erase 1 (AList.insert 1 0 ∅), [], 1, [(0, ⟨1, true, codec.startRes.encode ⟨true, []⟩⟩)], []⟩
    wire := [] }

/-- A START goes to the second node and comes back. -/
theorem mean_start_returns (codec : LlmCodec) (hcodec : codec.RoundTrip 3) : ∃ es s',
    Run (RpcStep (meanEnv codec) meanTables) (meanCalled codec) es s' ∧ (∀ m, (s'.rpc m).oneshots < 2 ^ 32) ∧
      othersOf 0 es = [] ∧ (0, .start ⟨true, []⟩) ∈ s'.returned := by
  let kind := startKind meanWorld meanBuf (fun n => (meanWorker n).forward) hcodec
  let request : RpcReq := ⟨1, "START", codec.startReq.encode ⟨100, 7, 2, [], 1, 10⟩⟩
  let response : RpcRes := ⟨1, true, codec.startRes.encode ⟨true, []⟩⟩
  have hsend : RpcStep (meanEnv codec) meanTables (meanCalled codec) none (meanSent codec) := .send rfl
  have hwire : (meanSent codec).wire = [] ++ .request false true request :: [] := rfl
  have hserve : RpcStep (meanEnv codec) meanTables (meanSent codec) (some (0, true, _)) (meanServed codec) :=
    .serve hwire (kind.parse true false 1 ⟨100, 7, 2, [], 1, 10⟩ (by decide : 2 < 3)) (rfl : meanTables true (meanWorld.router 0 true)) 101
  have htasks : (meanServed codec).tasks = [meanTask] ++ meanLastTask :: [] := rfl
  have hfinish : RpcStep (meanEnv codec) meanTables (meanServed codec) (some (0, true, _)) (meanAnswered codec) :=
    .finish htasks rfl
  have hanswer : (meanAnswered codec).wire = [] ++ .response true false response :: [] := rfl
  have hhear : RpcStep (meanEnv codec) meanTables (meanAnswered codec) none (meanHeard codec) := .hear hanswer rfl
  have htask : (meanHeard codec).tasks = [] ++ meanTask :: [] := rfl
  have hresume : RpcStep (meanEnv codec) meanTables (meanHeard codec) (some (0, false, _))
      (({ meanHeard codec with tasks := [] } : MeanRpcNet).last (meanEnv codec) (some response) meanTask) :=
    .resume htask rfl (List.mem_singleton_self _)
  refine ⟨_, _, .snoc (.snoc (.snoc (.snoc (.snoc .nil hsend) hserve) hfinish) hhear) hresume, fun m => ?_, rfl, ?_⟩
  · rw [RpcNet.last_oneshots]
    cases m with
    | false => exact (show 1 < 2 ^ 32 by decide)
    | true => exact (show 0 < 2 ^ 32 by decide)
  · have hlast : (meanEnv codec false).resume (some response) meanTask.task ((meanHeard codec).nodes false) =
        (.ok (.start ⟨true, []⟩), (meanHeard codec).nodes false) :=
      kind.resume_some false true () ⟨7, 7, 0, [], 0, 10⟩ ⟨false, []⟩ 1 ⟨true, []⟩ ((meanHeard codec).nodes false)
    have hreturned :
        (({ meanHeard codec with tasks := [] } : MeanRpcNet).last (meanEnv codec) (some response) meanTask).returned =
        [(0, .start ⟨true, []⟩)] := by
      unfold RpcNet.last
      rw [show (meanEnv codec meanTask.node).resume (some response) meanTask.task
        (({ meanHeard codec with tasks := [] } : MeanRpcNet).nodes meanTask.node) = _ from hlast]
      rfl
    rw [hreturned]
    exact List.mem_singleton_self _

theorem calls_are_served_mean : ∃ es s', Run (RpcStep (meanEnv startCodec) meanTables) (meanCalled startCodec) es s' ∧
    meanWorld.Returns meanBuf (fun n => (meanWorker n).forward) meanTables
      (meanWorld.Other meanBuf (fun n => (meanWorker n).forward) [7, 100] 7) false meanNet [] s'.nodes
      (VirtualCall.start 7 10).req (.start ⟨true, []⟩) := by
  obtain ⟨es, s', hrun, hfew, hothers, hreturned⟩ := mean_start_returns startCodec startCodec_roundTrip
  have hbefore : Run (RpcStep (meanWorld.env meanBuf (fun n => (meanWorker n).forward) startCodec) meanTables)
      ({ nodes := meanNet } : MeanRpcNet) [] { nodes := meanNet } := .nil
  have hnone : ∀ e ∈ othersOf 0 es, e.2.Foreign [7, 100] 7 := by
    rw [hothers]
    exact fun e he => nomatch he
  have hserved := World.calls_are_served (P := fun e => e.2.Foreign [7, 100] 7) (n := false) (c := .start 7 10)
    startCodec_roundTrip hbefore (fun n => ⟨meanWorld.router 0 n, rfl⟩) rfl hrun hfew hnone hreturned
  rw [show othersOf ({ nodes := meanNet } : MeanRpcNet).calls es = [] from hothers] at hserved
  exact ⟨es, s', hrun, hserved⟩

end Mean

end Dllm
