import DecentralizedInference.Lib.Run
import DecentralizedInference.Sanity.ModelChain
import DecentralizedInference.Sanity.OnChainService
import DecentralizedInference.Spec.OnReq

/-! Who makes a node pay. The hooks of `OnChainService` take a request for the node's own
when its `chain_index` is 0, and `on_req` passes this field on as it comes from the peer.
As long as no request of a peer with `chain_index` 0 gets as far as such a hook, the
peers leave what the node has spent, signed and put on the chain alone. -/

namespace Dllm

variable {Address SecretKey PublicKey Node W E : Type} {N : ℕ}

def Submission.isCreateSession : Submission Address → Bool
  | .createSession .. => true
  | .claimTokens .. => false

/-- What a node has done as a payer: the tokens it owes for each chat, the counts that its
key has signed, and the sessions it has created. -/
structure Payments (Address : Type) where
  spending : OnChainStorage
  signed : List UInt64
  created : List (Submission Address)

def OnChainState.payments (s : OnChainState Address PublicKey) : Payments Address :=
  ⟨s.spending, s.signed, s.submitted.filter Submission.isCreateSession⟩

namespace OnChainAccount

variable {a : OnChainAccount Address SecretKey PublicKey} {s : OnChainState Address PublicKey}

theorem preStart_payments (req : StartReq) : (a.preStart req s).2.payments = s.payments := by
  simp only [preStart]
  split
  · rfl
  · split <;> rfl

theorem postStart_payments {req : StartReq} (hidx : req.chainIndex ≠ 0) (res : StartRes) :
    (a.postStart req res s).2.payments = s.payments := by
  simp only [postStart, if_neg hidx]
  split <;> rfl

theorem preForward_payments {chatId : UInt64} {req : ForwardReq} (hidx : req.chainIndex ≠ 0) :
    (a.preForward chatId req s).2.payments = s.payments := by
  rcases h : a.preForward chatId req s with ⟨r, s'⟩
  rcases preForward_worker hidx h with ⟨m, cp, pk, -, -, -, -, -, rfl⟩ | ⟨-, rfl⟩
  · rfl
  · rfl

theorem remove_of_none {m : OnChainStorage} {k : UInt64} (h : m.getClone k = none) :
    m.remove k = m := by
  apply SharedHashMap.ext
  intro k'
  rw [SharedHashMap.getClone_remove]
  split
  case isTrue hk => rw [hk, h]
  case isFalse => rfl

theorem preEnd_payments {chatId : UInt64} {req : EndReq}
    (h : req.chainIndex ≠ 0 ∨ s.spending.getClone chatId = none) :
    (a.preEnd chatId req s).2.payments = s.payments := by
  simp only [preEnd]
  split
  case isTrue hidx =>
    have hnone := h.resolve_left fun hne => hne hidx
    simp [OnChainState.payments, OnChainStorage.finish, remove_of_none hnone]
  case isFalse => rfl

/-- A claim is not a payment. -/
theorem postEnd_payments (chatId : UInt64) (req : EndReq) (res : EndRes) :
    (a.postEnd chatId req res s).2.payments = s.payments := by
  simp only [postEnd]
  split
  · rfl
  · split
    · rfl
    · split
      · rfl
      · simp [OnChainState.payments, OnChainStorage.finish, submit, Submission.isCreateSession]

end OnChainAccount

/-- A request that does not take the node for its root, or does not get as far as that: a
START without a route or whose layers worker fails, a FORWARD or an END of a session that
the node does not have, an END of a chat for which it has spent nothing. -/
def ServiceEnv.Unpaid {S : Type} (env : ServiceEnv S W E) (router : RouteTable Node N)
    (st : NodeState Node (OnChainState Address PublicKey) W) : ServiceReq → Prop
  | .start req => req.chainIndex ≠ 0 ∨ ∀ route, router.selectNext req.fromLayer = .ok (some route) →
      route.localRange.isSome = true ∧ (env.worker.start req.session st.layers).1 = false
  | .forward req => req.chainIndex ≠ 0 ∨ st.sessions.getClone req.session = none
  | .finish req => req.chainIndex ≠ 0 ∨ ∀ c, st.sessions.getClone req.session = some c →
      st.usage.spending.getClone c.chatId = none

namespace ModelService

variable {a : OnChainAccount Address SecretKey PublicKey} {worker : LayerSessions W}
  {st : NodeState Node (OnChainState Address PublicKey) W}

theorem startBegin_payments (router : RouteTable Node N) (rs : UInt64) (req : StartReq) :
    (startBegin a.service.toWorkerUsageService worker router rs req st).2.usage.payments =
      st.usage.payments := by
  rw [startBegin_usage]
  exact OnChainAccount.preStart_payments req

theorem startEnd_payments {req : StartReq} (hidx : req.chainIndex ≠ 0) (res : StartRes) :
    (startEnd a.service.toWorkerUsageService req res st).2.usage.payments = st.usage.payments :=
  OnChainAccount.postStart_payments hidx res

theorem forwardBegin_payments (buf : TensorBuf E) (forward : LayersForward W E) {req : ForwardReq}
    (h : req.chainIndex ≠ 0 ∨ st.sessions.getClone req.session = none) :
    (forwardBegin a.service.toWorkerUsageService buf forward req st).2.usage.payments =
      st.usage.payments := by
  rw [forwardBegin_usage]
  cases hc : st.sessions.getClone req.session with
  | none => rfl
  | some c => exact OnChainAccount.preForward_payments (h.resolve_right (by simp [hc]))

theorem endBegin_payments {req : EndReq}
    (h : req.chainIndex ≠ 0 ∨ ∀ c, st.sessions.getClone req.session = some c →
      st.usage.spending.getClone c.chatId = none) :
    (endBegin a.service.toWorkerUsageService worker req st).2.usage.payments = st.usage.payments := by
  rw [endBegin_usage]
  cases hc : st.sessions.getClone req.session with
  | none => rfl
  | some c => exact OnChainAccount.preEnd_payments (h.imp_right fun hnone => hnone c hc)

theorem endEnd_payments (chatId : UInt64) (req : EndReq) (res : EndRes) :
    (endEnd a.service.toWorkerUsageService chatId req res st).2.usage.payments = st.usage.payments :=
  OnChainAccount.postEnd_payments chatId req res

/-- A START that is unpaid does not go on as one of the root. -/
theorem chainIndex_of_startBegin {S : Type} {env : ServiceEnv S W E} {router : RouteTable Node N}
    {rs : UInt64} {req req' : StartReq} {res : StartRes} {next : Option (Downstream Node StartReq)}
    {st' : NodeState Node (OnChainState Address PublicKey) W} (hunpaid : env.Unpaid router st (.start req))
    (h : startBegin a.service.toWorkerUsageService env.worker router rs req st =
      (.ok (.proceed req' res next), st')) : req'.chainIndex ≠ 0 := by
  rcases startBegin_cases h with hreply | ⟨md, route, hroute, -, -, hstarted, hproceed⟩
  · cases hreply
  · cases hproceed
    rcases hunpaid with hidx | hnone
    · exact hidx
    · obtain ⟨hlocal, hfail⟩ := hnone route hroute
      rw [hstarted hlocal] at hfail
      cases hfail

end ModelService

/-- A waiting task that is not the START of a root. -/
def Task.Unpaid : Task → Prop
  | .start req _ => req.chainIndex ≠ 0
  | _ => True

namespace ServiceEnv

variable {a : OnChainAccount Address SecretKey PublicKey}
  {env : ServiceEnv (OnChainState Address PublicKey) W E}

/-- A call that keeps the payments, and leaves a task that will keep them. -/
def Keeps (st : NodeState Node (OnChainState Address PublicKey) W)
    (o : Outcome (NodeState Node (OnChainState Address PublicKey) W) (Stage Node)) : Prop :=
  o.2.usage.payments = st.usage.payments ∧
    ∀ task dest next, o.1 = .ok (.waiting task dest next) → task.Unpaid

theorem stage_keeps {Req Res : Type} {answer : Res → ServiceRes} {task : Req → Res → Task}
    {call : Req → ServiceReq}
    {finish : Req → Res → NodeState Node (OnChainState Address PublicKey) W →
      Outcome (NodeState Node (OnChainState Address PublicKey) W) Res}
    {progress : Progress Node Req Res} {st st' : NodeState Node (OnChainState Address PublicKey) W}
    (hst : st'.usage.payments = st.usage.payments)
    (hfinish : ∀ req res next, progress = .proceed req res next → (task req res).Unpaid ∧
      (finish req res st').2.usage.payments = st'.usage.payments) :
    Keeps st (stage answer task call finish progress st') := by
  cases progress with
  | reply res => exact ⟨hst, by simp [stage]⟩
  | proceed req res next =>
    obtain ⟨htask, hpay⟩ := hfinish req res next rfl
    cases next with
    | none =>
      refine ⟨hpay.trans hst, ?_⟩
      intro t dest next heq
      simp only [stage] at heq
      cases hr : (finish req res st').1 with
      | error p => simp [hr, Except.map] at heq
      | ok res' => simp [hr, Except.map] at heq
    | some d =>
      refine ⟨hst, ?_⟩
      intro t dest next heq
      cases heq
      exact htask

/-- A call of an unpaid request. -/
theorem serve_keeps (husage : env.usage = a.service.toWorkerUsageService) {router : RouteTable Node N}
    (rs : UInt64) {req : ServiceReq} {st : NodeState Node (OnChainState Address PublicKey) W}
    (h : env.Unpaid router st req) : Keeps st (env.serve router rs req st) := by
  cases req with
  | start req =>
    have hpay : (ModelService.startBegin a.service.toWorkerUsageService env.worker router rs req
        st).2.usage.payments = st.usage.payments := ModelService.startBegin_payments router rs req
    simp only [serve, husage]
    rcases hb : ModelService.startBegin a.service.toWorkerUsageService env.worker router rs req st with
      ⟨_ | progress, st'⟩
    · rw [hb] at hpay
      exact ⟨hpay, by simp⟩
    · rw [hb] at hpay
      apply stage_keeps hpay
      intro req' res next heq
      rw [heq] at hb
      have hidx := ModelService.chainIndex_of_startBegin h hb
      exact ⟨hidx, ModelService.startEnd_payments hidx res⟩
  | forward req =>
    have hpay := ModelService.forwardBegin_payments (a := a) env.buf env.forward h
    simp only [serve, husage]
    rcases hb : ModelService.forwardBegin a.service.toWorkerUsageService env.buf env.forward req st with
      ⟨_ | ⟨chatId, progress⟩, st'⟩
    · rw [hb] at hpay
      exact ⟨hpay, by simp⟩
    · rw [hb] at hpay
      apply stage_keeps hpay
      intro req' res next _
      exact ⟨trivial, rfl⟩
  | finish req =>
    have hpay : (ModelService.endBegin a.service.toWorkerUsageService env.worker req
        st).2.usage.payments = st.usage.payments := ModelService.endBegin_payments h
    simp only [serve, husage]
    rcases hb : ModelService.endBegin a.service.toWorkerUsageService env.worker req st with
      ⟨_ | ⟨chatId, progress⟩, st'⟩
    · rw [hb] at hpay
      exact ⟨hpay, by simp⟩
    · rw [hb] at hpay
      apply stage_keeps hpay
      intro req' res next _
      exact ⟨trivial, ModelService.endEnd_payments chatId req' res⟩

theorem resume_payments (husage : env.usage = a.service.toWorkerUsageService) {task : Task}
    (h : task.Unpaid) (reply : Option RpcRes) (st : NodeState Node (OnChainState Address PublicKey) W) :
    (env.resume reply task st).2.usage.payments = st.usage.payments := by
  cases task with
  | start req failed =>
    simp only [resume, husage]
    exact ModelService.startEnd_payments h _
  | forward chatId req failed =>
    simp only [resume, husage]
    rfl
  | finish chatId req failed =>
    simp only [resume, husage]
    exact ModelService.endEnd_payments chatId req _

end ServiceEnv

namespace Service

variable [DecidableEq Node] {a : OnChainAccount Address SecretKey PublicKey}
  {env : ServiceEnv (OnChainState Address PublicKey) W E}
  {s t t' : Service Node (OnChainState Address PublicKey) W} {es : List (ServiceEvent Node N)}
  {e : ServiceEvent Node N}

def payments (s : Service Node (OnChainState Address PublicKey) W) : Payments Address :=
  s.node.usage.payments

/-- No task that was started for a peer waits as the START of a root. -/
def Clean (s : Service Node (OnChainState Address PublicKey) W) : Prop :=
  ∀ w ∈ s.waiting, w.origin ≠ .virtualLayers → w.task.Unpaid

/-- The requests of peers that a step serves are unpaid. -/
def Unpaid (env : ServiceEnv (OnChainState Address PublicKey) W E)
    (s : Service Node (OnChainState Address PublicKey) W) : ServiceEvent Node N → Prop
  | .rpcReq _ req router _ => ∀ r, env.codec.parse req = .ok (some r) → env.Unpaid router s.node r
  | _ => True

/-- A step whose request, if a peer has sent it, is unpaid. -/
def UnpaidStep (env : ServiceEnv (OnChainState Address PublicKey) W E)
    (s : Service Node (OnChainState Address PublicKey) W) (e : ServiceEvent Node N)
    (s' : Service Node (OnChainState Address PublicKey) W) : Prop :=
  ServiceStep env s e s' ∧ Unpaid env s e

omit [DecidableEq Node] in
/-- What a call adds to the waiting tasks. -/
theorem call_waiting (router : RouteTable Node N) (rs : UInt64) (origin : Origin Node)
    (req : ServiceReq) {w : Waiting Node} (hw : w ∈ (s.call env router rs origin req).waiting) :
    w ∈ s.waiting ∨ w.origin = origin ∧
      ∃ dest next, (env.serve router rs req s.node).1 = .ok (.waiting w.task dest next) := by
  rcases hserve : env.serve router rs req s.node with ⟨_ | _ | ⟨task, dest, next⟩, node⟩ <;>
    simp only [call, hserve] at hw
  · exact .inl hw
  · exact .inl hw
  · rcases List.mem_append.mp hw with hw | hw
    · exact .inl hw
    · rw [List.mem_singleton.mp hw]
      exact .inr ⟨rfl, dest, next, rfl⟩

omit [DecidableEq Node] in
theorem call_node (router : RouteTable Node N) (rs : UInt64) (origin : Origin Node)
    (req : ServiceReq) : (s.call env router rs origin req).node = (env.serve router rs req s.node).2 := by
  rcases hserve : env.serve router rs req s.node with ⟨_ | _ | ⟨task, dest, next⟩, node⟩ <;>
    simp only [call, hserve]

theorem resume_eq (w : Waiting Node) (reply : Option RpcRes) :
    (s.resume env w reply).node = (env.resume reply w.task s.node).2 ∧
      (s.resume env w reply).waiting = s.waiting.erase w := by
  rcases hres : env.resume reply w.task s.node with ⟨_ | res, node⟩ <;> simp [resume, hres]

theorem clean_step (husage : env.usage = a.service.toWorkerUsageService) (hs : UnpaidStep env t e t')
    (hclean : t.Clean) : t'.Clean := by
  obtain ⟨hstep, hunpaid⟩ := hs
  cases hstep with
  | rpcReq sender req router rs =>
    rw [onReq]
    split
    case h_1 => exact hclean
    case h_2 => exact hclean
    case h_3 r hr =>
      have hkeep := ServiceEnv.serve_keeps husage rs (hunpaid r hr)
      intro w hw hpeer
      rcases call_waiting router rs _ r hw with hw | ⟨-, dest, next, hserve⟩
      · exact hclean w hw hpeer
      · exact hkeep.2 w.task dest next hserve
  | virtualCall c router rs =>
    intro w hw hpeer
    rcases call_waiting router rs _ c.req hw with hw | ⟨hlocal, -⟩
    · exact hclean w hw hpeer
    · exact absurd hlocal hpeer
  | rpcRes w reply hw =>
    intro w' hw' hpeer
    rw [(resume_eq w reply).2] at hw'
    exact hclean w' (List.mem_of_mem_erase hw') hpeer

/-- A step of a peer keeps the payments. -/
theorem payments_step (husage : env.usage = a.service.toWorkerUsageService)
    (hs : UnpaidStep env t e t') (hclean : t.Clean) (hpeer : e.byPeer = true) :
    t'.payments = t.payments := by
  obtain ⟨hstep, hunpaid⟩ := hs
  cases hstep with
  | rpcReq sender req router rs =>
    rw [onReq]
    split
    case h_1 => rfl
    case h_2 => rfl
    case h_3 r hr =>
      have hkeep := ServiceEnv.serve_keeps husage rs (hunpaid r hr)
      rw [payments, call_node]
      exact hkeep.1
  | virtualCall c router rs => cases hpeer
  | rpcRes w reply hw =>
    have hforeign : w.origin ≠ .virtualLayers := by
      intro hlocal
      simp [ServiceEvent.byPeer, hlocal] at hpeer
    rw [payments, (resume_eq w reply).1]
    exact ServiceEnv.resume_payments husage (hclean w hw hforeign) reply t.node

/-- In every run of a node in which no request of a peer gets as far as a hook of the root,
local calls and all, no step of a peer makes the node pay, and if the run is the work of
peers alone, the node has paid nothing at its end. -/
theorem peers_never_pay (husage : env.usage = a.service.toWorkerUsageService) (hclean : s.Clean)
    (hrun : Run (UnpaidStep env) s es t) :
    (∀ e t', UnpaidStep (N := N) env t e t' → e.byPeer = true → t'.payments = t.payments) ∧
      ((∀ e ∈ es, e.byPeer = true) → t.payments = s.payments) := by
  have hreach : t.Clean := hrun.invariant hclean fun _ _ _ hs hc => clean_step husage hs hc
  refine ⟨fun e t' hs hpeer => payments_step husage hs hreach hpeer, ?_⟩
  clear hreach
  induction hrun with
  | nil => exact fun _ => rfl
  | @snoc es u u' e hrun hs ih =>
    intro hpeers
    have hu : u.Clean := hrun.invariant hclean fun _ _ _ hs hc => clean_step husage hs hc
    have hlast := payments_step husage hs hu (hpeers e (by simp))
    exact hlast.trans (ih fun e' he' => hpeers e' (List.mem_append_left _ he'))

end Service

/-- A node that has the one layer of a model, and reads the metadata of a START and the
requests below. -/
def soloAccount : OnChainAccount Unit Unit Unit where
  ed25519 := ⟨id, fun _ msg => msg, fun _ => true, fun _ msg sig => msg == sig⟩
  codec := {
    serialize := fun m => if m.checkpoint.isSome then [1] else [0]
    deserialize := fun bs => if bs = [0] then some ⟨[], (), (), [], none⟩ else none }
  address := ()
  secretKey := ()
  layers := ⟨0, 1⟩
  accepts _ := true

/-- The bytes are those of `prost`, where a field with its default value takes none. -/
def soloCodec : LlmCodec where
  startReq := ⟨fun _ => [], fun bs =>
    if bs = [8, 7, 16, 7, 48, 10] then some ⟨7, 7, 0, [], 0, 10⟩
    else if bs = [8, 7, 16, 7, 34, 1, 0, 40, 1, 48, 10] then some ⟨7, 7, 0, [0], 1, 10⟩
    else none⟩
  startRes := ⟨fun res => if res = ⟨true, [0]⟩ then [8, 1, 18, 1, 0] else [], fun _ => none⟩
  forwardReq := ⟨fun _ => [], fun bs => if bs = [8, 7, 40, 1] then some ⟨7, 0, [], 0, 1, [], 0⟩ else none⟩
  forwardRes := ⟨fun res => if res = ⟨true, [], [1]⟩ then [8, 1, 26, 1, 1] else [], fun _ => none⟩
  endReq := ⟨fun _ => [], fun _ => none⟩
  endRes := ⟨fun _ => [], fun _ => none⟩

def soloEnv : ServiceEnv (OnChainState Unit Unit) Unit (List UInt8) where
  usage := soloAccount.service.toWorkerUsageService
  worker := ⟨fun _ w => (true, w), fun _ w => w⟩
  forward _ _ x _ w := (some x, w)
  buf := .raw
  codec := soloCodec

def soloTable : RouteTable Bool 1 := .new ⟨0, 1⟩

def soloService : Service Bool (OnChainState Unit Unit) Unit where
  node := ⟨.new, (), ⟨.new, .new, .new, .new, [], []⟩⟩
  waiting := []
  outbox := []

/-- A peer that sends a START and a FORWARD with `chain_index` 0 makes the node create a
session on the chain and sign for a token. -/
theorem peer_makes_node_pay : ∃ t : Service Bool (OnChainState Unit Unit) Unit,
    Run (ServiceStep soloEnv) soloService
      [.rpcReq true ⟨1, "START", [8, 7, 16, 7, 48, 10]⟩ soloTable 100,
        .rpcReq true ⟨2, "FORWARD", [8, 7, 40, 1]⟩ soloTable 101] t ∧
      soloService.node.usage.spending.getClone 7 = none ∧ t.node.usage.spending.getClone 7 = some 1 ∧
      t.node.usage.signed = [1] ∧ t.node.usage.submitted = [.createSession 7 10 [] []] := by
  have h0 : Run (ServiceStep (N := 1) soloEnv) soloService [] _ := .nil
  have h1 := h0.snoc (.rpcReq _ true ⟨1, "START", [8, 7, 16, 7, 48, 10]⟩ soloTable 100)
  have h2 := h1.snoc (.rpcReq _ true ⟨2, "FORWARD", [8, 7, 40, 1]⟩ soloTable 101)
  exact ⟨_, h2, rfl, rfl, rfl, rfl⟩

/-- The START of a chain whose root is another node. -/
theorem peers_never_pay_worker_start : ∃ t : Service Bool (OnChainState Unit Unit) Unit,
    Run (Service.UnpaidStep soloEnv) soloService
      [.rpcReq true ⟨1, "START", [8, 7, 16, 7, 34, 1, 0, 40, 1, 48, 10]⟩ soloTable 100] t ∧
      t.node.sessions.getClone 7 = some ⟨7, some ⟨0, 1⟩, none⟩ ∧ t.payments = soloService.payments := by
  have hunpaid : soloService.Unpaid soloEnv
      (.rpcReq true ⟨1, "START", [8, 7, 16, 7, 34, 1, 0, 40, 1, 48, 10]⟩ soloTable 100) := by
    intro r hr
    cases hr
    exact .inl (by decide)
  have h0 : Run (Service.UnpaidStep (N := 1) soloEnv) soloService [] _ := .nil
  have h1 := h0.snoc ⟨.rpcReq _ _ _ _ _, hunpaid⟩
  have hclean : soloService.Clean := fun w hw => by cases hw
  refine ⟨_, h1, rfl, (Service.peers_never_pay (a := soloAccount) rfl hclean h1).2 ?_⟩
  intro e he
  rw [List.mem_singleton.mp he]
  rfl

end Dllm
