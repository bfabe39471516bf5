import DecentralizedInference.Sanity.ChatRun
import DecentralizedInference.Sanity.RpcRoots

/-! What belongs to one call of `VirtualModelLayers` in a network of messages: calls that wait for each other along a
chain of nodes, and the request or answer that the last of them waits for. Every step keeps this, and what it makes of the
nodes is a part of the call or of another one. -/

namespace Dllm

variable {Node S W E Req Res Ctx : Type} {N : ℕ} [DecidableEq Node]

/-- The tables of the nodes and the random session id that a START meets. -/
abbrev Met (Node : Type) (N : ℕ) : Type := (Node → RouteTable Node N) × UInt64

/-- One of START, FORWARD and END: its two parts, and what the nodes make of its requests and answers. -/
structure CallKind (env : Node → ServiceEnv S W E) (N : ℕ) (Req Res Ctx : Type) where
  first : Met Node N → Node → Req → NodeState Node S W → Outcome (NodeState Node S W) (Ctx × Progress Node Req Res)
  last : Node → Ctx → Req → Res → NodeState Node S W → Outcome (NodeState Node S W) Res
  req : Req → ServiceReq
  res : Res → ServiceRes
  task : Ctx → Req → Res → Task
  first_eq : ∀ n met r st, (env n).first (met.1 n) met.2 (req r) st =
    ((first met n r st).1.map fun x => ServiceEnv.begun res (task x.1) req x.2, (first met n r st).2)
  resume_none : ∀ n ctx r answer st, (env n).resume none (task ctx r answer) st =
    ((last n ctx r answer st).1.map res, (last n ctx r answer st).2)
  resume_some : ∀ n m ctx r failed seq answer st,
    (env n).resume (some ⟨seq, true, (env m).codec.encodeRes (res answer)⟩) (task ctx r failed) st =
      ((last n ctx r answer st).1.map res, (last n ctx r answer st).2)
  Fits : Req → Prop
  first_fits : ∀ {met n r st ctx req' answer d st'}, first met n r st = (.ok (ctx, .proceed req' answer (some d)), st') →
    Fits d.req
  parse : ∀ n m seq r, Fits r → (env n).codec.parse
    ⟨seq, ((env m).codec.encodeReq (req r)).1, ((env m).codec.encodeReq (req r)).2⟩ = .ok (some (req r))

section Kinds

variable {w : World Node S W N} {buf : TensorBuf E} {layers : Node → LayersForward W E} {codec : LlmCodec}

/-- What is sent is what comes. A START names one of the `N` layers as a `u32`. -/
structure LlmCodec.RoundTrip (c : LlmCodec) (N : ℕ) : Prop where
  startReq : ∀ x, x.fromLayer < N → c.startReq.decode (c.startReq.encode x) = some x
  startRes : ∀ x, c.startRes.decode (c.startRes.encode x) = some x
  forwardReq : ∀ x, c.forwardReq.decode (c.forwardReq.encode x) = some x
  forwardRes : ∀ x, c.forwardRes.decode (c.forwardRes.encode x) = some x
  endReq : ∀ x, c.endReq.decode (c.endReq.encode x) = some x
  endRes : ∀ x, c.endRes.decode (c.endRes.encode x) = some x

omit [DecidableEq Node] in
/-- A START is sent on for a layer that is in the table. -/
theorem World.startFirst_fromLayer_lt {met : Met Node N} {n : Node} {req req' : StartReq} {st st' : NodeState Node S W}
    {ctx : Unit} {answer : StartRes} {d : Downstream Node StartReq}
    (h : (w.meets fun _ => met).startFirst 0 n req st = (.ok (ctx, .proceed req' answer (some d)), st')) :
    d.req.fromLayer < N := by
  simp only [World.startFirst, World.meets] at h
  rcases hbegin : ModelService.startBegin (w.usage n).toWorkerUsageService (w.worker n) (met.1 n) met.2 req st with
    ⟨_ | progress, st₁⟩ <;> rw [hbegin] at h
  · cases h
  · cases h
    rcases ModelService.startBegin_cases hbegin with hreply | ⟨md, route, hroute, -, -, -, hproceed⟩
    · cases hreply
    · injection hproceed with _ _ hnext
      obtain ⟨r, hr, rfl⟩ := Option.map_eq_some_iff.mp hnext.symm
      rcases RouteTable.selectNext_cases hroute with ⟨-, -, -, rfl⟩ | ⟨hs, _, _, -, -, -, rfl⟩ | ⟨hl, _, _, -, -, rfl⟩
      · cases hr
      · cases hr
        exact hs
      · cases hr
        exact hl

def startKind (w : World Node S W N) (buf : TensorBuf E) (layers : Node → LayersForward W E) {codec : LlmCodec}
    (hcodec : codec.RoundTrip N) : CallKind (w.env buf layers codec) N StartReq StartRes Unit where
  first met := (w.meets fun _ => met).startFirst 0
  last := w.startLast
  req := .start
  res := .start
  task _ := .start
  first_eq n met r st := by
    simp only [ServiceEnv.first, World.env, World.startFirst, World.meets]
    rcases ModelService.startBegin (w.usage n).toWorkerUsageService (w.worker n) (met.1 n) met.2 r st with
      ⟨_ | _, st⟩ <;> rfl
  resume_none n ctx r answer st := rfl
  resume_some n m ctx r failed seq answer st := by
    simp [ServiceEnv.resume, rpcResult, World.env, LlmCodec.encodeRes, hcodec.startRes, World.startLast]
  Fits r := r.fromLayer < N
  first_fits := World.startFirst_fromLayer_lt
  parse n m seq r hfits := by simp [LlmCodec.parse, World.env, LlmCodec.encodeReq, hcodec.startReq r hfits]

def forwardKind (w : World Node S W N) (buf : TensorBuf E) (layers : Node → LayersForward W E) {codec : LlmCodec}
    (hcodec : codec.RoundTrip N) : CallKind (w.env buf layers codec) N ForwardReq ForwardRes UInt64 where
  first _ := w.forwardFirst buf layers 0
  last := w.forwardLast
  req := .forward
  res := .forward
  task := .forward
  first_eq n met r st := rfl
  resume_none n ctx r answer st := rfl
  resume_some n m ctx r failed seq answer st := by
    simp [ServiceEnv.resume, rpcResult, World.env, LlmCodec.encodeRes, hcodec.forwardRes, World.forwardLast]
  Fits _ := True
  first_fits _ := trivial
  parse n m seq r _ := by simp [LlmCodec.parse, World.env, LlmCodec.encodeReq, hcodec.forwardReq]

def endKind (w : World Node S W N) (buf : TensorBuf E) (layers : Node → LayersForward W E) {codec : LlmCodec}
    (hcodec : codec.RoundTrip N) : CallKind (w.env buf layers codec) N EndReq EndRes UInt64 where
  first _ := w.endFirst 0
  last := w.endLast
  req := .finish
  res := .finish
  task := .finish
  first_eq n met r st := rfl
  resume_none n ctx r answer st := rfl
  resume_some n m ctx r failed seq answer st := by
    simp [ServiceEnv.resume, rpcResult, World.env, LlmCodec.encodeRes, hcodec.endRes, World.endLast]
  Fits _ := True
  first_fits _ := trivial
  parse n m seq r _ := by simp [LlmCodec.parse, World.env, LlmCodec.encodeReq, hcodec.endReq]

end Kinds

/-- A part of another call that is one of these. -/
def Others (P : Node × Part Node N → Prop) (env : Node → ServiceEnv S W E) (net : Net Node S W) (e : Node × Part Node N)
    (net' : Net Node S W) : Prop :=
  P e ∧ Does env net e net'

section Calls

variable {env : Node → ServiceEnv S W E} {kind : CallKind env N Req Res Ctx} {P : Node × Part Node N → Prop} {root : ℕ}
  {tables : ℕ → Met Node N} {n₀ n : Node} {req₀ req : Req} {net₀ net : Net Node S W} {ts mine : List (RpcTask Node)}
  {hop : ℕ} {origin : Origin Node} {es es' : List (Node × Part Node N)} {rets : List (ℕ × ServiceRes)}
  {s s' : RpcNet Node S W} {T : Node → RouteTable Node N → Prop}

/-- The call is served, with the tables that it meets hop by hop. -/
abbrev CallKind.Serves (kind : CallKind env N Req Res Ctx) (P : Node × Part Node N → Prop) (tables : ℕ → Met Node N) :=
  Served (fun hop => kind.first (tables hop)) kind.last (Others P env)

/-- The calls that wait for the next node each, the last one first, and the call that they wait for: `req` at the node
`n`. -/
inductive CallKind.Stack (kind : CallKind env N Req Res Ctx) (P : Node × Part Node N → Prop) (root : ℕ)
    (tables : ℕ → Met Node N) (n₀ : Node) (req₀ : Req) (net₀ : Net Node S W) :
    List (RpcTask Node) → ℕ → Origin Node → Node → Req → Net Node S W → List (Node × Part Node N) → Prop
  | nil : Stack kind P root tables n₀ req₀ net₀ [] 0 .virtualLayers n₀ req₀ net₀ []
  | push {ts : List (RpcTask Node)} {hop call : ℕ} {origin : Origin Node} {n : Node} {req req' : Req}
      {net net₁ : Net Node S W} {es es' : List (Node × Part Node N)} {ctx : Ctx} {res : Res} {d : Downstream Node Req}
      {st : NodeState Node S W} {seq : UInt32} (hstack : Stack kind P root tables n₀ req₀ net₀ ts hop origin n req net es)
      (hbefore : Run (Others P env) net es' net₁)
      (hfirst : kind.first (tables hop) n req (net₁ n) = (.ok (ctx, .proceed req' res (some d)), st))
      (hseq : seq.toNat = call + 1) :
      Stack kind P root tables n₀ req₀ net₀ (⟨⟨origin, kind.task ctx req' res⟩, root, n, some call⟩ :: ts) (hop + 1)
        (.peer n seq) d.dest d.req (Function.update net₁ n st) (es ++ es')

/-- A request that was sent can be read back. -/
theorem CallKind.Stack.fits {m : Node} {seq : UInt32}
    (h : kind.Stack P root tables n₀ req₀ net₀ ts hop (.peer m seq) n req net es) : kind.Fits req := by
  cases h with
  | push _ _ hfirst _ => exact kind.first_fits hfirst

/-- Requests that the calls do not wait for now are with the calls that serve them, or done. -/
structure RpcNet.Settled (s : RpcNet Node S W) (root : ℕ) (origin : Origin Node) (ts : List (RpcTask Node)) : Prop where
  calls : ∀ t ∈ ts, ∃ call, t.call = some call ∧ call < (s.rpc t.node).oneshots ∧ s.roots t.node call = root
  distinct : ts.Pairwise fun t u => t.node = u.node → t.call ≠ u.call
  others : ∀ m call, call < (s.rpc m).oneshots → s.roots m call = root → origin.isFor m call = false →
    (∃ t ∈ ts, s.holders m call = [.task t]) ∨
      (∀ x ∈ s.holders m call, ∃ res, x = .resolved res) ∧ ∀ t ∈ ts, t.node = m → t.call ≠ some call

/-- What `VirtualModelLayers` has of an answer. -/
def Origin.returns (root : ℕ) (res : ServiceRes) : Origin Node → List (ℕ × ServiceRes)
  | .peer _ _ => []
  | .virtualLayers => [(root, res)]

/-- Where the call is that the others wait for. -/
inductive CallKind.Focus (kind : CallKind env N Req Res Ctx) (P : Node × Part Node N → Prop) (root : ℕ)
    (tables : ℕ → Met Node N) (s : RpcNet Node S W) (hop : ℕ) (origin : Origin Node) (n : Node) (req : Req)
    (net : Net Node S W) : List (Node × Part Node N) → List (RpcTask Node) → List (ℕ × ServiceRes) → Prop
  | going {es : List (Node × Part Node N)} (hrun : Run (Others P env) net es s.nodes)
      (hheld : ∀ m call, origin.isFor m call = true →
        s.holders m call = [.queued ⟨n, ((env m).codec.encodeReq (kind.req req)).1,
          ((env m).codec.encodeReq (kind.req req)).2⟩] ∨
        ∃ seq, s.holders m call = [.packet (.request m n
          ⟨seq, ((env m).codec.encodeReq (kind.req req)).1, ((env m).codec.encodeReq (kind.req req)).2⟩)]) :
      Focus kind P root tables s hop origin n req net es [] []
  | ready {es es' : List (Node × Part Node N)} {net₁ : Net Node S W} {ctx : Ctx} {req' : Req} {res : Res}
      {st : NodeState Node S W} (hbefore : Run (Others P env) net es net₁)
      (hfirst : kind.first (tables hop) n req (net₁ n) = (.ok (ctx, .proceed req' res none), st))
      (hmeanwhile : Run (Others P env) (Function.update net₁ n st) es' s.nodes)
      (hheld : ∀ m call, origin.isFor m call = true →
        s.holders m call = [.task ⟨⟨origin, kind.task ctx req' res⟩, root, n, none⟩]) :
      Focus kind P root tables s hop origin n req net (es ++ es') [⟨⟨origin, kind.task ctx req' res⟩, root, n, none⟩] []
  | returned {es es' : List (Node × Part Node N)} {net₁ : Net Node S W} {answer : Res}
      {vs : List (Visit Node S W Req Res)} (hserved : kind.Serves P tables hop n req net es answer net₁ vs)
      (hmeanwhile : Run (Others P env) net₁ es' s.nodes)
      (hheld : ∀ m call, origin.isFor m call = true → ∃ seq,
        s.holders m call = [.packet (.response n m ⟨seq, true, (env n).codec.encodeRes (kind.res answer)⟩)] ∨
        s.holders m call = [.resolved ⟨seq, true, (env n).codec.encodeRes (kind.res answer)⟩]) :
      Focus kind P root tables s hop origin n req net (es ++ es') []
        (origin.returns root (kind.res answer))
  | lost {es : List (Node × Part Node N)} (hheld : ∀ m call, origin.isFor m call = true → s.holders m call = []) :
      Focus kind P root tables s hop origin n req net es [] []

/-- All that belongs to the call `root`, which has begun as `req₀` at `n₀`. -/
structure CallKind.Frames (kind : CallKind env N Req Res Ctx) (T : Node → RouteTable Node N → Prop)
    (P : Node × Part Node N → Prop) (root : ℕ)
    (n₀ : Node) (req₀ : Req) (net₀ : Net Node S W) (s : RpcNet Node S W) (tables : ℕ → Met Node N)
    (ts : List (RpcTask Node)) (hop : ℕ) (origin : Origin Node) (n : Node) (req : Req) (net : Net Node S W)
    (es : List (Node × Part Node N)) (mine : List (RpcTask Node)) (rets : List (ℕ × ServiceRes)) : Prop where
  stack : kind.Stack P root tables n₀ req₀ net₀ ts hop origin n req net es
  settled : s.Settled root origin ts
  tasks : (s.tasks.filter fun t => t.root = root).Perm (mine ++ ts)
  returned : (s.returned.filter fun x => x.1 = root) = rets
  calls : root < s.calls
  met : ∀ hop n, T n ((tables hop).1 n)

def CallKind.Tracked (kind : CallKind env N Req Res Ctx) (T : Node → RouteTable Node N → Prop)
    (P : Node × Part Node N → Prop) (root : ℕ) (n₀ : Node) (req₀ : Req) (net₀ : Net Node S W) (s : RpcNet Node S W)
    (es : List (Node × Part Node N)) : Prop :=
  ∃ tables ts hop origin n req net es₁ es₂ mine rets, es = es₁ ++ es₂ ∧
    kind.Frames T P root n₀ req₀ net₀ s tables ts hop origin n req net es₁ mine rets ∧
    kind.Focus P root tables s hop origin n req net es₂ mine rets

/-! What other calls do changes none of this. -/

theorem CallKind.Stack.origin_cases (h : kind.Stack P root tables n₀ req₀ net₀ ts hop origin n req net es) {m : Node}
    {call : ℕ} (hfor : origin.isFor m call = true) : ∃ t ts', ts = t :: ts' ∧ t.node = m ∧ t.call = some call := by
  cases h with
  | nil => cases hfor
  | push hstack hbefore hfirst hseq =>
    obtain ⟨rfl, hcall⟩ := by simpa [Origin.isFor] using hfor
    exact ⟨_, _, rfl, rfl, by simp only [Option.some.injEq]; omega⟩

theorem CallKind.Frames.known (h : kind.Frames T P root n₀ req₀ net₀ s tables ts hop origin n req net es mine rets)
    {m : Node} {call : ℕ}
    (hfor : origin.isFor m call = true) : call < (s.rpc m).oneshots ∧ s.roots m call = root := by
  obtain ⟨t, ts', rfl, rfl, hcall⟩ := h.stack.origin_cases hfor
  obtain ⟨call', hcall', hlt, hroot⟩ := h.settled.calls t List.mem_cons_self
  obtain rfl := Option.some.inj (hcall.symm.trans hcall')
  exact ⟨hlt, hroot⟩

theorem RpcNet.Settled.apart (h : s.Settled root origin ts) (hapart : s.Apart root s') : s'.Settled root origin ts where
  calls t ht := by
    obtain ⟨call, hcall, hlt, hroot⟩ := h.calls t ht
    exact ⟨call, hcall, Nat.lt_of_lt_of_le hlt (hapart.oneshots _), (hapart.roots _ _ hlt).trans hroot⟩
  distinct := h.distinct
  others m call hlt hroot hfor := by
    by_cases hold : call < (s.rpc m).oneshots
    · rw [hapart.roots m call hold] at hroot
      rw [hapart.holders m call hold hroot]
      exact h.others m call hold hroot hfor
    · exact absurd hroot (hapart.fresh m call (Nat.le_of_not_lt hold) hlt)

theorem CallKind.Focus.apart (h : kind.Focus P root tables s hop origin n req net es mine rets)
    (hholders : ∀ m call, origin.isFor m call = true → s'.holders m call = s.holders m call)
    (hrun : Run (Others P env) s.nodes es' s'.nodes) :
    kind.Focus P root tables s' hop origin n req net (es ++ es') mine rets := by
  cases h with
  | going hbefore hheld =>
    refine .going (hbefore.append hrun) fun m call hfor => ?_
    rw [hholders m call hfor]
    exact hheld m call hfor
  | ready hbefore hfirst hmeanwhile hheld =>
    rw [List.append_assoc]
    refine .ready hbefore hfirst (hmeanwhile.append hrun) fun m call hfor => ?_
    rw [hholders m call hfor]
    exact hheld m call hfor
  | returned hserved hmeanwhile hheld =>
    rw [List.append_assoc]
    refine .returned hserved (hmeanwhile.append hrun) fun m call hfor => ?_
    rw [hholders m call hfor]
    exact hheld m call hfor
  | lost hheld =>
    refine .lost fun m call hfor => ?_
    rw [hholders m call hfor]
    exact hheld m call hfor

theorem CallKind.Tracked.apart (h : kind.Tracked T P root n₀ req₀ net₀ s es) (hapart : s.Apart root s')
    (hrun : Run (Others P env) s.nodes es' s'.nodes) : kind.Tracked T P root n₀ req₀ net₀ s' (es ++ es') := by
  obtain ⟨tables, ts, hop, origin, n, req, net, es₁, es₂, mine, rets, rfl, hframes, hfocus⟩ := h
  refine ⟨tables, ts, hop, origin, n, req, net, es₁, es₂ ++ es', mine, rets, List.append_assoc ..,
    ⟨hframes.stack, hframes.settled.apart hapart,
    by rw [hapart.tasks]; exact hframes.tasks, by rw [hapart.returned]; exact hframes.returned,
    Nat.lt_of_lt_of_le hframes.calls hapart.calls, hframes.met⟩, hfocus.apart (fun m call hfor => ?_) hrun⟩
  exact hapart.holders m call (hframes.known hfor).1 (hframes.known hfor).2

/-! Own steps. -/

theorem RpcNet.Settled.keep {k : ℕ} (h : s.Settled root origin ts) (hadv : s.Advances s' origin k)
    (hsame : ∀ m, (s'.rpc m).oneshots = (s.rpc m).oneshots) : s'.Settled root origin ts where
  calls t ht := by
    obtain ⟨call, hcall, hlt, hroot⟩ := h.calls t ht
    exact ⟨call, hcall, (hsame _).symm ▸ hlt, (hadv.roots _ _ hlt).trans hroot⟩
  distinct := h.distinct
  others m call hlt hroot hfor := by
    rw [hsame] at hlt
    rw [hadv.roots m call hlt] at hroot
    rw [hadv.holders m call hlt hfor]
    exact h.others m call hlt hroot hfor

/-- A request that is neither done nor with a call that waits is the one that they wait for. -/
theorem RpcNet.Settled.focused (h : s.Settled root origin ts) {m : Node} {call : ℕ} (hlt : call < (s.rpc m).oneshots)
    (hroot : s.roots m call = root) {x : Holder Node} (hx : x ∈ s.holders m call) (htask : ∀ t ∈ ts, x ≠ .task t)
    (hdone : ∀ res, x = .resolved res → ∃ t ∈ ts, t.node = m ∧ t.call = some call) : origin.isFor m call = true := by
  by_contra hfor
  rcases h.others m call hlt hroot (by simpa using hfor) with ⟨t, ht, hholders⟩ | ⟨hresolved, hwaits⟩
  · rw [hholders, List.mem_singleton] at hx
    exact htask t ht hx
  · obtain ⟨res, hres⟩ := hresolved x hx
    obtain ⟨t, ht, hnode, hcall⟩ := hdone res hres
    exact hwaits t ht hnode hcall

theorem Origin.isFor_unique {m m' : Node} {call call' : ℕ} (h : origin.isFor m call = true)
    (h' : origin.isFor m' call' = true) :
    m' = m ∧ call' = call := by
  cases origin with
  | virtualLayers => cases h
  | peer n seq =>
    obtain ⟨rfl, hcall⟩ : n = m ∧ seq.toNat = call + 1 := by simpa [Origin.isFor] using h
    obtain ⟨rfl, hcall'⟩ : n = m' ∧ seq.toNat = call' + 1 := by simpa [Origin.isFor] using h'
    exact ⟨rfl, by omega⟩

/-- The call that the others wait for is answered at its node. -/
theorem CallKind.Frames.respond (h : kind.Frames T P root n₀ req₀ net₀ s tables ts hop origin n req net es [] [])
    (hsound : s.Sound) (hfree : s.Free origin) {st : NodeState Node S W} {answer : Res}
    {vs : List (Visit Node S W Req Res)}
    (hserved : kind.Serves P tables hop n req net es' answer (Function.update s.nodes n st) vs) :
    kind.Tracked T P root n₀ req₀ net₀ ((s.setNode n st).respond (env n).codec root n origin (kind.res answer))
      (es ++ es') := by
  have hrespond := (hsound.setNode n st).respond hfree (env n).codec root n (kind.res answer)
  have hadv : s.Advances _ origin root := (RpcNet.advances_setNode n st).trans hrespond.2
  refine ⟨tables, ts, hop, origin, n, req, net, es, es', [], origin.returns root (kind.res answer), rfl,
    ⟨h.stack, h.settled.keep hadv fun m => ?_, ?_, ?_, ?_, h.met⟩, ?_⟩
  · cases origin <;> rfl
  · cases origin <;> exact h.tasks
  · cases origin with
    | peer dest seq => exact h.returned
    | virtualLayers =>
      have hnone : (s.returned.filter fun x => x.1 = root) = [] := h.returned
      simp [RpcNet.respond, RpcNet.setNode, Origin.returns, hnone]
  · cases origin <;> exact h.calls
  · have hnodes : ((s.setNode n st).respond (env n).codec root n origin (kind.res answer)).nodes =
      Function.update s.nodes n st := by
      cases origin <;> rfl
    rw [← hnodes] at hserved
    rw [← List.append_nil es']
    refine .returned hserved .nil fun m call hfor => ?_
    cases origin with
    | virtualLayers => cases hfor
    | peer dest seq =>
      obtain ⟨rfl, -⟩ : dest = m ∧ seq.toNat = call + 1 := by simpa [Origin.isFor] using hfor
      have hfree' : (s.setNode n st).Free
          (Packet.response n dest ⟨seq, true, (env n).codec.encodeRes (kind.res answer)⟩).origin := hfree
      exact ⟨seq, .inl (hfree'.holders_addPacket hfor)⟩

/-- The call that the others wait for goes no further. -/
theorem CallKind.Frames.lost (h : kind.Frames T P root n₀ req₀ net₀ s tables ts hop origin n req net es [] [])
    (hfree : s.Free origin) : kind.Tracked T P root n₀ req₀ net₀ s (es ++ es') :=
  ⟨tables, ts, hop, origin, n, req, net, es, es', [], [], rfl, h, .lost fun _ _ hfor => (hfree.holders_eq_nil hfor).1⟩

theorem CallKind.Frames.setNode (h : kind.Frames T P root n₀ req₀ net₀ s tables ts hop origin n req net es mine rets)
    (m : Node) (st : NodeState Node S W) :
    kind.Frames T P root n₀ req₀ net₀ (s.setNode m st) tables ts hop origin n req net es mine rets :=
  ⟨h.stack, ⟨h.settled.calls, h.settled.distinct, h.settled.others⟩, h.tasks, h.returned, h.calls, h.met⟩

/-- The second part of the call that the others wait for. -/
theorem CallKind.Frames.last (h : kind.Frames T P root n₀ req₀ net₀ s tables ts hop origin n req net es [] [])
    (hsound : s.Sound) (hfree : s.Free origin) {ctx : Ctx} {req' : Req} {res answer : Res} {call : Option ℕ}
    {reply : Option RpcRes} (hresume : ∀ st, (env n).resume reply (kind.task ctx req' res) st =
      ((kind.last n ctx req' answer st).1.map kind.res, (kind.last n ctx req' answer st).2))
    (hserved : ∀ res' net', finishAt kind.last n ctx req' answer s.nodes = (.returned res', net') →
      ∃ vs, kind.Serves P tables hop n req net es' res' net' vs) :
    kind.Tracked T P root n₀ req₀ net₀ (s.last env reply ⟨⟨origin, kind.task ctx req' res⟩, root, n, call⟩)
      (es ++ es') := by
  unfold RpcNet.last
  simp only [hresume]
  rcases hlast : kind.last n ctx req' answer (s.nodes n) with ⟨_ | res', st⟩
  · exact (h.setNode n st).lost hfree
  · obtain ⟨vs, hserved⟩ := hserved res' (Function.update s.nodes n st) (by simp [finishAt, hlast])
    exact h.respond hsound hfree hserved

/-- Tables that are met later do not matter. -/
theorem CallKind.Stack.congr {tables' : ℕ → Met Node N}
    (h : kind.Stack P root tables n₀ req₀ net₀ ts hop origin n req net es)
    (hsame : ∀ i < hop, tables' i = tables i) : kind.Stack P root tables' n₀ req₀ net₀ ts hop origin n req net es := by
  induction h with
  | nil => exact .nil
  | push hstack hbefore hfirst hseq ih =>
    refine .push (ih fun i hi => hsame i (Nat.lt_succ_of_lt hi)) hbefore ?_ hseq
    rw [hsame _ (Nat.lt_succ_self _)]
    exact hfirst

theorem RpcNet.Free.holders_ask (h : s.Free origin) {task : Task} {c : RpcCall Node} {m : Node} {call : ℕ}
    (hfor : origin.isFor m call = true) :
    (s.ask root n origin task c).holders m call = [.task ⟨⟨origin, task⟩, root, n, some (s.rpc n).oneshots⟩] := by
  let t : RpcTask Node := ⟨⟨origin, task⟩, root, n, some (s.rpc n).oneshots⟩
  have htask : ({ s with tasks := s.tasks ++ [t] } : RpcNet Node S W).holders m call = [.task t] :=
    RpcNet.Free.holders_addTask (t := t) h hfor
  by_cases hm : m = n
  · subst hm
    exact (RpcNet.holders_enqueue (s := { s with tasks := s.tasks ++ [t] }) c _
      (Nat.ne_of_lt (h.holders_eq_nil hfor).2)).trans htask
  · exact (RpcNet.holders_withRpc_of_ne hm _ _ _).trans htask

/-- One more call waits. -/
theorem RpcNet.Settled.push (h : s.Settled root origin ts) (hsound : s.Sound) (hfree : s.Free origin) {task : Task}
    {c : RpcCall Node} {seq : UInt32} (hseq : seq.toNat = (s.rpc n).oneshots + 1) :
    (s.ask root n origin task c).Settled root (.peer n seq)
      (⟨⟨origin, task⟩, root, n, some (s.rpc n).oneshots⟩ :: ts) := by
  obtain ⟨-, hadv, -⟩ := hsound.ask hfree root n task c
  have hfresh : ((s.ask root n origin task c).rpc n).oneshots = (s.rpc n).oneshots + 1 := by
    simp [RpcNet.ask, RpcClientRx.request]
  have hother : ∀ m, m ≠ n → ((s.ask root n origin task c).rpc m).oneshots = (s.rpc m).oneshots := by
    intro m hm
    simp [RpcNet.ask, hm]
  refine ⟨fun t ht => ?_, List.pairwise_cons.mpr ⟨fun u hu hnode heq => ?_, h.distinct⟩, fun m call hlt hroot hfor => ?_⟩
  · rcases List.mem_cons.mp ht with rfl | ht
    · exact ⟨_, rfl, hfresh ▸ Nat.lt_succ_self _, hadv.fresh n _ (Nat.le_refl _) (hfresh ▸ Nat.lt_succ_self _)⟩
    · obtain ⟨call, hcall, hlt, hroot⟩ := h.calls t ht
      exact ⟨call, hcall, Nat.lt_of_lt_of_le hlt (hadv.oneshots _), (hadv.roots _ _ hlt).trans hroot⟩
  · obtain ⟨call, hcall, hlt, -⟩ := h.calls u hu
    obtain rfl : n = u.node := hnode
    obtain rfl := Option.some.inj (heq.trans hcall)
    exact Nat.lt_irrefl _ hlt
  · have hne : ¬ (n = m ∧ (s.rpc n).oneshots = call) := by
      rintro ⟨rfl, rfl⟩
      simp [Origin.isFor, hseq] at hfor
    have hold : call < (s.rpc m).oneshots := by
      by_cases hm : m = n
      · subst hm
        rw [hfresh] at hlt
        have hcall : (s.rpc m).oneshots ≠ call := fun hcall => hne ⟨rfl, hcall⟩
        omega
      · rwa [hother m hm] at hlt
    rw [hadv.roots m call hold] at hroot
    cases horigin : origin.isFor m call with
    | true => exact .inl ⟨_, List.mem_cons_self, hfree.holders_ask horigin⟩
    | false =>
      rw [hadv.holders m call hold horigin]
      rcases h.others m call hold hroot horigin with ⟨t, ht, hholders⟩ | ⟨hdone, hwaits⟩
      · exact .inl ⟨t, List.mem_cons_of_mem _ ht, hholders⟩
      · refine .inr ⟨hdone, fun t ht hnode hcall => ?_⟩
        rcases List.mem_cons.mp ht with rfl | ht
        · exact hne ⟨hnode, Option.some.inj hcall⟩
        · exact hwaits t ht hnode hcall

/-- The first part of the call that the others wait for. -/
theorem CallKind.Frames.first (h : kind.Frames T P root n₀ req₀ net₀ s tables ts hop origin n req net es [] [])
    (hsound : s.Sound) (hfree : s.Free origin) (hrun : Run (Others P env) net es' s.nodes)
    {router : RouteTable Node N} (htable : T n router) (rs : UInt64)
    (hfew : ∀ m, ((s.first env router rs root n origin (kind.req req)).rpc m).oneshots < 2 ^ 32) :
    kind.Tracked T P root n₀ req₀ net₀ (s.first env router rs root n origin (kind.req req)) (es ++ es') := by
  obtain ⟨met, rfl, rfl, hmet⟩ : ∃ met : Met Node N, met.1 n = router ∧ met.2 = rs ∧ ∀ m, T m (met.1 m) := by
    refine ⟨(Function.update (tables hop).1 n router, rs), Function.update_self .., rfl, fun m => ?_⟩
    by_cases hm : m = n
    · subst hm
      simpa using htable
    · simpa [hm] using h.met hop m
  have hmets : ∀ i m, T m ((Function.update tables hop met i).1 m) := by
    intro i m
    by_cases hi : i = hop
    · subst hi
      simpa using hmet m
    · simpa [hi] using h.met i m
  have hframes : kind.Frames T P root n₀ req₀ net₀ s (Function.update tables hop met) ts hop origin n req net es [] [] :=
    ⟨h.stack.congr fun i hi => Function.update_of_ne (Nat.ne_of_lt hi) _ _, h.settled, h.tasks, h.returned, h.calls, hmets⟩
  have hself : Function.update tables hop met hop = met := Function.update_self ..
  have hpart := kind.first_eq n met req (s.nodes n)
  revert hfew
  unfold RpcNet.first
  simp only [hpart]
  rcases hfirst : kind.first met n req (s.nodes n) with ⟨_ | ⟨ctx, res | ⟨req', res, _ | d⟩⟩, st⟩ <;> intro hfew
  · exact (h.setNode n st).lost hfree
  · rw [← hself] at hfirst
    exact hframes.respond hsound hfree (.replies hrun hfirst)
  · -- the call waits for nothing, and its task goes on
    let t : RpcTask Node := ⟨⟨origin, kind.task ctx req' res⟩, root, n, none⟩
    have hready := (hsound.setNode n st).ready hfree root n (kind.task ctx req' res)
    have hadv : s.Advances _ origin root := (RpcNet.advances_setNode n st).trans hready.2
    refine ⟨_, ts, hop, origin, n, req, net, es, es' ++ [], [t], [], by rw [List.append_nil],
      ⟨hframes.stack, h.settled.keep hadv fun _ => rfl, ?_, h.returned, h.calls, hmets⟩, .ready hrun ?_ .nil
        fun m call hfor => ?_⟩
    · have htasks : ((s.tasks ++ [t]).filter fun t => t.root = root).Perm ([t] ++ ts) := by
        rw [List.filter_append]
        refine List.perm_append_comm.trans (List.Perm.append ?_ h.tasks)
        simp [t]
      exact htasks
    · rw [hself]
      exact hfirst
    · have hfree' : (s.setNode n st).Free t.origin := hfree
      exact hfree'.holders_addTask hfor
  · -- the call waits for the next node
    let t : RpcTask Node := ⟨⟨origin, kind.task ctx req' res⟩, root, n, some (s.rpc n).oneshots⟩
    have hmore : (s.rpc n).oneshots + 1 < 2 ^ 32 := by
      have hasked : (((s.setNode n st).ask root n origin (kind.task ctx req' res)
        ⟨d.dest, ((env n).codec.encodeReq (kind.req d.req)).1,
          ((env n).codec.encodeReq (kind.req d.req)).2⟩).rpc n).oneshots <
          2 ^ 32 := hfew n
      simpa [RpcNet.ask, RpcClientRx.request, RpcNet.setNode] using hasked
    have hfree' : (s.setNode n st).Free origin := hfree
    obtain ⟨-, -, hqueued⟩ := (hsound.setNode n st).ask hfree' root n (kind.task ctx req' res)
      ⟨d.dest, ((env n).codec.encodeReq (kind.req d.req)).1, ((env n).codec.encodeReq (kind.req d.req)).2⟩
    have hseq : (UInt32.ofNat ((s.rpc n).oneshots + 1)).toNat = (s.rpc n).oneshots + 1 :=
      UInt32.toNat_ofNat_of_lt' hmore
    have hsettled : (s.setNode n st).Settled root origin ts := ⟨h.settled.calls, h.settled.distinct, h.settled.others⟩
    refine ⟨_, _, hop + 1, .peer n (.ofNat ((s.rpc n).oneshots + 1)), d.dest, d.req, _, es ++ es', [], [], [],
      by rw [List.append_nil],
      ⟨.push hframes.stack hrun ?_ hseq, hsettled.push (hsound.setNode n st) hfree' hseq, ?_, h.returned, h.calls, hmets⟩,
      .going .nil fun m call hfor => ?_⟩
    · rw [hself]
      exact hfirst
    · have htasks : ((s.tasks ++ [t]).filter fun t => t.root = root).Perm ([t] ++ ts) := by
        rw [List.filter_append]
        refine List.perm_append_comm.trans (List.Perm.append ?_ h.tasks)
        simp [t]
      exact htasks
    · obtain ⟨rfl, hcall⟩ : n = m ∧ (UInt32.ofNat ((s.rpc n).oneshots + 1)).toNat = call + 1 := by
        simpa [Origin.isFor] using hfor
      obtain rfl : (s.rpc n).oneshots = call := by omega
      exact .inl hqueued

theorem Origin.eq_of_isFor {origin' : Origin Node} {m : Node} {call : ℕ} (h : origin.isFor m call = true)
    (h' : origin'.isFor m call = true) : origin = origin' := by
  cases origin with
  | virtualLayers => cases h
  | peer n seq =>
    cases origin' with
    | virtualLayers => cases h'
    | peer n' seq' =>
      obtain ⟨rfl, hcall⟩ : n = m ∧ seq.toNat = call + 1 := by simpa [Origin.isFor] using h
      obtain ⟨rfl, hcall'⟩ : n' = n ∧ seq'.toNat = call + 1 := by simpa [Origin.isFor] using h'
      rw [UInt32.toNat_inj.mp (hcall.trans hcall'.symm)]

/-- Packets and queued requests of the call `root` are those that its waiting calls wait for. -/
theorem CallKind.Frames.origin_eq (h : kind.Frames T P root n₀ req₀ net₀ s tables ts hop origin n req net es mine rets)
    {origin' : Origin Node} (hof : s.IsOf root origin') {x : Holder Node}
    (hx : ∀ m call, origin'.isFor m call = true → x ∈ s.holders m call) (htask : ∀ t, x ≠ .task t)
    (hdone : ∀ res, x ≠ .resolved res) : origin = origin' := by
  obtain ⟨m, call, hfor, hlt, hroot⟩ := hof
  exact Origin.eq_of_isFor (h.settled.focused hlt hroot (hx m call hfor) (fun t _ => htask t)
    fun res hres => absurd hres (hdone res)) hfor

theorem CallKind.Frames.keep (h : kind.Frames T P root n₀ req₀ net₀ s tables ts hop origin n req net es mine rets)
    (hother : s.ChangesOnly s' origin) (hsame : ∀ m, (s'.rpc m).oneshots = (s.rpc m).oneshots)
    (hroots : s'.roots = s.roots)
    (htasks : s'.tasks = s.tasks) (hreturned : s'.returned = s.returned) (hcalls : s'.calls = s.calls) :
    kind.Frames T P root n₀ req₀ net₀ s' tables ts hop origin n req net es mine rets :=
  ⟨h.stack, h.settled.keep (hother.advances hsame hroots root) hsame, htasks ▸ h.tasks, hreturned ▸ h.returned,
    hcalls ▸ h.calls,
    h.met⟩

section Focus

variable {m : Node} {call : ℕ}

theorem CallKind.Focus.of_queued (h : kind.Focus P root tables s hop origin n req net es mine rets)
    (hfor : origin.isFor m call = true) {c : RpcCall Node} (hx : .queued c ∈ s.holders m call) :
    mine = [] ∧ rets = [] ∧ Run (Others P env) net es s.nodes ∧
      c = ⟨n, ((env m).codec.encodeReq (kind.req req)).1, ((env m).codec.encodeReq (kind.req req)).2⟩ := by
  cases h with
  | going hrun hheld =>
    rcases hheld m call hfor with hholders | ⟨seq, hholders⟩ <;> rw [hholders, List.mem_singleton] at hx
    · exact ⟨rfl, rfl, hrun, Holder.queued.inj hx⟩
    · cases hx
  | ready _ _ _ hheld =>
    rw [hheld m call hfor, List.mem_singleton] at hx
    cases hx
  | returned _ _ hheld =>
    obtain ⟨seq, hholders | hholders⟩ := hheld m call hfor <;> rw [hholders, List.mem_singleton] at hx <;> cases hx
  | lost hheld =>
    rw [hheld m call hfor] at hx
    cases hx

theorem CallKind.Focus.of_request (h : kind.Focus P root tables s hop origin n req net es mine rets)
    (hfor : origin.isFor m call = true) {src dest : Node} {r : RpcReq}
    (hx : .packet (.request src dest r) ∈ s.holders m call) :
    mine = [] ∧ rets = [] ∧ Run (Others P env) net es s.nodes ∧ dest = n ∧
      r = ⟨r.seq, ((env m).codec.encodeReq (kind.req req)).1, ((env m).codec.encodeReq (kind.req req)).2⟩ := by
  cases h with
  | going hrun hheld =>
    rcases hheld m call hfor with hholders | ⟨seq, hholders⟩ <;> rw [hholders, List.mem_singleton] at hx
    · cases hx
    · obtain ⟨-, rfl, rfl⟩ := Packet.request.inj (Holder.packet.inj hx)
      exact ⟨rfl, rfl, hrun, rfl, rfl⟩
  | ready _ _ _ hheld =>
    rw [hheld m call hfor, List.mem_singleton] at hx
    cases hx
  | returned _ _ hheld =>
    obtain ⟨seq, hholders | hholders⟩ := hheld m call hfor <;> rw [hholders, List.mem_singleton] at hx <;> cases hx
  | lost hheld =>
    rw [hheld m call hfor] at hx
    cases hx

/-- A call that is answered, and what others have done after it. -/
def CallKind.Answered (kind : CallKind env N Req Res Ctx) (P : Node × Part Node N → Prop) (tables : ℕ → Met Node N)
    (hop : ℕ) (n : Node) (req : Req) (net : Net Node S W) (es : List (Node × Part Node N)) (answer : Res)
    (net' : Net Node S W) : Prop :=
  ∃ es₁ es₂ net₁ vs, es = es₁ ++ es₂ ∧ kind.Serves P tables hop n req net es₁ answer net₁ vs ∧
    Run (Others P env) net₁ es₂ net'

theorem Origin.returns_of_isFor (hfor : origin.isFor m call = true) (root : ℕ) (res : ServiceRes) :
    origin.returns root res = [] := by
  cases origin with
  | peer dest seq => rfl
  | virtualLayers => cases hfor

theorem CallKind.Focus.of_response (h : kind.Focus P root tables s hop origin n req net es mine rets)
    (hfor : origin.isFor m call = true) {src dest : Node} {r : RpcRes}
    (hx : .packet (.response src dest r) ∈ s.holders m call) :
    mine = [] ∧ rets = [] ∧ ∃ answer, kind.Answered P tables hop n req net es answer s.nodes ∧
      r = ⟨r.seq, true, (env n).codec.encodeRes (kind.res answer)⟩ := by
  cases h with
  | going _ hheld =>
    rcases hheld m call hfor with hholders | ⟨seq, hholders⟩ <;> rw [hholders, List.mem_singleton] at hx <;> cases hx
  | ready _ _ _ hheld =>
    rw [hheld m call hfor, List.mem_singleton] at hx
    cases hx
  | returned hserved hmeanwhile hheld =>
    obtain ⟨seq, hholders | hholders⟩ := hheld m call hfor <;> rw [hholders, List.mem_singleton] at hx
    · obtain ⟨-, -, rfl⟩ := Packet.response.inj (Holder.packet.inj hx)
      exact ⟨rfl, Origin.returns_of_isFor hfor _ _, _, ⟨_, _, _, _, rfl, hserved, hmeanwhile⟩, rfl⟩
    · cases hx
  | lost hheld =>
    rw [hheld m call hfor] at hx
    cases hx

theorem CallKind.Focus.of_resolved (h : kind.Focus P root tables s hop origin n req net es mine rets)
    (hfor : origin.isFor m call = true) {r : RpcRes} (hx : .resolved r ∈ s.holders m call) :
    mine = [] ∧ rets = [] ∧ s.holders m call = [.resolved r] ∧
      ∃ answer, kind.Answered P tables hop n req net es answer s.nodes ∧
      r = ⟨r.seq, true, (env n).codec.encodeRes (kind.res answer)⟩ := by
  cases h with
  | going _ hheld =>
    rcases hheld m call hfor with hholders | ⟨seq, hholders⟩ <;> rw [hholders, List.mem_singleton] at hx <;> cases hx
  | ready _ _ _ hheld =>
    rw [hheld m call hfor, List.mem_singleton] at hx
    cases hx
  | returned hserved hmeanwhile hheld =>
    obtain ⟨seq, hholders | hholders⟩ := hheld m call hfor <;> rw [hholders, List.mem_singleton] at hx
    · cases hx
    · obtain rfl := Holder.resolved.inj hx
      exact ⟨rfl, Origin.returns_of_isFor hfor _ _, hholders, _, ⟨_, _, _, _, rfl, hserved, hmeanwhile⟩, rfl⟩
  | lost hheld =>
    rw [hheld m call hfor] at hx
    cases hx

end Focus

/-! The steps. -/

theorem CallKind.Tracked.send (h : kind.Tracked T P root n₀ req₀ net₀ s es) (hsound : s.Sound) {m dest : Node} {r : RpcReq}
    {rpc : RpcClientRx Node} (hfew : (s.rpc m).oneshots < 2 ^ 32) (hrecv : (s.rpc m).recv = some (dest, r, rpc))
    (hof : s.IsOf root (.peer m r.seq)) :
    kind.Tracked T P root n₀ req₀ net₀
      { s with rpc := Function.update s.rpc m rpc, wire := s.wire ++ [.request m dest r] } es := by
  obtain ⟨tables, ts, hop, origin, n, req, net, es₁, es₂, mine, rets, rfl, hframes, hfocus⟩ := h
  obtain ⟨hsound', hfree, hother, honeshots, number, hseq, hqueued⟩ := hsound.dequeue hfew hrecv
  have hfor : (Origin.peer m r.seq).isFor m number = true := by simp [Origin.isFor, hseq]
  obtain rfl := hframes.origin_eq hof (x := .queued ⟨dest, r.cmd, r.payload⟩) (fun m' call hfor' => by
    obtain ⟨rfl, rfl⟩ := Origin.isFor_unique hfor hfor'
    simp [hqueued]) (fun _ hx => by cases hx) fun _ hx => by cases hx
  obtain ⟨rfl, rfl, hrun, hcall⟩ := hfocus.of_queued hfor (by rw [hqueued]; exact List.mem_singleton_self _)
  obtain ⟨rfl, hcmd, hpayload⟩ := RpcCall.mk.inj hcall
  have hfree' : (s.withRpc m rpc s.roots).Free (Packet.request m dest r).origin := hfree
  have hsent : s.ChangesOnly { s with rpc := Function.update s.rpc m rpc, wire := s.wire ++ [.request m dest r] }
      (.peer m r.seq) := fun m' call hnot =>
    (RpcNet.holders_addPacket (s := s.withRpc m rpc s.roots) (.request m dest r) m' call hnot).trans (hother m' call hnot)
  refine ⟨tables, ts, hop, .peer m r.seq, dest, req, net, es₁, es₂, [], [], rfl,
    hframes.keep hsent (fun m' => ?_) rfl rfl rfl rfl, .going hrun fun m' call hfor' => .inr ⟨r.seq, ?_⟩⟩
  · by_cases hm : m' = m
    · subst hm
      simpa using honeshots
    · simp [hm]
  · obtain ⟨rfl, rfl⟩ := Origin.isFor_unique hfor hfor'
    rw [← hcmd, ← hpayload]
    exact hfree'.holders_addPacket hfor

theorem CallKind.Frames.take (h : kind.Frames T P root n₀ req₀ net₀ s tables ts hop origin n req net es mine rets)
    (hsound : s.Sound) {before after : List (Packet Node)} {p : Packet Node} (hwire : s.wire = before ++ p :: after)
    (hof : s.IsOf root p.origin) :
    origin = p.origin ∧
      kind.Frames T P root n₀ req₀ net₀ { s with wire := before ++ after } tables ts hop origin n req net es mine
        rets := by
  obtain rfl := h.origin_eq hof (x := .packet p) (fun m call hfor => RpcNet.mem_holders_packet.mpr ⟨by simp [hwire], hfor⟩)
    (fun _ hx => by cases hx) fun _ hx => by cases hx
  exact ⟨rfl, h.keep (hsound.take hwire).2.2 (fun _ => rfl) rfl rfl rfl rfl⟩

theorem CallKind.Tracked.lose (h : kind.Tracked T P root n₀ req₀ net₀ s es) (hsound : s.Sound)
    {before after : List (Packet Node)}
    {p : Packet Node} (hwire : s.wire = before ++ p :: after) (hof : s.IsOf root p.origin) :
    kind.Tracked T P root n₀ req₀ net₀ { s with wire := before ++ after } es := by
  obtain ⟨tables, ts, hop, origin, n, req, net, es₁, es₂, mine, rets, rfl, hframes, hfocus⟩ := h
  obtain ⟨rfl, hframes'⟩ := hframes.take hsound hwire hof
  obtain ⟨-, hfree, -⟩ := hsound.take hwire
  obtain ⟨m, call, hfor, -⟩ := hof
  have hmem : .packet p ∈ s.holders m call := RpcNet.mem_holders_packet.mpr ⟨by simp [hwire], hfor⟩
  obtain ⟨rfl, rfl⟩ : mine = [] ∧ rets = [] := by
    cases p with
    | request src dest r => exact ⟨(hfocus.of_request hfor hmem).1, (hfocus.of_request hfor hmem).2.1⟩
    | response src dest r => exact ⟨(hfocus.of_response hfor hmem).1, (hfocus.of_response hfor hmem).2.1⟩
  exact hframes'.lost hfree

/-- The request that the waiting calls wait for, on its way. -/
theorem CallKind.Tracked.request (h : kind.Tracked T P root n₀ req₀ net₀ s es) (hsound : s.Sound)
    {before after : List (Packet Node)} {src dest : Node} {r : RpcReq}
    (hwire : s.wire = before ++ .request src dest r :: after)
    (hof : s.IsOf root (.peer src r.seq)) : ∃ tables ts hop req net es₁ es₂, es = es₁ ++ es₂ ∧
      kind.Frames T P root n₀ req₀ net₀ { s with wire := before ++ after } tables ts hop (.peer src r.seq)
        dest req net es₁ [] [] ∧
      Run (Others P env) net es₂ s.nodes ∧
      r = ⟨r.seq, ((env src).codec.encodeReq (kind.req req)).1, ((env src).codec.encodeReq (kind.req req)).2⟩ := by
  obtain ⟨tables, ts, hop, origin, n, req, net, es₁, es₂, mine, rets, rfl, hframes, hfocus⟩ := h
  obtain ⟨rfl, hframes'⟩ := hframes.take hsound hwire hof
  obtain ⟨m, call, hfor, -⟩ := hof
  have hmem : .packet (.request src dest r) ∈ s.holders m call := RpcNet.mem_holders_packet.mpr ⟨by simp [hwire], hfor⟩
  obtain ⟨rfl, rfl, hrun, rfl, hreq⟩ := hfocus.of_request hfor hmem
  obtain ⟨rfl, -⟩ : src = m ∧ r.seq.toNat = call + 1 := by simpa [Origin.isFor] using hfor
  exact ⟨tables, ts, hop, req, net, es₁, es₂, rfl, hframes', hrun, hreq⟩

theorem CallKind.Tracked.serve (h : kind.Tracked T P root n₀ req₀ net₀ s es) (hsound : s.Sound)
    {before after : List (Packet Node)}
    {src dest : Node} {r : RpcReq} {call : ServiceReq} (hwire : s.wire = before ++ .request src dest r :: after)
    (hparse : (env dest).codec.parse r = .ok (some call)) (hof : s.IsOf root (.peer src r.seq))
    {router : RouteTable Node N} (htable : T dest router) (rs : UInt64)
    (hfew : ∀ m, ((({ s with wire := before ++ after } : RpcNet Node S W).first env router rs root dest
      (.peer src r.seq) call).rpc m).oneshots < 2 ^ 32) :
    kind.Tracked T P root n₀ req₀ net₀
      (({ s with wire := before ++ after } : RpcNet Node S W).first env router rs root dest
        (.peer src r.seq) call) es := by
  obtain ⟨tables, ts, hop, req, net, es₁, es₂, rfl, hframes, hrun, hreq⟩ := h.request hsound hwire hof
  obtain ⟨hsound', hfree, -⟩ := hsound.take hwire
  rw [hreq, kind.parse _ _ _ _ hframes.stack.fits, Except.ok.injEq, Option.some.injEq] at hparse
  subst hparse
  exact hframes.first hsound' hfree hrun htable rs hfew

theorem CallKind.Tracked.not_refuse (h : kind.Tracked T P root n₀ req₀ net₀ s es) (hsound : s.Sound)
    {before after : List (Packet Node)} {src dest : Node} {r : RpcReq}
    (hwire : s.wire = before ++ .request src dest r :: after)
    (hparse : (env dest).codec.parse r = .ok none) : ¬ s.IsOf root (.peer src r.seq) := by
  intro hof
  obtain ⟨tables, ts, hop, req, net, es₁, es₂, rfl, hframes, hrun, hreq⟩ := h.request hsound hwire hof
  rw [hreq, kind.parse _ _ _ _ hframes.stack.fits] at hparse
  cases hparse

theorem CallKind.Tracked.hear (h : kind.Tracked T P root n₀ req₀ net₀ s es) (hsound : s.Sound)
    {before after : List (Packet Node)}
    {src dest : Node} {r : RpcRes} {rpc : RpcClientRx Node} (hwire : s.wire = before ++ .response src dest r :: after)
    (hres : (s.rpc dest).onRes r = .ok rpc) (hof : s.IsOf root (.peer dest r.seq)) :
    kind.Tracked T P root n₀ req₀ net₀ { s with rpc := Function.update s.rpc dest rpc, wire := before ++ after } es := by
  obtain ⟨tables, ts, hop, origin, n, req, net, es₁, es₂, mine, rets, rfl, hframes, hfocus⟩ := h
  obtain ⟨rfl, hframes'⟩ := hframes.take hsound hwire hof
  obtain ⟨hsound', hfree, hother⟩ := hsound.take hwire
  obtain ⟨number, rpc', hseq, honRes, honeshots, -, hother', hresolved⟩ := hsound'.resolve hfree
  obtain rfl := Except.ok.inj (honRes.symm.trans hres)
  have hfor : (Origin.peer dest r.seq).isFor dest number = true := by simp [Origin.isFor, hseq]
  have hmem : .packet (.response src dest r) ∈ s.holders dest number :=
    RpcNet.mem_holders_packet.mpr ⟨by simp [hwire], hfor⟩
  obtain ⟨rfl, rfl, answer, ⟨es₁', es₂', net₁, vs, rfl, hserved, hmeanwhile⟩, hr⟩ := hfocus.of_response hfor hmem
  refine ⟨tables, ts, hop, .peer dest r.seq, n, req, net, es₁, es₁' ++ es₂', [], [], rfl,
    hframes'.keep hother' (fun m => ?_) rfl rfl rfl rfl, .returned hserved hmeanwhile fun m call hfor' => ⟨r.seq, .inr ?_⟩⟩
  · by_cases hm : m = dest
    · subst hm
      simpa using honeshots
    · simp [hm]
  · obtain ⟨rfl, rfl⟩ := Origin.isFor_unique hfor hfor'
    rw [← hr]
    exact hresolved

/-- The last of the waiting calls goes on. -/
theorem RpcNet.Settled.pop {t : RpcTask Node} {m : Node} {call : ℕ} {r : RpcRes} (h : s.Settled root origin (t :: ts))
    (hsound : s.Sound) {before after : List (RpcTask Node)} (htasks : s.tasks = before ++ t :: after)
    (hfor : origin.isFor m call = true) (hnode : t.node = m) (hcall : t.call = some call)
    (hresolved : s.holders m call = [.resolved r]) :
    ({ s with tasks := before ++ after } : RpcNet Node S W).Settled root t.origin ts := by
  obtain ⟨-, -, hother⟩ := hsound.takeTask htasks
  obtain ⟨hfirst, hdistinct⟩ := List.pairwise_cons.mp h.distinct
  refine ⟨fun u hu => h.calls u (List.mem_cons_of_mem _ hu), hdistinct, fun m' call' hlt hroot hnot => ?_⟩
  rw [hother m' call' hnot]
  cases horigin : origin.isFor m' call' with
  | true =>
    obtain ⟨rfl, rfl⟩ := Origin.isFor_unique hfor horigin
    rw [hresolved]
    refine .inr ⟨fun x hx => ⟨r, List.mem_singleton.mp hx⟩, fun u hu hnode' hcall' => ?_⟩
    exact hfirst u hu (hnode.trans hnode'.symm) (hcall.trans hcall'.symm)
  | false =>
    rcases h.others m' call' hlt hroot horigin with ⟨u, hu, hholders⟩ | ⟨hdone, hwaits⟩
    · rcases List.mem_cons.mp hu with rfl | hu
      · have hmem : .task u ∈ s.holders m' call' := by simp [hholders]
        rw [(RpcNet.mem_holders_task.mp hmem).2] at hnot
        cases hnot
      · exact .inl ⟨u, hu, hholders⟩
    · exact .inr ⟨hdone, fun u hu => hwaits u (List.mem_cons_of_mem _ hu)⟩

theorem CallKind.Focus.mine_call (h : kind.Focus P root tables s hop origin n req net es mine rets) :
    ∀ t ∈ mine, t.call = none := by
  cases h with
  | ready =>
    intro t ht
    rw [List.mem_singleton.mp ht]
  | going | returned | lost =>
    intro t ht
    cases ht

omit [DecidableEq Node] in
/-- One task of the call `root` less. -/
theorem filter_tasks_perm {before after : List (RpcTask Node)} {t : RpcTask Node} (hroot : t.root = root)
    (h : ((before ++ t :: after).filter fun t => t.root = root).Perm (t :: ts)) :
    ((before ++ after).filter fun t => t.root = root).Perm ts := by
  have hmiddle : (t :: (before ++ after)).Perm (before ++ t :: after) := List.perm_middle.symm
  have hfilter := hmiddle.filter fun t => t.root = root
  rw [List.filter_cons_of_pos (by simp [hroot])] at hfilter
  exact List.Perm.cons_inv (hfilter.trans h)

theorem CallKind.Tracked.resume (h : kind.Tracked T P root n₀ req₀ net₀ s es) (hsound : s.Sound)
    {before after : List (RpcTask Node)} {t : RpcTask Node} {call : ℕ} {r : RpcRes}
    (htasks : s.tasks = before ++ t :: after)
    (hcall : t.call = some call) (hres : (call, r) ∈ (s.rpc t.node).resolved) (hroot : t.root = root) :
    kind.Tracked T P root n₀ req₀ net₀
      (({ s with tasks := before ++ after } : RpcNet Node S W).last env (some r) t) es := by
  obtain ⟨tables, ts, hop, origin, n, req, net, es₁, es₂, mine, rets, rfl, hframes, hfocus⟩ := h
  have hmem : t ∈ mine ++ ts := hframes.tasks.mem_iff.mp (by simp [htasks, hroot])
  have hwaits : t ∈ ts := by
    rcases List.mem_append.mp hmem with ht | ht
    · rw [hfocus.mine_call t ht] at hcall
      cases hcall
    · exact ht
  -- what it waits for has come, so it is the last of the calls that wait
  obtain ⟨call', hcall', hlt, hof⟩ := hframes.settled.calls t hwaits
  obtain rfl := Option.some.inj (hcall.symm.trans hcall')
  have hmem' : .resolved r ∈ s.holders t.node call := RpcNet.mem_holders_resolved.mpr hres
  have hfor := hframes.settled.focused hlt hof hmem' (fun _ _ hx => by cases hx) fun _ _ => ⟨t, hwaits, rfl, hcall⟩
  obtain ⟨rfl, rfl, hresolved, answer, ⟨es₁', es₂', net₂, vs, rfl, hserved, hmeanwhile⟩, hr⟩ :=
    hfocus.of_resolved hfor hmem'
  obtain ⟨hstack, hsettled, hperm, hreturned, hcalls, hmet⟩ := hframes
  cases hstack with
  | nil => cases hfor
  | @push ts hop call' origin n req req' net net₁ es₁ es' ctx res d st seq hstack hbefore hfirst hseq =>
    obtain ⟨hnode, hnumber⟩ : n = t.node ∧ seq.toNat = call + 1 := by simpa [Origin.isFor] using hfor
    obtain rfl : call' = call := by omega
    obtain rfl : t = ⟨⟨origin, kind.task ctx req' res⟩, root, n, some call'⟩ := by
      rcases List.mem_cons.mp hwaits with ht | ht
      · exact ht
      · exact absurd hcall.symm ((List.pairwise_cons.mp hsettled.distinct).1 t ht hnode)
    obtain ⟨hsound', hfree, -⟩ := hsound.takeTask htasks
    have hframes' : kind.Frames T P root n₀ req₀ net₀
        { s with tasks := before ++ after } tables ts hop origin n req net es₁ [] [] :=
      ⟨hstack, hsettled.pop hsound htasks hfor rfl rfl hresolved, filter_tasks_perm rfl (htasks ▸ hperm), hreturned,
        hcalls,
        hmet⟩
    have hserved' : ∀ res' net', finishAt kind.last n ctx req' answer s.nodes = (.returned res', net') →
        ∃ vs, kind.Serves P tables hop n req net (es' ++ es₁' ++ es₂') res' net' vs := fun res' net' hlast =>
      ⟨_, .answered hbefore hfirst hserved hmeanwhile hlast⟩
    have hresume : ∀ st, (env n).resume (some r) (kind.task ctx req' res) st =
        ((kind.last n ctx req' answer st).1.map kind.res, (kind.last n ctx req' answer st).2) := by
      rw [hr]
      exact kind.resume_some n d.dest ctx req' res r.seq answer
    rw [List.append_assoc es₁, ← List.append_assoc es']
    exact hframes'.last hsound' hfree hresume hserved'

theorem CallKind.Tracked.finish (h : kind.Tracked T P root n₀ req₀ net₀ s es) (hsound : s.Sound)
    {before after : List (RpcTask Node)} {t : RpcTask Node} (htasks : s.tasks = before ++ t :: after)
    (hcall : t.call = none)
    (hroot : t.root = root) :
    kind.Tracked T P root n₀ req₀ net₀ (({ s with tasks := before ++ after } : RpcNet Node S W).last env none t) es := by
  obtain ⟨tables, ts, hop, origin, n, req, net, es₁, es₂, mine, rets, rfl, hframes, hfocus⟩ := h
  have hmem : t ∈ mine ++ ts := hframes.tasks.mem_iff.mp (by simp [htasks, hroot])
  have hmine : t ∈ mine := by
    rcases List.mem_append.mp hmem with ht | ht
    · exact ht
    · obtain ⟨call, hcall', -⟩ := hframes.settled.calls t ht
      cases hcall.symm.trans hcall'
  obtain ⟨hsound', hfree, hother⟩ := hsound.takeTask htasks
  cases hfocus with
  | going | returned | lost => cases hmine
  | @ready es₁' es₂' net₁ ctx req' res st hbefore hfirst hmeanwhile hheld =>
    obtain rfl := List.mem_singleton.mp hmine
    have hframes' : kind.Frames T P root n₀ req₀ net₀
        { s with tasks := before ++ after } tables ts hop origin n req net es₁ [] [] :=
      ⟨hframes.stack, hframes.settled.keep (hother.advances (fun _ => rfl) rfl root) fun _ => rfl,
        filter_tasks_perm rfl (htasks ▸ hframes.tasks), hframes.returned, hframes.calls, hframes.met⟩
    exact hframes'.last hsound' hfree (fun st => kind.resume_none n ctx req' res st) fun res' net' hlast =>
      ⟨_, .ends hbefore hfirst hmeanwhile hlast⟩

theorem Does.run {x : Node × Part Node N} {net net' : Net Node S W} (h : Does env net x net') (hP : P x) :
    Run (Others P env) net [x] net' := .snoc .nil ⟨hP, h⟩

/-- What a step makes of the call `root`. -/
theorem CallKind.Tracked.step {e : Option (ℕ × Node × Part Node N)} (h : kind.Tracked T P root n₀ req₀ net₀ s es)
    (hsound : s.Sound)
    (hrooted : s.Rooted) (hfew : ∀ n, (s'.rpc n).oneshots < 2 ^ 32) (hstep : RpcStep env T s e s')
    (hP : ∀ x ∈ othersOf root [e], P x) : kind.Tracked T P root n₀ req₀ net₀ s' (es ++ othersOf root [e]) := by
  have hlt : root < s.calls := by
    obtain ⟨tables, ts, hop, origin, n, req, net, es₁, es₂, mine, rets, rfl, hframes, hfocus⟩ := h
    exact hframes.calls
  have hfew' : ∀ n, (s.rpc n).oneshots < 2 ^ 32 := fun n => Nat.lt_of_le_of_lt (hstep.oneshots_le n) (hfew n)
  cases hstep with
  | @call n c router htable rs =>
    have hother : othersOf root [some (s.calls, n, c.req.part router rs)] = [(n, c.req.part router rs)] := by
      simp [othersOf, Nat.ne_of_gt hlt]
    rw [hother] at hP ⊢
    have hdoes : Does env s.nodes (n, c.req.part router rs)
        (({ s with calls := s.calls + 1 } : RpcNet Node S W).first env router rs s.calls n .virtualLayers c.req).nodes :=
      RpcNet.first_does { s with calls := s.calls + 1 }
    exact h.apart (hsound.call_apart hlt) (hdoes.run (hP _ (List.mem_singleton_self _)))
  | @send n dest r rpc hrecv =>
    rw [show othersOf root [none] = ([] : List (Node × Part Node N)) from rfl, List.append_nil]
    by_cases hof : s.IsOf root (.peer n r.seq)
    · exact h.send hsound (hfew' n) hrecv hof
    · simpa using h.apart (hsound.send_apart (hfew' n) hrecv hof) .nil
  | @lose before after p hwire =>
    rw [show othersOf root [none] = ([] : List (Node × Part Node N)) from rfl, List.append_nil]
    by_cases hof : s.IsOf root p.origin
    · exact h.lose hsound hwire hof
    · simpa using h.apart (hsound.take_apart hwire hof) .nil
  | @serve before after src dest r call hwire hparse router htable rs =>
    obtain ⟨hsound', hfree, -⟩ := hsound.take hwire
    by_cases hroot : s.rootOf src r.seq = root
    · have hof : s.IsOf root (.peer src r.seq) := hfree.isOf_iff.mpr hroot
      have hown : othersOf root [some (s.rootOf src r.seq, dest, call.part router rs)] = [] := by simp [othersOf, hroot]
      rw [hown, List.append_nil]
      subst hroot
      exact h.serve hsound hwire hparse hof htable rs hfew
    · have hof : ¬ s.IsOf root (.peer src r.seq) := fun hof => hroot (hfree.isOf_iff.mp hof)
      have hother : othersOf root [some (s.rootOf src r.seq, dest, call.part router rs)] =
          [(dest, call.part router rs)] := by
        simp [othersOf, hroot]
      rw [hother] at hP ⊢
      have hdoes : Does env s.nodes (dest, call.part router rs)
        (({ s with wire := before ++ after } : RpcNet Node S W).first env
          router rs (s.rootOf src r.seq) dest (.peer src r.seq) call).nodes :=
        RpcNet.first_does { s with wire := before ++ after }
      exact h.apart ((hsound.take_apart hwire hof).trans (hsound'.first_apart hfree hroot hof))
        (hdoes.run (hP _ (List.mem_singleton_self _)))
  | @refuse before after src dest r hwire hparse =>
    rw [show othersOf root [none] = ([] : List (Node × Part Node N)) from rfl, List.append_nil]
    have hof := h.not_refuse hsound hwire hparse
    simpa using h.apart ((hsound.take_apart hwire hof).trans
      (RpcNet.addPacket_apart (.response dest src ⟨r.seq, false, []⟩) hof)) .nil
  | @hear before after src dest r rpc hwire hres =>
    rw [show othersOf root [none] = ([] : List (Node × Part Node N)) from rfl, List.append_nil]
    by_cases hof : s.IsOf root (.peer dest r.seq)
    · exact h.hear hsound hwire hres hof
    · simpa using h.apart (hsound.hear_apart hwire hres hof) .nil
  | @resume before after t call r htasks hcall hres =>
    by_cases hroot : t.root = root
    · rw [show othersOf root [some (t.root, t.node, (env t.node).lastPart (some r) t.task)] =
        ([] : List (Node × Part Node N)) by
        simp [othersOf, hroot], List.append_nil]
      exact h.resume hsound htasks hcall hres hroot
    · have hother : othersOf root [some (t.root, t.node, (env t.node).lastPart (some r) t.task)] =
          ([(t.node, (env t.node).lastPart (some r) t.task)] : List (Node × Part Node N)) := by simp [othersOf, hroot]
      rw [hother] at hP ⊢
      have hdoes : Does (N := N) env s.nodes (t.node, (env t.node).lastPart (some r) t.task)
          (({ s with tasks := before ++ after } : RpcNet Node S W).last env (some r) t).nodes :=
        RpcNet.last_does { s with tasks := before ++ after }
      exact h.apart (hsound.last_apart hrooted htasks hroot) (hdoes.run (hP _ (List.mem_singleton_self _)))
  | @finish before after t htasks hcall =>
    by_cases hroot : t.root = root
    · rw [show othersOf root [some (t.root, t.node, (env t.node).lastPart none t.task)] =
        ([] : List (Node × Part Node N)) by
        simp [othersOf, hroot], List.append_nil]
      exact h.finish hsound htasks hcall hroot
    · have hother : othersOf root [some (t.root, t.node, (env t.node).lastPart none t.task)] =
          ([(t.node, (env t.node).lastPart none t.task)] : List (Node × Part Node N)) := by simp [othersOf, hroot]
      rw [hother] at hP ⊢
      have hdoes : Does (N := N) env s.nodes (t.node, (env t.node).lastPart none t.task)
          (({ s with tasks := before ++ after } : RpcNet Node S W).last env none t).nodes :=
        RpcNet.last_does { s with tasks := before ++ after }
      exact h.apart (hsound.last_apart hrooted htasks hroot) (hdoes.run (hP _ (List.mem_singleton_self _)))

end Calls

end Dllm
