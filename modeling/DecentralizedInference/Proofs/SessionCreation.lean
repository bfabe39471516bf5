import DecentralizedInference.Proofs.FailurePropagation
import DecentralizedInference.Proofs.PayerRole

/-! When a root puts a session on the chain. Its `post_start` does not ask whether the chain has
started, only whether it can read the metadata of the answer: those of a node that turned the
START away cannot be read, but those that stand for an RPC error can. -/

namespace Dllm

variable {Address SecretKey PublicKey Node W : Type} {N : ℕ} [DecidableEq Node]

/-- The sessions that a node has created on the chain. -/
def NodeState.created (st : NodeState Node (OnChainState Address PublicKey) W) : List (Submission Address) :=
  st.usage.payments.created

/-- Every node of the chain has started, and every one that has a next node got its answer,
a success. -/
def World.Works {S : Type} (w : World Node S W N) (root : Call Node S W StartReq) : Prop :=
  ∀ c, Reaches w.startFirst w.fate root c → ∃ ctx req res next st,
    c.Begins w.startFirst ctx (.proceed req res next) st ∧
      (next = none ∨ ∃ d answer, next = some d ∧ w.fate c.hop = .answered ∧
        ((c.next st d).run w.startFirst w.startLast w.fate).1 = .returned answer ∧ answer.success = true)

/-- No other node creates a session, and the root at most one, for a chain that works and with
the address of each of its other nodes. -/
def World.CreatesForWorkingChain (w : World Node (OnChainState Address PublicKey) W N)
    (acct : Node → OnChainAccount Address SecretKey PublicKey)
    (root : Call Node (OnChainState Address PublicKey) W StartReq) : Prop :=
  let after := (root.run w.startFirst w.startLast w.fate).2
  (∀ m, m ≠ root.node → (after.1 m).created = (root.net m).created) ∧
    ((after.1 root.node).created = (root.net root.node).created ∨
      ∃ addresses layers, (after.1 root.node).created = (root.net root.node).created ++
          [.createSession root.req.chatId root.req.maxTokens.toUInt64 addresses layers] ∧
        w.Works root ∧ addresses = (after.2.tail.map fun v => (acct v.node).address).reverse)

/-- What `post_start` counts for a node of a chain. -/
def layerEntry (acct : Node → OnChainAccount Address SecretKey PublicKey) {S : Type}
    (v : Visit Node S W StartReq StartRes) : UInt64 :=
  .ofNat (wrapAdd 32 (wrapSub 32 (acct v.node).layers.stop v.req.fromLayer) 1)

/-- A call that is not the root's, at its place in the chain. -/
def Call.Placed {S : Type} (c : Call Node S W StartReq) : Prop :=
  c.req.chainIndex.toNat = c.hop ∧ c.hop + c.fuel < 2 ^ 32

theorem Call.Placed.next {S : Type} {w : World Node S W N} {c : Call Node S W StartReq} {ctx : Unit}
    {req : StartReq} {res : StartRes} {d : Downstream Node StartReq} {st : NodeState Node S W}
    (h : c.Placed) (hbegin : c.Begins w.startFirst ctx (.proceed req res (some d)) st) : (c.next st d).Placed := by
  obtain ⟨hindex, hsum⟩ := h
  have hpos := hbegin.1
  obtain ⟨route, u, -, -, -, hnext, -⟩ := World.begins_proceed hbegin
  obtain ⟨r, -, rfl⟩ := Option.map_eq_some_iff.mp hnext.symm
  have hone : (1 : UInt32).toNat = 1 := rfl
  simp only [Call.Placed, Call.next, StartReq.next, UInt32.toNat_add, hindex, hone]
  rw [Nat.mod_eq_of_lt (by omega)]
  omega

omit [DecidableEq Node] in
theorem Call.Placed.chainIndex_ne_zero {S : Type} {c : Call Node S W StartReq} (h : c.Placed) (hhop : c.hop ≠ 0) :
    c.req.chainIndex ≠ 0 := by
  intro hzero
  rw [Call.Placed, hzero] at h
  exact hhop h.1.symm

section Works

variable {S : Type} {w : World Node S W N} {c : Call Node S W StartReq} {ctx : Unit} {req : StartReq}
  {res : StartRes} {st : NodeState Node S W}

/-- A chain of one node works if the node has started. -/
theorem World.works_last (hbegin : c.Begins w.startFirst ctx (.proceed req res none) st) : w.Works c := by
  intro x hx
  rcases hx.cases_head with rfl | ⟨y, hsends, -⟩
  · exact ⟨ctx, req, res, none, st, hbegin, .inl rfl⟩
  · obtain ⟨hbegin', -⟩ := hsends
    cases (hbegin.unique hbegin').2.1

theorem World.works_next {d : Downstream Node StartReq} {answer : StartRes}
    (hbegin : c.Begins w.startFirst ctx (.proceed req res (some d)) st) (hfate : w.fate c.hop = .answered)
    (hanswer : ((c.next st d).run w.startFirst w.startLast w.fate).1 = .returned answer)
    (hsuccess : answer.success = true) (hrest : w.Works (c.next st d)) : w.Works c := by
  intro x hx
  rcases hx.cases_head with rfl | ⟨y, hsends, hyx⟩
  · exact ⟨ctx, req, res, some d, st, hbegin, .inr ⟨d, answer, rfl, hfate, hanswer, hsuccess⟩⟩
  · obtain rfl := hsends.unique (.request hbegin (by simp [hfate, RpcFate.served]))
    exact hrest x hyx

/-- In a chain that works no RPC has failed. -/
theorem World.Works.no_rpcFails {root : Call Node S W StartReq} (h : w.Works root)
    (hc : Reaches w.startFirst w.fate root c) : ¬c.RpcFails w.startFirst w.fate := by
  rintro ⟨⟨ctx, req, res, d, st, hbegin⟩, hfate⟩
  obtain ⟨ctx', req', res', next, st', hbegin', hnext⟩ := h c hc
  obtain ⟨-, hprogress, -⟩ := hbegin.unique hbegin'
  cases hprogress
  rcases hnext with hnone | ⟨_, _, _, hanswered, -⟩
  · cases hnone
  · simp [hanswered, RpcFate.isError] at hfate

end Works

namespace OnChainWorld

variable {w : World Node (OnChainState Address PublicKey) W N}
  {acct : Node → OnChainAccount Address SecretKey PublicKey} {codec : MetadataCodec Address PublicKey}

omit [DecidableEq Node] in
/-- The request that the second part of a start gets differs from the first one's in nothing
but its metadata, and below the root not even in that. -/
theorem begins_proceed_req (hw : OnChainWorld w acct codec)
    {c : Call Node (OnChainState Address PublicKey) W StartReq} {ctx : Unit} {req : StartReq} {res : StartRes}
    {next : Option (Downstream Node StartReq)} {st : NodeState Node (OnChainState Address PublicKey) W}
    (h : c.Begins w.startFirst ctx (.proceed req res next) st) :
    req = { c.req with metadata := req.metadata } ∧
      (c.req.chainIndex = 0 → req.metadata = (acct c.node).rootMetadata none) ∧
      (c.req.chainIndex ≠ 0 → req = c.req) := by
  obtain ⟨route, u, hpre, -⟩ := World.begins_proceed h
  refine ⟨(w.usage c.node).preStart_keeps _ _ _ _ hpre, ?_⟩
  rw [hw.usage] at hpre
  rcases OnChainAccount.preStart_metadata hpre with ⟨hidx, hmd⟩ | ⟨hidx, rfl, -⟩
  · exact ⟨fun _ => hmd, fun hne => absurd hidx hne⟩
  · exact ⟨fun hzero => absurd hzero hidx, fun _ => rfl⟩

/-- The first part of a start creates nothing. -/
theorem startFirst_created (hw : OnChainWorld w acct codec)
    {c : Call Node (OnChainState Address PublicKey) W StartReq} {r st}
    (h : w.startFirst c.hop c.node c.req (c.net c.node) = (r, st)) (m : Node) :
    (c.begun st m).created = (c.net m).created := by
  have hpay : (ModelService.startBegin (acct c.node).service.toWorkerUsageService (w.worker c.node)
      (w.router c.hop c.node) (w.rand c.hop) c.req (c.net c.node)).2.usage.payments =
        (c.net c.node).usage.payments := ModelService.startBegin_payments _ _ _
  rw [← hw.usage] at hpay
  have hst : (ModelService.startBegin (w.usage c.node).toWorkerUsageService (w.worker c.node)
      (w.router c.hop c.node) (w.rand c.hop) c.req (c.net c.node)).2 = st := congrArg Prod.snd h
  rw [hst] at hpay
  unfold Call.begun
  by_cases hm : m = c.node
  · subst hm
    rw [Function.update_self]
    exact congrArg Payments.created hpay
  · rw [Function.update_of_ne hm]

/-- The second part of a start below the root creates nothing. -/
theorem startLast_created (hw : OnChainWorld w acct codec) {n : Node} {ctx : Unit} {req : StartReq}
    (hidx : req.chainIndex ≠ 0) {answer : StartRes} {net net' : Net Node (OnChainState Address PublicKey) W}
    {e : Ending StartRes} (h : finishAt w.startLast n ctx req answer net = (e, net')) (m : Node) :
    (net' m).created = (net m).created := by
  rw [World.finishAt_startLast, Prod.mk.injEq] at h
  obtain ⟨-, rfl⟩ := h
  by_cases hm : m = n
  · subst hm
    rw [Function.update_self, hw.usage]
    exact congrArg Payments.created (OnChainAccount.postStart_payments hidx answer)
  · rw [Function.update_of_ne hm]

/-- Nothing is created below the root, however a chain ends. -/
theorem runs_created (hw : OnChainWorld w acct codec)
    {c : Call Node (OnChainState Address PublicKey) W StartReq} {e : Ending StartRes}
    {net : Net Node (OnChainState Address PublicKey) W} {vs : List (Visit Node _ W StartReq StartRes)}
    (h : Runs w.startFirst w.startLast w.fate c e net vs) (hplaced : c.Placed) (hhop : c.hop ≠ 0) (m : Node) :
    (net m).created = (c.net m).created := by
  refine h.keeps (I := fun net => (net m).created = (c.net m).created) (A := fun c => c.Placed ∧ c.hop ≠ 0)
    ?first ?next ?last ⟨hplaced, hhop⟩ rfl
  case first =>
    intro c' r st _ hI hfirst
    exact (hw.startFirst_created hfirst m).trans hI
  case next =>
    intro c' ctx req res d st hA hbegin
    exact ⟨hA.1.next hbegin, Nat.succ_ne_zero _⟩
  case last =>
    intro c' ctx req res next st answer net e net' hA hbegin hI hlast
    have hreq := (hw.begins_proceed_req hbegin).2.2 (hA.1.chainIndex_ne_zero hA.2)
    have hidx := hA.1.chainIndex_ne_zero hA.2
    rw [← hreq] at hidx
    exact (hw.startLast_created hidx hlast m).trans hI

/-- What a node below the root makes of the answer of the next one. -/
theorem worker_answer (hw : OnChainWorld w acct codec) {n : Node} {ctx : Unit} {req : StartReq}
    (hidx : req.chainIndex ≠ 0) {answer res : StartRes} {net net' : Net Node (OnChainState Address PublicKey) W}
    (h : finishAt w.startLast n ctx req answer net = (.returned res, net'))
    {m : OnChainServiceMetadata Address PublicKey} (hm : codec.deserialize res.metadata = some m) :
    res.success = answer.success ∧ ∃ m₁, codec.deserialize answer.metadata = some m₁ ∧
      m.addresses = m₁.addresses ++ [(acct n).address] ∧
      m.layers = m₁.layers ++ [.ofNat (wrapAdd 32 (wrapSub 32 (acct n).layers.stop req.fromLayer) 1)] := by
  rw [World.finishAt_startLast, Prod.mk.injEq, Ending.of_eq_returned_iff, hw.usage] at h
  obtain ⟨m₁, hm₁, rfl⟩ := OnChainAccount.postStart_worker hidx h.1
  rw [hw.codec_eq] at hm₁
  rw [hw.codec_eq, hw.roundTrip] at hm
  cases hm
  exact ⟨rfl, m₁, hm₁, rfl, rfl⟩

/-- What comes up from a chain below the root that can be read, if no RPC has failed in it:
the chain works, and the metadata have an address and a count for each of its nodes. -/
theorem readable_start_works (hw : OnChainWorld w acct codec)
    {c : Call Node (OnChainState Address PublicKey) W StartReq} {e : Ending StartRes}
    {net : Net Node (OnChainState Address PublicKey) W} {vs : List (Visit Node _ W StartReq StartRes)}
    (h : Runs w.startFirst w.startLast w.fate c e net vs) (hplaced : c.Placed) (hhop : c.hop ≠ 0)
    (hno : ∀ x, Reaches w.startFirst w.fate c x → Heard w.fate c x → ¬x.RpcFails w.startFirst w.fate)
    {answer : StartRes} (he : e = .returned answer) {m m₀ : OnChainServiceMetadata Address PublicKey}
    (hm : codec.deserialize answer.metadata = some m) (hm₀ : codec.deserialize c.req.metadata = some m₀) :
    answer.success = true ∧ w.Works c ∧
      m.addresses = m₀.addresses ++ (vs.map fun v => (acct v.node).address).reverse ∧
      m.layers = m₀.layers ++ (vs.map (layerEntry acct)).reverse := by
  induction h generalizing answer m with
  | outOfFuel => cases he
  | panics => cases he
  | hangs => cases he
  | replies hbegin =>
    -- a node that turns the request away answers without metadata
    cases he
    rw [(World.begins_reply hbegin).1, ModelService.startFailure, hw.nil] at hm
    cases hm
  | silentUnserved => cases he
  | silentServed => cases he
  | errorUnserved hbegin hfate =>
    exact absurd ⟨⟨_, _, _, _, _, hbegin⟩, by simp [hfate, RpcFate.isError]⟩ (hno _ .refl (.refl _ _))
  | errorServed hbegin hfate =>
    exact absurd ⟨⟨_, _, _, _, _, hbegin⟩, by simp [hfate, RpcFate.isError]⟩ (hno _ .refl (.refl _ _))
  | @ends c ctx req res st e net hbegin hlast =>
    subst he
    have hreq := (hw.begins_proceed_req hbegin).2.2 (hplaced.chainIndex_ne_zero hhop)
    subst hreq
    obtain ⟨hsuccess, m₁, hm₁, haddresses, hlayers⟩ :=
      hw.worker_answer (hplaced.chainIndex_ne_zero hhop) hlast hm
    obtain ⟨route, u, -, -, rfl, hnext, -⟩ := World.begins_proceed hbegin
    have hremote : route.remote = none := Option.map_eq_none_iff.mp hnext.symm
    obtain rfl : m₀ = m₁ := Option.some.inj (hm₀.symm.trans hm₁)
    refine ⟨by simp [hsuccess, hremote], World.works_last hbegin, ?_, ?_⟩
    · simpa using haddresses
    · simpa [layerEntry] using hlayers
  | @answered c ctx req res answer' d st e net net₁ vs hbegin hfate hrest hlast ih =>
    subst he
    have hreq := (hw.begins_proceed_req hbegin).2.2 (hplaced.chainIndex_ne_zero hhop)
    subst hreq
    obtain ⟨hsuccess, m₁, hm₁, haddresses, hlayers⟩ :=
      hw.worker_answer (hplaced.chainIndex_ne_zero hhop) hlast hm
    have hmd : d.req.metadata = c.req.metadata := by
      obtain ⟨route, u, -, -, -, hnext, -⟩ := World.begins_proceed hbegin
      obtain ⟨r, -, rfl⟩ := Option.map_eq_some_iff.mp hnext.symm
      rfl
    have hsends : Sends w.startFirst w.fate c (c.next st d) := .request hbegin (by simp [hfate, RpcFate.served])
    obtain ⟨hsuccess', hworks, haddresses', hlayers'⟩ := ih (hplaced.next hbegin) (Nat.succ_ne_zero _)
      (fun x hx hheard => hno x (.head hsends hx) (hheard.head hsends (by simp [hfate]))) rfl hm₁ (by rw [Call.next, hmd]; exact hm₀)
    have hanswer := congrArg Prod.fst hrest.run_eq
    refine ⟨hsuccess.trans hsuccess', World.works_next hbegin hfate hanswer hsuccess' hworks, ?_, ?_⟩
    · rw [haddresses, haddresses']
      simp
    · rw [hlayers, hlayers']
      simp [layerEntry]

/-- The second part of a start at the root, from a network in which nothing has been created
yet, creates a session from every answer that can be read, and panics at the others. -/
theorem startLast_root (hw : OnChainWorld w acct codec)
    {root : Call Node (OnChainState Address PublicKey) W StartReq} (hidx : root.req.chainIndex = 0) {ctx : Unit}
    {req : StartReq} {res answer : StartRes} {next : Option (Downstream Node StartReq)}
    {st : NodeState Node (OnChainState Address PublicKey) W}
    (hbegin : root.Begins w.startFirst ctx (.proceed req res next) st)
    {net net' : Net Node (OnChainState Address PublicKey) W} {e : Ending StartRes}
    (hsame : ∀ m, (net m).created = (root.net m).created)
    (h : finishAt w.startLast root.node ctx req answer net = (e, net')) :
    (∀ m, m ≠ root.node → (net' m).created = (root.net m).created) ∧
      ((net' root.node).created = (root.net root.node).created ∧ (∀ res, e ≠ .returned res) ∨
        ∃ m, codec.deserialize answer.metadata = some m ∧
          (net' root.node).created = (root.net root.node).created ++
            [.createSession root.req.chatId root.req.maxTokens.toUInt64 m.addresses m.layers]) := by
  have hreq := (hw.begins_proceed_req hbegin).1
  have hidx' : req.chainIndex = 0 := by rw [hreq]; exact hidx
  have hchat : req.chatId = root.req.chatId := by rw [hreq]
  have htokens : req.maxTokens = root.req.maxTokens := by rw [hreq]
  rw [World.finishAt_startLast, Prod.mk.injEq, hw.usage] at h
  obtain ⟨hend, rfl⟩ := h
  refine ⟨fun m hm => by rw [Function.update_of_ne hm, hsame], ?_⟩
  have hsubmitted : ((acct root.node).postStart req answer (net root.node).usage).2.submitted = _ :=
    OnChainAccount.postStart_root hidx'
  rw [hw.codec_eq] at hsubmitted
  rw [← hsame, ← hchat, ← htokens, Function.update_self]
  rcases hm : codec.deserialize answer.metadata with _ | m
  · rw [hm] at hsubmitted
    refine .inl ⟨congrArg (List.filter Submission.isCreateSession) hsubmitted, fun res hres => ?_⟩
    have hok := Ending.of_eq_returned_iff.mp (hend.trans hres)
    obtain ⟨m, hm'⟩ := OnChainAccount.postStart_ok_iff.mp ⟨res, hok⟩
    rw [hw.codec_eq, hm] at hm'
    cases hm'
  · rw [hm] at hsubmitted
    refine .inr ⟨m, rfl, (congrArg (List.filter Submission.isCreateSession) hsubmitted).trans ?_⟩
    rw [List.filter_append]
    rfl

/-- What a root has created when its call is over: nothing, and then it has not answered a
request that went on, or one session, from the answer of the next node or what stands for
it. -/
theorem root_runs (hw : OnChainWorld w acct codec)
    {root : Call Node (OnChainState Address PublicKey) W StartReq} (hplaced : root.Placed)
    (hidx : root.req.chainIndex = 0) {e : Ending StartRes} {net : Net Node (OnChainState Address PublicKey) W}
    {vs : List (Visit Node _ W StartReq StartRes)} (h : Runs w.startFirst w.startLast w.fate root e net vs) :
    (∀ m, m ≠ root.node → (net m).created = (root.net m).created) ∧
      ((net root.node).created = (root.net root.node).created ∧
          (∀ ctx req res next st, root.Begins w.startFirst ctx (.proceed req res next) st →
            ∀ res, e ≠ .returned res) ∨
        ∃ ctx req res next st answer m, root.Begins w.startFirst ctx (.proceed req res next) st ∧
          codec.deserialize answer.metadata = some m ∧
          (net root.node).created = (root.net root.node).created ++
            [.createSession root.req.chatId root.req.maxTokens.toUInt64 m.addresses m.layers] ∧
          ((next = none ∧ answer = res ∧ vs.tail = []) ∨ (∃ d, next = some d ∧ (w.fate root.hop).isError = true) ∨
            ∃ d net₁, next = some d ∧ w.fate root.hop = .answered ∧
              Runs w.startFirst w.startLast w.fate (root.next st d) (.returned answer) net₁ vs.tail)) := by
  have hbegun : ∀ {r st}, w.startFirst root.hop root.node root.req (root.net root.node) = (r, st) →
      ∀ m, (root.begun st m).created = (root.net m).created := fun hfirst m => hw.startFirst_created hfirst m
  have hrest : ∀ {ctx req res d st} {e' : Ending StartRes} {net₁ : Net Node (OnChainState Address PublicKey) W}
      {vs' : List (Visit Node _ W StartReq StartRes)},
      root.Begins w.startFirst ctx (.proceed req res (some d)) st →
      Runs w.startFirst w.startLast w.fate (root.next st d) e' net₁ vs' →
      ∀ m, (net₁ m).created = (root.net m).created := by
    intro ctx req res d st e' net₁ vs' hbegin hruns m
    exact (hw.runs_created hruns (hplaced.next hbegin) (Nat.succ_ne_zero _) m).trans (hbegun hbegin.2 m)
  cases h with
  | outOfFuel hfuel =>
    exact ⟨fun m _ => rfl, .inl ⟨rfl, fun ctx req res next st hbegin => absurd hfuel hbegin.1⟩⟩
  | panics hfuel hfirst =>
    refine ⟨fun m _ => hbegun hfirst m, .inl ⟨hbegun hfirst _, fun ctx req res next st hbegin => ?_⟩⟩
    rw [hbegin.2] at hfirst
    cases hfirst
  | replies hbegin =>
    refine ⟨fun m _ => hbegun hbegin.2 m, .inl ⟨hbegun hbegin.2 _, fun ctx req res next st hbegin' => ?_⟩⟩
    cases (hbegin.unique hbegin').2.1
  | hangs hbegin hfate hruns hno =>
    exact ⟨fun m _ => hrest hbegin hruns m, .inl ⟨hrest hbegin hruns _, fun ctx req res next st _ res' h => by cases h⟩⟩
  | silentUnserved hbegin hfate =>
    exact ⟨fun m _ => hbegun hbegin.2 m, .inl ⟨hbegun hbegin.2 _, fun ctx req res next st _ res' h => by cases h⟩⟩
  | silentServed hbegin hfate hruns =>
    exact ⟨fun m _ => hrest hbegin hruns m, .inl ⟨hrest hbegin hruns _, fun ctx req res next st _ res' h => by cases h⟩⟩
  | ends hbegin hlast =>
    obtain ⟨hothers, ⟨hsame, hno⟩ | ⟨m, hm, hcreated⟩⟩ := hw.startLast_root hidx hbegin (hbegun hbegin.2) hlast
    · exact ⟨hothers, .inl ⟨hsame, fun _ _ _ _ _ _ => hno⟩⟩
    · exact ⟨hothers, .inr ⟨_, _, _, _, _, _, m, hbegin, hm, hcreated, .inl ⟨rfl, rfl, rfl⟩⟩⟩
  | errorUnserved hbegin hfate hlast =>
    obtain ⟨hothers, ⟨hsame, hno⟩ | ⟨m, hm, hcreated⟩⟩ := hw.startLast_root hidx hbegin (hbegun hbegin.2) hlast
    · exact ⟨hothers, .inl ⟨hsame, fun _ _ _ _ _ _ => hno⟩⟩
    · exact ⟨hothers, .inr ⟨_, _, _, _, _, _, m, hbegin, hm, hcreated, .inr (.inl ⟨_, rfl, by simp [hfate, RpcFate.isError]⟩)⟩⟩
  | errorServed hbegin hfate hruns hlast =>
    obtain ⟨hothers, ⟨hsame, hno⟩ | ⟨m, hm, hcreated⟩⟩ := hw.startLast_root hidx hbegin (hrest hbegin hruns) hlast
    · exact ⟨hothers, .inl ⟨hsame, fun _ _ _ _ _ _ => hno⟩⟩
    · exact ⟨hothers, .inr ⟨_, _, _, _, _, _, m, hbegin, hm, hcreated, .inr (.inl ⟨_, rfl, by simp [hfate, RpcFate.isError]⟩)⟩⟩
  | answered hbegin hfate hruns hlast =>
    obtain ⟨hothers, ⟨hsame, hno⟩ | ⟨m, hm, hcreated⟩⟩ := hw.startLast_root hidx hbegin (hrest hbegin hruns) hlast
    · exact ⟨hothers, .inl ⟨hsame, fun _ _ _ _ _ _ => hno⟩⟩
    · exact ⟨hothers, .inr ⟨_, _, _, _, _, _, m, hbegin, hm, hcreated,
        .inr (.inr ⟨_, _, rfl, hfate, hruns⟩)⟩⟩

/-- The answer from which the root creates a session, if no RPC has failed: the chain works, and
the metadata have an address and a count for each of its nodes below the root. -/
theorem root_answer_works (hw : OnChainWorld w acct codec)
    {root : Call Node (OnChainState Address PublicKey) W StartReq} (hplaced : root.Placed)
    (hidx : root.req.chainIndex = 0) 
    (hno : ∀ c, Reaches w.startFirst w.fate root c → Heard w.fate root c → ¬c.RpcFails w.startFirst w.fate) {ctx : Unit} {req : StartReq} {res answer : StartRes} {next : Option (Downstream Node StartReq)}
    {st : NodeState Node (OnChainState Address PublicKey) W} {m : OnChainServiceMetadata Address PublicKey}
    {vs : List (Visit Node (OnChainState Address PublicKey) W StartReq StartRes)}
    (hbegin : root.Begins w.startFirst ctx (.proceed req res next) st)
    (hm : codec.deserialize answer.metadata = some m)
    (hnext : (next = none ∧ answer = res ∧ vs.tail = []) ∨ (∃ d, next = some d ∧ (w.fate root.hop).isError = true) ∨
      ∃ d net₁, next = some d ∧ w.fate root.hop = .answered ∧
        Runs w.startFirst w.startLast w.fate (root.next st d) (.returned answer) net₁ vs.tail) :
    w.Works root ∧ m.addresses = (vs.tail.map fun v => (acct v.node).address).reverse ∧
      m.layers = (vs.tail.map (layerEntry acct)).reverse := by
  have hrootMd : codec.deserialize req.metadata = some ⟨[], (acct root.node).address,
      (acct root.node).publicKey, [], none⟩ := by
    rw [(hw.begins_proceed_req hbegin).2.1 hidx, OnChainAccount.rootMetadata, hw.codec_eq, hw.roundTrip]
  rcases hnext with ⟨rfl, rfl, htail⟩ | ⟨d, rfl, hfate⟩ | ⟨d, net₁, rfl, hfate, hruns⟩
  · obtain ⟨route, u, -, -, rfl, -, -⟩ := World.begins_proceed hbegin
    obtain rfl : m = _ := Option.some.inj (hm.symm.trans hrootMd)
    rw [htail]
    exact ⟨World.works_last hbegin, rfl, rfl⟩
  · exact absurd ⟨⟨_, _, _, _, _, hbegin⟩, hfate⟩ (hno root .refl (.refl _ _))
  · have hsends : Sends w.startFirst w.fate root (root.next st d) := .request hbegin (by simp [hfate, RpcFate.served])
    have hdown : codec.deserialize (root.next st d).req.metadata = some ⟨[], (acct root.node).address,
        (acct root.node).publicKey, [], none⟩ := by
      obtain ⟨route, u, -, -, -, hnext, -⟩ := World.begins_proceed hbegin
      obtain ⟨r, -, rfl⟩ := Option.map_eq_some_iff.mp hnext.symm
      exact hrootMd
    obtain ⟨hsuccess, hworks, haddresses, hlayers⟩ := hw.readable_start_works hruns (hplaced.next hbegin)
      (Nat.succ_ne_zero _)
      (fun x hx hheard => hno x (.head hsends hx) (hheard.head hsends (by simp [hfate]))) rfl hm hdown
    refine ⟨World.works_next hbegin hfate (congrArg Prod.fst hruns.run_eq) hsuccess hworks, ?_, ?_⟩
    · simpa using haddresses
    · simpa using hlayers

/-- A root creates a session for a chain that works, or none, if and only if no RPC of its
START ends with an error that comes up to it. -/
theorem creates_for_working_chain_iff (hw : OnChainWorld w acct codec)
    {root : Call Node (OnChainState Address PublicKey) W StartReq} (hhop : root.hop = 0)
    (hidx : root.req.chainIndex = 0) (hfuel : root.fuel < 2 ^ 32) :
    w.CreatesForWorkingChain acct root ↔
      ∀ c, Reaches w.startFirst w.fate root c → Heard w.fate root c → ¬c.RpcFails w.startFirst w.fate := by
  have hplaced : root.Placed := ⟨by simp [hidx, hhop], by omega⟩
  have hrun : Runs w.startFirst w.startLast w.fate root _ _ _ := root.runs
  obtain ⟨hothers, hroot⟩ := hw.root_runs hplaced hidx hrun
  constructor
  · rintro ⟨-, hcreates⟩ c hc hheard hrpc
    -- the failure comes up to the root as an answer that can be read, so a session is created
    obtain ⟨answer, hanswer, -⟩ := hw.rpc_failure_returned hc hheard hrpc
    have hgoes : ∃ ctx req res next st, root.Begins w.startFirst ctx (.proceed req res next) st := by
      rcases hc.cases_head with rfl | ⟨y, ⟨hbegin, -⟩, -⟩
      · obtain ⟨⟨ctx, req, res, d, st, hbegin⟩, -⟩ := hrpc
        exact ⟨ctx, req, res, some d, st, hbegin⟩
      · exact ⟨_, _, _, _, _, hbegin⟩
    obtain ⟨ctx, req, res, next, st, hbegin⟩ := hgoes
    rcases hcreates with hsame | ⟨addresses, layers, -, hworks, -⟩
    · rcases hroot with ⟨-, hno⟩ | ⟨_, _, _, _, _, _, m, -, -, hcreated, -⟩
      · exact hno ctx req res next st hbegin answer hanswer
      · rw [hsame] at hcreated
        simp at hcreated
    · exact hworks.no_rpcFails hc hrpc
  · intro hno
    refine ⟨hothers, ?_⟩
    rcases hroot with ⟨hsame, -⟩ | ⟨ctx, req, res, next, st, answer, m, hbegin, hm, hcreated, hnext⟩
    · exact .inl hsame
    · obtain ⟨hworks, haddresses, -⟩ := hw.root_answer_works hplaced hidx hno hbegin hm hnext
      exact .inr ⟨m.addresses, m.layers, hcreated, hworks, haddresses⟩

end OnChainWorld

/-- The START to the second node ends with an RPC error, and the root creates a session all the same. -/
theorem failed_chain_is_paid_for :
    ∃ net' vs md, (byteWorld ⟨2, 3⟩ fun _ => .errorUnserved).start 2 0 false byteStart.req byteNet =
        (.returned ⟨false, md⟩, net', vs) ∧
      (net' false).usage.submitted = [.createSession 7 10 [] []] ∧
      ¬(byteWorld ⟨2, 3⟩ fun _ => .errorUnserved).CreatesForWorkingChain (byteAccount ⟨2, 3⟩) byteStart := by
  refine ⟨_, _, _, rfl, rfl, ?_⟩
  rintro ⟨-, hsame | ⟨_, _, -, hworks, -⟩⟩
  · have hcreated : [Submission.createSession 7 10 [] []] = ([] : List (Submission UInt8)) := hsame
    cases hcreated
  · exact hworks.no_rpcFails .refl ⟨⟨(), _, _, _, _, by decide, rfl⟩, rfl⟩

/-- Both nodes start, and the session has the address of the second one. -/
theorem creates_for_working_chain_iff_pair :
    ∃ net' vs md, (byteWorld ⟨2, 3⟩ fun _ => .answered).start 2 0 false byteStart.req byteNet =
        (.returned ⟨true, md⟩, net', vs) ∧ (net' false).created = [.createSession 7 10 [20] [2]] ∧
      (byteWorld ⟨2, 3⟩ fun _ => .answered).CreatesForWorkingChain (byteAccount ⟨2, 3⟩) byteStart := by
  have hno : ∀ c, Reaches (byteWorld ⟨2, 3⟩ fun _ => .answered).startFirst (fun _ => .answered) byteStart c →
      Heard (fun _ => .answered) byteStart c →
      ¬c.RpcFails (byteWorld ⟨2, 3⟩ fun _ => .answered).startFirst fun _ => .answered :=
    fun c _ _ hrpc => Bool.false_ne_true hrpc.2
  exact ⟨_, _, _, rfl, rfl, (OnChainWorld.creates_for_working_chain_iff (byteWorld_onChain ⟨2, 3⟩ fun _ => .answered)
    (show byteStart.hop = 0 from rfl) rfl (by decide)).mpr hno⟩

end Dllm
