import DecentralizedInference.Sanity.RouteTable
import DecentralizedInference.Spec.ChainCalls

/-! Runs of a call as derivations, one rule for each way in which a call can end, and what a
START that succeeds has done at each node of its chain. -/

namespace Dllm

variable {Node S W : Type} {N : ℕ}

/-- The container that `start` makes for a route, with the id drawn for the next node. -/
def RoutePath.container (route : RoutePath Node) (chatId remoteSession : UInt64) :
    SessionContainer Node :=
  ⟨chatId, route.localRange, route.remote.map fun r => (r.dest, remoteSession)⟩

/-- The request that `start` sends to the next node. -/
def StartReq.next (req : StartReq) (metadata : List UInt8) (remoteSession : UInt64)
    (r : RemoteHop Node) : Downstream Node StartReq :=
  ⟨r.dest, ⟨remoteSession, req.chatId, r.layers.start, metadata, req.chainIndex + 1, req.maxTokens⟩⟩

namespace ModelService

/-- How a start begins: it panics or is turned away and touches nothing but the usage
service, or it has a route, and then it has stored its container whatever comes after. -/
inductive Beginning (usage : WorkerUsageService S) (worker : LayerSessions W) (router : RouteTable Node N)
    (rs : UInt64) (req : StartReq) (st : NodeState Node S W) :
    Except Panic (Progress Node StartReq StartRes) → NodeState Node S W → Prop
  | panicked (p : Panic) (u : S) : Beginning usage worker router rs req st (.error p) { st with usage := u }
  | refused (u : S) (hpre : usage.preStart req st.usage = (.ok none, u)) :
      Beginning usage worker router rs req st (.ok (.reply startFailure)) { st with usage := u }
  | noRoute (req' : StartReq) (u : S) (hpre : usage.preStart req st.usage = (.ok (some req'), u))
      (hroute : router.selectNext req.fromLayer = .ok none) :
      Beginning usage worker router rs req st (.ok (.reply startFailure)) { st with usage := u }
  | layersFailed (req' : StartReq) (u : S) (route : RoutePath Node)
      (hpre : usage.preStart req st.usage = (.ok (some req'), u))
      (hroute : router.selectNext req.fromLayer = .ok (some route)) (hlocal : route.localRange.isSome = true)
      (hfail : (worker.start req.session st.layers).1 = false) :
      Beginning usage worker router rs req st (.ok (.reply startFailure))
        ⟨st.sessions.insert req.session (route.container req.chatId rs),
          (worker.start req.session st.layers).2, u⟩
  | proceeds (req' : StartReq) (u : S) (route : RoutePath Node)
      (hpre : usage.preStart req st.usage = (.ok (some req'), u))
      (hroute : router.selectNext req.fromLayer = .ok (some route))
      (hstart : route.localRange.isSome = true → (worker.start req.session st.layers).1 = true) :
      Beginning usage worker router rs req st
        (.ok (.proceed req' ⟨route.remote.isNone, req'.metadata⟩
          (route.remote.map (req.next req'.metadata rs))))
        ⟨st.sessions.insert req.session (route.container req.chatId rs),
          if route.localRange.isSome then (worker.start req.session st.layers).2 else st.layers, u⟩

theorem startBegin_beginning (usage : LawfulUsageService S) (worker : LayerSessions W)
    (router : RouteTable Node N) (rs : UInt64) (req : StartReq) (st : NodeState Node S W) :
    Beginning usage.toWorkerUsageService worker router rs req st
      (startBegin usage.toWorkerUsageService worker router rs req st).1
      (startBegin usage.toWorkerUsageService worker router rs req st).2 := by
  rcases hpre : usage.preStart req st.usage with ⟨p | req' | req', u⟩
  · simp only [startBegin, hpre]
    exact .panicked p u
  · simp only [startBegin, hpre]
    exact .refused u hpre
  · -- a request goes on with nothing but its metadata changed
    have hkeep := usage.preStart_keeps _ _ _ _ hpre
    have hlayer : req'.fromLayer = req.fromLayer := by rw [hkeep]
    have hsession : req'.session = req.session := by rw [hkeep]
    have hchat : req'.chatId = req.chatId := by rw [hkeep]
    have hindex : req'.chainIndex = req.chainIndex := by rw [hkeep]
    have htokens : req'.maxTokens = req.maxTokens := by rw [hkeep]
    simp only [startBegin, hpre, hlayer, hsession, hchat, hindex, htokens]
    rcases hroute : router.selectNext req.fromLayer with p | _ | route
    · exact .panicked p u
    · exact .noRoute req' u hpre hroute
    · have hproceeds : (route.localRange.isSome = true → (worker.start req.session st.layers).1 = true) →
          Beginning usage.toWorkerUsageService worker router rs req st _ _ := .proceeds req' u route hpre hroute
      rcases hlocal : route.localRange with _ | r
      · have hnone := hproceeds (by simp [hlocal])
        simp only [hlocal, RoutePath.container, Option.isSome_none, Bool.false_eq_true, if_false] at hnone
        simp only [hlocal]
        exact hnone
      · simp only [hlocal]
        split
        case isTrue hfail =>
          have hlayers : Beginning usage.toWorkerUsageService worker router rs req st _ _ :=
            .layersFailed req' u route hpre hroute (by simp [hlocal]) hfail
          simpa [hlocal, RoutePath.container] using hlayers
        case isFalse hstarted =>
          have hok : (worker.start req.session st.layers).1 = true := by simpa using hstarted
          have hsome := hproceeds fun _ => hok
          simp only [hlocal, RoutePath.container, Option.isSome_some, if_true] at hsome
          exact hsome

/-- A start that is not turned away follows the route of its layer: it makes the
container, starts the layers worker where it has local layers, and goes on with the
rest of the route. -/
theorem startBegin_cases {usage : LawfulUsageService S} {worker : LayerSessions W}
    {router : RouteTable Node N} {rs : UInt64} {req : StartReq} {st st' : NodeState Node S W}
    {progress : Progress Node StartReq StartRes}
    (h : startBegin usage.toWorkerUsageService worker router rs req st = (.ok progress, st')) :
    progress = .reply startFailure ∨
    ∃ md route, router.selectNext req.fromLayer = .ok (some route) ∧
      st'.sessions = st.sessions.insert req.session (route.container req.chatId rs) ∧
      st'.layers = (if route.localRange.isSome then (worker.start req.session st.layers).2
        else st.layers) ∧
      (route.localRange.isSome = true → (worker.start req.session st.layers).1 = true) ∧
      progress = .proceed { req with metadata := md } ⟨route.remote.isNone, md⟩
        (route.remote.map (req.next md rs)) := by
  have hbegin := startBegin_beginning usage worker router rs req st
  rw [h] at hbegin
  generalize hr : Except.ok progress = r at hbegin
  cases hbegin with
  | panicked => cases hr
  | proceeds req' u route hpre hroute hstart =>
    cases hr
    have hkeep := usage.preStart_keeps _ _ _ _ hpre
    exact .inr ⟨req'.metadata, route, hroute, rfl, rfl, hstart, by rw [← hkeep]⟩
  | _ =>
    cases hr
    exact .inl rfl

/-! What the first parts do to the usage service is what its hooks do. -/

variable {E : Type} (usage : WorkerUsageService S)

theorem startBegin_usage (worker : LayerSessions W) (router : RouteTable Node N) (rs : UInt64) (req : StartReq)
    (st : NodeState Node S W) :
    (startBegin usage worker router rs req st).2.usage = (usage.preStart req st.usage).2 := by
  unfold startBegin
  rcases hpre : usage.preStart req st.usage with ⟨p | req' | req', u⟩
  · rfl
  · rfl
  · simp only
    rcases router.selectNext req'.fromLayer with p | _ | route
    · rfl
    · rfl
    · simp only
      split <;> split <;> rfl

theorem forwardBegin_usage (buf : TensorBuf E) (forward : LayersForward W E) (req : ForwardReq)
    (st : NodeState Node S W) : (forwardBegin usage buf forward req st).2.usage =
      match st.sessions.getClone req.session with
      | none => st.usage
      | some c => (usage.preForward c.chatId req st.usage).2 := by
  unfold forwardBegin
  cases hc : st.sessions.getClone req.session with
  | none => rfl
  | some c =>
    simp only
    rcases hpre : usage.preForward c.chatId req st.usage with ⟨p | req' | req', u⟩
    · rfl
    · rfl
    · simp only
      rcases forwardLocal buf forward c.localRange req' st.layers with ⟨p | embedding, layers⟩
      · rfl
      · cases c.remote <;> rfl

theorem endBegin_usage (worker : LayerSessions W) (req : EndReq) (st : NodeState Node S W) :
    (endBegin usage worker req st).2.usage =
      match st.sessions.getClone req.session with
      | none => st.usage
      | some c => (usage.preEnd c.chatId req st.usage).2 := by
  unfold endBegin
  cases hc : st.sessions.getClone req.session with
  | none => rfl
  | some c =>
    simp only
    rcases hpre : usage.preEnd c.chatId req st.usage with ⟨p | req' | req', u⟩ <;> rfl

end ModelService

/-! Runs of a call. -/

section Runs

variable {Req Res Ctx : Type} [DecidableEq Node]

section Rules

variable (first : ℕ → Node → Req → NodeState Node S W →
    Outcome (NodeState Node S W) (Ctx × Progress Node Req Res))
  (last : Node → Ctx → Req → Res → NodeState Node S W → Outcome (NodeState Node S W) Res)
  (fate : ℕ → RpcFate)

/-- The network when the first part of a call is done. -/
def Call.begun (c : Call Node S W Req) (st : NodeState Node S W) : Net Node S W :=
  Function.update c.net c.node st

/-- How a call ends, the network it leaves, and the visits on its way. -/
inductive Runs : Call Node S W Req → Ending Res → Net Node S W → List (Visit Node S W Req Res) → Prop
  | outOfFuel {c : Call Node S W Req} (hfuel : c.fuel = 0) : Runs c .pending c.net []
  | panics {c : Call Node S W Req} {p : Panic} {st : NodeState Node S W} (hfuel : c.fuel ≠ 0)
      (hfirst : first c.hop c.node c.req (c.net c.node) = (.error p, st)) :
      Runs c (.panicked p) (c.begun st) []
  | replies {c : Call Node S W Req} {ctx : Ctx} {res : Res} {st : NodeState Node S W}
      (hbegin : c.Begins first ctx (.reply res) st) :
      Runs c (.returned res) (c.begun st) [⟨c.node, c.req, .reply res, st⟩]
  | ends {c : Call Node S W Req} {ctx : Ctx} {req : Req} {res : Res} {st : NodeState Node S W}
      {e : Ending Res} {net : Net Node S W} (hbegin : c.Begins first ctx (.proceed req res none) st)
      (hlast : finishAt last c.node ctx req res (c.begun st) = (e, net)) :
      Runs c e net [⟨c.node, c.req, .proceed req res none, st⟩]
  | errorUnserved {c : Call Node S W Req} {ctx : Ctx} {req : Req} {res : Res} {d : Downstream Node Req}
      {st : NodeState Node S W} {e : Ending Res} {net : Net Node S W}
      (hbegin : c.Begins first ctx (.proceed req res (some d)) st) (hfate : fate c.hop = .errorUnserved)
      (hlast : finishAt last c.node ctx req res (c.begun st) = (e, net)) :
      Runs c e net [⟨c.node, c.req, .proceed req res (some d), st⟩]
  | errorServed {c : Call Node S W Req} {ctx : Ctx} {req : Req} {res : Res} {d : Downstream Node Req}
      {st : NodeState Node S W} {e e' : Ending Res} {net net₁ : Net Node S W}
      {vs : List (Visit Node S W Req Res)}
      (hbegin : c.Begins first ctx (.proceed req res (some d)) st) (hfate : fate c.hop = .errorServed)
      (hrest : Runs (c.next st d) e' net₁ vs)
      (hlast : finishAt last c.node ctx req res net₁ = (e, net)) :
      Runs c e net (⟨c.node, c.req, .proceed req res (some d), st⟩ :: vs)
  | silentUnserved {c : Call Node S W Req} {ctx : Ctx} {req : Req} {res : Res} {d : Downstream Node Req}
      {st : NodeState Node S W}
      (hbegin : c.Begins first ctx (.proceed req res (some d)) st) (hfate : fate c.hop = .silentUnserved) :
      Runs c .pending (c.begun st) [⟨c.node, c.req, .proceed req res (some d), st⟩]
  | silentServed {c : Call Node S W Req} {ctx : Ctx} {req : Req} {res : Res} {d : Downstream Node Req}
      {st : NodeState Node S W} {e' : Ending Res} {net₁ : Net Node S W}
      {vs : List (Visit Node S W Req Res)}
      (hbegin : c.Begins first ctx (.proceed req res (some d)) st) (hfate : fate c.hop = .silentServed)
      (hrest : Runs (c.next st d) e' net₁ vs) :
      Runs c .pending net₁ (⟨c.node, c.req, .proceed req res (some d), st⟩ :: vs)
  | answered {c : Call Node S W Req} {ctx : Ctx} {req : Req} {res answer : Res} {d : Downstream Node Req}
      {st : NodeState Node S W} {e : Ending Res} {net net₁ : Net Node S W}
      {vs : List (Visit Node S W Req Res)}
      (hbegin : c.Begins first ctx (.proceed req res (some d)) st) (hfate : fate c.hop = .answered)
      (hrest : Runs (c.next st d) (.returned answer) net₁ vs)
      (hlast : finishAt last c.node ctx req answer net₁ = (e, net)) :
      Runs c e net (⟨c.node, c.req, .proceed req res (some d), st⟩ :: vs)
  | hangs {c : Call Node S W Req} {ctx : Ctx} {req : Req} {res : Res} {d : Downstream Node Req}
      {st : NodeState Node S W} {e' : Ending Res} {net₁ : Net Node S W}
      {vs : List (Visit Node S W Req Res)}
      (hbegin : c.Begins first ctx (.proceed req res (some d)) st) (hfate : fate c.hop = .answered)
      (hrest : Runs (c.next st d) e' net₁ vs) (hno : ∀ answer, e' ≠ .returned answer) :
      Runs c .pending net₁ (⟨c.node, c.req, .proceed req res (some d), st⟩ :: vs)

end Rules

variable {first : ℕ → Node → Req → NodeState Node S W →
    Outcome (NodeState Node S W) (Ctx × Progress Node Req Res)}
  {last : Node → Ctx → Req → Res → NodeState Node S W → Outcome (NodeState Node S W) Res}
  {fate : ℕ → RpcFate}

theorem runs_of_serve {fuel hop : ℕ} {n : Node} {req : Req} {net net' : Net Node S W} {e : Ending Res}
    {vs : List (Visit Node S W Req Res)} (h : serve first last fate fuel hop n req net = (e, net', vs)) :
    Runs first last fate ⟨fuel, hop, n, req, net⟩ e net' vs := by
  induction fuel generalizing hop n req net e net' vs with
  | zero =>
    cases h
    exact .outOfFuel rfl
  | succ fuel ih =>
    rw [serve] at h
    split at h
    case h_1 p st hfirst =>
      cases h
      exact .panics (Nat.succ_ne_zero _) hfirst
    case h_2 ctx progress st hfirst =>
      rcases progress with res | ⟨req', res, _ | d⟩
      · cases h
        exact .replies ⟨Nat.succ_ne_zero _, hfirst⟩
      · simp only [Prod.mk.injEq] at h
        obtain ⟨hend, hnet, rfl⟩ := h
        exact .ends ⟨Nat.succ_ne_zero _, hfirst⟩ (Prod.ext hend hnet)
      · have hbegin : Call.Begins first ⟨fuel + 1, hop, n, req, net⟩ ctx (.proceed req' res (some d)) st :=
          ⟨Nat.succ_ne_zero _, hfirst⟩
        simp only at h
        split at h
        case h_1 hfate =>
          simp only [Prod.mk.injEq] at h
          obtain ⟨hend, hnet, rfl⟩ := h
          exact .errorUnserved hbegin hfate (Prod.ext hend hnet)
        case h_2 hfate =>
          simp only [Prod.mk.injEq] at h
          obtain ⟨hend, hnet, rfl⟩ := h
          exact .errorServed hbegin hfate (ih rfl) (Prod.ext hend hnet)
        case h_3 hfate =>
          simp only [Prod.mk.injEq] at h
          obtain ⟨rfl, rfl, rfl⟩ := h
          exact .silentUnserved hbegin hfate
        case h_4 hfate =>
          simp only [Prod.mk.injEq] at h
          obtain ⟨rfl, rfl, rfl⟩ := h
          exact .silentServed hbegin hfate (ih rfl)
        case h_5 hfate =>
          split at h
          case h_1 answer net₁ vs' hrest =>
            simp only [Prod.mk.injEq] at h
            obtain ⟨hend, hnet, rfl⟩ := h
            exact .answered hbegin hfate (ih hrest) (Prod.ext hend hnet)
          case h_2 e' net₁ vs' hno hrest =>
            simp only [Prod.mk.injEq] at h
            obtain ⟨rfl, rfl, rfl⟩ := h
            exact .hangs hbegin hfate (ih hrest) fun answer heq => hno answer heq

theorem Call.runs (c : Call Node S W Req) : Runs first last fate c (c.run first last fate).1
    (c.run first last fate).2.1 (c.run first last fate).2.2 :=
  runs_of_serve rfl

omit [DecidableEq Node] in
/-- A call that is followed has one way to begin. -/
theorem Call.Begins.unique {c : Call Node S W Req} {ctx ctx' : Ctx} {progress progress' : Progress Node Req Res}
    {st st' : NodeState Node S W} (h : c.Begins first ctx progress st) (h' : c.Begins first ctx' progress' st') :
    ctx = ctx' ∧ progress = progress' ∧ st = st' := by
  have heq := h.2.symm.trans h'.2
  simp only [Prod.mk.injEq, Except.ok.injEq] at heq
  exact ⟨heq.1.1, heq.1.2, heq.2⟩

/-- A derivation says what the function computes. -/
theorem Runs.run_eq {c : Call Node S W Req} {e : Ending Res} {net : Net Node S W}
    {vs : List (Visit Node S W Req Res)} (h : Runs first last fate c e net vs) :
    c.run first last fate = (e, net, vs) := by
  induction h with
  | @outOfFuel c hfuel =>
    unfold Call.run
    rw [hfuel, serve]
  | @panics c p st hfuel hfirst =>
    obtain ⟨k, hk⟩ := Nat.exists_eq_succ_of_ne_zero hfuel
    unfold Call.run
    rw [hk, serve, hfirst]
    rfl
  | @replies c ctx res st hbegin =>
    obtain ⟨k, hk⟩ := Nat.exists_eq_succ_of_ne_zero hbegin.1
    unfold Call.run
    rw [hk, serve, hbegin.2]
    rfl
  | @ends c ctx req res st e net hbegin hlast =>
    obtain ⟨k, hk⟩ := Nat.exists_eq_succ_of_ne_zero hbegin.1
    unfold Call.begun at hlast
    unfold Call.run
    rw [hk, serve, hbegin.2]
    simp only [hlast]
  | @errorUnserved c ctx req res d st e net hbegin hfate hlast =>
    obtain ⟨k, hk⟩ := Nat.exists_eq_succ_of_ne_zero hbegin.1
    unfold Call.begun at hlast
    unfold Call.run
    rw [hk, serve, hbegin.2]
    simp only [hfate, hlast]
  | @errorServed c ctx req res d st e e' net net₁ vs hbegin hfate hrest hlast ih =>
    obtain ⟨k, hk⟩ := Nat.exists_eq_succ_of_ne_zero hbegin.1
    simp only [Call.run, Call.next, hk, Nat.succ_sub_one] at ih
    unfold Call.run
    rw [hk, serve, hbegin.2]
    simp only [hfate, ih, hlast]
  | @silentUnserved c ctx req res d st hbegin hfate =>
    obtain ⟨k, hk⟩ := Nat.exists_eq_succ_of_ne_zero hbegin.1
    unfold Call.begun Call.run
    rw [hk, serve, hbegin.2]
    simp only [hfate]
  | @silentServed c ctx req res d st e' net₁ vs hbegin hfate hrest ih =>
    obtain ⟨k, hk⟩ := Nat.exists_eq_succ_of_ne_zero hbegin.1
    simp only [Call.run, Call.next, hk, Nat.succ_sub_one] at ih
    unfold Call.run
    rw [hk, serve, hbegin.2]
    simp only [hfate, ih]
  | @answered c ctx req res answer d st e net net₁ vs hbegin hfate hrest hlast ih =>
    obtain ⟨k, hk⟩ := Nat.exists_eq_succ_of_ne_zero hbegin.1
    simp only [Call.run, Call.next, hk, Nat.succ_sub_one] at ih
    unfold Call.run
    rw [hk, serve, hbegin.2]
    simp only [hfate, ih, hlast]
  | @hangs c ctx req res d st e' net₁ vs hbegin hfate hrest hno ih =>
    obtain ⟨k, hk⟩ := Nat.exists_eq_succ_of_ne_zero hbegin.1
    simp only [Call.run, Call.next, hk, Nat.succ_sub_one] at ih
    unfold Call.run
    rw [hk, serve, hbegin.2]
    cases e' with
    | returned answer => exact absurd rfl (hno answer)
    | _ => simp only [hfate, ih]

/-- What the first and the second parts keep, all runs keep. -/
theorem Runs.keeps {I : Net Node S W → Prop} {A : Call Node S W Req → Prop}
    (hfirst : ∀ (c : Call Node S W Req) r st, A c → I c.net →
      first c.hop c.node c.req (c.net c.node) = (r, st) → I (c.begun st))
    (hnext : ∀ (c : Call Node S W Req) ctx req res d st, A c →
      c.Begins first ctx (.proceed req res (some d)) st → A (c.next st d))
    (hlast : ∀ (c : Call Node S W Req) ctx req res next st answer net e net', A c →
      c.Begins first ctx (.proceed req res next) st → I net →
      finishAt last c.node ctx req answer net = (e, net') → I net')
    {c : Call Node S W Req} {e : Ending Res} {net : Net Node S W} {vs : List (Visit Node S W Req Res)}
    (h : Runs first last fate c e net vs) (hA : A c) (hI : I c.net) : I net := by
  induction h with
  | outOfFuel hfuel => exact hI
  | panics hfuel hf => exact hfirst _ _ _ hA hI hf
  | replies hbegin => exact hfirst _ _ _ hA hI hbegin.2
  | ends hbegin hl =>
    exact hlast _ _ _ _ _ _ _ _ _ _ hA hbegin (hfirst _ _ _ hA hI hbegin.2) hl
  | errorUnserved hbegin hfate hl =>
    exact hlast _ _ _ _ _ _ _ _ _ _ hA hbegin (hfirst _ _ _ hA hI hbegin.2) hl
  | errorServed hbegin hfate hrest hl ih =>
    have hrest' := ih (hnext _ _ _ _ _ _ hA hbegin) (hfirst _ _ _ hA hI hbegin.2)
    exact hlast _ _ _ _ _ _ _ _ _ _ hA hbegin hrest' hl
  | silentUnserved hbegin hfate => exact hfirst _ _ _ hA hI hbegin.2
  | silentServed hbegin hfate hrest ih => exact ih (hnext _ _ _ _ _ _ hA hbegin) (hfirst _ _ _ hA hI hbegin.2)
  | answered hbegin hfate hrest hl ih =>
    have hrest' := ih (hnext _ _ _ _ _ _ hA hbegin) (hfirst _ _ _ hA hI hbegin.2)
    exact hlast _ _ _ _ _ _ _ _ _ _ hA hbegin hrest' hl
  | hangs hbegin hfate hrest hno ih => exact ih (hnext _ _ _ _ _ _ hA hbegin) (hfirst _ _ _ hA hI hbegin.2)

end Runs

namespace World

variable [DecidableEq Node] {w : World Node S W N}

omit [DecidableEq Node] in
theorem startFirst_beginning (w : World Node S W N) {c : Call Node S W StartReq}
    {r : Except Panic (Unit × Progress Node StartReq StartRes)} {st : NodeState Node S W}
    (h : w.startFirst c.hop c.node c.req (c.net c.node) = (r, st)) :
    ∃ r', r = r'.map (fun progress => ((), progress)) ∧
      ModelService.Beginning (w.usage c.node).toWorkerUsageService (w.worker c.node) (w.router c.hop c.node)
        (w.rand c.hop) c.req (c.net c.node) r' st := by
  have hbegin := ModelService.startBegin_beginning (w.usage c.node) (w.worker c.node) (w.router c.hop c.node)
    (w.rand c.hop) c.req (c.net c.node)
  unfold startFirst at h
  obtain ⟨rfl, rfl⟩ := Prod.mk.inj h
  exact ⟨_, rfl, hbegin⟩

omit [DecidableEq Node] in
/-- A start that is answered at once has failed. -/
theorem begins_reply {c : Call Node S W StartReq} {ctx : Unit} {res : StartRes} {st : NodeState Node S W}
    (h : c.Begins w.startFirst ctx (.reply res) st) :
    res = ModelService.startFailure ∧
      ModelService.Beginning (w.usage c.node).toWorkerUsageService (w.worker c.node) (w.router c.hop c.node)
        (w.rand c.hop) c.req (c.net c.node) (.ok (.reply ModelService.startFailure)) st := by
  obtain ⟨r, hr, hbegin⟩ := startFirst_beginning w h.2
  rcases r with p | progress
  · cases hr
  · cases hr
    have hfail : res = ModelService.startFailure := by
      generalize hp : Except.ok (Progress.reply res) = r at hbegin
      cases hbegin with
      | panicked => cases hp
      | proceeds => cases hp
      | _ => cases hp; rfl
    subst hfail
    exact ⟨rfl, hbegin⟩

omit [DecidableEq Node] in
/-- A start that goes on has a route, and the next request is that of the route. -/
theorem begins_proceed {c : Call Node S W StartReq} {ctx : Unit} {req : StartReq} {res : StartRes}
    {next : Option (Downstream Node StartReq)} {st : NodeState Node S W}
    (h : c.Begins w.startFirst ctx (.proceed req res next) st) :
    ∃ route u, (w.usage c.node).preStart c.req (c.net c.node).usage = (.ok (some req), u) ∧
      (w.router c.hop c.node).selectNext c.req.fromLayer = .ok (some route) ∧
      res = ⟨route.remote.isNone, req.metadata⟩ ∧
      next = route.remote.map (c.req.next req.metadata (w.rand c.hop)) ∧
      st = ⟨(c.net c.node).sessions.insert c.req.session (route.container c.req.chatId (w.rand c.hop)),
        if route.localRange.isSome then ((w.worker c.node).start c.req.session (c.net c.node).layers).2
          else (c.net c.node).layers, u⟩ := by
  obtain ⟨r, hr, hbegin⟩ := startFirst_beginning w h.2
  rcases r with p | progress
  · cases hr
  · cases hr
    generalize hp : Except.ok (Progress.proceed req res next) = r at hbegin
    cases hbegin with
    | proceeds req' u route hpre hroute hstart =>
      cases hp
      exact ⟨route, u, hpre, hroute, rfl, rfl, rfl⟩
    | _ => cases hp

omit [DecidableEq Node] in
/-- What stands for a failed request is no success. -/
theorem begins_failure {c : Call Node S W StartReq} {ctx : Unit} {req : StartReq} {res : StartRes}
    {d : Downstream Node StartReq} {st : NodeState Node S W}
    (h : c.Begins w.startFirst ctx (.proceed req res (some d)) st) : res.success = false := by
  obtain ⟨route, u, -, -, rfl, hnext, -⟩ := begins_proceed h
  obtain ⟨r, hr, -⟩ := Option.map_eq_some_iff.mp hnext.symm
  simp [hr]

/-- The second part of a start changes nothing but the usage service. -/
theorem finishAt_startLast (w : World Node S W N) (n : Node) (ctx : Unit) (req : StartReq) (answer : StartRes)
    (net : Net Node S W) : finishAt w.startLast n ctx req answer net =
      (.of ((w.usage n).postStart req answer (net n).usage).1,
        Function.update net n { net n with usage := ((w.usage n).postStart req answer (net n).usage).2 }) := by
  unfold finishAt startLast ModelService.startEnd
  rcases (w.usage n).postStart req answer (net n).usage with ⟨p | res, u⟩ <;> rfl

/-- A state of a node that differs from another one in its usage service only. -/
theorem update_usage (net : Net Node S W) (n m : Node) (u : S) :
    (Function.update net n { net n with usage := u } m).sessions = (net m).sessions ∧
      (Function.update net n { net n with usage := u } m).layers = (net m).layers := by
  by_cases hm : m = n
  · subst hm
    simp
  · simp [hm]

theorem finishAt_startEnd {usage : Node → LawfulUsageService S} {n : Node} {c : Unit}
    {req : StartReq} {answer res : StartRes} {net net' : Net Node S W}
    (h : finishAt (fun n (_ : Unit) req res st =>
      ModelService.startEnd (usage n).toWorkerUsageService req res st) n c req answer net =
        (.returned res, net')) :
    (res.success = true → answer.success = true) ∧
      ∃ u, net' = Function.update net n { net n with usage := u } := by
  rw [finishAt] at h
  split at h
  case h_1 res' st hend =>
    cases h
    simp only [ModelService.startEnd, Prod.mk.injEq] at hend
    obtain ⟨hres, rfl⟩ := hend
    exact ⟨(usage n).postStart_success _ _ _ _ _ (Prod.ext hres rfl), _, rfl⟩
  case h_2 => cases h

/-- A start that ends well has a route, and where the route goes on, the start at the next
node has ended well. What happens at this node after that is up to the usage service. -/
theorem start_success {fuel hop : ℕ} {n : Node} {req : StartReq} {net net' : Net Node S W}
    {res : StartRes} {vs : List (Visit Node S W StartReq StartRes)}
    (h : w.start fuel hop n req net = (.returned res, net', vs)) (hs : res.success = true) :
    ∃ fuel' md route v u, fuel = fuel' + 1 ∧
      (w.router hop n).selectNext req.fromLayer = .ok (some route) ∧
      v.node = n ∧ v.req = req ∧
      v.progress = .proceed { req with metadata := md } ⟨route.remote.isNone, md⟩
        (route.remote.map (req.next md (w.rand hop))) ∧
      v.after.sessions = (net n).sessions.insert req.session (route.container req.chatId (w.rand hop)) ∧
      v.after.layers = (if route.localRange.isSome then ((w.worker n).start req.session (net n).layers).2
        else (net n).layers) ∧
      ((route.remote = none ∧ vs = [v] ∧
          net' = Function.update net n { v.after with usage := u }) ∨
        ∃ r res' net₁ vs', route.remote = some r ∧
          w.start fuel' (hop + 1) r.dest (req.next md (w.rand hop) r).req
            (Function.update net n v.after) = (.returned res', net₁, vs') ∧
          res'.success = true ∧ vs = v :: vs' ∧
          net' = Function.update net₁ n { net₁ n with usage := u }) := by
  have hrun : Runs w.startFirst w.startLast w.fate ⟨fuel, hop, n, req, net⟩ (.returned res) net' vs :=
    runs_of_serve h
  cases hrun with
  | replies hbegin =>
    -- a start that was turned away is no success
    obtain ⟨rfl, -⟩ := begins_reply hbegin
    cases hs
  | @ends _ ctx req' res₀ st _ _ hbegin hlast =>
    obtain ⟨fuel', rfl⟩ := Nat.exists_eq_succ_of_ne_zero hbegin.1
    obtain ⟨route, u, hpre, hroute, rfl, hnext, rfl⟩ := begins_proceed hbegin
    have hkeep := (w.usage n).preStart_keeps _ _ _ _ hpre
    obtain ⟨-, u', rfl⟩ := finishAt_startEnd hlast
    refine ⟨fuel', req'.metadata, route, _, u', rfl, hroute, rfl, rfl, ?_, rfl, rfl, .inl ⟨?_, rfl, ?_⟩⟩
    · rw [← hkeep, ← hnext]
    · exact Option.map_eq_none_iff.mp hnext.symm
    · rw [Call.begun, Function.update_self, Function.update_idem]
  | errorUnserved hbegin hfate hlast =>
    -- a request that failed is no success either
    have hfail := (finishAt_startEnd hlast).1 hs
    rw [begins_failure hbegin] at hfail
    cases hfail
  | errorServed hbegin hfate hrest hlast =>
    have hfail := (finishAt_startEnd hlast).1 hs
    rw [begins_failure hbegin] at hfail
    cases hfail
  | @answered _ ctx req' res₀ answer d st _ _ net₁ vs' hbegin hfate hrest hlast =>
    obtain ⟨fuel', rfl⟩ := Nat.exists_eq_succ_of_ne_zero hbegin.1
    obtain ⟨route, u, hpre, hroute, rfl, hnext, rfl⟩ := begins_proceed hbegin
    obtain ⟨r, hr, rfl⟩ := Option.map_eq_some_iff.mp hnext.symm
    have hkeep := (w.usage n).preStart_keeps _ _ _ _ hpre
    obtain ⟨hsucc, u', rfl⟩ := finishAt_startEnd hlast
    refine ⟨fuel', req'.metadata, route, _, u', rfl, hroute, rfl, rfl, ?_, rfl, rfl,
      .inr ⟨r, answer, net₁, vs', hr, ?_, hsucc hs, rfl, rfl⟩⟩
    · rw [← hkeep, ← hnext]
    · exact hrest.run_eq

end World

/-- A node of a chain: the session it serves, the layer at which the chain enters it, and
the container it has stored for the session. -/
structure Hop (Node : Type) where
  node : Node
  session : UInt64
  fromLayer : ℕ
  container : Option (SessionContainer Node)

def Visit.hop (v : Visit Node S W StartReq StartRes) : Hop Node :=
  ⟨v.node, v.req.session, v.req.fromLayer, v.after.sessions.getClone v.req.session⟩

/-- The chains that can start at a node and a layer. `ranges k n` is the local range of `n`
when the `k`-th request reaches it. -/
inductive Plan (ranges : ℕ → Node → Range) (N : ℕ) : ℕ → Node → UInt64 → ℕ → List (Hop Node) → Prop
  | last {k : ℕ} {n : Node} {s : UInt64} {f : ℕ} {chat : UInt64} (hstart : (ranges k n).start ≤ f)
      (hf : f < N) (hstop : (ranges k n).stop = N) :
      Plan ranges N k n s f [⟨n, s, f, some ⟨chat, some ⟨f, N⟩, none⟩⟩]
  | handOver {k : ℕ} {n d : Node} {s s' : UInt64} {f : ℕ} {chat : UInt64} {hs : List (Hop Node)}
      (hstart : (ranges k n).start ≤ f) (hf : f < (ranges k n).stop) (hstop : (ranges k n).stop < N)
      (hrest : Plan ranges N (k + 1) d s' (ranges k n).stop hs) :
      Plan ranges N k n s f
        (⟨n, s, f, some ⟨chat, some ⟨f, (ranges k n).stop⟩, some (d, s')⟩⟩ :: hs)
  | relay {k : ℕ} {n d : Node} {s s' : UInt64} {f : ℕ} {chat : UInt64} {hs : List (Hop Node)}
      (hnot : (ranges k n).contains f = false) (hf : f < N)
      (hrest : Plan ranges N (k + 1) d s' f hs) :
      Plan ranges N k n s f (⟨n, s, f, some ⟨chat, none, some (d, s')⟩⟩ :: hs)

namespace World

variable [DecidableEq Node] {w : World Node S W N}

/-- The local ranges of the nodes on the way. -/
def ranges (w : World Node S W N) (k : ℕ) (n : Node) : Range := (w.router k n).localLayers

theorem start_plan {fuel hop : ℕ} {n : Node} {req : StartReq} {net net' : Net Node S W}
    {res : StartRes} {vs : List (Visit Node S W StartReq StartRes)}
    (h : w.start fuel hop n req net = (.returned res, net', vs)) (hs : res.success = true) :
    Plan w.ranges N hop n req.session req.fromLayer (vs.map Visit.hop) := by
  induction fuel generalizing hop n req net net' res vs with
  | zero => cases h
  | succ fuel ih =>
    obtain ⟨fuel', md, route, v, u, hfuel, hroute, rfl, rfl, -, hsess, -, hcase⟩ := start_success h hs
    cases hfuel
    have hhop : v.hop = ⟨v.node, v.req.session, v.req.fromLayer,
        some (route.container v.req.chatId (w.rand hop))⟩ := by
      simp [Visit.hop, hsess]
    rcases hcase with ⟨hnone, rfl, -⟩ | ⟨r, res', net₁, vs', hsome, hnext, hs', rfl, -⟩
    · rw [List.map_cons, hhop]
      rcases RouteTable.selectNext_cases hroute with
        ⟨hstart, hf, hstop, rfl⟩ | ⟨_, d, i, -, -, -, rfl⟩ | ⟨_, d, i, -, -, rfl⟩
      · exact .last hstart hf hstop
      · cases hnone
      · cases hnone
    · have hrest := ih hnext hs'
      rw [List.map_cons, hhop]
      rcases RouteTable.selectNext_cases hroute with
        ⟨-, -, -, rfl⟩ | ⟨hstop, d, i, hstart, hf, -, rfl⟩ | ⟨hf, d, i, hnot, -, rfl⟩
      · cases hsome
      · cases hsome
        exact .handOver hstart hf hstop hrest
      · cases hsome
        exact .relay hnot hf hrest

end World
end Dllm
