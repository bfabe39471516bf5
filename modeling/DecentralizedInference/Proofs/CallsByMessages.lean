import DecentralizedInference.Proofs.CallMessages

/-! A call that its chain serves can be made by messages: the other direction of `World.calls_are_served`. -/

namespace Dllm

variable {Node S W E Req Res Ctx : Type} {N : ℕ} [DecidableEq Node]

section Calls

variable {env : Node → ServiceEnv S W E} {kind : CallKind env N Req Res Ctx}
  {tables : ℕ → Met Node N} {n : Node} {req : Req} {net net' : Net Node S W} {hop : ℕ} {answer : Res}
  {vs : List (Visit Node S W Req Res)} {s s' : RpcNet Node S W} {T : Node → RouteTable Node N → Prop}

/-- What is on its way with an answer. -/
def Origin.responses (codec : LlmCodec) (n : Node) (res : ServiceRes) : Origin Node → List (Packet Node)
  | .peer dest seq => [.response n dest ⟨seq, true, codec.encodeRes res⟩]
  | .virtualLayers => []

/-- A call is done, with at most `k` requests, and nothing of it is left but its answer. -/
structure RpcNet.Done (s s' : RpcNet Node S W) (codec : LlmCodec) (origin : Origin Node) (root : ℕ) (n : Node)
    (res : ServiceRes) (net' : Net Node S W) (k : ℕ) : Prop where
  nodes : s'.nodes = net'
  tasks : s'.tasks = s.tasks
  wire : s'.wire = s.wire ++ origin.responses codec n res
  returned : s'.returned = s.returned ++ origin.returns root res
  rx : ∀ m, (s'.rpc m).rx = []
  oneshots : ∀ m, (s'.rpc m).oneshots ≤ (s.rpc m).oneshots + k

theorem RpcNet.respond_done (hrx : ∀ m, (s.rpc m).rx = []) (codec : LlmCodec) (origin : Origin Node) (root : ℕ)
    (n : Node) (res : ServiceRes) (st : NodeState Node S W) (k : ℕ) :
    s.Done ((s.setNode n st).respond codec root n origin res) codec origin root n res
      (Function.update s.nodes n st) k := by
  cases origin with
  | peer dest seq => exact ⟨rfl, rfl, rfl, (List.append_nil _).symm, hrx, fun _ => Nat.le_add_right _ _⟩
  | virtualLayers => exact ⟨rfl, rfl, (List.append_nil _).symm, rfl, hrx, fun _ => Nat.le_add_right _ _⟩

/-- The second part of a call runs when its task goes on. -/
theorem RpcNet.last_done {ctx : Ctx} {req' : Req} {res res' : Res} {reply : Option RpcRes} {origin : Origin Node}
    {root : ℕ} {call : Option ℕ} (hrx : ∀ m, (s.rpc m).rx = [])
    (hresume : ∀ st, (env n).resume reply (kind.task ctx req' res) st =
      ((kind.last n ctx req' answer st).1.map kind.res, (kind.last n ctx req' answer st).2))
    (hlast : finishAt kind.last n ctx req' answer s.nodes = (.returned res', net')) (k : ℕ) :
    s.Done (s.last env reply ⟨⟨origin, kind.task ctx req' res⟩, root, n, call⟩) (env n).codec origin root n
      (kind.res res') net' k := by
  unfold finishAt at hlast
  unfold RpcNet.last
  simp only [hresume]
  rcases hpart : kind.last n ctx req' answer (s.nodes n) with ⟨_ | res'', st⟩ <;> rw [hpart] at hlast
  · cases hlast
  · obtain ⟨hres, rfl⟩ := Prod.mk.inj hlast
    obtain rfl := Ending.returned.inj hres
    exact respond_done hrx _ origin root n _ st k

omit [DecidableEq Node] in
theorem RpcNet.Done.of_le {a : RpcNet Node S W} {codec : LlmCodec} {origin : Origin Node} {root : ℕ} {res : ServiceRes}
    {j k l : ℕ} (h : a.Done s' codec origin root n res net' k) (htasks : a.tasks = s.tasks) (hwire : a.wire = s.wire)
    (hreturned : a.returned = s.returned) (hle : ∀ m, (a.rpc m).oneshots ≤ (s.rpc m).oneshots + j)
    (hk : j + k ≤ l) :
    s.Done s' codec origin root n res net' l :=
  ⟨h.nodes, h.tasks.trans htasks, hwire ▸ h.wire, hreturned ▸ h.returned, h.rx, fun m => by
    have h₁ := h.oneshots m
    have h₂ := hle m
    omega⟩

variable (env T) in
/-- The request of a part is sent at once: it is on its way, and its task waits for the answer. -/
theorem RpcNet.Sound.sends (hsound : s.Sound) {origin : Origin Node} (hfree : s.Free origin)
    (hrx : ∀ m, (s.rpc m).rx = []) (hfew : ∀ m, (s.rpc m).oneshots + 1 < 2 ^ 32) (root : ℕ) (n : Node)
    (task : Task) (c : RpcCall Node) :
    ∃ sent, RpcStep env T (s.ask root n origin task c) none sent ∧ sent.Sound ∧ sent.nodes = s.nodes ∧
      sent.wire = s.wire ++ [.request n c.dest ⟨(s.rpc n).seqSeed + 1, c.cmd, c.payload⟩] ∧
      sent.tasks = s.tasks ++ [⟨⟨origin, task⟩, root, n, some (s.rpc n).oneshots⟩] ∧ sent.returned = s.returned ∧
      ∀ m, (sent.rpc m).rx = [] ∧ (sent.rpc m).oneshots ≤ (s.rpc m).oneshots + 1 := by
  let seq := (s.rpc n).seqSeed + 1
  let request : RpcReq := ⟨seq, c.cmd, c.payload⟩
  let rpc : RpcClientRx Node :=
    { (s.rpc n).request c with seqSeed := seq, waits := (s.rpc n).waits.insert seq (s.rpc n).oneshots, rx := [] }
  let asked := s.ask root n origin task c
  have hasked : asked.Sound := (hsound.ask hfree root n task c).1
  have hmore : ∀ m, (asked.rpc m).oneshots < 2 ^ 32 := by
    intro m
    by_cases hm : m = n
    · subst hm
      simpa [asked, RpcNet.ask, RpcClientRx.request] using hfew m
    · have := hfew m
      simpa [asked, RpcNet.ask, hm] using (by omega : (s.rpc m).oneshots < 2 ^ 32)
  have hrecv : (asked.rpc n).recv = some (c.dest, request, rpc) := by
    simp [asked, RpcNet.ask, RpcClientRx.request, RpcClientRx.recv, hrx n, request, rpc, seq]
  let sent : RpcNet Node S W :=
    { asked with rpc := Function.update asked.rpc n rpc, wire := asked.wire ++ [.request n c.dest request] }
  have hsend : RpcStep env T asked none sent := .send hrecv
  refine ⟨sent, hsend, hasked.step hmore hsend, rfl, rfl, rfl, rfl, fun m => ?_⟩
  by_cases hm : m = n
  · subst hm
    simp [sent, rpc, RpcClientRx.request]
  · simpa [sent, hm, asked, RpcNet.ask] using hrx m

variable (env T) in
/-- The answer that is on its way to a task comes, and the task goes on with it. -/
theorem RpcNet.Sound.goes_on (hsound : s.Sound) {pre : List (Packet Node)} {m : Node} {seq : UInt32} {call : ℕ}
    {payload : List UInt8} {ts : List (RpcTask Node)} {origin : Origin Node} {task : Task} {root : ℕ}
    (hwire : s.wire = pre ++ [.response m n ⟨seq, true, payload⟩])
    (htasks : s.tasks = ts ++ [⟨⟨origin, task⟩, root, n, some call⟩]) (hseq : seq.toNat = call + 1) :
    ∃ es, ∃ ended : RpcNet Node S W, ended.nodes = s.nodes ∧ ended.tasks = ts ∧ ended.wire = pre ∧
      ended.returned = s.returned ∧
      (∀ k, (ended.rpc k).rx = (s.rpc k).rx ∧ (ended.rpc k).oneshots = (s.rpc k).oneshots) ∧
      Run (RpcStep env T) s es
        (ended.last env (some ⟨seq, true, payload⟩) ⟨⟨origin, task⟩, root, n, some call⟩) := by
  obtain ⟨htaken, hfree, -⟩ := hsound.take hwire
  obtain ⟨call', rpc, hnumber, honRes, -, -, -, hholders⟩ := htaken.resolve hfree
  obtain rfl : call' = call := Nat.succ.inj (Eq.trans (Eq.symm hnumber) hseq)
  let heard : RpcNet Node S W := { s with rpc := Function.update s.rpc n rpc, wire := pre ++ [] }
  have hhear : RpcStep env T s none heard := .hear hwire honRes
  have hresolved : (call', (⟨seq, true, payload⟩ : RpcRes)) ∈ (heard.rpc n).resolved :=
    RpcNet.mem_holders_resolved.mp
      (by rw [show heard.holders n call' = [.resolved ⟨seq, true, payload⟩] from hholders]; simp)
  let ended : RpcNet Node S W := { heard with tasks := ts ++ [] }
  have hresume : RpcStep env T heard _
      (ended.last env (some ⟨seq, true, payload⟩) ⟨⟨origin, task⟩, root, n, some call'⟩) :=
    .resume htasks rfl hresolved
  refine ⟨_, ended, rfl, List.append_nil _, List.append_nil _, rfl, fun k => ?_, .snoc (.snoc .nil hhear) hresume⟩
  by_cases hk : k = n
  · subst hk
    rcases RpcClientRx.onRes_cases honRes with ⟨-, rfl⟩ | ⟨_, -, rfl⟩ <;> simp [ended, heard]
  · simp [ended, heard, hk]

/-- A call that is served alone is served by messages, from any state in which no request is queued. -/
theorem CallKind.done_by_messages {ε : Type} {other : Net Node S W → ε → Net Node S W → Prop} {es : List ε}
    (hmet : ∀ hop n, T n ((tables hop).1 n))
    (h : Served (fun hop => kind.first (tables hop)) kind.last other hop n req net es answer net' vs) (hes : es = [])
    (s : RpcNet Node S W) (origin : Origin Node) (root : ℕ) (hnodes : s.nodes = net) (hsound : s.Sound)
    (hfree : s.Free origin) (hrx : ∀ m, (s.rpc m).rx = []) (hfew : ∀ m, (s.rpc m).oneshots + vs.length < 2 ^ 32) :
    ∃ es' s', Run (RpcStep env T) (s.first env ((tables hop).1 n) (tables hop).2 root n origin (kind.req req)) es' s' ∧
      s.Done s' (env n).codec origin root n (kind.res answer) net' vs.length := by
  induction h generalizing s origin root with
  | @replies hop n req net net₀ es ctx res st hbefore hfirst =>
    subst hes hnodes
    obtain rfl := hbefore.eq_of_nil
    have hpart := kind.first_eq n (tables hop) req (s.nodes n)
    refine ⟨[], _, .nil, ?_⟩
    unfold RpcNet.first
    rw [hpart, hfirst]
    exact RpcNet.respond_done hrx _ origin root n _ st _
  | @ends hop n req req' net net₀ net₁ net' es es' ctx res res' st hbefore hfirst hmeanwhile hlast =>
    obtain ⟨rfl, rfl⟩ := List.append_eq_nil_iff.mp hes
    subst hnodes
    obtain rfl := hbefore.eq_of_nil
    obtain rfl := hmeanwhile.eq_of_nil
    have hpart := kind.first_eq n (tables hop) req (s.nodes n)
    let t : RpcTask Node := ⟨⟨origin, kind.task ctx req' res⟩, root, n, none⟩
    let a : RpcNet Node S W := { s.setNode n st with tasks := s.tasks ++ [] }
    have hfinish : RpcStep env T ((s.setNode n st).ready root n origin (kind.task ctx req' res)) _ (a.last env none t) :=
      .finish (rfl : _ = s.tasks ++ t :: []) rfl
    have hdone : a.Done (a.last env none t) (env n).codec origin root n (kind.res res') net' 1 :=
      RpcNet.last_done (s := a) hrx (fun st => kind.resume_none n ctx req' res st) hlast 1
    have hbegun : s.first env ((tables hop).1 n) (tables hop).2 root n origin (kind.req req) =
        (s.setNode n st).ready root n origin (kind.task ctx req' res) := by
      unfold RpcNet.first
      rw [hpart, hfirst]
      rfl
    rw [hbegun]
    exact ⟨_, _, .snoc .nil hfinish,
      hdone.of_le (List.append_nil _) rfl rfl (fun _ => Nat.le_refl _) (Nat.le_of_eq (Nat.zero_add 1))⟩
  | @answered hop n req req' net net₀ net₁ net₂ net' es es₁ es₂ ctx res answer res' d st vs hbefore hfirst hrest
      hmeanwhile hlast ih =>
    obtain ⟨hes', rfl⟩ := List.append_eq_nil_iff.mp hes
    obtain ⟨rfl, rfl⟩ := List.append_eq_nil_iff.mp hes'
    subst hnodes
    obtain rfl := hbefore.eq_of_nil
    obtain rfl := hmeanwhile.eq_of_nil
    have hpart := kind.first_eq n (tables hop) req (s.nodes n)
    let c : RpcCall Node :=
      ⟨d.dest, ((env n).codec.encodeReq (kind.req d.req)).1, ((env n).codec.encodeReq (kind.req d.req)).2⟩
    let seq := (s.rpc n).seqSeed + 1
    have hlength : ∀ m, (s.rpc m).oneshots + (vs.length + 1) < 2 ^ 32 := hfew
    obtain ⟨sent, hsend, hsent, hsentNodes, hsentWire, hsentTasks, hsentReturned, hsentRpc⟩ :=
      (hsound.setNode n st).sends env T hfree hrx (fun m => by have := hlength m; simp only [RpcNet.setNode]; omega)
        root n (kind.task ctx req' res) c
    -- the next node serves it
    have hwire : sent.wire = s.wire ++ .request n d.dest ⟨seq, c.cmd, c.payload⟩ :: [] := hsentWire
    obtain ⟨htaken, htakenFree, -⟩ := hsent.take hwire
    let taken : RpcNet Node S W := { sent with wire := s.wire ++ [] }
    have hserve : RpcStep env T sent _ (taken.first env ((tables (hop + 1)).1 d.dest) (tables (hop + 1)).2
        (sent.rootOf n seq) d.dest (.peer n seq) (kind.req d.req)) :=
      .serve hwire (kind.parse d.dest n seq d.req (kind.first_fits hfirst)) (hmet _ _) _
    have htakenFew : ∀ m, (taken.rpc m).oneshots ≤ (s.rpc m).oneshots + 1 := fun m => (hsentRpc m).2
    obtain ⟨es', s₁, hrun, hdone⟩ := ih rfl taken (.peer n seq) (sent.rootOf n seq) hsentNodes htaken htakenFree
      (fun m => (hsentRpc m).1) fun m => by have h₁ := htakenFew m; have h₂ := hlength m; omega
    have hfew₁ : ∀ m, (s₁.rpc m).oneshots ≤ (s.rpc m).oneshots + (vs.length + 1) := by
      intro m
      have h₁ := hdone.oneshots m
      have h₂ := htakenFew m
      omega
    have hs₁ : s₁.Sound := (htaken.first htakenFree).1.run hrun fun m => Nat.lt_of_le_of_lt (hfew₁ m) (hlength m)
    -- the answer comes back
    have hwire₁ : s₁.wire =
        s.wire ++ [.response d.dest n ⟨seq, true, (env d.dest).codec.encodeRes (kind.res answer)⟩] := by
      rw [hdone.wire]
      simp [taken, Origin.responses]
    have hseq : seq.toNat = (s.rpc n).oneshots + 1 := by
      have hseed := (hsound.counted n).seed
      have hlt := hlength n
      rw [hrx n, List.length_nil, Nat.add_zero] at hseed
      rw [UInt32.toNat_add, UInt32.toNat_one, Nat.mod_eq_of_lt (by omega)]
      omega
    obtain ⟨es'', ended, hnodes, htasks, hwire', hreturned, hrpc, hback⟩ :=
      hs₁.goes_on env T hwire₁ (hdone.tasks.trans hsentTasks) hseq
    have hlast' : finishAt kind.last n ctx req' answer ended.nodes = (.returned res', net') := by
      rw [hnodes, hdone.nodes]
      exact hlast
    let t : RpcTask Node := ⟨⟨origin, kind.task ctx req' res⟩, root, n, some (s.rpc n).oneshots⟩
    have hended : ended.Done (ended.last env (some ⟨seq, true, (env d.dest).codec.encodeRes (kind.res answer)⟩) t)
        (env n).codec origin root n (kind.res res') net' 0 :=
      RpcNet.last_done (fun m => (hrpc m).1.trans (hdone.rx m))
        (fun st => kind.resume_some n d.dest ctx req' res seq answer st) hlast' 0
    have hbegun : s.first env ((tables hop).1 n) (tables hop).2 root n origin (kind.req req) =
        (s.setNode n st).ask root n origin (kind.task ctx req' res) c := by
      unfold RpcNet.first
      rw [hpart, hfirst]
      rfl
    have hcame : ended.returned = s.returned :=
      (hreturned.trans (hdone.returned.trans (List.append_nil _))).trans hsentReturned
    rw [hbegun]
    exact ⟨_, _, .append (.append (.snoc (.snoc .nil hsend) hserve) hrun) hback,
      hended.of_le htasks hwire' hcame (fun m => (hrpc m).2.trans_le (hfew₁ m)) (Nat.le_refl _)⟩

end Calls

section Worlds

variable {w : World Node S W N} {buf : TensorBuf E} {layers : Node → LayersForward W E} {codec : LlmCodec}
  {T : Node → RouteTable Node N → Prop}

/-- A call of the node `n` is served by `k` nodes, one after the other, and no one does anything else. -/
def World.ServesAlone (w : World Node S W N) (buf : TensorBuf E) (layers : Node → LayersForward W E)
    (T : Node → RouteTable Node N → Prop) (n : Node) (net net' : Net Node S W) (k : ℕ) : ServiceReq → ServiceRes → Prop
  | .start req, .start res => ∃ met vs, (∀ hop n, T n ((w.meets met).router hop n)) ∧ vs.length = k ∧
      Served (w.meets met).startFirst w.startLast (fun _ (_ : Empty) _ => False) 0 n req net [] res net' vs
  | .forward req, .forward res => ∃ vs, vs.length = k ∧
      Served (w.forwardFirst buf layers) w.forwardLast (fun _ (_ : Empty) _ => False) 0 n req net [] res net' vs
  | .finish req, .finish res => ∃ vs, vs.length = k ∧
      Served w.endFirst w.endLast (fun _ (_ : Empty) _ => False) 0 n req net [] res net' vs
  | _, _ => False

/-- Every call can be made by messages. From any state that a run has come to, with other calls on their way, a call
that its chain serves is answered, and what was on its way is still there. -/
theorem World.calls_by_messages (hcodec : codec.RoundTrip N) {nodes : Net Node S W} {s : RpcNet Node S W}
    {es : List (Option (ℕ × Node × Part Node N))} (hbefore : Run (RpcStep (w.env buf layers codec) T) { nodes } es s)
    (hrx : ∀ m, (s.rpc m).rx = []) (htables : ∀ n, ∃ router, T n router) {n : Node} {c : VirtualCall}
    {net' : Net Node S W} {k : ℕ} {res : ServiceRes} (hserved : w.ServesAlone buf layers T n s.nodes net' k c.req res)
    (hfew : ∀ m, (s.rpc m).oneshots + k < 2 ^ 32) :
    ∃ router rs es' s', T n router ∧ Run (RpcStep (w.env buf layers codec) T) (({ s with calls := s.calls + 1 } :
        RpcNet Node S W).first (w.env buf layers codec) router rs s.calls n .virtualLayers c.req) es' s' ∧
      s'.nodes = net' ∧ s'.tasks = s.tasks ∧ s'.wire = s.wire ∧ s'.returned = s.returned ++ [(s.calls, res)] := by
  have hsound : s.Sound :=
    (RpcNet.Sound.init nodes).run hbefore fun m => Nat.lt_of_le_of_lt (Nat.le_add_right _ k) (hfew m)
  let called : RpcNet Node S W := { s with calls := s.calls + 1 }
  have hcalled : called.Sound := ⟨hsound.counted, hsound.once, hsound.known, hsound.packets, hsound.tasks⟩
  choose router hrouter using htables
  let tables : ℕ → Met Node N := fun _ => (router, 0)
  have hmet : ∀ hop n, T n ((tables hop).1 n) := fun _ n => hrouter n
  cases c with
  | start session maxLen =>
    cases res with
    | start answer =>
      obtain ⟨met, vs, hmet, rfl, hserved⟩ := hserved
      obtain ⟨es', s', hrun, hdone⟩ := (startKind w buf layers hcodec).done_by_messages
        (hmet : ∀ hop n, T n ((met hop).1 n)) hserved rfl called .virtualLayers s.calls rfl hcalled trivial hrx hfew
      exact ⟨_, _, es', s', hmet 0 n, hrun, hdone.nodes, hdone.tasks,
        hdone.wire.trans (List.append_nil _), hdone.returned⟩
    | forward answer => exact hserved.elim
    | finish answer => exact hserved.elim
  | forward session step embedding seqLen indexPos =>
    cases res with
    | forward answer =>
      obtain ⟨vs, rfl, hserved⟩ := hserved
      obtain ⟨es', s', hrun, hdone⟩ := (forwardKind w buf layers hcodec).done_by_messages hmet
        hserved rfl called .virtualLayers s.calls rfl hcalled trivial hrx hfew
      exact ⟨_, _, es', s', hrouter n, hrun, hdone.nodes, hdone.tasks,
        hdone.wire.trans (List.append_nil _), hdone.returned⟩
    | start answer => exact hserved.elim
    | finish answer => exact hserved.elim
  | finish session =>
    cases res with
    | finish answer =>
      obtain ⟨vs, rfl, hserved⟩ := hserved
      obtain ⟨es', s', hrun, hdone⟩ := (endKind w buf layers hcodec).done_by_messages hmet
        hserved rfl called .virtualLayers s.calls rfl hcalled trivial hrx hfew
      exact ⟨_, _, es', s', hrouter n, hrun, hdone.nodes, hdone.tasks,
        hdone.wire.trans (List.append_nil _), hdone.returned⟩
    | start answer => exact hserved.elim
    | forward answer => exact hserved.elim

end Worlds

section Mean

/-- The tables of the two nodes, whichever of them serves. -/
def meanMet (_hop : ℕ) : Met Bool 3 := (meanWorld.router 0, 100)

/-- A START is served by the two nodes. -/
theorem mean_start_served : ∃ net', meanWorld.ServesAlone meanBuf (fun n => (meanWorker n).forward) meanTables false
    meanNet net' 2 (VirtualCall.start 7 10).req (.start ⟨true, []⟩) :=
  ⟨_, meanMet, _, fun _ _ => rfl, rfl,
    .answered (.nil : Run _ _ [] _) rfl (.ends (.nil : Run _ _ [] _) rfl (.nil : Run _ _ [] _) rfl)
      (.nil : Run _ _ [] _) rfl⟩

theorem calls_by_messages_mean : ∃ router rs es' s', meanTables false router ∧
    Run (RpcStep (meanEnv startCodec) meanTables) (({ nodes := meanNet, calls := 1 } : MeanRpcNet).first
      (meanEnv startCodec) router rs 0 false .virtualLayers (VirtualCall.start 7 10).req) es' s' ∧
      s'.tasks = [] ∧ s'.wire = [] ∧ s'.returned = [(0, .start ⟨true, []⟩)] := by
  obtain ⟨net', hserved⟩ := mean_start_served
  have hbefore : Run (RpcStep (meanWorld.env meanBuf (fun n => (meanWorker n).forward) startCodec) meanTables)
      ({ nodes := meanNet } : MeanRpcNet) [] { nodes := meanNet } := .nil
  obtain ⟨router, rs, es', s', hrouter, hrun, -, hended⟩ := World.calls_by_messages startCodec_roundTrip hbefore
    (fun _ => rfl) (fun n => ⟨meanWorld.router 0 n, rfl⟩) hserved fun _ => (show 0 + 2 < 2 ^ 32 by decide)
  exact ⟨router, rs, es', s', hrouter, hrun, hended⟩

end Mean

end Dllm
