import DecentralizedInference.Proofs.PartitionPlan
import DecentralizedInference.Sanity.ForwardsPass

/-! When a forward through a chain computes what one machine with the whole model would.
Each node of a chain runs all the layers it has loaded, not those that its session was
started for, so the chain has to enter every node that computes at the first of its
layers; where it does not, some layers are run twice. No `OnChainService` refuses a forward
of the root on the chain of a START. -/

namespace Dllm

variable {Node S E : Type} {N : ℕ}

/-- What a machine with all layers computes. -/
def inferAll (N : ℕ) (block : ℕ → UInt32 → UInt32 → E → E) (seqLen indexPos : UInt32) (x : E) : E :=
  (List.range N).foldl (fun y l => block l seqLen indexPos y) x

/-- The layers that the nodes of a chain run, in order. -/
def executed (ranges : Node → Range) (hs : List (Hop Node)) : List ℕ :=
  hs.flatMap fun h => if h.localRange.isSome then (ranges h.node).layers else []

/-- Every node that computes is entered at its first layer. -/
def EntersAtStart (ranges : Node → Range) (hs : List (Hop Node)) : Prop :=
  ∀ h ∈ hs, (ranges h.node).contains h.fromLayer = true → (ranges h.node).start = h.fromLayer

/-- The sessions of a chain are as START has left them. -/
def Holds (net : Net Node S LayerCaches) (hs : List (Hop Node)) : Prop :=
  ∀ h ∈ hs, (net h.node).sessions.getClone h.session = h.container ∧
    (h.localRange.isSome = true → (net h.node).layers.getClone h.session = some ())

namespace Plan

variable {ranges : Node → Range} {k : ℕ} {n : Node} {s : UInt64} {f : ℕ} {hs : List (Hop Node)}

theorem executed_of_entersAtStart (h : Plan (fun _ => ranges) N k n s f hs)
    (ha : EntersAtStart ranges hs) : executed ranges hs = List.range' f (N - f) := by
  induction h with
  | last hstart hf hstop =>
    have hst := ha _ List.mem_cons_self (by simp [hstart, hstop, hf])
    simp only at hst hstop
    simp [executed, Hop.localRange, Range.layers, hst, hstop]
  | @handOver k n d s s' f chat hs hstart hf hstop hrest ih =>
    have hst := ha _ List.mem_cons_self (by simp [hstart, hf])
    have htail := ih fun h hh => ha h (List.mem_cons_of_mem _ hh)
    simp only at hst hf hstop htail
    have hsplit : List.range' f ((ranges n).stop - f) ++
        List.range' (ranges n).stop (N - (ranges n).stop) = List.range' f (N - f) := by
      have happ := List.range'_append_1 (s := f) (m := (ranges n).stop - f) (n := N - (ranges n).stop)
      rw [Nat.add_sub_of_le (Nat.le_of_lt hf)] at happ
      rw [happ]
      congr 1
      omega
    rw [← hsplit, ← htail]
    simp [executed, Hop.localRange, Range.layers, hst]
  | relay hnot hf hrest ih =>
    have htail := ih fun h hh => ha h (List.mem_cons_of_mem _ hh)
    simpa [executed, Hop.localRange] using htail

/-- A chain runs at least as many layers as are left, and only as many if it enters every
computing node at its first layer. -/
theorem length_executed (h : Plan (fun _ => ranges) N k n s f hs) :
    N - f ≤ (executed ranges hs).length ∧
      ((executed ranges hs).length = N - f → EntersAtStart ranges hs) := by
  induction h with
  | @last k n s f chat hstart hf hstop =>
    have hlen : (executed ranges [⟨n, s, f, some ⟨chat, some ⟨f, N⟩, none⟩⟩]).length =
        (ranges n).stop - (ranges n).start := by
      simp [executed, Hop.localRange, Range.layers]
    rw [hlen]
    refine ⟨by omega, ?_⟩
    intro heq h hh _
    rw [List.mem_singleton.mp hh]
    simp only
    omega
  | @handOver k n d s s' f chat hs hstart hf hstop hrest ih =>
    have hlen : (executed ranges
        (⟨n, s, f, some ⟨chat, some ⟨f, (ranges n).stop⟩, some (d, s')⟩⟩ :: hs)).length =
          (ranges n).stop - (ranges n).start + (executed ranges hs).length := by
      simp [executed, Hop.localRange, Range.layers]
    rw [hlen]
    refine ⟨by omega, ?_⟩
    intro heq h hh hc
    rcases List.mem_cons.mp hh with rfl | hh
    · simp only
      omega
    · exact ih.2 (by omega) h hh hc
  | @relay k n d s s' f chat hs hnot hf hrest ih =>
    have hexec : executed ranges (⟨n, s, f, some ⟨chat, none, some (d, s')⟩⟩ :: hs) =
        executed ranges hs := by
      simp [executed, Hop.localRange]
    rw [hexec]
    refine ⟨ih.1, ?_⟩
    intro heq h hh hc
    rcases List.mem_cons.mp hh with rfl | hh
    · simp only at hnot hc
      rw [hnot] at hc
      cases hc
    · exact ih.2 heq h hh hc

end Plan

namespace World

variable [DecidableEq Node] {w : World Node S LayerCaches N}

/-- The ids that a chain of `m` hops draws are new: they differ from each other and from
that of its root. -/
def Fresh (w : World Node S LayerCaches N) (session : UInt64) (m : ℕ) : Prop :=
  (∀ i < m, ∀ j < m, w.rand i = w.rand j → i = j) ∧ ∀ k < m, w.rand k ≠ session

/-- A start only touches the sessions of its own chain. -/
theorem start_frame (hworker : ∀ n, w.worker n = blockSessions) {fuel hop : ℕ} {n : Node}
    {req : StartReq} {net net' : Net Node S LayerCaches} {res : StartRes}
    {vs : List (Visit Node S LayerCaches StartReq StartRes)}
    (h : w.start fuel hop n req net = (.returned res, net', vs)) (hs : res.success = true)
    {t : UInt64} (ht : t ≠ req.session)
    (hrand : ∀ j, hop ≤ j → j < hop + vs.length → t ≠ w.rand j) (m : Node) :
    (net' m).sessions.getClone t = (net m).sessions.getClone t ∧
      (net' m).layers.getClone t = (net m).layers.getClone t := by
  induction fuel generalizing hop n req net net' res vs with
  | zero => cases h
  | succ fuel ih =>
    obtain ⟨fuel', md, route, v, u, hfuel, -, rfl, rfl, -, hsess, hlay, hcase⟩ := start_success h hs
    cases hfuel
    -- the node itself has only gained the session of the request
    have hhere : ((Function.update net v.node v.after) m).sessions.getClone t =
          (net m).sessions.getClone t ∧
        ((Function.update net v.node v.after) m).layers.getClone t = (net m).layers.getClone t := by
      by_cases hm : m = v.node
      · subst hm
        rw [Function.update_self, hsess, hlay, hworker]
        refine ⟨by simp [ht], ?_⟩
        split
        · simp [blockSessions, ht]
        · rfl
      · simp [hm]
    rcases hcase with ⟨-, -, rfl⟩ | ⟨r, res', net₁, vs', -, hnext, hs', rfl, rfl⟩
    · obtain ⟨h1, h2⟩ := update_usage (Function.update net v.node v.after) v.node m u
      rw [Function.update_self, Function.update_idem] at h1 h2
      rwa [h1, h2]
    · obtain ⟨h1, h2⟩ := update_usage net₁ v.node m u
      rw [List.length_cons] at hrand
      obtain ⟨hrest, hrest'⟩ := ih hnext hs' (hrand hop (Nat.le_refl _) (by omega))
        fun j hj hlt => hrand j (by omega) (by omega)
      rw [h1, h2]
      exact ⟨hrest.trans hhere.1, hrest'.trans hhere.2⟩

theorem holds_update_usage {net : Net Node S LayerCaches} {hs : List (Hop Node)} (h : Holds net hs)
    (n : Node) (u : S) : Holds (Function.update net n { net n with usage := u }) hs := by
  intro hop hmem
  obtain ⟨h1, h2⟩ := update_usage net n hop.node u
  rw [h1, h2]
  exact h hop hmem

/-- After a start with new ids, all containers and caches of its chain are in place. -/
theorem start_holds (hworker : ∀ n, w.worker n = blockSessions) {fuel hop : ℕ} {n : Node}
    {req : StartReq} {net net' : Net Node S LayerCaches} {res : StartRes}
    {vs : List (Visit Node S LayerCaches StartReq StartRes)}
    (h : w.start fuel hop n req net = (.returned res, net', vs)) (hs : res.success = true)
    (hinj : ∀ i < hop + vs.length, ∀ j < hop + vs.length, w.rand i = w.rand j → i = j)
    (hrand : ∀ j, hop ≤ j → j < hop + vs.length → req.session ≠ w.rand j) : Holds net' (vs.map Visit.hop) := by
  induction fuel generalizing hop n req net net' res vs with
  | zero => cases h
  | succ fuel ih =>
    obtain ⟨fuel', md, route, v, u, hfuel, -, rfl, rfl, -, hsess, hlay, hcase⟩ := start_success h hs
    cases hfuel
    have hlocal : v.hop.localRange = route.localRange := by
      simp [Visit.hop, Hop.localRange, hsess, RoutePath.container]
    -- what this node has stored, seen before the rest of the chain was started
    have hhere : v.after.sessions.getClone v.req.session = v.hop.container ∧
        (v.hop.localRange.isSome = true → v.after.layers.getClone v.req.session = some ()) := by
      refine ⟨rfl, ?_⟩
      intro hsome
      rw [hlocal] at hsome
      rw [hlay, if_pos hsome, hworker]
      simp [blockSessions]
    rcases hcase with ⟨-, rfl, rfl⟩ | ⟨r, res', net₁, vs', -, hnext, hs', rfl, rfl⟩
    · intro hop' hmem
      rw [List.map_cons, List.map_nil, List.mem_singleton] at hmem
      subst hmem
      simpa [Visit.hop] using hhere
    · apply holds_update_usage
      rw [List.length_cons] at hrand hinj
      intro hop' hmem
      rcases List.mem_cons.mp hmem with rfl | hmem
      · have hframe := start_frame hworker hnext hs' (t := v.req.session)
          (hrand hop (Nat.le_refl _) (by omega)) (fun j hj hlt => hrand j (by omega) (by omega)) v.node
        rw [Function.update_self] at hframe
        exact ⟨hframe.1.trans hhere.1, fun hsome => hframe.2.trans (hhere.2 hsome)⟩
      · apply ih hnext hs' (fun i hi j hj => hinj i (by omega) j (by omega)) _ hop' hmem
        intro j hj hlt heq
        have hsame := hinj hop (by omega) j (by omega) heq
        omega

end World

namespace ModelService

/-- The local part of a forward at a hop whose cache is in place. -/
theorem forwardLocal_eq (buf : TensorBuf E) (block : ℕ → UInt32 → UInt32 → E → E) (loaded : Range)
    (localRange : Option Range) {req : ForwardReq} {caches : LayerCaches} {x : E}
    (hx : req.embedding = buf.toVec x)
    (hcache : localRange.isSome = true → caches.getClone req.session = some ()) :
    forwardLocal buf (blockForward block loaded) localRange req caches =
      (.ok (buf.toVec ((if localRange.isSome then loaded.layers else []).foldl
        (fun y l => block l req.seqLen req.indexPos y) x)), caches) := by
  cases localRange with
  | none => simp [forwardLocal, hx]
  | some r => simp [forwardLocal, hx, buf.roundTrip, blockForward, hcache rfl, Range.layers]

/-- A forward of a session that is in place, up to the next node. -/
theorem forwardBegin_eq {usage : LawfulUsageService S} (buf : TensorBuf E)
    (block : ℕ → UInt32 → UInt32 → E → E) (loaded : Range) {req : ForwardReq}
    {st : NodeState Node S LayerCaches} {c : SessionContainer Node} {x : E}
    (hpass : ∃ req' u, usage.preForward c.chatId req st.usage = (.ok (some req'), u))
    (hc : st.sessions.getClone req.session = some c) (hx : req.embedding = buf.toVec x)
    (hcache : c.localRange.isSome = true → st.layers.getClone req.session = some ()) :
    ∃ md u, forwardBegin usage.toWorkerUsageService buf (blockForward block loaded) req st =
      (.ok (c.chatId,
        match c.remote with
        | none => .proceed { req with metadata := md }
          ⟨true, buf.toVec ((if c.localRange.isSome then loaded.layers else []).foldl
            (fun y l => block l req.seqLen req.indexPos y) x), md⟩ none
        | some (dest, session) => .proceed { req with metadata := md } ⟨false, [], md⟩
          (some ⟨dest, { req with
            session := session
            embedding := buf.toVec ((if c.localRange.isSome then loaded.layers else []).foldl
              (fun y l => block l req.seqLen req.indexPos y) x)
            metadata := md
            chainIndex := req.chainIndex + 1 }⟩)),
        { st with usage := u }) := by
  obtain ⟨req', u, hpre⟩ := hpass
  have hkeep := usage.preForward_keeps _ _ _ _ _ hpre
  refine ⟨req'.metadata, u, ?_⟩
  rw [hkeep] at hpre
  let fwd : ForwardReq := { req with metadata := req'.metadata }
  have hfwd : fwd.embedding = buf.toVec x := hx
  simp only [forwardBegin, hc, hpre]
  rw [forwardLocal_eq buf block loaded c.localRange hfwd hcache]
  cases c.remote with
  | none => rfl
  | some r => rfl

end ModelService

section Forward

variable [DecidableEq Node] {w : World Node S LayerCaches N} {ranges : Node → Range}

/-- The answer that a forward at a node gives, from that of the next node. -/
theorem finishAt_forwardEnd (usage : Node → LawfulUsageService S) (n : Node) (chatId : UInt64)
    (req : ForwardReq) (res : ForwardRes) (net : Net Node S LayerCaches) :
    finishAt (fun n chatId req res st =>
      ModelService.forwardEnd (usage n).toWorkerUsageService chatId req res st) n chatId req res net =
        (.returned res, net) := by
  simp [finishAt, ModelService.forwardEnd, (usage n).postForward_eq]

/-- What a hop computes from its input. -/
def Hop.infer (ranges : Node → Range) (block : ℕ → UInt32 → UInt32 → E → E) (seqLen indexPos : UInt32)
    (x : E) (h : Hop Node) : E :=
  (if h.localRange.isSome then (ranges h.node).layers else []).foldl
    (fun y l => block l seqLen indexPos y) x

omit [DecidableEq Node] in
theorem foldl_infer (block : ℕ → UInt32 → UInt32 → E → E) (seqLen indexPos : UInt32)
    (hs : List (Hop Node)) (x : E) :
    hs.foldl (Hop.infer ranges block seqLen indexPos) x =
      (executed ranges hs).foldl (fun y l => block l seqLen indexPos y) x := by
  rw [executed, List.foldl_flatMap]
  rfl

omit [DecidableEq Node] in
/-- The first part of a forward at a hop that is in place. -/
theorem forwardBegin_hop (buf : TensorBuf E) (block : ℕ → UInt32 → UInt32 → E → E) (ranges : Node → Range)
    {net : Net Node S LayerCaches} {h : Hop Node} {hs : List (Hop Node)} (hold : Holds net (h :: hs))
    {c : SessionContainer Node} (hc : h.container = some c) {fuel hop : ℕ} {req : ForwardReq} {x : E}
    (hpass : w.LetsPass ⟨fuel, hop, h.node, req, net⟩) (hsess : req.session = h.session) (hx : req.embedding = buf.toVec x) :
    ∃ md u, ModelService.forwardBegin (w.usage h.node).toWorkerUsageService buf
        (blockForward block (ranges h.node)) req (net h.node) =
      (.ok (c.chatId,
        match c.remote with
        | none => .proceed { req with metadata := md }
          ⟨true, buf.toVec (h.infer ranges block req.seqLen req.indexPos x), md⟩ none
        | some (dest, session) => .proceed { req with metadata := md } ⟨false, [], md⟩
          (some ⟨dest, { req with
            session := session
            embedding := buf.toVec (h.infer ranges block req.seqLen req.indexPos x)
            metadata := md
            chainIndex := req.chainIndex + 1 }⟩)),
        { net h.node with usage := u }) := by
  obtain ⟨hcont, hcache⟩ := hold h List.mem_cons_self
  have hlocal : h.localRange = c.localRange := by simp [Hop.localRange, hc]
  rw [hc, ← hsess] at hcont
  rw [hlocal, ← hsess] at hcache
  rw [Hop.infer, hlocal]
  exact ModelService.forwardBegin_eq buf block (ranges h.node) (hpass c hcont) hcont hx hcache

/-- A forward at the last hop of a chain. -/
theorem forward_last (buf : TensorBuf E)
    (block : ℕ → UInt32 → UInt32 → E → E) {net : Net Node S LayerCaches} {h : Hop Node}
    {chat : UInt64} {r : Option Range} (hc : h.container = some ⟨chat, r, none⟩)
    (hold : Holds net [h]) {fuel hop : ℕ} {req : ForwardReq} {x : E}
    (hpass : w.Unrefused buf (fun n => blockForward block (ranges n)) ⟨fuel + 1, hop, h.node, req, net⟩)
    (hsess : req.session = h.session) (hx : req.embedding = buf.toVec x) :
    ∃ md net' vs, w.forward buf (fun n => blockForward block (ranges n)) (fun _ => .answered)
      (fuel + 1) hop h.node req net =
        (.returned ⟨true, buf.toVec (h.infer ranges block req.seqLen req.indexPos x), md⟩, net', vs) := by
  obtain ⟨md, u, hbegin⟩ := forwardBegin_hop buf block ranges hold hc hpass.letsPass hsess hx
  refine ⟨md, Function.update net h.node { net h.node with usage := u }, ?vs, ?eval⟩
  case eval =>
    rw [World.forward, serve]
    simp only [hbegin, finishAt_forwardEnd]
    rfl

/-- A forward at a hop that is not the last answers what the rest of the chain makes of
what the hop has computed. -/
theorem forward_next (buf : TensorBuf E)
    (block : ℕ → UInt32 → UInt32 → E → E) {net : Net Node S LayerCaches} {h : Hop Node}
    {hs : List (Hop Node)} {chat s' : UInt64} {r : Option Range} {d : Node}
    (hc : h.container = some ⟨chat, r, some (d, s')⟩) (hold : Holds net (h :: hs)) {fuel hop : ℕ}
    (hrest : ∀ (net₁ : Net Node S LayerCaches) (req' : ForwardReq) (y : E), Holds net₁ hs →
      w.Unrefused buf (fun n => blockForward block (ranges n)) ⟨fuel, hop + 1, d, req', net₁⟩ →
      req'.session = s' → req'.embedding = buf.toVec y →
      ∃ md net' vs, w.forward buf (fun n => blockForward block (ranges n)) (fun _ => .answered)
        fuel (hop + 1) d req' net₁ = (.returned ⟨true,
          buf.toVec (hs.foldl (Hop.infer ranges block req'.seqLen req'.indexPos) y), md⟩, net', vs))
    {req : ForwardReq} {x : E}
    (hpass : w.Unrefused buf (fun n => blockForward block (ranges n)) ⟨fuel + 1, hop, h.node, req, net⟩)
    (hsess : req.session = h.session) (hx : req.embedding = buf.toVec x) :
    ∃ md net' vs, w.forward buf (fun n => blockForward block (ranges n)) (fun _ => .answered)
      (fuel + 1) hop h.node req net = (.returned ⟨true,
        buf.toVec ((h :: hs).foldl (Hop.infer ranges block req.seqLen req.indexPos) x), md⟩, net', vs) := by
  obtain ⟨md, u, hbegin⟩ := forwardBegin_hop buf block ranges hold hc hpass.letsPass hsess hx
  -- the usage service is all that the node has changed
  have hold₁ : Holds (Function.update net h.node { net h.node with usage := u }) hs :=
    World.holds_update_usage (fun g hg => hold g (List.mem_cons_of_mem _ hg)) h.node u
  have hpass₁ := hpass.next ⟨Nat.succ_ne_zero fuel, hbegin⟩
  obtain ⟨md', net', vs, hserve⟩ := hrest _ { req with
    session := s'
    embedding := buf.toVec (h.infer ranges block req.seqLen req.indexPos x)
    metadata := md
    chainIndex := req.chainIndex + 1 } _ hold₁ hpass₁ rfl rfl
  rw [World.forward] at hserve
  refine ⟨md', net', ?vs, ?eval⟩
  case eval =>
    rw [World.forward, serve]
    simp only [hbegin, hserve, finishAt_forwardEnd]
    rfl

/-- A forward through a chain that is in place runs the layers of the chain. -/
theorem forward_of_plan (buf : TensorBuf E)
    (block : ℕ → UInt32 → UInt32 → E → E) {k : ℕ} {n : Node} {s : UInt64} {f : ℕ}
    {hs : List (Hop Node)} (h : Plan (fun _ => ranges) N k n s f hs) {net : Net Node S LayerCaches}
    (hold : Holds net hs) {fuel : ℕ} (hfuel : hs.length ≤ fuel) (hop : ℕ) (req : ForwardReq) (x : E)
    (hpass : w.Unrefused buf (fun n => blockForward block (ranges n)) ⟨fuel, hop, n, req, net⟩)
    (hsess : req.session = s) (hx : req.embedding = buf.toVec x) :
    ∃ md net' vs, w.forward buf (fun n => blockForward block (ranges n)) (fun _ => .answered)
      fuel hop n req net = (.returned ⟨true,
        buf.toVec (hs.foldl (Hop.infer ranges block req.seqLen req.indexPos) x), md⟩, net', vs) := by
  induction h generalizing net fuel hop req x with
  | @last k n s f chat hstart hf hstop =>
    obtain ⟨fuel, rfl⟩ := Nat.exists_eq_add_of_le' hfuel
    exact forward_last (h := ⟨n, s, f, _⟩) buf block rfl hold hpass hsess hx
  | @handOver k n d s s' f chat hs hstart hf hstop hrest ih =>
    obtain ⟨fuel, rfl⟩ := Nat.exists_eq_add_of_le' hfuel
    apply forward_next (h := ⟨n, s, f, _⟩) buf block rfl hold _ hpass hsess hx
    intro net₁ req' y hold₁ hpass₁ hsess' hx'
    exact ih hold₁ (Nat.le_add_left _ _) (hop + 1) req' y hpass₁ hsess' hx'
  | @relay k n d s s' f chat hs hnot hf hrest ih =>
    obtain ⟨fuel, rfl⟩ := Nat.exists_eq_add_of_le' hfuel
    apply forward_next (h := ⟨n, s, f, _⟩) buf block rfl hold _ hpass hsess hx
    intro net₁ req' y hold₁ hpass₁ hsess' hx'
    exact ih hold₁ (Nat.le_add_left _ _) (hop + 1) req' y hpass₁ hsess' hx'

end Forward

namespace World

variable [DecidableEq Node] {w : World Node S LayerCaches N} {ranges : Node → Range}

/-- The hops of a successful start are those that the tables give. -/
theorem start_route {fuel hop : ℕ} {n : Node} {req : StartReq} {net net' : Net Node S LayerCaches}
    {res : StartRes} {vs : List (Visit Node S LayerCaches StartReq StartRes)}
    (h : w.start fuel hop n req net = (.returned res, net', vs)) (hs : res.success = true) (k : ℕ) :
    w.route hop k (n, req.fromLayer) = (vs.map Visit.hop)[k]?.map fun g => (g.node, g.fromLayer) := by
  induction fuel generalizing hop n req net net' res vs k with
  | zero => cases h
  | succ fuel ih =>
    obtain ⟨fuel', md, route, v, u, hfuel, hroute, rfl, rfl, -, -, -, hcase⟩ := start_success h hs
    cases hfuel
    rcases hcase with ⟨hnone, rfl, -⟩ | ⟨r, res', net₁, vs', hsome, hnext, hs', rfl, -⟩
    · cases k with
      | zero => simp [World.route, Visit.hop]
      | succ k => simp [World.route, startHop, hroute, hnone]
    · cases k with
      | zero => simp [World.route, Visit.hop]
      | succ k =>
        have hrest := ih hnext hs' k
        simpa [World.route, startHop, hroute, hsome, StartReq.next] using hrest

theorem length_start {fuel hop : ℕ} {n : Node} {req : StartReq} {net net' : Net Node S LayerCaches}
    {res : StartRes} {vs : List (Visit Node S LayerCaches StartReq StartRes)}
    (h : w.start fuel hop n req net = (.returned res, net', vs)) (hs : res.success = true) :
    vs.length ≤ fuel := by
  induction fuel generalizing hop n req net net' res vs with
  | zero => cases h
  | succ fuel ih =>
    obtain ⟨fuel', md, route, v, u, hfuel, -, -, -, -, -, -, hcase⟩ := start_success h hs
    cases hfuel
    rcases hcase with ⟨-, rfl, -⟩ | ⟨r, res', net₁, vs', -, hnext, hs', rfl, -⟩
    · simp
    · have hrest := ih hnext hs'
      simpa using hrest

theorem entersAtStart_iff {fuel : ℕ} {n : Node} {req : StartReq} {net net' : Net Node S LayerCaches}
    {res : StartRes} {vs : List (Visit Node S LayerCaches StartReq StartRes)}
    (h : w.start fuel 0 n req net = (.returned res, net', vs)) (hs : res.success = true) :
    EntersAtStart ranges (vs.map Visit.hop) ↔
      ∀ k m l, w.route 0 k (n, req.fromLayer) = some (m, l) → (ranges m).contains l = true →
        (ranges m).start = l := by
  refine ⟨fun ha k m l hroute => ?_, fun hroute g hg => ?_⟩
  · rw [start_route h hs k] at hroute
    obtain ⟨g, hg, heq⟩ := Option.map_eq_some_iff.mp hroute
    cases heq
    exact ha g (List.mem_of_getElem? hg)
  · obtain ⟨k, hk⟩ := List.mem_iff_getElem?.mp hg
    apply hroute k
    rw [start_route h hs k, hk]
    rfl

/-- A forward with this header, whatever the layers and the input are, and with no RPC that
fails, gives what a machine with all layers computes. -/
def InfersLocally (w : World Node S LayerCaches N) (ranges : Node → Range) (fuel : ℕ) (root : Node)
    (fwd : ForwardReq) (net : Net Node S LayerCaches) : Prop :=
  ∀ (E : Type) (buf : TensorBuf E) (block : ℕ → UInt32 → UInt32 → E → E) (x : E),
    ∃ md net' vs, w.forward buf (fun n => blockForward block (ranges n)) (fun _ => .answered)
      fuel 0 root { fwd with embedding := buf.toVec x } net =
        (.returned ⟨true, buf.toVec (inferAll N block fwd.seqLen fwd.indexPos x), md⟩, net', vs)

/-- No usage service refuses such a forward at a node that it comes to. -/
def NeverRefuses (w : World Node S LayerCaches N) (ranges : Node → Range) (fuel : ℕ) (root : Node)
    (fwd : ForwardReq) (net : Net Node S LayerCaches) : Prop :=
  ∀ (E : Type) (buf : TensorBuf E) (block : ℕ → UInt32 → UInt32 → E → E) (x : E),
    w.Unrefused buf (fun n => blockForward block (ranges n)) ⟨fuel, 0, root, { fwd with embedding := buf.toVec x }, net⟩

theorem length_foldl_push (ls : List ℕ) (xs : List UInt8) :
    (ls.foldl (fun ys _ => ys ++ [0]) xs).length = xs.length + ls.length := by
  induction ls generalizing xs with
  | nil => rfl
  | cons l ls ih =>
    rw [List.foldl_cons, ih]
    simp
    omega

/-- Layers that append one byte each show how many of them a chain runs. -/
theorem length_executed_of_infersLocally {root : Node} {hs : List (Hop Node)} {fwd : ForwardReq}
    (hplan : Plan (fun _ => ranges) N 0 root fwd.session 0 hs) {net : Net Node S LayerCaches} (hold : Holds net hs)
    {fuel : ℕ} (hlen : hs.length ≤ fuel) (hpass : w.NeverRefuses ranges fuel root fwd net)
    (hinf : w.InfersLocally ranges fuel root fwd net) : (executed ranges hs).length = N := by
  let push : ℕ → UInt32 → UInt32 → List UInt8 → List UInt8 := fun _ _ _ y => y ++ [0]
  obtain ⟨md₁, net₁, vs₁, h₁⟩ := hinf (List UInt8) .raw push []
  obtain ⟨md₂, net₂, vs₂, h₂⟩ :=
    forward_of_plan .raw push hplan hold hlen 0 { fwd with embedding := [] } [] (hpass _ .raw push []) rfl rfl
  have hboth := h₁.symm.trans h₂
  rw [foldl_infer] at hboth
  have hsame : (List.range N).foldl (fun y _ => y ++ [(0 : UInt8)]) [] =
      (executed ranges hs).foldl (fun y _ => y ++ [0]) [] := by
    have hres := congrArg Prod.fst hboth
    simp only [Ending.returned.injEq, ForwardRes.mk.injEq] at hres
    exact hres.2.1
  have hcount := congrArg List.length hsame
  rw [length_foldl_push, length_foldl_push, List.length_range] at hcount
  simpa using hcount.symm

/-- A chain computes what one machine would if and only if it enters every node that
computes at the first of the node's layers. -/
theorem forward_infers_iff (hworker : ∀ n, w.worker n = blockSessions)
    (hranges : ∀ k n, (w.router k n).localLayers = ranges n)
    {fuel : ℕ} {root : Node} {req : StartReq} (hfrom : req.fromLayer = 0)
    {net net' : Net Node S LayerCaches} {res : StartRes}
    {vs : List (Visit Node S LayerCaches StartReq StartRes)}
    (h : w.start fuel 0 root req net = (.returned res, net', vs)) (hs : res.success = true)
    (hfresh : w.Fresh req.session vs.length) {fwd : ForwardReq} (hsession : fwd.session = req.session)
    (hpass : w.NeverRefuses ranges fuel root fwd net') :
    w.InfersLocally ranges fuel root fwd net' ↔
      ∀ k n l, w.route 0 k (root, 0) = some (n, l) → (ranges n).contains l = true →
        (ranges n).start = l := by
  have hplan : Plan (fun _ => ranges) N 0 root fwd.session 0 (vs.map Visit.hop) := by
    have hr : w.ranges = fun _ => ranges := by
      funext k n
      exact hranges k n
    have hp := start_plan h hs
    rwa [hr, hfrom, ← hsession] at hp
  have hold : Holds net' (vs.map Visit.hop) :=
    start_holds hworker h hs (by simpa using hfresh.1) fun j _ hj => (hfresh.2 j (by omega)).symm
  have hlen : (vs.map Visit.hop).length ≤ fuel := by
    rw [List.length_map]
    exact length_start h hs
  have hiff : EntersAtStart ranges (vs.map Visit.hop) ↔ _ := entersAtStart_iff h hs
  rw [hfrom] at hiff
  rw [← hiff]
  refine ⟨fun hinf => ?_, fun ha E buf block x => ?_⟩
  · exact hplan.length_executed.2 (length_executed_of_infersLocally hplan hold hlen hpass hinf)
  · obtain ⟨md, net₁, vs₁, hfwd⟩ := forward_of_plan buf block hplan hold hlen 0 { fwd with embedding := buf.toVec x } x
      (hpass E buf block x) rfl rfl
    refine ⟨md, net₁, vs₁, ?_⟩
    rw [hfwd, foldl_infer, hplan.executed_of_entersAtStart ha, inferAll, List.range_eq_range']
    rfl

/-- A start that succeeds is served. -/
theorem served_of_start {ε W : Type} {w : World Node S W N} {other : Net Node S W → ε → Net Node S W → Prop}
    {fuel hop : ℕ} {n : Node} {req : StartReq} {net net' : Net Node S W} {res : StartRes}
    {vs : List (Visit Node S W StartReq StartRes)} (h : w.start fuel hop n req net = (.returned res, net', vs))
    (hs : res.success = true) : Served w.startFirst w.startLast other hop n req net [] res net' vs := by
  have hrun : Runs w.startFirst w.startLast w.fate ⟨fuel, hop, n, req, net⟩ (.returned res) net' vs := runs_of_serve h
  generalize hc : (⟨fuel, hop, n, req, net⟩ : Call Node S W StartReq) = c at hrun
  generalize he : Ending.returned res = e at hrun
  have hserved : Served w.startFirst w.startLast other c.hop c.node c.req c.net [] res net' vs := by
    clear h hc
    induction hrun generalizing res with
    | outOfFuel => cases he
    | panics => cases he
    | replies hbegin =>
      cases he
      exact .replies .nil hbegin.2
    | ends hbegin hlast =>
      subst he
      exact .ends .nil hbegin.2 .nil hlast
    | errorUnserved hbegin hfate hlast =>
      -- a failed request makes a failed start
      subst he
      have hfail := (finishAt_startEnd hlast).1 hs
      rw [begins_failure hbegin] at hfail
      cases hfail
    | errorServed hbegin hfate hrest hlast =>
      subst he
      have hfail := (finishAt_startEnd hlast).1 hs
      rw [begins_failure hbegin] at hfail
      cases hfail
    | silentUnserved => cases he
    | silentServed => cases he
    | answered hbegin hfate hrest hlast ih =>
      subst he
      exact .answered .nil hbegin.2 (ih ((finishAt_startEnd hlast).1 hs) rfl) .nil hlast
    | hangs => cases he
  subst hc
  exact hserved

end World

/-- A START of the root with an `OnChainService` on every node makes a chain on which none of
the root's forwards is refused. -/
theorem OnChainWorld.neverRefuses {Address SecretKey PublicKey : Type} [DecidableEq Node] {ranges : Node → Range}
    {w : World Node (OnChainState Address PublicKey) LayerCaches N}
    {acct : Node → OnChainAccount Address SecretKey PublicKey} {codec : MetadataCodec Address PublicKey}
    {scheme : Ed25519 SecretKey PublicKey} (hw : OnChainWorld w acct codec) (hscheme : SharedScheme acct scheme)
    (hworker : ∀ n, w.worker n = blockSessions) {fuel : ℕ} {root : Node} {req : StartReq}
    {net net' : Net Node (OnChainState Address PublicKey) LayerCaches} {res : StartRes}
    {vs : List (Visit Node (OnChainState Address PublicKey) LayerCaches StartReq StartRes)}
    (h : w.start fuel 0 root req net = (.returned res, net', vs)) (hs : res.success = true)
    (hfresh : w.Fresh req.session vs.length) (hidx : req.chainIndex = 0) (hlen : vs.length ≤ 2 ^ 32)
    {fwd : ForwardReq} (hsession : fwd.session = req.session) (hown : fwd.chainIndex = 0) :
    w.NeverRefuses ranges fuel root fwd net' := by
  have hserved : Served w.startFirst w.startLast
      (w.Other TensorBuf.raw (fun n => blockForward (fun _ _ _ => id) (ranges n)) [] req.chatId) 0 root req net [] res net' vs :=
    World.served_of_start h hs
  have hlinked : Linked req.chatId root fwd.session (vs.map Visit.hop) := hsession ▸ World.start_linked hserved hs
  have hkeys := hw.start_registers_root hserved rfl hidx hlen
  have hhops : (vs.map Visit.hop).tail.map Hop.node = vs.tail.map Visit.node := by
    rw [← List.map_tail, List.map_map]
    rfl
  have hold : Holds net' (vs.map Visit.hop) :=
    World.start_holds hworker h hs (by simpa using hfresh.1) fun j _ hj => (hfresh.2 j (by omega)).symm
  intro E buf block x
  refine hw.unrefused hscheme hlinked (fun g hg => (hold g hg).1) ?_ hown (by rwa [List.length_map])
  rw [hhops]
  exact hkeys

/-- Layer `l` appends its number. -/
def trail (l : ℕ) (_ _ : UInt32) (xs : List UInt8) : List UInt8 := xs ++ [UInt8.ofNat l]

theorem pairWorld_localLayers (r : Range) (k : ℕ) (n : Bool) :
    ((pairWorld r).router k n).localLayers = if n then r else ⟨0, 2⟩ := by
  cases n <;> rfl

theorem pairWorld_fresh (r : Range) : (pairWorld r).Fresh 7 2 := by
  have hne : ∀ i < 2, ∀ j < 2, UInt64.ofNat (i + 100) = UInt64.ofNat (j + 100) → i = j := by decide
  have hroot : ∀ k < 2, UInt64.ofNat (k + 100) ≠ 7 := by decide
  exact ⟨hne, hroot⟩

/-- The first node has the layers 0 and 1, the second 1 and 2. The start gives layer 2
alone to the second one, which runs layer 1 all the same. -/
theorem shared_layer_runs_twice : ∃ net' vs net'' vs',
    (pairWorld ⟨1, 3⟩).start 2 0 false rootStart emptyNet = (.returned ⟨true, []⟩, net', vs) ∧
      vs.map (fun v => v.hop.localRange) = [some ⟨0, 2⟩, some ⟨2, 3⟩] ∧
      (pairWorld ⟨1, 3⟩).forward .raw (fun n => blockForward trail (if n then ⟨1, 3⟩ else ⟨0, 2⟩))
        (fun _ => .answered) 2 0 false ⟨7, 0, [], 0, 1, [], 0⟩ net' =
          (.returned ⟨true, [0, 1, 1, 2], []⟩, net'', vs') ∧
      inferAll 3 trail 1 0 [] = [0, 1, 2] := by
  have h : (pairWorld ⟨1, 3⟩).start 2 0 false rootStart emptyNet = (.returned ⟨true, []⟩, _, _) := rfl
  exact ⟨_, _, _, _, h, rfl, rfl, rfl⟩

theorem byteKeys_shared (r : Range) : SharedScheme (byteAccount r) byteKeys where
  eq _ := rfl
  parses _ := rfl
  length k message := by simp [byteKeys]
  verifies k message := by simp [byteKeys]

/-- The root's forwards over a chain of two nodes that are paid. -/
theorem forward_infers_iff_pair : ∃ res net' vs,
    (byteWorld ⟨2, 3⟩ fun _ => .answered).start 2 0 false rootStart byteNet = (.returned res, net', vs) ∧
      res.success = true ∧ (byteWorld ⟨2, 3⟩ fun _ => .answered).InfersLocally (fun n => if n then ⟨2, 3⟩ else ⟨0, 2⟩) 2 false
        (VirtualModelLayers.forwardReq 7 0 [] 1 0) net' := by
  have h : (byteWorld ⟨2, 3⟩ fun _ => .answered).start 2 0 false rootStart byteNet =
      (.returned ⟨true, byteCodec.serialize ⟨[20], 10, 1, [2], none⟩⟩, _, _) := Prod.ext (by decide +kernel) rfl
  have hfresh : (byteWorld ⟨2, 3⟩ fun _ => .answered).Fresh 7 2 := pairWorld_fresh ⟨2, 3⟩
  refine ⟨_, _, _, h, rfl, ?_⟩
  apply (World.forward_infers_iff (fun _ => rfl) (fun _ n => by cases n <;> rfl) rfl h rfl hfresh rfl
    ((byteWorld_onChain ⟨2, 3⟩ _).neverRefuses (byteKeys_shared _) (fun _ => rfl) h rfl hfresh rfl (by decide +kernel) rfl
      rfl)).mpr
  -- the walk is (first, 0), (second, 2)
  intro k n l hroute hc
  rcases k with _ | _ | k
  · cases hroute
    rfl
  · cases hroute
    rfl
  · cases hroute

end Dllm
