import Mathlib.Data.Rat.Encodable
import Mathlib.Logic.Encodable.Pi
import DecentralizedInference.Proofs.LocalInference
import DecentralizedInference.Proofs.SessionCleanup
import DecentralizedInference.Proofs.SessionIsolation
import DecentralizedInference.Proofs.WorkSplit

/-! A session over a chain of nodes computes what one machine with all layers would. Every node of
the chain has the layers of its range, with a cache for each session, and gets what the nodes before
it have made of a piece; so its cache holds what these have made of all pieces so far. -/

namespace Dllm

variable {Node S K α : Type} {N : ℕ}

/-- The layers that a hop runs. -/
def Hop.layers (ranges : Node → Range) (g : Hop Node) : List ℕ :=
  if g.localRange.isSome then (ranges g.node).layers else []

/-- What a hop makes of rows after others. -/
def Hop.rows (ranges : Node → Range) (f : ℕ → List α → List α → List α) (g : Hop Node) : List α → List α → List α :=
  throughLayers f (g.layers ranges)

/-- The cache of a session that has been fed rows, if it has local layers. -/
def Kept (max : UInt32) (after : List α → K) (r : Option Range) (before : List α) (cache : Option K) : Prop :=
  r.isSome = true → before.length ≤ max.toNat ∧ cache = some (after before)

/-- The caches along a chain that has been fed rows. -/
def ChainFed (max : UInt32) (rows : Hop Node → List α → List α → List α) (after : Node → List α → K)
    (net : Net Node S (SharedHashMap UInt64 K)) : List (Hop Node) → List α → Prop
  | [], _ => True
  | g :: hs, before => Kept max (after g.node) g.localRange before ((net g.node).layers.getClone g.session) ∧
    ChainFed max rows after net hs (rows g [] before)

theorem ChainFed.of_caches_eq {max : UInt32} {rows : Hop Node → List α → List α → List α} {after : Node → List α → K}
    {net net' : Net Node S (SharedHashMap UInt64 K)} {hs : List (Hop Node)} {before : List α}
    (h : ChainFed max rows after net hs before)
    (heq : ∀ g ∈ hs, (net' g.node).layers.getClone g.session = (net g.node).layers.getClone g.session) :
    ChainFed max rows after net' hs before := by
  induction hs generalizing before with
  | nil => trivial
  | cons g hs ih =>
    refine ⟨?_, ih h.2 fun g' hg' => heq g' (List.mem_cons_of_mem _ hg')⟩
    rw [heq g List.mem_cons_self]
    exact h.1

/-- A request with rows that may follow those before it, at their position. -/
structure ForwardReq.Carries (req : ForwardReq) (buf : TensorBuf (List α)) (before xs : List α) : Prop where
  follows : MayFollow before xs
  embedding : req.embedding = buf.toVec xs
  seqLen : req.seqLen = .ofNat xs.length
  indexPos : req.indexPos = .ofNat before.length

/-- A stage that is told how many rows come, as the model of a layers worker. -/
def staged (stage : UInt32 → CachedStage α K) (x : List α × UInt32) (indexPos : UInt32) (cache : K) : Option (List α) × K :=
  stage x.2 x.1 indexPos.toNat cache

/-- What a layers worker computes for a session with that local range. -/
structure Computes (stage : UInt32 → CachedStage α K) (max : UInt32) (after : List α → K) (r : Option Range)
    (f : List α → List α → List α) : Prop where
  incremental : r.isSome = true → Incremental (fun xs => stage (.ofNat xs.length) xs) max.toNat f after
  idle : r.isSome = false → ∀ before xs, f before xs = xs

/-- Rows that a chain with local layers has been fed have fitted in. -/
theorem ChainFed.length_le {max : UInt32} {rows : Hop Node → List α → List α → List α} {after : Node → List α → K}
    {net : Net Node S (SharedHashMap UInt64 K)} {hs : List (Hop Node)} {before : List α} (hcausal : ∀ g, Causal (rows g))
    (h : ChainFed max rows after net hs before) {g : Hop Node} (hg : g ∈ hs) (hsome : g.localRange.isSome = true) :
    before.length ≤ max.toNat := by
  induction hs generalizing before with
  | nil => simp at hg
  | cons g' hs ih =>
    rcases List.mem_cons.mp hg with rfl | hg
    · exact (h.1 hsome).1
    · have hle := ih h.2 hg
      rwa [(hcausal g').length] at hle

namespace ModelService

variable {usage : LawfulUsageService S} {buf : TensorBuf (List α)} {stage : UInt32 → CachedStage α K}
  {max : UInt32} {f : List α → List α → List α} {after : List α → K} {req req' : ForwardReq} {before xs : List α}

/-- The local part of a forward that goes on. -/
theorem forwardLocal_rows {r : Option Range} (h : Computes stage max after r f) (hreq : req.Carries buf before xs)
    {caches caches' : SharedHashMap UInt64 K} {embedding : List UInt8}
    (hkept : Kept max after r before (caches.getClone req.session))
    (hlocal : forwardLocal buf (cacheForward (staged stage)) r req caches = (.ok embedding, caches')) :
    embedding = buf.toVec (f before xs) ∧ Kept max after r (before ++ xs) (caches'.getClone req.session) := by
  cases r with
  | none =>
    cases hlocal
    rw [h.idle rfl, hreq.embedding]
    exact ⟨rfl, fun hsome => by simp at hsome⟩
  | some r =>
    have hinc := h.incremental rfl
    obtain ⟨hle, hcache⟩ := hkept rfl
    have hpos : (UInt32.ofNat before.length).toNat = before.length :=
      UInt32.toNat_ofNat_of_lt' (Nat.lt_of_le_of_lt hle max.toNat_lt)
    unfold forwardLocal cacheForward staged at hlocal
    simp only [hreq.embedding, buf.roundTrip, hcache, hreq.seqLen, hreq.indexPos, hpos] at hlocal
    by_cases hfits : before.length + xs.length ≤ max.toNat
    · simp only [hinc.fits before xs hreq.follows hfits, Option.map_some, Prod.mk.injEq, Except.ok.injEq] at hlocal
      obtain ⟨rfl, rfl⟩ := hlocal
      refine ⟨rfl, fun _ => ⟨by rwa [List.length_append], ?_⟩⟩
      rw [SharedHashMap.getClone_insert, if_pos rfl]
    · have hover := hinc.exceeds before xs hreq.follows (Nat.lt_of_not_le hfits)
      rcases hstage : stage (.ofNat xs.length) xs before.length (after before) with ⟨_ | y, cache⟩
      · simp [hstage] at hlocal
      · rw [hstage] at hover
        cases hover

/-- A forward at a node whose cache has what is before: what it answers or sends on, and what the cache has afterwards. -/
theorem forwardBegin_rows {container : SessionContainer Node} (h : Computes stage max after container.localRange f)
    (hreq : req.Carries buf before xs) {st st' : NodeState Node S (SharedHashMap UInt64 K)} {ctx : UInt64} {res : ForwardRes}
    {next : Option (Downstream Node ForwardReq)} (hcontainer : st.sessions.getClone req.session = some container)
    (hkept : Kept max after container.localRange before (st.layers.getClone req.session))
    (hbegin : forwardBegin usage.toWorkerUsageService buf (cacheForward (staged stage)) req st = (.ok (ctx, .proceed req' res next), st')) :
    Kept max after container.localRange (before ++ xs) (st'.layers.getClone req.session) ∧
      match next with
      | none => container.remote = none ∧ res.embedding = buf.toVec (f before xs)
      | some d => container.remote = some (d.dest, d.req.session) ∧ d.req.embedding = buf.toVec (f before xs) ∧
        d.req.seqLen = .ofNat xs.length ∧ d.req.indexPos = .ofNat before.length := by
  unfold forwardBegin at hbegin
  simp only [hcontainer] at hbegin
  split at hbegin
  case h_1 => cases hbegin
  case h_2 => cases hbegin
  case h_3 req₁ u hpre =>
    -- the usage service changes nothing but the metadata
    have hkeep := usage.preForward_keeps _ _ _ _ _ hpre
    have hsession : req₁.session = req.session := by rw [hkeep]
    have hreq₁ : req₁.Carries buf before xs :=
      ⟨hreq.follows, by rw [hkeep, ← hreq.embedding], by rw [hkeep, ← hreq.seqLen], by rw [hkeep, ← hreq.indexPos]⟩
    split at hbegin
    case h_1 => cases hbegin
    case h_2 embedding layers hlocal =>
      have hvalue := forwardLocal_rows h hreq₁ (by rwa [hsession]) hlocal
      rw [hsession] at hvalue
      obtain ⟨rfl, hafter⟩ := hvalue
      cases hremote : container.remote with
      | none =>
        simp only [hremote] at hbegin
        cases hbegin
        exact ⟨hafter, rfl, rfl⟩
      | some r =>
        simp only [hremote] at hbegin
        cases hbegin
        exact ⟨hafter, rfl, rfl, hreq₁.seqLen, hreq₁.indexPos⟩

/-- Rows that fit are computed. -/
theorem forwardLocal_fits {r : Option Range} (h : Computes stage max after r f) (hreq : req.Carries buf before xs)
    {caches : SharedHashMap UInt64 K} (hkept : Kept max after r before (caches.getClone req.session))
    (hfits : before.length + xs.length ≤ max.toNat) :
    ∃ embedding caches', forwardLocal buf (cacheForward (staged stage)) r req caches = (.ok embedding, caches') := by
  cases r with
  | none => exact ⟨req.embedding, caches, rfl⟩
  | some r =>
    obtain ⟨hle, hcache⟩ := hkept rfl
    have hpos : (UInt32.ofNat before.length).toNat = before.length :=
      UInt32.toNat_ofNat_of_lt' (Nat.lt_of_le_of_lt hle max.toNat_lt)
    unfold forwardLocal cacheForward staged
    simp only [hreq.embedding, buf.roundTrip, hcache, hreq.seqLen, hreq.indexPos, hpos,
      (h.incremental rfl).fits before xs hreq.follows hfits, Option.map_some]
    exact ⟨_, _, rfl⟩

/-- A forward that the usage service lets pass, with rows that fit, goes on. -/
theorem forwardBegin_fits {container : SessionContainer Node}
    (h : Computes stage max after container.localRange f) (hreq : req.Carries buf before xs)
    {st : NodeState Node S (SharedHashMap UInt64 K)} (hcontainer : st.sessions.getClone req.session = some container)
    (hpass : ∃ req' u, usage.preForward container.chatId req st.usage = (.ok (some req'), u))
    (hkept : Kept max after container.localRange before (st.layers.getClone req.session))
    (hfits : before.length + xs.length ≤ max.toNat) : ∃ req' res next st',
      forwardBegin usage.toWorkerUsageService buf (cacheForward (staged stage)) req st =
        (.ok (container.chatId, .proceed req' res next), st') ∧ (next = none → res.success = true) := by
  obtain ⟨req₁, u, hpre⟩ := hpass
  have hkeep := usage.preForward_keeps _ _ _ _ _ hpre
  have hsession : req₁.session = req.session := by rw [hkeep]
  have hreq₁ : req₁.Carries buf before xs :=
    ⟨hreq.follows, by rw [hkeep, ← hreq.embedding], by rw [hkeep, ← hreq.seqLen], by rw [hkeep, ← hreq.indexPos]⟩
  obtain ⟨embedding, caches', hlocal⟩ := forwardLocal_fits h hreq₁ (by rwa [hsession]) hfits
  unfold forwardBegin
  simp only [hcontainer, hpre, hlocal]
  cases container.remote with
  | none => exact ⟨_, _, _, _, rfl, fun _ => rfl⟩
  | some r => exact ⟨_, _, _, _, rfl, by simp⟩

end ModelService

/-- A start that succeeds while others go on has made a plan, too. -/
theorem World.served_plan {W ε : Type} [DecidableEq Node] {w : World Node S W N} {other : Net Node S W → ε → Net Node S W → Prop}
    {hop : ℕ} {n : Node} {req : StartReq} {net net' : Net Node S W} {es : List ε} {res : StartRes}
    {vs : List (Visit Node S W StartReq StartRes)} (h : Served w.startFirst w.startLast other hop n req net es res net' vs)
    (hs : res.success = true) : Plan w.ranges N hop n req.session req.fromLayer (vs.map Visit.hop) := by
  induction h with
  | @replies hop n req net net₀ es ctx res st hbefore hfirst =>
    obtain ⟨rfl, -⟩ := begins_reply (c := ⟨1, hop, n, req, net₀⟩) ⟨Nat.one_ne_zero, hfirst⟩
    cases hs
  | @ends hop n req req' net net₀ net₁ net' es es' ctx res res' st hbefore hfirst hmeanwhile hlast =>
    obtain ⟨route, u, -, hroute, -, hnext, rfl⟩ := begins_proceed (c := ⟨1, hop, n, req, net₀⟩) ⟨Nat.one_ne_zero, hfirst⟩
    have hnone : route.remote = none := Option.map_eq_none_iff.mp hnext.symm
    simp only [List.map_singleton, Visit.hop, SharedHashMap.getClone_insert, if_true, RoutePath.container]
    rcases RouteTable.selectNext_cases hroute with
      ⟨hstart, hf, hstop, rfl⟩ | ⟨_, d, i, -, -, -, rfl⟩ | ⟨_, d, i, -, -, rfl⟩
    · exact .last hstart hf hstop
    · cases hnone
    · cases hnone
  | @answered hop n req req' net net₀ net₁ net₂ net' es es₁ es₂ ctx res answer res' d st vs hbefore hfirst hrest
      hmeanwhile hlast ih =>
    obtain ⟨route, u, -, hroute, -, hnext, rfl⟩ := begins_proceed (c := ⟨1, hop, n, req, net₀⟩) ⟨Nat.one_ne_zero, hfirst⟩
    obtain ⟨r, hr, rfl⟩ := Option.map_eq_some_iff.mp hnext.symm
    have hplan := ih ((finishAt_startEnd hlast).1 hs)
    simp only [List.map_cons, Visit.hop, SharedHashMap.getClone_insert, if_true, RoutePath.container]
    rcases RouteTable.selectNext_cases hroute with
      ⟨-, -, -, rfl⟩ | ⟨hstop, d, i, hstart, hf, -, rfl⟩ | ⟨hf, d, i, hnot, -, rfl⟩
    · cases hr
    · cases hr
      exact .handOver hstart hf hstop hplan
    · cases hr
      exact .relay hnot hf hplan

/-- A start that stores a local range where there was nothing makes a new cache. -/
theorem ModelService.startBegin_new {usage : LawfulUsageService S} {new : K} {router : RouteTable Node N} {rs : UInt64}
    {req : StartReq} {st : NodeState Node S (SharedHashMap UInt64 K)} (hnew : st.sessions.getClone req.session = none)
    (hlocal : (((startBegin usage.toWorkerUsageService (cacheSessions new) router rs req st).2.sessions.getClone
      req.session).bind fun c => c.localRange).isSome = true) :
    (startBegin usage.toWorkerUsageService (cacheSessions new) router rs req st).2.layers.getClone req.session = some new := by
  have hbegin := startBegin_beginning usage (cacheSessions new) router rs req st
  rcases hres : startBegin usage.toWorkerUsageService (cacheSessions new) router rs req st with ⟨r, st'⟩
  rw [hres] at hbegin hlocal
  cases hbegin with
  | layersFailed => simp [cacheSessions]
  | proceeds req' u route =>
    simp only [SharedHashMap.getClone_insert, if_true, Option.bind_some, RoutePath.container] at hlocal
    simp [hlocal, cacheSessions]
  | _ => simp [hnew] at hlocal

/-- No usage service refuses the next piece that the root feeds to a session. -/
def World.PassesNext {W : Type} [DecidableEq Node] (w : World Node S W N) (buf : TensorBuf (List α))
    (layers : Node → LayersForward W (List α)) (root : Node) (session : UInt64) (net : Net Node S W)
    (pieces : List (List α)) (xs : List α) : Prop :=
  ∀ fuel, w.Unrefused buf layers ⟨fuel, 0, root,
    VirtualModelLayers.forwardReq session 0 (buf.toVec xs) (.ofNat xs.length) (.ofNat pieces.flatten.length), net⟩

/-- No usage service refuses a piece of the session, whatever pieces come before it. -/
def World.PassesFeeds {W : Type} [DecidableEq Node] (w : World Node S W N) (buf : TensorBuf (List α))
    (layers : Node → LayersForward W (List α)) (other : Net Node S W → Node × Part Node N → Net Node S W → Prop)
    (root : Node) (session : UInt64) (net : Net Node S W) : Prop :=
  ∀ es net' pieces answers, w.Feeds buf layers other root session net es net' pieces answers →
    ∀ xs, w.PassesNext buf layers root session net' pieces xs

theorem World.passesFeeds_passthrough {W : Type} [DecidableEq Node] {w : World Node S W N} {buf : TensorBuf (List α)}
    {layers : Node → LayersForward W (List α)} {other : Net Node S W → Node × Part Node N → Net Node S W → Prop}
    {root : Node} {session : UInt64} {net : Net Node S W} (husage : ∀ n, w.usage n = passthroughUsageService S) :
    w.PassesFeeds buf layers other root session net := by
  intro es net' pieces answers _ xs fuel x _ container _
  rw [husage]
  exact ⟨_, _, rfl⟩

/-- Nor does an `OnChainService`, after a START of the root. -/
theorem OnChainWorld.passesFeeds {Address SecretKey PublicKey W : Type} [DecidableEq Node]
    {w : World Node (OnChainState Address PublicKey) W N} {acct : Node → OnChainAccount Address SecretKey PublicKey}
    {codec : MetadataCodec Address PublicKey} {scheme : Ed25519 SecretKey PublicKey} {buf : TensorBuf (List α)}
    {layers : Node → LayersForward W (List α)} {root : Node} {session : UInt64} {maxLen : UInt32}
    {net net₁ : Net Node (OnChainState Address PublicKey) W} {es : List (Node × Part Node N)} {res : StartRes}
    {starts : List (Visit Node (OnChainState Address PublicKey) W StartReq StartRes)} (hw : OnChainWorld w acct codec)
    (hscheme : SharedScheme acct scheme)
    (hstart : Served w.startFirst w.startLast (w.Other buf layers (chatIds starts) session) 0 root
      (VirtualModelLayers.startReq session maxLen) net es res net₁ starts)
    (hsuccess : res.success = true) (hnodup : (chatIds starts).Nodup) (hlen : starts.length ≤ 2 ^ 32) :
    w.PassesFeeds buf layers (w.Other buf layers (chatIds starts) session) root session net₁ := by
  have hlinked : Linked session root session (starts.map Visit.hop) := World.start_linked hstart hsuccess
  have hkeys := hw.start_registers_root hstart rfl rfl hlen
  have hhops : (starts.map Visit.hop).tail.map Hop.node = starts.tail.map Visit.node := by
    rw [← List.map_tail, List.map_map]
    rfl
  rw [← hhops] at hkeys
  intro es₁ net₂ pieces answers hfeeds xs fuel
  have hkept : InPlace net₂ (starts.map Visit.hop) ∧ ∀ x, (net₂ x).usage.rootPks.getClone session =
      (net₁ x).usage.rootPks.getClone session := by
    induction hfeeds with
    | none => exact ⟨World.start_inPlace hstart hnodup, fun _ => rfl⟩
    | more hbefore hserved hdone hanswer ih =>
      obtain ⟨hplace, hrootPks⟩ := ih
      exact ⟨hplace.of_sessions_eq fun g hg => World.forward_sessions hserved (World.hop_session_mem hg) g.node,
        fun x => (hw.forward_rootPks hserved x).trans (hrootPks x)⟩
  exact hw.unrefused hscheme hlinked hkept.1 (hkeys.of_rootPks_eq hkept.2) rfl (by rwa [List.length_map])

namespace CacheWorld

variable [DecidableEq Node] {w : World Node S (SharedHashMap UInt64 K) N} {buf : TensorBuf (List α)}
  {layers : Node → LayersForward (SharedHashMap UInt64 K) (List α)} {new : Node → K}
  {stage : Node → UInt32 → CachedStage α K} {ids : List UInt64} {chat : UInt64} {hop : ℕ} {n : Node}
  {net net' : Net Node S (SharedHashMap UInt64 K)} {es : List (Node × Part Node N)}
  {rows : Hop Node → List α → List α → List α} {after : Node → List α → K} {max : UInt32} {before xs : List α}

/-- What is stored for the other sessions of a chain is there after a part for the first one. -/
theorem entries_of_begin (hw : CacheWorld w layers new fun n => staged (stage n)) {req : ForwardReq} {progress : Progress Node ForwardReq ForwardRes}
    {ctx : UInt64} {st : NodeState Node S (SharedHashMap UInt64 K)}
    (hfirst : w.forwardFirst buf layers hop n req (net n) = (.ok (ctx, progress), st)) {t : UInt64} (ht : req.session ≠ t)
    (m : Node) : (Function.update net n st m).entry t = (net m).entry t := by
  obtain ⟨part, hpart, hdoes⟩ := (World.forward_parts w buf layers).first hop n req net _ st hfirst
  rw [hdoes]
  refine hw.local_entry (n, part) net m t fun _ hsession => ht ?_
  rw [hpart] at hsession
  exact Option.some.inj hsession

/-- Others leave a chain as it has been fed. -/
theorem rows_of_run (hw : CacheWorld w layers new fun n => staged (stage n)) {hs : List (Hop Node)} (hids : ∀ g ∈ hs, g.session ∈ ids)
    (hrun : Run (w.Other buf layers ids chat) net es net') (hplace : InPlace net hs) (hfed : ChainFed max rows after net hs before) :
    InPlace net' hs ∧ ChainFed max rows after net' hs before := by
  have hentry : ∀ g ∈ hs, (net' g.node).entry g.session = (net g.node).entry g.session :=
    fun g hg => hw.local_entry.run hrun (hids g hg)
  exact ⟨hplace.of_sessions_eq fun g hg => congrArg Prod.fst (hentry g hg),
    hfed.of_caches_eq fun g hg => congrArg Prod.snd (hentry g hg)⟩

/-- The first part of a forward at the first hop of a chain that has been fed rows: what is stored for the chain
afterwards, and what the hop answers or sends on. -/
theorem begin_rows (hw : CacheWorld w layers new fun n => staged (stage n)) {g : Hop Node} {hs : List (Hop Node)}
    (hcomputes : Computes (stage g.node) max (after g.node) g.localRange (rows g)) {req req' : ForwardReq} {res : ForwardRes}
    {ctx c : UInt64} {next : Option (Downstream Node ForwardReq)} {st : NodeState Node S (SharedHashMap UInt64 K)}
    (hlinked : Linked c n req.session (g :: hs)) (hnodup : ((g :: hs).map Hop.session).Nodup) (hplace : InPlace net (g :: hs))
    (hfed : ChainFed max rows after net (g :: hs) before) (hreq : req.Carries buf before xs)
    (hfirst : w.forwardFirst buf layers hop n req (net n) = (.ok (ctx, .proceed req' res next), st)) :
    InPlace (Function.update net n st) hs ∧ ChainFed max rows after (Function.update net n st) hs (rows g [] before) ∧
      Kept max (after n) g.localRange (before ++ xs) (st.layers.getClone req.session) ∧
      match next with
      | none => hs = [] ∧ res.embedding = buf.toVec (rows g before xs)
      | some d => Linked c d.dest d.req.session hs ∧ d.req.embedding = buf.toVec (rows g before xs) ∧
        d.req.seqLen = .ofNat xs.length ∧ d.req.indexPos = .ofNat before.length := by
  obtain ⟨rfl, hsession, container, hcontainer, hremote⟩ := hlinked.head
  have hrange : g.localRange = container.localRange := by simp [Hop.localRange, hcontainer]
  have hstored : (net g.node).sessions.getClone req.session = some container := by
    rw [← hcontainer, ← hsession]
    exact hplace g List.mem_cons_self
  have hkept := hfed.1
  rw [hrange] at hcomputes hkept
  rw [hsession] at hkept
  have hothers : ∀ g' ∈ hs, ((Function.update net g.node st) g'.node).entry g'.session = (net g'.node).entry g'.session := by
    refine fun g' hg' => hw.entries_of_begin hfirst ?_ g'.node
    rw [List.map_cons, List.nodup_cons] at hnodup
    intro hsame
    exact hnodup.1 (hsession.trans hsame ▸ List.mem_map_of_mem hg')
  unfold World.forwardFirst at hfirst
  rw [hw.layers] at hfirst
  obtain ⟨hafter, hnext⟩ := ModelService.forwardBegin_rows hcomputes hreq hstored hkept hfirst
  refine ⟨hplace.tail.of_sessions_eq fun g' hg' => congrArg Prod.fst (hothers g' hg'),
    hfed.2.of_caches_eq fun g' hg' => congrArg Prod.snd (hothers g' hg'), hrange ▸ hafter, ?_⟩
  cases next with
  | none =>
    rcases hremote with ⟨-, rfl⟩ | ⟨d, s', hsome, -⟩
    · exact ⟨rfl, hnext.2⟩
    · rw [hnext.1] at hsome
      cases hsome
  | some d =>
    rcases hremote with ⟨hnone, -⟩ | ⟨d', s', hsome, hlinked'⟩
    · rw [hnext.1] at hnone
      cases hnone
    · rw [hnext.1] at hsome
      cases hsome
      exact ⟨hlinked', hnext.2⟩

/-- A forward that succeeds along a chain that has been fed rows gives what all its hops together make of those that
follow. -/
theorem forward_rows (hw : CacheWorld w layers new fun n => staged (stage n)) (hcausal : ∀ g, Causal (rows g)) {c : UInt64} {hs : List (Hop Node)}
    (hcomputes : ∀ g ∈ hs, Computes (stage g.node) max (after g.node) g.localRange (rows g)) {req : ForwardReq}
    {res : ForwardRes} {vs : List (Visit Node S (SharedHashMap UInt64 K) ForwardReq ForwardRes)}
    (hlinked : Linked c n req.session hs)
    (h : Served (w.forwardFirst buf layers) w.forwardLast (w.Other buf layers ids chat) hop n req net es res net' vs)
    (hsuccess : res.success = true) (hids : ∀ g ∈ hs, g.session ∈ ids) (hnodup : (hs.map Hop.session).Nodup)
    (hplace : InPlace net hs) (hfed : ChainFed max rows after net hs before) (hreq : req.Carries buf before xs) :
    res.embedding = buf.toVec (throughLayers rows hs before xs) ∧ ChainFed max rows after net' hs (before ++ xs) := by
  induction hs generalizing hop n req net net' es vs before xs with
  | nil => cases hlinked
  | cons g hs ih =>
    have hhead := hids g List.mem_cons_self
    cases h with
    | replies hbefore hfirst =>
      obtain rfl := ModelService.forwardBegin_reply hfirst
      cases hsuccess
    | @ends _ _ _ req' _ net₀ net₁ _ es es' ctx res _ st hbefore hfirst hmeanwhile hlast =>
      obtain ⟨hplace₀, hfed₀⟩ := hw.rows_of_run hids hbefore hplace hfed
      obtain ⟨-, -, hafter, rfl, hrows⟩ := hw.begin_rows (hcomputes g List.mem_cons_self) hlinked hnodup hplace₀ hfed₀ hreq hfirst
      obtain ⟨rfl, hsession, -⟩ := hlinked.head
      rw [World.finishAt_forwardLast] at hlast
      obtain ⟨rfl, rfl⟩ : res = _ ∧ net₁ = net' := by simpa using hlast
      have hkept : (net₁ g.node).entry g.session = st.entry g.session := by
        rw [hw.local_entry.run hmeanwhile hhead, Function.update_self]
      have hcache : (net₁ g.node).layers.getClone g.session = st.layers.getClone g.session := congrArg Prod.snd hkept
      refine ⟨hrows, ?_, trivial⟩
      rw [hcache, hsession]
      exact hafter
    | @answered _ _ _ req' _ net₀ net₁ net₂ _ es es₁ es₂ ctx res₀ answer _ d st vs hbefore hfirst hrest hmeanwhile hlast =>
      obtain ⟨hplace₀, hfed₀⟩ := hw.rows_of_run hids hbefore hplace hfed
      obtain ⟨hplace₁, hfed₁, hafter, hlinked', hrows, hlen, hpos⟩ :=
        hw.begin_rows (hcomputes g List.mem_cons_self) hlinked hnodup hplace₀ hfed₀ hreq hfirst
      obtain ⟨rfl, hsession, -⟩ := hlinked.head
      rw [World.finishAt_forwardLast] at hlast
      obtain ⟨rfl, rfl⟩ : answer = res ∧ net₂ = net' := by simpa using hlast
      have hids' : ∀ g' ∈ hs, g'.session ∈ ids := fun g' hg' => hids g' (List.mem_cons_of_mem _ hg')
      have hreq' : d.req.Carries buf (rows g [] before) (rows g before xs) :=
        ⟨(hcausal g).follows hreq.follows, hrows, by rw [hlen, (hcausal g).length], by rw [hpos, (hcausal g).length]⟩
      obtain ⟨hres, hfed'⟩ := ih (fun g' hg' => hcomputes g' (List.mem_cons_of_mem _ hg')) hlinked' hrest hids'
        hnodup.of_cons hplace₁ hfed₁ hreq'
      rw [← (hcausal g).split] at hfed'
      -- the rest of the chain has other sessions
      have hothers : ∀ v ∈ vs, (v.node, v.req.session) ≠ (g.node, g.session) := by
        intro v hv heq
        obtain ⟨g', hg', hplaces⟩ := exists_mem_of_map_eq (World.forward_follows hlinked' hrest hsuccess hids' hplace₁) v hv
        have hsame : g'.session = v.req.session := congrArg (fun p => p.2.1) hplaces
        rw [List.map_cons, List.nodup_cons] at hnodup
        exact hnodup.1 ((Prod.mk.inj heq).2 ▸ hsame ▸ List.mem_map_of_mem hg')
      have hkept : (net₂ g.node).entry g.session = st.entry g.session := by
        rw [hw.local_entry.run hmeanwhile hhead,
          (World.forward_parts w buf layers).frame hw.local_entry hrest hhead hothers, Function.update_self]
      have hcache : (net₂ g.node).layers.getClone g.session = st.layers.getClone g.session := congrArg Prod.snd hkept
      refine ⟨hres, ?_, hfed'.of_caches_eq fun g' hg' => congrArg Prod.snd (hw.local_entry.run hmeanwhile (hids' g' hg'))⟩
      rw [hcache, hsession]
      exact hafter

/-- A forward that no usage service refuses, with rows that fit, is served along the chain. -/
theorem forward_served (hw : CacheWorld w layers new fun n => staged (stage n))
    (hcausal : ∀ g, Causal (rows g)) {c : UInt64} {hs : List (Hop Node)}
    (hcomputes : ∀ g ∈ hs, Computes (stage g.node) max (after g.node) g.localRange (rows g)) {req : ForwardReq}
    (hlinked : Linked c n req.session hs) (hnodup : (hs.map Hop.session).Nodup) (hplace : InPlace net hs)
    (hfed : ChainFed max rows after net hs before) (hreq : req.Carries buf before xs)
    (hpass : ∀ fuel, w.Unrefused buf layers ⟨fuel, hop, n, req, net⟩)
    (hfits : before.length + xs.length ≤ max.toNat) : ∃ res net' vs, res.success = true ∧
      Served (w.forwardFirst buf layers) w.forwardLast (w.Other buf layers ids chat) hop n req net [] res net' vs := by
  induction hs generalizing hop n req net before xs with
  | nil => cases hlinked
  | cons g hs ih =>
    obtain ⟨rfl, hsession, container, hcontainer, -⟩ := hlinked.head
    have hrange : g.localRange = container.localRange := by simp [Hop.localRange, hcontainer]
    have hstored : (net g.node).sessions.getClone req.session = some container := by
      rw [← hcontainer, ← hsession]
      exact hplace g List.mem_cons_self
    have hkept := hfed.1
    rw [hrange, hsession] at hkept
    obtain ⟨req', res, next, st, hbegin, hsuccess⟩ := ModelService.forwardBegin_fits
      (hrange ▸ hcomputes g List.mem_cons_self) hreq hstored ((hpass 0).letsPass container hstored) hkept hfits
    have hfirst : w.forwardFirst buf layers hop g.node req (net g.node) = (.ok (container.chatId, .proceed req' res next), st) := by
      unfold World.forwardFirst
      rw [hw.layers]
      exact hbegin
    obtain ⟨hplace₁, hfed₁, -, hnext⟩ := hw.begin_rows (hcomputes g List.mem_cons_self) hlinked hnodup hplace hfed hreq hfirst
    cases next with
    | none => exact ⟨res, _, _, hsuccess rfl, .ends .nil hfirst .nil (World.finishAt_forwardLast w g.node _ _ _ _)⟩
    | some next =>
      obtain ⟨hlinked', hrows, hlen, hpos⟩ := hnext
      have hreq' : next.req.Carries buf (rows g [] before) (rows g before xs) :=
        ⟨(hcausal g).follows hreq.follows, hrows, by rw [hlen, (hcausal g).length], by rw [hpos, (hcausal g).length]⟩
      have hpass' : ∀ fuel, w.Unrefused buf layers
          ⟨fuel, hop + 1, next.dest, next.req, Function.update net g.node st⟩ :=
        fun fuel => (hpass (fuel + 1)).next ⟨Nat.succ_ne_zero fuel, hfirst⟩
      obtain ⟨answer, net', vs, hanswer, hrest⟩ := ih (fun g' hg' => hcomputes g' (List.mem_cons_of_mem _ hg')) hlinked'
        hnodup.of_cons hplace₁ hfed₁ hreq' hpass' (by rwa [(hcausal g).length, (hcausal g).length])
      exact ⟨answer, _, _, hanswer, .answered .nil hfirst hrest .nil (World.finishAt_forwardLast w g.node _ _ _ _)⟩

/-- A start with new session ids has fed nothing to its chain. -/
theorem start_fed (hw : CacheWorld w layers new fun n => staged (stage n)) (hcausal : ∀ g, Causal (rows g)) {req : StartReq} {res : StartRes}
    {vs : List (Visit Node S (SharedHashMap UInt64 K) StartReq StartRes)}
    (h : Served w.startFirst w.startLast (w.Other buf layers (chatIds vs) chat) hop n req net es res net' vs)
    (hnodup : (chatIds vs).Nodup) (hnew : ∀ m, ∀ t ∈ chatIds vs, (net m).entry t = (none, none))
    (hafter : ∀ g ∈ vs.map Visit.hop, g.localRange.isSome = true → new g.node = after g.node []) :
    ChainFed max rows after net' (vs.map Visit.hop) [] := by
  have hcaches : ∀ g ∈ vs.map Visit.hop, g.localRange.isSome = true →
      (net' g.node).layers.getClone g.session = some (after g.node []) := by
    intro g hg hlocal
    rw [← hafter g hg hlocal]
    obtain ⟨v, hv, rfl⟩ := List.mem_map.mp hg
    obtain ⟨hop', ctx, st, hfirst, hfound, hleft⟩ := (World.start_parts w buf layers).visit hw.local_entry h
      (fun v hv => List.mem_map_of_mem hv) (World.nodup_keys_of_chatIds hnodup) v hv
    rw [hnew v.node _ (List.mem_map_of_mem hv)] at hfound
    have hkept : (net' v.node).layers.getClone v.req.session = v.after.layers.getClone v.req.session :=
      congrArg Prod.snd hleft
    have hbegin : (ModelService.startBegin (w.usage v.node).toWorkerUsageService (cacheSessions (new v.node))
        (w.router hop' v.node) (w.rand hop') v.req st).2 = v.after := by
      rw [← hw.worker]
      exact congrArg Prod.snd hfirst
    rw [Visit.hop, hkept, ← hbegin]
    refine ModelService.startBegin_new (congrArg Prod.fst hfound) ?_
    rw [hbegin]
    exact hlocal
  generalize vs.map Visit.hop = hs at hcaches
  induction hs with
  | nil => trivial
  | cons g hs ih =>
    refine ⟨fun hsome => ⟨Nat.zero_le _, hcaches g List.mem_cons_self hsome⟩, ?_⟩
    rw [(hcausal g).nil]
    exact ih fun g' hg' => hcaches g' (List.mem_cons_of_mem _ hg')

/-- Pieces that follow each other, along a chain that has been fed nothing. -/
theorem feeds_rows (hw : CacheWorld w layers new fun n => staged (stage n)) (hcausal : ∀ g, Causal (rows g)) {root : Node} {session c : UInt64}
    {hs : List (Hop Node)} (hcomputes : ∀ g ∈ hs, Computes (stage g.node) max (after g.node) g.localRange (rows g))
    (hlinked : Linked c root session hs) (hids : ∀ g ∈ hs, g.session ∈ ids) (hnodup : (hs.map Hop.session).Nodup)
    (hplace : InPlace net hs) (hfed : ChainFed max rows after net hs []) {pieces answers : List (List α)}
    (h : w.Feeds buf layers (w.Other buf layers ids chat) root session net es net' pieces answers)
    (hfollow : MayFollowAll [] pieces) : InPlace net' hs ∧ ChainFed max rows after net' hs pieces.flatten ∧
      answers = pieceByPiece (throughLayers rows hs) [] pieces := by
  induction h with
  | none => exact ⟨hplace, hfed, rfl⟩
  | @more es es' net₁ net₂ pieces answers step xs ys res vs hbefore hserved hsuccess hanswer ih =>
    obtain ⟨hfollow₁, hfollows⟩ := mayFollowAll_snoc.mp hfollow
    obtain ⟨hplace₁, hfed₁, hanswers⟩ := ih hfollow₁
    obtain ⟨hres, hfed₂⟩ := hw.forward_rows hcausal hcomputes hlinked hserved hsuccess hids hnodup hplace₁ hfed₁
      ⟨hfollows, rfl, rfl, rfl⟩
    rw [hres, buf.roundTrip] at hanswer
    obtain rfl := Option.some.inj hanswer
    have hflatten : (pieces ++ [xs]).flatten = pieces.flatten ++ xs := by simp
    rw [hflatten, pieceByPiece_append, ← hanswers]
    exact ⟨hplace₁.of_sessions_eq fun g hg => World.forward_sessions hserved (hids g hg) g.node, hfed₂, rfl⟩

/-- A piece that fits and is not refused is answered, too. -/
theorem feeds_more (hw : CacheWorld w layers new fun n => staged (stage n))
    (hcausal : ∀ g, Causal (rows g)) {root : Node} {session c : UInt64} {hs : List (Hop Node)}
    (hcomputes : ∀ g ∈ hs, Computes (stage g.node) max (after g.node) g.localRange (rows g)) (hlinked : Linked c root session hs)
    (hids : ∀ g ∈ hs, g.session ∈ ids) (hnodup : (hs.map Hop.session).Nodup) (hplace : InPlace net hs)
    (hfed : ChainFed max rows after net hs []) {pieces answers : List (List α)}
    (h : w.Feeds buf layers (w.Other buf layers ids chat) root session net es net' pieces answers)
    (hfollow : MayFollowAll [] (pieces ++ [xs])) (hpass : w.PassesNext buf layers root session net' pieces xs)
    (hfits : (pieces ++ [xs]).flatten.length ≤ max.toNat) :
    ∃ net'' ys, w.Feeds buf layers (w.Other buf layers ids chat) root session net es net'' (pieces ++ [xs]) (answers ++ [ys]) := by
  obtain ⟨hfollow₁, hfollows⟩ := mayFollowAll_snoc.mp hfollow
  obtain ⟨hplace₁, hfed₁, -⟩ := hw.feeds_rows hcausal hcomputes hlinked hids hnodup hplace hfed h hfollow₁
  rw [List.flatten_append, List.flatten_singleton, List.length_append] at hfits
  have hcarries : (VirtualModelLayers.forwardReq session 0 (buf.toVec xs) (.ofNat xs.length)
      (.ofNat pieces.flatten.length)).Carries buf pieces.flatten xs := ⟨hfollows, rfl, rfl, rfl⟩
  obtain ⟨res, net'', vs, hsuccess, hserved⟩ := hw.forward_served hcausal hcomputes hlinked hnodup hplace₁ hfed₁ hcarries
    hpass hfits
  have hrows := (hw.forward_rows hcausal hcomputes hlinked hserved hsuccess hids hnodup hplace₁ hfed₁ hcarries).1
  have hanswer := buf.roundTrip (throughLayers rows hs pieces.flatten xs)
  rw [← hrows] at hanswer
  have hmore := World.Feeds.more h hserved hsuccess hanswer
  rw [List.append_nil] at hmore
  exact ⟨net'', _, hmore⟩

end CacheWorld

theorem Plan.loaded {ranges : Node → Range} {k : ℕ} {n : Node} {s : UInt64} {f : ℕ} {hs : List (Hop Node)}
    (h : Plan (fun _ => ranges) N k n s f hs) :
    ∀ g ∈ hs, g.localRange.isSome = true → (ranges g.node).start < (ranges g.node).stop ∧ (ranges g.node).stop ≤ N := by
  induction h with
  | last hstart hf hstop =>
    intro g hg hsome
    obtain rfl := List.mem_singleton.mp hg
    simp only
    omega
  | handOver hstart hf hstop hrest ih =>
    intro g hg hsome
    rcases List.mem_cons.mp hg with rfl | hg
    · simp only
      omega
    · exact ih g hg hsome
  | relay hnot hf hrest ih =>
    intro g hg hsome
    rcases List.mem_cons.mp hg with rfl | hg
    · simp [Hop.localRange] at hsome
    · exact ih g hg hsome

section Llama

variable {F : Type} {d : LlamaDims} {k : Kernels F} {vb : ℕ → Block d F}
  {numHiddenLayers : ℕ} {ranges : Node → Range} {w : World Node S (SharedHashMap UInt64 (LlamaCache d F)) N}
  {layers : Node → LayersForward (SharedHashMap UInt64 (LlamaCache d F)) (List (Row F d.hiddenSize))}
  {buf : TensorBuf (List (Row F d.hiddenSize))}

/-- Nodes that have loaded the layers of their ranges, and whose usage services let every end pass. -/
structure LlamaWorld (k : Kernels F) (vb : ℕ → Block d F) (numHiddenLayers : ℕ) (ranges : Node → Range)
    (w : World Node S (SharedHashMap UInt64 (LlamaCache d F)) N)
    (layers : Node → LayersForward (SharedHashMap UInt64 (LlamaCache d F)) (List (Row F d.hiddenSize))) : Prop where
  worker : ∀ n, w.worker n = (llamaLayersWorker k (loadLayers vb (ranges n)) numHiddenLayers).sessions
  layers : ∀ n, layers n = (llamaLayersWorker k (loadLayers vb (ranges n)) numHiddenLayers).forward
  ranges : ∀ hop n, (w.router hop n).localLayers = ranges n
  passesEnd : ∀ n, (w.usage n).PassesEnd

/-- A session with new ids, for which a start of the root has made a chain that enters every node at its first layer. -/
structure World.Opens {W : Type} [DecidableEq Node] (w : World Node S (SharedHashMap UInt64 W) N) (ranges : Node → Range)
    (other : Net Node S (SharedHashMap UInt64 W) → Node × Part Node N → Net Node S (SharedHashMap UInt64 W) → Prop)
    (root : Node) (session : UInt64) (maxLen : UInt32)
    (starts : List (Visit Node S (SharedHashMap UInt64 W) StartReq StartRes)) (net : Net Node S (SharedHashMap UInt64 W))
    (es : List (Node × Part Node N)) (net' : Net Node S (SharedHashMap UInt64 W)) : Prop where
  served : ∃ res : StartRes, res.success = true ∧
    Served w.startFirst w.startLast other 0 root (VirtualModelLayers.startReq session maxLen) net es res net' starts
  nodup : (chatIds starts).Nodup
  new : ∀ m, ∀ t ∈ chatIds starts, (net m).entry t = (none, none)
  enters : EntersAtStart ranges (starts.map Visit.hop)

theorem World.Opens.nodup_sessions {W : Type} [DecidableEq Node] {w : World Node S (SharedHashMap UInt64 W) N}
    {other : Net Node S (SharedHashMap UInt64 W) → Node × Part Node N → Net Node S (SharedHashMap UInt64 W) → Prop}
    {root : Node} {session : UInt64} {maxLen : UInt32} {starts : List (Visit Node S (SharedHashMap UInt64 W) StartReq StartRes)}
    {net net' : Net Node S (SharedHashMap UInt64 W)} {es : List (Node × Part Node N)}
    (h : w.Opens ranges other root session maxLen starts net es net') : ((starts.map Visit.hop).map Hop.session).Nodup := by
  rw [World.map_hop_session]
  exact h.nodup

namespace LlamaWorld

theorem cacheWorld (hw : LlamaWorld k vb numHiddenLayers ranges w layers) :
    CacheWorld w layers (fun _ => .new d F true numHiddenLayers) fun n =>
      staged fun _ => llamaForward (loadLayers vb (ranges n)) k :=
  ⟨hw.worker, hw.layers, hw.passesEnd⟩

/-- What layer `l` makes of rows. -/
def layerRows {k : Kernels F} (r : k.ByRow) (vb : ℕ → Block d F) (l : ℕ) : List (Row F d.hiddenSize) → List (Row F d.hiddenSize) →
    List (Row F d.hiddenSize) := along ((vb l).rowAfter r)

theorem rowsThrough_loadLayers {k : Kernels F} (r : k.ByRow) (vb : ℕ → Block d F) (range : Range) :
    rowsThrough r (loadLayers vb range) = throughLayers (layerRows r vb) range.layers := by
  funext before xs
  exact throughLayers_map vb range.layers before xs

/-- A hop of a chain, with its layers. -/
theorem computes (r : k.ByRow) (hcut : d.numKeyValueHeads ≤ d.maxPositionEmbeddings.toNat) (g : Hop Node)
    (hloaded : g.localRange.isSome = true → (ranges g.node).start < (ranges g.node).stop) :
    Computes (fun _ => llamaForward (loadLayers vb (ranges g.node)) k) d.maxPositionEmbeddings (.after r (loadLayers vb (ranges g.node)) numHiddenLayers) g.localRange
      (g.rows ranges (layerRows r vb)) where
  incremental hsome := by
    have hne : loadLayers vb (ranges g.node) ≠ [] := by
      have hlt := hloaded hsome
      rw [← List.length_pos_iff, loadLayers, List.length_map, Range.layers, List.length_range']
      omega
    have hinc := incremental_llamaForward r hcut hne numHiddenLayers
    have hrows : rowsThrough r (loadLayers vb (ranges g.node)) = g.rows ranges (layerRows r vb) := by
      rw [rowsThrough_loadLayers, Hop.rows, Hop.layers, if_pos hsome]
    rwa [hrows] at hinc
  idle hnone before xs := by simp [Hop.rows, Hop.layers, hnone, throughLayers]

theorem causal_rows {k : Kernels F} (r : k.ByRow) (vb : ℕ → Block d F) (ranges : Node → Range) (g : Hop Node) :
    Causal (g.rows ranges (layerRows r vb)) :=
  causal_throughLayers fun _ _ => causal_along _

/-- The hops of a chain that enters every node at its first layer are together one machine with all layers. -/
theorem rows_of_plan (r : k.ByRow) {session : UInt64} {root : Node} {hs : List (Hop Node)}
    (hplan : Plan (fun _ => ranges) N 0 root session 0 hs) (henters : EntersAtStart ranges hs) :
    throughLayers (fun g : Hop Node => g.rows ranges (layerRows r vb)) hs = rowsThrough r (loadLayers vb ⟨0, N⟩) := by
  have hexecuted : hs.flatMap (Hop.layers ranges) = List.range' 0 N := hplan.executed_of_entersAtStart henters
  have hcausal : ∀ l, Causal (layerRows r vb l) := fun l => causal_along _
  rw [rowsThrough_loadLayers, Range.layers, Nat.sub_zero, ← hexecuted]
  funext before xs
  exact (throughLayers_flatMap hcausal _ hs before xs).symm

section Session

variable [DecidableEq Node] {root : Node} {session : UInt64} {maxLen : UInt32}
  {starts : List (Visit Node S (SharedHashMap UInt64 (LlamaCache d F)) StartReq StartRes)}
  {net net₁ net₂ : Net Node S (SharedHashMap UInt64 (LlamaCache d F))} {es es₁ : List (Node × Part Node N)}
  {pieces answers : List (List (Row F d.hiddenSize))}

/-- The caches of the chain of a session. -/
def After {k : Kernels F} (r : k.ByRow) (vb : ℕ → Block d F) (numHiddenLayers : ℕ) (ranges : Node → Range) (n : Node) :
    List (Row F d.hiddenSize) → LlamaCache d F :=
  .after r (loadLayers vb (ranges n)) numHiddenLayers

variable (r : k.ByRow)

/-- What a session that is open has to offer to its forwards. -/
theorem opened (hw : LlamaWorld k vb numHiddenLayers ranges w layers) (hcut : d.numKeyValueHeads ≤ d.maxPositionEmbeddings.toNat)
    (hN : N ≤ numHiddenLayers)
    (hopen : w.Opens ranges (w.Other buf layers (chatIds starts) session) root session maxLen starts net es net₁) :
    Plan (fun _ => ranges) N 0 root session 0 (starts.map Visit.hop) ∧ Linked session root session (starts.map Visit.hop) ∧
      InPlace net₁ (starts.map Visit.hop) ∧
      ChainFed d.maxPositionEmbeddings (fun g => g.rows ranges (layerRows r vb)) (After r vb numHiddenLayers ranges) net₁
        (starts.map Visit.hop) [] ∧
      ∀ g ∈ starts.map Visit.hop, Computes (fun _ => llamaForward (loadLayers vb (ranges g.node)) k) d.maxPositionEmbeddings
        (After r vb numHiddenLayers ranges g.node) g.localRange (g.rows ranges (layerRows r vb)) := by
  obtain ⟨res, hsuccess, hserved⟩ := hopen.served
  have hplan := World.served_plan hserved hsuccess
  have hranges : w.ranges = fun _ => ranges := funext fun hop => funext fun n => hw.ranges hop n
  rw [hranges] at hplan
  have hloaded := hplan.loaded
  refine ⟨hplan, World.start_linked hserved hsuccess, World.start_inPlace hserved hopen.nodup, ?_, ?_⟩
  · refine hw.cacheWorld.start_fed (causal_rows r vb ranges) hserved hopen.nodup hopen.new fun g hg hsome => ?_
    refine LlamaCache.new_eq_after r ?_
    have hle := (hloaded g hg hsome).2
    rw [loadLayers, List.length_map, Range.layers, List.length_range']
    omega
  · exact fun g hg => computes r hcut g fun hsome => (hloaded g hg hsome).1

/-- What the chain of a session answers to pieces, which have fitted in. -/
theorem feeds_answers (hw : LlamaWorld k vb numHiddenLayers ranges w layers)
    (hcut : d.numKeyValueHeads ≤ d.maxPositionEmbeddings.toNat) (hN : N ≤ numHiddenLayers)
    (hopen : w.Opens ranges (w.Other buf layers (chatIds starts) session) root session maxLen starts net es net₁)
    (hfeeds : w.Feeds buf layers (w.Other buf layers (chatIds starts) session) root session net₁ es₁ net₂ pieces answers)
    (hfollow : MayFollowAll [] pieces) :
    answers = pieceByPiece (rowsThrough r (loadLayers vb ⟨0, N⟩)) [] pieces ∧
      pieces.flatten.length ≤ d.maxPositionEmbeddings.toNat ∧ loadLayers vb ⟨0, N⟩ ≠ [] := by
  obtain ⟨hplan, hlinked, hplace, hfed, hcomputes⟩ := hw.opened r hcut hN hopen
  have hids : ∀ g ∈ starts.map Visit.hop, g.session ∈ chatIds starts := fun g hg => World.hop_session_mem hg
  obtain ⟨-, hfed₂, hanswers⟩ := hw.cacheWorld.feeds_rows (causal_rows r vb ranges) hcomputes hlinked hids
    hopen.nodup_sessions hplace hfed hfeeds hfollow
  rw [rows_of_plan r hplan hopen.enters] at hanswers
  refine ⟨hanswers, ?_, ?_⟩
  · -- the last node of the chain has kept all rows
    obtain ⟨-, g, hlast, -, -, hlocal⟩ := hplan.last_hop
    exact hfed₂.length_le (causal_rows r vb ranges) (List.mem_of_getLast? hlast) (by rw [hlocal]; rfl)
  · have hpos := hplan.fromLayer_lt
    rw [← List.length_pos_iff, loadLayers, List.length_map, Range.layers, List.length_range']
    exact hpos

include r in
/-- Whatever chain the layers are spread over, and whatever other chats do in between, the answers to the pieces that a
root feeds are together the rows that one worker with all layers gives for all of them at once. -/
theorem distributed_eq_local (hw : LlamaWorld k vb numHiddenLayers ranges w layers)
    (hcut : d.numKeyValueHeads ≤ d.maxPositionEmbeddings.toNat) (hN : N ≤ numHiddenLayers)
    (hopen : w.Opens ranges (w.Other buf layers (chatIds starts) session) root session maxLen starts net es net₁)
    (hfeeds : w.Feeds buf layers (w.Other buf layers (chatIds starts) session) root session net₁ es₁ net₂ pieces answers)
    (hfollow : MayFollowAll [] pieces) (hpieces : pieces ≠ []) (s : SharedHashMap UInt64 (LlamaCache d F)) (session' : UInt64)
    (step' : UInt32) :
    rowsOf (answersOf (llamaLayersWorker k (loadLayers vb ⟨0, N⟩) numHiddenLayers).call
      (wholeCalls session' step' pieces.flatten) s) = some answers.flatten := by
  obtain ⟨hanswers, hle, hblocks⟩ := hw.feeds_answers r hcut hN hopen hfeeds hfollow
  have hlength : (loadLayers vb ⟨0, N⟩).length ≤ numHiddenLayers := by
    rwa [loadLayers, List.length_map, Range.layers, List.length_range', Nat.sub_zero]
  rw [rowsOf_wholeCalls (keyed_llamaLayersWorker k) (incremental_llamaForward r hcut hblocks numHiddenLayers)
    (LlamaCache.new_eq_after r hlength).symm session' step' (mayFollowAll_flatten hpieces hfollow) trivial, if_pos hle, hanswers,
    flatten_pieceByPiece (causal_rowsThrough r _)]

include r in
/-- A piece that fits in and that no usage service refuses is answered. -/
theorem distributed_answers (hw : LlamaWorld k vb numHiddenLayers ranges w layers)
    (hcut : d.numKeyValueHeads ≤ d.maxPositionEmbeddings.toNat) (hN : N ≤ numHiddenLayers)
    (hopen : w.Opens ranges (w.Other buf layers (chatIds starts) session) root session maxLen starts net es net₁)
    (hfeeds : w.Feeds buf layers (w.Other buf layers (chatIds starts) session) root session net₁ es₁ net₂ pieces answers)
    {xs : List (Row F d.hiddenSize)} (hfollow : MayFollowAll [] (pieces ++ [xs]))
    (hpass : w.PassesNext buf layers root session net₂ pieces xs)
    (hfits : (pieces ++ [xs]).flatten.length ≤ d.maxPositionEmbeddings.toNat) :
    ∃ net₃ ys, w.Feeds buf layers (w.Other buf layers (chatIds starts) session) root session net₁ es₁ net₃ (pieces ++ [xs])
      (answers ++ [ys]) := by
  obtain ⟨-, hlinked, hplace, hfed, hcomputes⟩ := hw.opened r hcut hN hopen
  have hids : ∀ g ∈ starts.map Visit.hop, g.session ∈ chatIds starts := fun g hg => World.hop_session_mem hg
  exact hw.cacheWorld.feeds_more (causal_rows r vb ranges) hcomputes hlinked hids hopen.nodup_sessions hplace hfed hfeeds
    hfollow hpass hfits

end Session

end LlamaWorld

end Llama

instance encodableWithBotRat : Encodable (WithBot ℚ) := inferInstanceAs (Encodable (Option ℚ))

/-- Bytes for whatever can be counted. -/
def countedBuf (α : Type) [Encodable α] : TensorBuf α where
  toVec x := List.replicate (Encodable.encode x) 0
  toTensor bytes := Encodable.decode bytes.length
  roundTrip x := by rw [List.length_replicate, Encodable.encodek]

/-- The layers of two nodes, three of one kind. -/
def meanRanges (n : Bool) : Range := if n then ⟨2, 3⟩ else ⟨0, 2⟩

def meanWorker (n : Bool) : LayersWorker (SharedHashMap UInt64 (LlamaCache oneNumber (WithBot ℚ))) (List (Row (WithBot ℚ) 1)) :=
  llamaLayersWorker evenKernels (loadLayers (fun _ => meanBlock) (meanRanges n)) 3

def meanWorld : World Bool Unit (SharedHashMap UInt64 (LlamaCache oneNumber (WithBot ℚ))) 3 where
  usage _ := passthroughUsageService Unit
  worker n := (meanWorker n).sessions
  router := (pairWorld ⟨2, 3⟩).router
  rand := (pairWorld ⟨2, 3⟩).rand
  fate _ := .answered

theorem llamaWorld_mean : LlamaWorld evenKernels (fun _ => meanBlock) 3 meanRanges meanWorld fun n => (meanWorker n).forward :=
  ⟨fun _ => rfl, fun _ => rfl, pairWorld_localLayers ⟨2, 3⟩, fun _ => passthrough_passesEnd⟩

abbrev MeanVisits := List (Visit Bool Unit (SharedHashMap UInt64 (LlamaCache oneNumber (WithBot ℚ))) StartReq StartRes)

def meanNet : Net Bool Unit (SharedHashMap UInt64 (LlamaCache oneNumber (WithBot ℚ))) := fun _ => ⟨.new, .new, ()⟩

def meanBuf : TensorBuf (List (Row (WithBot ℚ) 1)) := countedBuf _

/-- What other chats than the one of these visits do. -/
def meanOther (starts : MeanVisits) : Net Bool Unit (SharedHashMap UInt64 (LlamaCache oneNumber (WithBot ℚ))) → Bool × Part Bool 3 →
    Net Bool Unit (SharedHashMap UInt64 (LlamaCache oneNumber (WithBot ℚ))) → Prop :=
  meanWorld.Other meanBuf (fun n => (meanWorker n).forward) (chatIds starts) 7

theorem opens_mean : ∃ starts net₁, meanWorld.Opens meanRanges (meanOther starts) false 7 10 starts meanNet [] net₁ := by
  let s := serve meanWorld.startFirst meanWorld.startLast (fun _ => .answered) 2 0 false (VirtualModelLayers.startReq 7 10) meanNet
  refine ⟨s.2.2, s.2.1, ⟨⟨true, []⟩, rfl, served_alone_iff.mpr ⟨2, rfl⟩⟩, by decide, fun _ _ _ => rfl, ?_⟩
  have hhops : s.2.2.map Visit.hop = [⟨false, 7, 0, some ⟨7, some ⟨0, 2⟩, some (true, 100)⟩⟩,
      ⟨true, 100, 2, some ⟨7, some ⟨2, 3⟩, none⟩⟩] := rfl
  rw [hhops]
  intro g hg hcontains
  rcases List.mem_cons.mp hg with rfl | hg
  · rfl
  · obtain rfl := List.mem_singleton.mp hg
    rfl

theorem passesFeeds_mean {starts : MeanVisits} {net₁ : Net Bool Unit (SharedHashMap UInt64 (LlamaCache oneNumber (WithBot ℚ)))} :
    meanWorld.PassesFeeds meanBuf (fun n => (meanWorker n).forward) (meanOther starts) false 7 net₁ :=
  World.passesFeeds_passthrough fun _ => rfl

theorem oneNumber_cut : oneNumber.numKeyValueHeads ≤ oneNumber.maxPositionEmbeddings.toNat := by decide

/-- Two pieces through both nodes. -/
theorem feeds_mean {starts : MeanVisits} {net₁ : Net Bool Unit (SharedHashMap UInt64 (LlamaCache oneNumber (WithBot ℚ)))}
    (hopen : meanWorld.Opens meanRanges (meanOther starts) false 7 10 starts meanNet [] net₁) :
    ∃ net₂ answers, meanWorld.Feeds meanBuf (fun n => (meanWorker n).forward) (meanOther starts) false 7 net₁ [] net₂
      [[rowOf 1, rowOf 2], [rowOf 3]] answers := by
  obtain ⟨-, hlinked, hplace, hfed, hcomputes⟩ := llamaWorld_mean.opened evenByRow oneNumber_cut (Nat.le_refl 3) hopen
  have hids : ∀ g ∈ starts.map Visit.hop, g.session ∈ chatIds starts := fun g hg => World.hop_session_mem hg
  have hrows := LlamaWorld.causal_rows evenByRow (fun _ => meanBlock) meanRanges
  have hnone : meanWorld.Feeds meanBuf (fun n => (meanWorker n).forward) (meanOther starts) false 7 net₁ [] net₁ [] [] := .none
  have hfirst : MayFollowAll [] ([] ++ [[rowOf 1, rowOf 2]]) := ⟨.inl ⟨rfl, by simp⟩, trivial⟩
  obtain ⟨net₂, ys, hone⟩ := llamaWorld_mean.cacheWorld.feeds_more hrows hcomputes hlinked hids
    hopen.nodup_sessions hplace hfed hnone hfirst (passesFeeds_mean _ _ _ _ hnone _) (by decide)
  have hsecond : MayFollowAll [] ([[rowOf 1, rowOf 2]] ++ [[rowOf 3]]) := mayFollowAll_alternating
  obtain ⟨net₃, zs, htwo⟩ := llamaWorld_mean.cacheWorld.feeds_more hrows hcomputes hlinked hids
    hopen.nodup_sessions hplace hfed hone hsecond (passesFeeds_mean _ _ _ _ hone _) (by decide)
  exact ⟨net₃, _, htwo⟩

theorem distributed_eq_local_mean : ∃ starts net₁ net₂ answers,
    meanWorld.Feeds meanBuf (fun n => (meanWorker n).forward) (meanOther starts) false 7 net₁ [] net₂
      [[rowOf 1, rowOf 2], [rowOf 3]] answers ∧
      rowsOf (answersOf (llamaLayersWorker evenKernels (loadLayers (fun _ => meanBlock) ⟨0, 3⟩) 3).call
        (wholeCalls 9 0 [rowOf 1, rowOf 2, rowOf 3]) .new) = some answers.flatten := by
  obtain ⟨starts, net₁, hopen⟩ := opens_mean
  obtain ⟨net₂, answers, hfeeds⟩ := feeds_mean hopen
  exact ⟨starts, net₁, net₂, answers, hfeeds, llamaWorld_mean.distributed_eq_local evenByRow oneNumber_cut (Nat.le_refl 3) hopen hfeeds
    mayFollowAll_alternating (List.cons_ne_nil _ _) .new 9 0⟩

theorem distributed_answers_mean : ∃ starts net₁ net₂ ys,
    meanWorld.Feeds meanBuf (fun n => (meanWorker n).forward) (meanOther starts) false 7 net₁ [] net₂
      [[rowOf 1, rowOf 2]] [ys] := by
  obtain ⟨starts, net₁, hopen⟩ := opens_mean
  have hnone : meanWorld.Feeds meanBuf (fun n => (meanWorker n).forward) (meanOther starts) false 7 net₁ [] net₁ [] [] := .none
  have hpass := passesFeeds_mean _ _ _ _ hnone [rowOf 1, rowOf 2]
  exact ⟨starts, net₁, llamaWorld_mean.distributed_answers evenByRow oneNumber_cut (Nat.le_refl 3) hopen .none
    ⟨.inl ⟨rfl, List.cons_ne_nil _ _⟩, trivial⟩ hpass (by decide)⟩

end Dllm
