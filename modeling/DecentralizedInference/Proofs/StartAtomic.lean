import DecentralizedInference.Proofs.PartitionPlan
import DecentralizedInference.Sanity.ChainCalls

/-! What a failed START leaves behind. `start` stores the container of its session before it
asks the layers worker and the next node, and no way out of it takes the container away
again, so only a request without a route leaves everything as it was. -/

namespace Dllm

theorem SharedHashMap.insert_eq_self_iff {K V : Type} [DecidableEq K] {m : SharedHashMap K V} {k : K} {v : V} :
    m.insert k v = m ↔ m.getClone k = some v := by
  refine ⟨fun h => ?_, fun h => ?_⟩
  · rw [← h]
    simp
  · ext1 k'
    rw [getClone_insert]
    split
    case isTrue hk => rw [hk, h]
    case isFalse => rfl

variable {Node S W : Type} {N : ℕ} [DecidableEq Node]

/-- Sessions and layers workers of all nodes are the same. -/
def SameSessions (net net' : Net Node S W) : Prop :=
  ∀ m, (net' m).sessions = (net m).sessions ∧ (net' m).layers = (net m).layers

namespace World

variable {w : World Node S W N}

/-- A start that ends before it has a route. -/
def TurnedAway (w : World Node S W N) (hop : ℕ) (n : Node) (req : StartReq) (st : NodeState Node S W) : Prop :=
  (∃ u, (w.usage n).preStart req st.usage = (.ok none, u)) ∨
    (∃ req' u, (w.usage n).preStart req st.usage = (.ok (some req'), u)) ∧
      (w.router hop n).selectNext req.fromLayer = .ok none

/-- A start at the only node of its chain, which has the same container already, and whose
layers worker does not change. -/
def Repeated (w : World Node S W N) (hop : ℕ) (n : Node) (req : StartReq) (st : NodeState Node S W) : Prop :=
  ∃ route, (w.router hop n).selectNext req.fromLayer = .ok (some route) ∧ route.remote = none ∧
    st.sessions.getClone req.session = some ⟨req.chatId, route.localRange, none⟩ ∧
    (route.localRange.isSome = true → ((w.worker n).start req.session st.layers).2 = st.layers)

/-- The second part of a start leaves sessions and layers workers alone. -/
theorem startLast_same {n : Node} {ctx : Unit} {req : StartReq} {answer : StartRes}
    {net net' : Net Node S W} {e : Ending StartRes}
    (h : finishAt w.startLast n ctx req answer net = (e, net')) : SameSessions net net' := by
  rw [finishAt_startLast, Prod.mk.injEq] at h
  obtain ⟨-, rfl⟩ := h
  exact fun m => update_usage net n m _

/-- The rest of a chain, however it ends, stores nothing under an id that none of its
requests has. -/
theorem runs_keep_session {s : UInt64} (m : Node) {c : Call Node S W StartReq}
    {e : Ending StartRes} {net : Net Node S W} {vs : List (Visit Node S W StartReq StartRes)}
    (h : Runs w.startFirst w.startLast w.fate c e net vs) (hs : c.req.session ≠ s)
    (hrand : ∀ k, c.hop ≤ k → k < c.hop + c.fuel → w.rand k ≠ s) :
    (net m).sessions.getClone s = (c.net m).sessions.getClone s := by
  refine h.keeps (I := fun net => (net m).sessions.getClone s = (c.net m).sessions.getClone s)
    (A := fun c => c.req.session ≠ s ∧ ∀ k, c.hop ≤ k → k < c.hop + c.fuel → w.rand k ≠ s)
    ?first ?next ?last ⟨hs, hrand⟩ rfl
  case first =>
    intro c' r st hA hI hfirst
    obtain ⟨r', -, hbegin⟩ := startFirst_beginning w hfirst
    have hst : st.sessions.getClone s = (c'.net c'.node).sessions.getClone s := by
      cases hbegin with
      | layersFailed => simp [Ne.symm hA.1]
      | proceeds => simp [Ne.symm hA.1]
      | _ => rfl
    unfold Call.begun
    by_cases hm : m = c'.node
    · subst hm
      rw [Function.update_self, hst]
      exact hI
    · rw [Function.update_of_ne hm]
      exact hI
  case next =>
    intro c' ctx req res d st hA hbegin
    obtain ⟨route, u, -, -, -, hnext, -⟩ := begins_proceed hbegin
    obtain ⟨r, -, rfl⟩ := Option.map_eq_some_iff.mp hnext.symm
    have hfuel := hbegin.1
    simp only [Call.next]
    exact ⟨hA.2 c'.hop le_rfl (by omega), fun k hk hlt => hA.2 k (by omega) (by omega)⟩
  case last =>
    intro c' ctx req res next st answer net e net' _ _ hI hlast
    rw [(startLast_same hlast m).1]
    exact hI

omit [DecidableEq Node] in
/-- The state of a node that has stored its container. -/
theorem getClone_container (sessions : SharedHashMap UInt64 (SessionContainer Node)) (req : StartReq)
    (route : RoutePath Node) (rs : UInt64) :
    (sessions.insert req.session (route.container req.chatId rs)).getClone req.session =
      some (route.container req.chatId rs) := by
  simp

/-- Where a failed start has left its first node: it was turned away and nothing has changed,
or its container is there; and if it had no next node, that and the layers worker's session
are all that has changed. -/
theorem start_cases {fuel hop : ℕ} {n : Node} {req : StartReq} {net net' : Net Node S W}
    {res : StartRes} {vs : List (Visit Node S W StartReq StartRes)}
    (h : w.start fuel hop n req net = (.returned res, net', vs))
    (hrand : ∀ k, hop ≤ k → k < hop + fuel → w.rand k ≠ req.session) :
    (w.TurnedAway hop n req (net n) ∧ SameSessions net net') ∨
      ∃ route, (∃ req' u, (w.usage n).preStart req (net n).usage = (.ok (some req'), u)) ∧
        (w.router hop n).selectNext req.fromLayer = .ok (some route) ∧
        (net' n).sessions.getClone req.session = some (route.container req.chatId (w.rand hop)) ∧
        (route.remote = none → ∃ u, SameSessions
          (Function.update net n ⟨(net n).sessions.insert req.session (route.container req.chatId (w.rand hop)),
            if route.localRange.isSome then ((w.worker n).start req.session (net n).layers).2
              else (net n).layers, u⟩) net') := by
  have hrun : Runs w.startFirst w.startLast w.fate ⟨fuel, hop, n, req, net⟩ (.returned res) net' vs :=
    runs_of_serve h
  -- the rest of the chain draws ids of its own
  have hrest : ∀ {d : Downstream Node StartReq} {st : NodeState Node S W} {md : List UInt8}
      {route : RoutePath Node} {e : Ending StartRes} {net₁ : Net Node S W} {vs' : List _},
      fuel ≠ 0 → some d = route.remote.map (req.next md (w.rand hop)) →
      Runs w.startFirst w.startLast w.fate (Call.next ⟨fuel, hop, n, req, net⟩ st d) e net₁ vs' →
      (net₁ n).sessions.getClone req.session = st.sessions.getClone req.session := by
    intro d st md route e net₁ vs' hfuel hd hruns
    obtain ⟨r, -, rfl⟩ := Option.map_eq_some_iff.mp hd.symm
    have hkeep := runs_keep_session n hruns (hrand hop le_rfl (by omega)) fun k hk hlt => by
      simp only [Call.next] at hk hlt
      exact hrand k (by omega) (by omega)
    rw [hkeep]
    simp [Call.next]
  cases hrun with
  | @replies _ ctx _ st hbegin =>
    obtain ⟨-, hb⟩ := begins_reply hbegin
    generalize hr : Except.ok (Progress.reply ModelService.startFailure) = r at hb
    cases hb with
    | panicked => cases hr
    | proceeds => cases hr
    | refused u hpre => exact .inl ⟨.inl ⟨u, hpre⟩, fun m => update_usage net n m u⟩
    | noRoute req' u hpre hroute => exact .inl ⟨.inr ⟨⟨req', u, hpre⟩, hroute⟩, fun m => update_usage net n m u⟩
    | layersFailed req' u route hpre hroute hlocal hfail =>
      refine .inr ⟨route, ⟨req', u, hpre⟩, hroute, ?_, fun _ => ⟨u, ?_⟩⟩
      · simp [Call.begun]
      · rw [if_pos hlocal]
        exact fun m => ⟨rfl, rfl⟩
  | @ends _ ctx req' res' st _ _ hbegin hlast =>
    obtain ⟨route, u, hpre, hroute, -, -, rfl⟩ := begins_proceed hbegin
    have hl := startLast_same hlast
    refine .inr ⟨route, ⟨_, u, hpre⟩, hroute, ?_, fun _ => ⟨u, hl⟩⟩
    rw [(hl n).1]
    simp [Call.begun]
  | @errorUnserved _ ctx req' res' d st _ _ hbegin _ hlast =>
    obtain ⟨route, u, hpre, hroute, -, hnext, rfl⟩ := begins_proceed hbegin
    refine .inr ⟨route, ⟨_, u, hpre⟩, hroute, ?_, fun hnone => by simp [hnone] at hnext⟩
    rw [(startLast_same hlast n).1]
    simp [Call.begun]
  | @errorServed _ ctx req' res' d st _ _ _ _ _ hbegin _ hruns hlast =>
    obtain ⟨route, u, hpre, hroute, -, hnext, rfl⟩ := begins_proceed hbegin
    refine .inr ⟨route, ⟨_, u, hpre⟩, hroute, ?_, fun hnone => by simp [hnone] at hnext⟩
    rw [(startLast_same hlast n).1, hrest hbegin.1 hnext hruns]
    exact getClone_container _ _ _ _
  | @answered _ ctx req' res' answer d st _ _ _ _ hbegin _ hruns hlast =>
    obtain ⟨route, u, hpre, hroute, -, hnext, rfl⟩ := begins_proceed hbegin
    refine .inr ⟨route, ⟨_, u, hpre⟩, hroute, ?_, fun hnone => by simp [hnone] at hnext⟩
    rw [(startLast_same hlast n).1, hrest hbegin.1 hnext hruns]
    exact getClone_container _ _ _ _

/-- A start whose ids are new leaves all sessions and layers workers as they were if and only
if it was turned away before it had a route, or has repeated at the only node of its chain
what was there already. -/
theorem sameSessions_iff {fuel hop : ℕ} {n : Node} {req : StartReq} {net net' : Net Node S W}
    {res : StartRes} {vs : List (Visit Node S W StartReq StartRes)}
    (h : w.start fuel hop n req net = (.returned res, net', vs))
    (hrand : ∀ k, hop ≤ k → k < hop + fuel → w.rand k ≠ req.session)
    (hnew : ∀ c d, (net n).sessions.getClone req.session = some c → c.remote ≠ some (d, w.rand hop)) :
    SameSessions net net' ↔ w.TurnedAway hop n req (net n) ∨ w.Repeated hop n req (net n) := by
  have hcases := start_cases h hrand
  refine ⟨fun hsame => ?_, fun hor => ?_⟩
  · rcases hcases with ⟨haway, -⟩ | ⟨route, -, hroute, hget, hnone⟩
    · exact .inl haway
    · -- the container was there before, so it names no session that was drawn now
      rw [(hsame n).1] at hget
      have hremote : route.remote = none := by
        by_contra hne
        obtain ⟨r, hr⟩ := Option.ne_none_iff_exists'.mp hne
        exact hnew _ r.dest hget (by simp [RoutePath.container, hr])
      obtain ⟨u, hlast⟩ := hnone hremote
      have hlayers := (hlast n).2
      rw [(hsame n).2, Function.update_self] at hlayers
      refine .inr ⟨route, hroute, hremote, ?_, fun hlocal => ?_⟩
      · simpa [RoutePath.container, hremote] using hget
      · simpa [hlocal] using hlayers.symm
  · rcases hcases with ⟨-, hsame⟩ | ⟨route, ⟨req', u, hpre⟩, hroute, -, hnone⟩
    · exact hsame
    · rcases hor with (⟨u', hno⟩ | ⟨-, hno⟩) | ⟨route', hroute', hremote, hget, hlayers⟩
      · rw [hpre] at hno
        cases hno
      · rw [hroute] at hno
        cases hno
      · obtain rfl : route = route' := by
          rw [hroute] at hroute'
          simpa using hroute'
        obtain ⟨u', hlast⟩ := hnone hremote
        have hinsert : (net n).sessions.insert req.session (route.container req.chatId (w.rand hop)) =
            (net n).sessions := by
          rw [SharedHashMap.insert_eq_self_iff, hget, RoutePath.container, hremote]
          rfl
        have hkept : (if route.localRange.isSome = true then ((w.worker n).start req.session (net n).layers).2
            else (net n).layers) = (net n).layers := by
          split
          · exact hlayers ‹_›
          · rfl
        rw [hinsert, hkept] at hlast
        have hfirst : SameSessions net (Function.update net n ⟨(net n).sessions, (net n).layers, u'⟩) :=
          fun m => update_usage net n m u'
        exact fun m => ⟨(hlast m).1.trans (hfirst m).1, (hlast m).2.trans (hfirst m).2⟩

/-- A start whose ids are new is atomic if and only if it succeeds, or was turned away before it had
a route, or has repeated at the only node of its chain what was there already. Whether or not
it succeeds, it changes sessions or layers workers except in the latter cases. -/
theorem start_same_sessions_iff {fuel hop : ℕ} {n : Node} {req : StartReq} {net net' : Net Node S W}
    {res : StartRes} {vs : List (Visit Node S W StartReq StartRes)}
    (h : w.start fuel hop n req net = (.returned res, net', vs))
    (hrand : ∀ k, hop ≤ k → k < hop + fuel → w.rand k ≠ req.session)
    (hnew : ∀ c d, (net n).sessions.getClone req.session = some c → c.remote ≠ some (d, w.rand hop)) :
    ((res.success = false → SameSessions net net') ↔
        res.success = true ∨ w.TurnedAway hop n req (net n) ∨ w.Repeated hop n req (net n)) ∧
      (SameSessions net net' ↔ w.TurnedAway hop n req (net n) ∨ w.Repeated hop n req (net n)) := by
  have hsame := sameSessions_iff h hrand hnew
  refine ⟨?_, hsame⟩
  cases res.success with
  | false => simpa using hsame
  | true => simp

end World

/-- The first node gets an RPC error for every START that it sends on. -/
def rpcErrorWorld : World Bool Unit LayerCaches 3 := { pairWorld ⟨2, 3⟩ with fate := fun _ => .errorUnserved }

/-- The START to the second node ends with an RPC error: the first node still has the
session and its cache. -/
theorem failed_start_leaves_session :
    ∃ net' vs, rpcErrorWorld.start 2 0 false rootStart emptyNet = (.returned ⟨false, []⟩, net', vs) ∧
      ¬SameSessions emptyNet net' ∧ (net' false).sessions.getClone 7 = some ⟨7, some ⟨0, 2⟩, some (true, 100)⟩ ∧
      (net' false).layers.getClone 7 = some () := by
  refine ⟨_, _, rfl, ?_, rfl, rfl⟩
  intro hsame
  have hnone := congrArg (fun m : SharedHashMap UInt64 Unit => m.getClone 7) (hsame false).2
  cases hnone

/-- No node knows a way. -/
def lonelyWorld : World Bool Unit LayerCaches 3 := { pairWorld ⟨2, 3⟩ with router := fun _ _ => .new ⟨1, 2⟩ }

theorem start_same_sessions_iff_no_route :
    ∃ net' vs, lonelyWorld.start 2 0 false rootStart emptyNet = (.returned ⟨false, []⟩, net', vs) ∧
      SameSessions emptyNet net' := by
  have h : lonelyWorld.start 2 0 false rootStart emptyNet = (.returned ⟨false, []⟩, _, _) := rfl
  have hrand : ∀ k, 0 ≤ k → k < 0 + 2 → lonelyWorld.rand k ≠ rootStart.session := by
    intro k _ hk
    have hids : ∀ k < 2, lonelyWorld.rand k ≠ rootStart.session := by decide
    exact hids k (by omega)
  refine ⟨_, _, h, (World.start_same_sessions_iff h hrand ?_).2.mpr (.inl (.inr ⟨⟨_, _, rfl⟩, rfl⟩))⟩
  intro c d hc
  cases hc

end Dllm
