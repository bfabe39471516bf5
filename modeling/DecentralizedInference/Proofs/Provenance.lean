import DecentralizedInference.Sanity.RouteNet

/-! Where route information comes from. Along any run of the network each entry of
each table goes back to a `create_sync` of a node that holds the last layers of
the model, carries the time of that call unchanged, and has paid `FAKE_RTT` for
every `apply_sync` on its way. Hence nothing that peers echo to each other can
outlive the last call of such a node by more than the route timeout. -/

namespace Dllm

variable {Node : Type} {N : ℕ} [DecidableEq Node]

/-- A local range that contains a layer and ends with the model. -/
def Range.Tail (N : ℕ) (r : Range) : Prop := r.start < r.stop ∧ r.stop = N

namespace RouteNet

/-- The info is what the trail makes of its origin's `create_sync`. -/
structure Genuine (N : ℕ) (ranges : Node → Range) (es : List (NetEvent Node)) (tr : Trail Node)
    (i : LayerRemoteInfo) : Prop where
  tail : (ranges tr.origin).Tail N
  created : .broadcast tr.origin tr.createdMs ∈ es
  lastUpdated : i.lastUpdated = tr.createdMs
  cost : i.cost = FAKE_RTT * tr.hops

/-- Every advertisement ever sent and every entry of every table is genuine, and
an entry has travelled at least one hop. -/
structure Traced (ranges : Node → Range) (es : List (NetEvent Node)) (σ : RouteNet Node N) :
    Prop where
  msgs : ∀ msg ∈ σ.sent, ∀ l < N, ∀ i, msg.sync.layers[l]? = some (some i) →
    Genuine N ranges es (msg.trail l) i
  entries : ∀ n (l : Fin N) d i, ((σ.tables n).remoteLayers l).remotes.lookup d = some i →
    Genuine N ranges es (σ.trail n l d) i ∧ 1 ≤ (σ.trail n l d).hops

omit [DecidableEq Node] in
theorem Genuine.mono {ranges : Node → Range} {es : List (NetEvent Node)} {tr : Trail Node}
    {i : LayerRemoteInfo} (h : Genuine N ranges es tr i) (e : NetEvent Node) :
    Genuine N ranges (es ++ [e]) tr i :=
  ⟨h.tail, List.mem_append_left _ h.created, h.lastUpdated, h.cost⟩

omit [DecidableEq Node] in
theorem Genuine.hop {ranges : Node → Range} {es : List (NetEvent Node)} {tr : Trail Node}
    {i : LayerRemoteInfo} (h : Genuine N ranges es tr i) :
    Genuine N ranges es tr.hop ⟨i.cost + FAKE_RTT, i.lastUpdated⟩ :=
  ⟨h.tail, h.created, h.lastUpdated, by simp [Trail.hop, h.cost, Nat.mul_add]⟩

/-- What a `create_sync` advertises is genuine: either it starts here, or it is
an entry of the sender's table. -/
theorem genuine_advertised {ranges : Node → Range} {es : List (NetEvent Node)}
    {σ : RouteNet Node N} (hsound : ∀ n, (σ.tables n).Sound (ranges n)) (h : Traced ranges es σ)
    {m : Node} {nowMs : ℕ} {s : RouteSync} (hs : (σ.tables m).createSync nowMs = .ok s)
    {l : ℕ} (hl : l < N) {i : LayerRemoteInfo} (hi : s.layers[l]? = some (some i)) :
    Genuine N ranges (es ++ [.broadcast m nowMs]) (σ.advertisedTrail m nowMs l) i := by
  obtain ⟨o, ho, hso⟩ := RouteTable.createSync_ok hs l hl
  rw [hso, Option.some.injEq, Option.map_eq_some_iff] at hi
  obtain ⟨p, rfl, rfl⟩ := hi
  have hr := (hsound m).localLayers
  rcases RouteTable.selectNext_cases ho with
    ⟨hstart, -, hstop, rfl⟩ | ⟨hlt, d, j, -, -, hnext, rfl⟩ | ⟨hlt, d, j, -, hnext, rfl⟩
  · have htr : σ.advertisedTrail m nowMs l = ⟨m, nowMs, 0⟩ := by simp [advertisedTrail, ho]
    rw [htr]
    refine ⟨⟨?_, ?_⟩, by simp, rfl, rfl⟩
    · rw [← hr]
      omega
    · rw [← hr, hstop]
  · have htr : σ.advertisedTrail m nowMs l = σ.trail m (σ.tables m).localLayers.stop d := by
      simp [advertisedTrail, ho]
    rw [htr]
    have hentry := ((hsound m).consistent ⟨_, hlt⟩).isEntry d j hnext
    exact ((h.entries m ⟨_, hlt⟩ d j hentry).1).mono _
  · have htr : σ.advertisedTrail m nowMs l = σ.trail m l d := by simp [advertisedTrail, ho]
    rw [htr]
    have hentry := ((hsound m).consistent ⟨_, hlt⟩).isEntry d j hnext
    exact ((h.entries m ⟨_, hlt⟩ d j hentry).1).mono _

/-- A call that adds no entry of its own keeps all entries traced. -/
theorem traced_call {ranges : Node → Range} {es : List (NetEvent Node)} {σ : RouteNet Node N}
    (h : Traced ranges es σ) (n : Node) (c : TableCall Node)
    (hkeep : ∀ (l : Fin N) d i, (((σ.tables n).call c).remoteLayers l).remotes.lookup d = some i →
      ((σ.tables n).remoteLayers l).remotes.lookup d = some i) (e : NetEvent Node) :
    Traced ranges (es ++ [e]) (σ.call n c) := by
  refine ⟨fun msg hm l hl i hi => (h.msgs msg hm l hl i hi).mono e, ?_⟩
  intro n' l d i hi
  have hold : ((σ.tables n').remoteLayers l).remotes.lookup d = some i := by
    by_cases hn : n' = n
    · subst hn
      simp only [RouteNet.call, Function.update_self] at hi
      exact hkeep l d i hi
    · simpa only [RouteNet.call, Function.update_of_ne hn] using hi
  obtain ⟨hg, hh⟩ := h.entries n' l d i hold
  exact ⟨hg.mono e, hh⟩

theorem traced_step {ranges : Node → Range} {es : List (NetEvent Node)} {σ σ' : RouteNet Node N}
    {e : NetEvent Node} (hsound : ∀ n, (σ.tables n).Sound (ranges n)) (h : Traced ranges es σ)
    (hs : Step σ e σ') : Traced ranges (es ++ [e]) σ' := by
  cases hs with
  | broadcast m nowMs s hs =>
    refine ⟨?_, fun n l d i hi => ⟨(h.entries n l d i hi).1.mono _, (h.entries n l d i hi).2⟩⟩
    intro msg hm l hl i hi
    rcases List.mem_append.mp hm with hm | hm
    · exact (h.msgs msg hm l hl i hi).mono _
    · obtain rfl := List.mem_singleton.mp hm
      exact genuine_advertised hsound h hs hl hi
  | deliver n k msg ord hmsg hfit =>
    refine ⟨fun msg' hm l hl i hi => (h.msgs msg' hm l hl i hi).mono _, ?_⟩
    intro n' l d i hi
    by_cases hn : n' = n
    · subst hn
      simp only [RouteNet.call, Function.update_self,
        RouteTable.lookup_call _ (.applySync msg.src FAKE_RTT msg.sync, ord) hfit,
        TableEvent.entry] at hi
      by_cases hd : d = msg.src
      · -- the entry the sync has just written: one hop more than its message
        subst hd
        simp only [if_true, Option.map_eq_some_iff, Option.join_eq_some_iff] at hi
        obtain ⟨j, hj, rfl⟩ := hi
        have hg := h.msgs msg (List.mem_of_getElem? hmsg) l l.isLt j hj
        simp only [received, and_self, if_true]
        exact ⟨hg.hop.mono _, by simp [Trail.hop]⟩
      · rw [if_neg hd] at hi
        obtain ⟨hg, hh⟩ := h.entries n' l d i hi
        simp only [received, hd, and_false, if_false]
        exact ⟨hg.mono _, hh⟩
    · simp only [RouteNet.call, Function.update_of_ne hn] at hi
      obtain ⟨hg, hh⟩ := h.entries n' l d i hi
      simp only [received, hn, false_and, if_false]
      exact ⟨hg.mono _, hh⟩
  | tick n nowMs ord hfit =>
    exact traced_call h n _ (RouteTable.lookup_of_call (by simp)) _
  | disconnected n m ord =>
    exact traced_call h n _ (RouteTable.lookup_of_call (by simp)) _

theorem traced_run {ranges : Node → Range} {es : List (NetEvent Node)} {σ : RouteNet Node N}
    (hrun : Run Step (init ranges) es σ) : Traced ranges es σ := by
  induction hrun with
  | nil => exact ⟨by simp [init], by simp [init, RouteTable.new, LayerRemotePaths.empty]⟩
  | snoc hrun hs ih => exact traced_step (sound_run hrun) ih hs

/-- A tick empties a layer all of whose entries have expired. -/
theorem emptied_by_tick {r : Range} {t : RouteTable Node N} (hsound : t.Sound r)
    {nowMs : ℕ} (hfit : t.Fits (.onTick nowMs)) (ord : ℕ → RemoteOrder Node) (l : Fin N)
    (hold : ∀ d i, (t.remoteLayers l).remotes.lookup d = some i →
      i.lastUpdated + ROUTE_TIMEOUT_MS ≤ nowMs) :
    ((t.onTick ord nowMs).remoteLayers l).remotes.entries = [] ∧
      ((t.onTick ord nowMs).remoteLayers l).next = none := by
  have hempty : ((t.onTick ord nowMs).remoteLayers l).remotes.entries = [] := by
    rw [AList.entries_eq_nil_iff]
    intro d
    by_contra hne
    obtain ⟨i, hi⟩ := Option.ne_none_iff_exists'.mp hne
    obtain ⟨hi, hnow⟩ := (LayerRemotePaths.lookup_onTick _ _ _ _ _).mp hi
    have hlow := hold d i hi
    rw [wrapAdd_of_lt (hfit l d i hi)] at hnow
    omega
  exact ⟨hempty, ((hsound.call (.onTick nowMs, ord)).consistent l).none_iff.mpr hempty⟩

/-- Every entry is the `create_sync` of a tail node, `hops` applications of
`FAKE_RTT` away; and once no tail node has called `create_sync` with a time above
`T`, a tick at `T + ROUTE_TIMEOUT_MS` or later leaves the ticking node no route. -/
theorem stale_routes_die (ranges : Node → Range) (es : List (NetEvent Node)) (σ : RouteNet Node N)
    (hrun : Run Step (init ranges) es σ) :
    (∀ n (l : Fin N) d i, ((σ.tables n).remoteLayers l).remotes.lookup d = some i →
      (ranges (σ.trail n l d).origin).Tail N ∧
      .broadcast (σ.trail n l d).origin (σ.trail n l d).createdMs ∈ es ∧
      i.lastUpdated = (σ.trail n l d).createdMs ∧
      1 ≤ (σ.trail n l d).hops ∧ i.cost = FAKE_RTT * (σ.trail n l d).hops) ∧
    (∀ T, (∀ m nowMs, (ranges m).Tail N → .broadcast m nowMs ∈ es → nowMs ≤ T) →
      ∀ n nowMs σ', T + ROUTE_TIMEOUT_MS ≤ nowMs → Step σ (.tick n nowMs) σ' → ∀ l,
        ((σ'.tables n).remoteLayers l).remotes.entries = [] ∧
          ((σ'.tables n).remoteLayers l).next = none) := by
  have htr := traced_run hrun
  refine ⟨?_, ?_⟩
  · intro n l d i hi
    obtain ⟨hg, hh⟩ := htr.entries n l d i hi
    exact ⟨hg.tail, hg.created, hg.lastUpdated, hh, hg.cost⟩
  · intro T hT n nowMs σ' hnow hs l
    cases hs with
    | tick _ _ ord hfit =>
      simp only [RouteNet.call, Function.update_self]
      refine emptied_by_tick (sound_run hrun n) hfit ord l ?_
      intro d i hi
      obtain ⟨hg, -⟩ := htr.entries n l d i hi
      have hcreated := hT _ _ hg.tail hg.created
      rw [hg.lastUpdated]
      omega

/-- A tail node whose clock is set back after its sync was delivered: its last
`create_sync` has time 0, and the entry of the earlier one survives a tick at 5000. -/
theorem clock_set_back_keeps_route :
    ¬ ∀ (ranges : ℕ → Range) (es : List (NetEvent ℕ)) (σ : RouteNet ℕ 1),
      Run Step (init ranges) es σ →
      ∀ T, (∀ m, (ranges m).Tail 1 → ∀ pre nowMs post, es = pre ++ .broadcast m nowMs :: post →
          (∀ t, .broadcast m t ∉ post) → nowMs ≤ T) →
        ∀ n nowMs σ', T + ROUTE_TIMEOUT_MS ≤ nowMs → Step σ (.tick n nowMs) σ' → ∀ l,
          ((σ'.tables n).remoteLayers l).remotes.entries = [] ∧
            ((σ'.tables n).remoteLayers l).next = none := by
  intro h
  have h0 : Run Step (init oneTail : RouteNet ℕ 1) [] _ := .nil
  have h1 := h0.snoc (.broadcast _ 0 10000 ⟨[some ⟨0, 10000⟩]⟩ rfl)
  have h2 := h1.snoc (.deliver _ 1 0 _ (fun _ => .asIs) rfl (fits_single _ _ _ _ (by decide)))
  have h3 := h2.snoc (.broadcast _ 0 0 ⟨[some ⟨0, 0⟩]⟩ rfl)
  have hlast := h oneTail _ _ h3 0 ?_ 1 5000 _ (by decide) (.tick _ 1 5000 (fun _ => .asIs) ?_) 0
  · exact absurd hlast.1 (by decide)
  · intro m hm pre nowMs post hes hpost
    obtain rfl : m = 0 := by
      by_contra hne
      simp [oneTail, hne, Range.Tail] at hm
    -- the event can only be the last one, the first is followed by another broadcast
    rcases List.snoc_eq_append_cons_iff.mp hes with ⟨-, -, he⟩ | ⟨post', rfl, -⟩
    · obtain ⟨-, rfl⟩ := NetEvent.broadcast.inj he
      exact le_rfl
    · exact absurd (by simp) (hpost 0)
  · intro l d i hi
    obtain rfl : l = 0 := Subsingleton.elim _ _
    have hd : d = 0 := by
      by_contra hne
      simp [call, RouteTable.call, RouteTable.applySync, LayerRemotePaths.lookup_applySync, hne, init, RouteTable.new, LayerRemotePaths.empty] at hi
    subst hd
    obtain rfl : (⟨50, 10000⟩ : LayerRemoteInfo) = i := Option.some.inj hi
    decide

/-- One hop away from the tail, an entry carries one `FAKE_RTT` and the tail's time. -/
theorem stale_routes_die_one_hop :
    ∃ es, ∃ σ : RouteNet ℕ 1, Run Step (init oneTail) es σ ∧
      ((σ.tables 1).remoteLayers 0).remotes.lookup 0 = some ⟨50, 7⟩ ∧
      (oneTail (σ.trail 1 0 0).origin).Tail 1 ∧ 50 = FAKE_RTT * (σ.trail 1 0 0).hops := by
  have h0 : Run Step (init oneTail : RouteNet ℕ 1) [] _ := .nil
  have h1 := h0.snoc (.broadcast _ 0 7 ⟨[some ⟨0, 7⟩]⟩ rfl)
  have h2 := h1.snoc (.deliver _ 1 0 _ (fun _ => .asIs) rfl (fits_single _ _ _ _ (by decide)))
  obtain ⟨htail, -, -, -, hcost⟩ := (stale_routes_die oneTail _ _ h2).1 1 0 0 ⟨50, 7⟩ rfl
  exact ⟨_, _, h2, rfl, htail, hcost⟩

end RouteNet
end Dllm
