import DecentralizedInference.Sanity.RouteCost

/-! START forwarding and loops. A node that loses its best route falls back to
what a peer said, and the peer may have learned that from the node itself; the
forwarding then runs in a circle. As long as no step takes away or raises the
best entry of a layer, every hop leads to a node that is strictly closer to the
end of the model. -/

namespace Dllm

variable {Node : Type} {N : ℕ} [DecidableEq Node]

namespace RouteNet

/-- No node loses the best entry of a layer or sees its cost go up. -/
def KeepsBest (σ σ' : RouteNet Node N) : Prop :=
  ∀ n l, (σ'.tables n).nextCost l ≤ (σ.tables n).nextCost l

/-- The steps of the network that keep every best entry. -/
def CalmStep (σ : RouteNet Node N) (e : NetEvent Node) (σ' : RouteNet Node N) : Prop :=
  Step σ e σ' ∧ KeepsBest σ σ'

/-- Neither a sync in flight nor an entry undercuts what its sender has now. -/
structure Descending (σ : RouteNet Node N) : Prop where
  msgs : ∀ msg ∈ σ.sent, ∀ l < N, (σ.tables msg.src).routeCost l ≤ msg.sync.costAt l
  entries : ∀ n (l : Fin N) m,
    (σ.tables m).routeCost l + FAKE_RTT ≤ (σ.tables n).entryCost l m

/-- A node table's new entries keep the order if they do not undercut their
senders, given that no sender got worse. -/
theorem descending_call {σ : RouteNet Node N} (h : Descending σ) {n : Node} {c : TableCall Node}
    {trail : Node → ℕ → Node → Trail Node}
    (hmono : ∀ m l, ((σ.call n c).tables m).routeCost l ≤ (σ.tables m).routeCost l)
    (hnew : ∀ (l : Fin N) m, (σ.tables m).routeCost l + FAKE_RTT ≤
      ((σ.tables n).call c).entryCost l m) :
    Descending { σ.call n c with trail := trail } := by
  refine ⟨fun msg hm l hl => (hmono _ _).trans (h.msgs msg hm l hl), ?_⟩
  intro n' l m
  refine (add_le_add_left (hmono m l) _).trans ?_
  by_cases hn : n' = n
  · subst hn
    simp only [RouteNet.call, Function.update_self]
    exact hnew l m
  · simp only [RouteNet.call, Function.update_of_ne hn]
    exact h.entries n' l m

theorem descending_step {ranges : Node → Range} {σ σ' : RouteNet Node N} {e : NetEvent Node}
    (hsound : ∀ n, (σ.tables n).Sound (ranges n)) (hsound' : ∀ n, (σ'.tables n).Sound (ranges n))
    (h : Descending σ) (hs : CalmStep σ e σ') : Descending σ' := by
  obtain ⟨hs, hkeep⟩ := hs
  have hmono : ∀ m l, (σ'.tables m).routeCost l ≤ (σ.tables m).routeCost l := by
    intro m l
    refine RouteTable.routeCost_mono ?_ (hkeep m) l
    rw [(hsound' m).localLayers, (hsound m).localLayers]
  cases hs with
  | broadcast m nowMs s hs =>
    refine ⟨?_, h.entries⟩
    intro msg hm l hl
    rcases List.mem_append.mp hm with hm | hm
    · exact h.msgs msg hm l hl
    · obtain rfl := List.mem_singleton.mp hm
      exact (RouteTable.createSync_costAt hs hl).ge
  | deliver n k msg ord hmsg hfit =>
    refine descending_call h hmono ?_
    intro l m
    rw [RouteTable.entryCost_applySync hfit]
    by_cases hm : m = msg.src
    · subst hm
      rw [if_pos rfl]
      exact add_le_add_left (h.msgs msg (List.mem_of_getElem? hmsg) l l.isLt) _
    · rw [if_neg hm]
      exact h.entries n l m
  | tick n nowMs ord hfit =>
    refine descending_call h hmono fun l m => (h.entries n l m).trans ?_
    exact RouteTable.entryCost_le_of_lookup (RouteTable.lookup_of_call (by simp) l m)
  | disconnected n m ord =>
    refine descending_call h hmono fun l d => (h.entries n l d).trans ?_
    exact RouteTable.entryCost_le_of_lookup (RouteTable.lookup_of_call (by simp) l d)

theorem descending_run {ranges : Node → Range} {es : List (NetEvent Node)} {σ : RouteNet Node N}
    (hrun : Run CalmStep (init ranges) es σ) : Descending σ := by
  induction hrun with
  | nil =>
    refine ⟨by simp [init], ?_⟩
    intro n l m
    simp [RouteTable.entryCost, init, RouteTable.new, LayerRemotePaths.empty]
  | snoc hrun hs ih =>
    have hcalm := hrun.mono fun _ _ _ h => h.1
    exact descending_step (sound_run hcalm) (sound_run (hcalm.snoc hs.1)) ih hs

/-- One hop of the START forwarding leads to a place at least `FAKE_RTT` cheaper. -/
theorem startHop_descends {ranges : Node → Range} {σ : RouteNet Node N}
    (hsound : ∀ n, (σ.tables n).Sound (ranges n)) (h : Descending σ) {x y : Node × ℕ}
    (hxy : startHop σ.tables x = some y) :
    (σ.tables y.1).routeCost y.2 + FAKE_RTT ≤ (σ.tables x.1).routeCost x.2 ∧
      (σ.tables x.1).routeCost x.2 ≠ ⊤ := by
  unfold startHop at hxy
  split at hxy
  · rename_i p hp
    obtain ⟨r, hr, rfl⟩ := Option.map_eq_some_iff.mp hxy
    have hcost := RouteTable.routeCost_of_ok hp
    refine ⟨?_, by rw [hcost]; exact ENat.natCast_ne_top _⟩
    rw [hcost]
    rcases RouteTable.selectNext_cases hp with
      ⟨-, -, -, rfl⟩ | ⟨hl, d, i, -, -, hn, rfl⟩ | ⟨hl, d, i, -, hn, rfl⟩
    · simp at hr
    · obtain rfl := Option.some.inj hr
      have hentry := h.entries x.1 ⟨_, hl⟩ d
      rw [← RouteTable.nextCost_eq_entryCost (hsound x.1) hn] at hentry
      simpa [RouteTable.nextCost, hn, RoutePath.cost] using hentry
    · obtain rfl := Option.some.inj hr
      have hentry := h.entries x.1 ⟨_, hl⟩ d
      rw [← RouteTable.nextCost_eq_entryCost (hsound x.1) hn] at hentry
      simpa [RouteTable.nextCost, hn, RoutePath.cost] using hentry
  · cases hxy

theorem startWalk_descends {ranges : Node → Range} {σ : RouteNet Node N}
    (hsound : ∀ n, (σ.tables n).Sound (ranges n)) (h : Descending σ) (k : ℕ) :
    ∀ {x y : Node × ℕ}, startWalk σ.tables (k + 1) x = some y →
      (σ.tables y.1).routeCost y.2 + ((k + 1) * FAKE_RTT : ℕ) ≤ (σ.tables x.1).routeCost x.2 ∧
        (σ.tables x.1).routeCost x.2 ≠ ⊤ := by
  induction k with
  | zero =>
    intro x y hxy
    obtain ⟨z, hz, hzy⟩ := Option.bind_eq_some_iff.mp hxy
    obtain rfl := Option.some.inj hzy
    simpa using startHop_descends hsound h hz
  | succ k ih =>
    intro x y hxy
    obtain ⟨z, hz, hzy⟩ := Option.bind_eq_some_iff.mp hxy
    obtain ⟨h1, htop⟩ := startHop_descends hsound h hz
    obtain ⟨h2, -⟩ := ih hzy
    refine ⟨?_, htop⟩
    calc (σ.tables y.1).routeCost y.2 + ((k + 1 + 1) * FAKE_RTT : ℕ)
        = (σ.tables y.1).routeCost y.2 + ((k + 1) * FAKE_RTT : ℕ) + FAKE_RTT := by
          rw [Nat.succ_mul, Nat.cast_add, ← add_assoc]
      _ ≤ (σ.tables z.1).routeCost z.2 + FAKE_RTT := add_le_add_left h2 _
      _ ≤ (σ.tables x.1).routeCost x.2 := h1

omit [DecidableEq Node] in
theorem startWalk_add (tables : Node → RouteTable Node N) (i j : ℕ) (x : Node × ℕ) :
    startWalk tables (i + j) x = (startWalk tables i x).bind (startWalk tables j) := by
  induction i generalizing x with
  | zero => simp [startWalk]
  | succ i ih =>
    rw [Nat.succ_add]
    simp only [startWalk, Option.bind_assoc]
    congr 1
    funext y
    exact ih y

/-- In every state reached by steps that keep every best entry, the START
forwarding from any place visits no place twice and comes to an end. -/
theorem calm_routes_loop_free (ranges : Node → Range) (es : List (NetEvent Node))
    (σ : RouteNet Node N) (hrun : Run CalmStep (init ranges) es σ) (x : Node × ℕ) :
    (∀ i j y, i < j → startWalk σ.tables i x = some y → startWalk σ.tables j x ≠ some y) ∧
      ∃ k, startWalk σ.tables k x = none := by
  have hsound := sound_run (hrun.mono fun _ _ _ h => h.1)
  have hdesc := descending_run hrun
  refine ⟨?_, ?_⟩
  · intro i j y hij hi hj
    obtain ⟨d, rfl⟩ : ∃ d, j = i + (d + 1) := ⟨j - i - 1, by omega⟩
    rw [startWalk_add, hi, Option.bind_some] at hj
    obtain ⟨hle, htop⟩ := startWalk_descends hsound hdesc d hj
    obtain ⟨c, hc⟩ := ENat.ne_top_iff_exists.mp htop
    rw [← hc, ← Nat.cast_add, Nat.cast_le] at hle
    simp only [FAKE_RTT] at hle
    omega
  · by_contra hall
    have hsome : ∀ k, ∃ y, startWalk σ.tables k x = some y := fun k =>
      Option.ne_none_iff_exists'.mp fun hk => hall ⟨k, hk⟩
    obtain ⟨y, hy⟩ := hsome 1
    obtain ⟨-, htop⟩ := startWalk_descends hsound hdesc 0 hy
    obtain ⟨c, hc⟩ := ENat.ne_top_iff_exists.mp htop
    -- more hops than the cost of the route can pay for
    obtain ⟨z, hz⟩ := hsome (c + 1)
    obtain ⟨hle, -⟩ := startWalk_descends hsound hdesc c hz
    rw [← hc] at hle
    have hlow := le_trans le_add_self hle
    rw [Nat.cast_le] at hlow
    simp only [FAKE_RTT] at hlow
    omega

/-- Node 1 learns the route of node 0 and tells node 2, which tells node 1; when
node 1 then loses node 0, its START goes to node 2 and from there back to it. -/
theorem lost_tail_makes_loop :
    ¬ ∀ (ranges : ℕ → Range) (es : List (NetEvent ℕ)) (σ : RouteNet ℕ 1),
      Run Step (init ranges) es σ →
      ∀ x i j y, i < j → startWalk σ.tables i x = some y → startWalk σ.tables j x ≠ some y := by
  intro h
  have h0 : Run Step (init oneTail : RouteNet ℕ 1) [] _ := .nil
  have h1 := h0.snoc (.broadcast _ 0 0 ⟨[some ⟨0, 0⟩]⟩ rfl)
  have h2 := h1.snoc (.deliver _ 1 0 _ (fun _ => .asIs) rfl (fits_single _ _ _ _ (by decide)))
  have h3 := h2.snoc (.broadcast _ 1 0 ⟨[some ⟨50, 0⟩]⟩ rfl)
  have h4 := h3.snoc (.deliver _ 2 1 _ (fun _ => .asIs) rfl (fits_single _ _ _ _ (by decide)))
  have h5 := h4.snoc (.broadcast _ 2 0 ⟨[some ⟨100, 0⟩]⟩ rfl)
  have h6 := h5.snoc (.deliver _ 1 2 _ (fun _ => .asIs) rfl (fits_single _ _ _ _ (by decide)))
  have h7 := h6.snoc (.disconnected _ 1 0 (fun _ => .asIs))
  exact h oneTail _ _ h7 (1, 0) 0 2 (1, 0) (by decide) rfl rfl

/-- A node without routes has nothing to lose. -/
theorem keepsBest_of_fresh {σ : RouteNet Node N} {n : Node} (hfresh : ∀ l, (σ.tables n).nextCost l = ⊤)
    (c : TableCall Node) (trail : Node → ℕ → Node → Trail Node) :
    KeepsBest σ { σ.call n c with trail := trail } := by
  intro n' l
  by_cases hn : n' = n
  · subst hn
    rw [hfresh l]
    exact le_top
  · simp only [RouteNet.call, Function.update_of_ne hn]
    exact le_rfl

/-- Before node 0 is lost the same network forwards from node 2 over node 1 to
node 0 and stops there. -/
theorem calm_routes_loop_free_line :
    ∃ es, ∃ σ : RouteNet ℕ 1, Run CalmStep (init oneTail) es σ ∧
      startWalk σ.tables 2 (2, 0) = some (0, 0) ∧ ∃ k, startWalk σ.tables k (2, 0) = none := by
  have h0 : Run CalmStep (init oneTail : RouteNet ℕ 1) [] _ := .nil
  have h1 := h0.snoc ⟨.broadcast _ 0 0 ⟨[some ⟨0, 0⟩]⟩ rfl, fun n l => le_rfl⟩
  have h2 := h1.snoc ⟨.deliver _ 1 0 _ (fun _ => .asIs) rfl (fits_single _ _ _ _ (by decide)),
    keepsBest_of_fresh (fun _ => rfl) _ _⟩
  have h3 := h2.snoc ⟨.broadcast _ 1 0 ⟨[some ⟨50, 0⟩]⟩ rfl, fun n l => le_rfl⟩
  have h4 := h3.snoc ⟨.deliver _ 2 1 _ (fun _ => .asIs) rfl (fits_single _ _ _ _ (by decide)),
    keepsBest_of_fresh (fun _ => rfl) _ _⟩
  exact ⟨_, _, h4, rfl, (calm_routes_loop_free oneTail _ _ h4 (2, 0)).2⟩

end RouteNet
end Dllm
