import DecentralizedInference.Sanity.RouteCost

/-! Shortest-chain routing. A chain may hand a request over before the end of a
node's range, while `select_next` always runs to the end of it; running on never
costs more, so both have the same optimum. The exchanged syncs compute it as the
asynchronous Bellman-Ford iteration does: a table never promises less than the
optimum, and `k` rounds find every optimal chain of at most `k` hops. -/

namespace Dllm

variable {Node : Type} {N : ℕ}

/-- Layers `a..b` are none, or all held by the range. -/
def Range.Covers (r : Range) (a b : ℕ) : Prop := a = b ∨ r.start ≤ a ∧ b ≤ r.stop

/-- `Chain T N n l h c`: a walk of `h` hops from `n`, with cut points from `l` up to
`N`, in which every node runs the layers between its two cut points; `c` is the
total round-trip time of its links. -/
inductive Chain (T : Topology Node) (N : ℕ) : Node → ℕ → ℕ → ℕ → Prop
  | last (n : Node) (l : ℕ) (hl : l ≤ N) (hc : (T.ranges n).Covers l N) : Chain T N n l 0 0
  | hop (n m : Node) (l k h c : ℕ) (hl : l ≤ k) (hc : (T.ranges n).Covers l k) (hadj : T.adj n m)
      (rest : Chain T N m k h c) : Chain T N n l (h + 1) (T.rtt n m + c)

/-- The least total round-trip time of a chain from layer `l` at `n`. -/
noncomputable def OPT (T : Topology Node) (N : ℕ) (n : Node) (l : ℕ) : ℕ∞ :=
  ⨅ (h : ℕ) (c : ℕ) (_ : Chain T N n l h c), (c : ℕ∞)

section Chains

variable {T : Topology Node} {n m : Node} {l h c : ℕ}

theorem OPT_le (hch : Chain T N n l h c) : OPT T N n l ≤ c :=
  iInf_le_of_le h (iInf_le_of_le c (iInf_le_of_le hch le_rfl))

theorem le_OPT {b : ℕ∞} (hb : ∀ h c, Chain T N n l h c → b ≤ (c : ℕ∞)) : b ≤ OPT T N n l :=
  le_iInf fun h => le_iInf fun c => le_iInf fun hch => hb h c hch

theorem Chain.le (hch : Chain T N n l h c) : l ≤ N := by
  induction hch with
  | last n l hl hc => exact hl
  | hop n m l k h c hl hc hadj rest ih => exact hl.trans ih

/-- The layers a node would run can be run in part. -/
theorem Range.Covers.max {r : Range} {a b a' : ℕ} (hc : r.Covers a b) (ha : a ≤ a') :
    r.Covers a' (max b a') := by
  rcases hc with rfl | ⟨h1, h2⟩
  · exact .inl (by omega)
  · by_cases hb : b ≤ a'
    · exact .inl (by omega)
    · exact .inr ⟨by omega, by omega⟩

/-- Whoever needs fewer layers can use the same walk at the same price. -/
theorem Chain.mono (hch : Chain T N n l h c) : ∀ {l'}, l ≤ l' → l' ≤ N → Chain T N n l' h c := by
  induction hch with
  | last n l hl hc =>
    intro l' hl' hN
    refine .last n l' hN ?_
    simpa [Nat.max_eq_left hN] using hc.max hl'
  | hop n m l k h c hl hc hadj rest ih =>
    intro l' hl' hN
    exact .hop n m l' (max k l') h c (le_max_right _ _) (hc.max hl') hadj
      (ih (le_max_left _ _) (max_le rest.le hN))

theorem Range.le_handOver (r : Range) (l : ℕ) : l ≤ r.handOver l := by
  unfold handOver
  split
  · rename_i hc
    exact ((Range.contains_iff r l).mp hc).2.le
  · exact le_rfl

theorem Range.covers_handOver (r : Range) (l : ℕ) : r.Covers l (r.handOver l) := by
  unfold handOver
  split
  · rename_i hc
    exact .inr ⟨((Range.contains_iff r l).mp hc).1, le_rfl⟩
  · exact .inl rfl

/-- Running to the end of the range and handing over is a chain. -/
theorem Chain.greedy (hadj : T.adj n m) (hch : Chain T N m ((T.ranges n).handOver l) h c) :
    Chain T N n l (h + 1) (T.rtt n m + c) :=
  .hop n m l _ h c (Range.le_handOver _ _) (Range.covers_handOver _ _) hadj hch

/-- A finite optimum is the price of some chain. -/
theorem OPT_attained (hc : OPT T N n l = c) : ∃ h, Chain T N n l h c := by
  by_contra hno
  push Not at hno
  have hlow : ((c + 1 : ℕ) : ℕ∞) ≤ OPT T N n l := by
    refine le_OPT fun h c' hch => ?_
    have hle := OPT_le hch
    rw [hc, Nat.cast_le] at hle
    have hne : c ≠ c' := fun he => hno h (he ▸ hch)
    exact Nat.cast_le.mpr (by omega)
  rw [hc, Nat.cast_le] at hlow
  omega

theorem OPT_le_greedy (hadj : T.adj n m) :
    OPT T N n l ≤ OPT T N m ((T.ranges n).handOver l) + T.rtt n m := by
  by_cases htop : OPT T N m ((T.ranges n).handOver l) = ⊤
  · rw [htop, top_add]
    exact le_top
  · obtain ⟨c, hc⟩ := ENat.ne_top_iff_exists.mp htop
    obtain ⟨h, hch⟩ := OPT_attained hc.symm
    rw [← hc, ← Nat.cast_add, Nat.add_comm]
    exact OPT_le (hch.greedy hadj)

/-- Exchange: a chain either ends here, or costs as much as running to the end of
the range and continuing with one hop less. -/
theorem Chain.exchange (hch : Chain T N n l h c) (hl : l < N)
    (hrange : (T.ranges n).start < (T.ranges n).stop → (T.ranges n).stop ≤ N) :
    ((T.ranges n).contains l = true ∧ (T.ranges n).stop = N) ∨
      ∃ m h' c', h = h' + 1 ∧ c = T.rtt n m + c' ∧ T.adj n m ∧
        Chain T N m ((T.ranges n).handOver l) h' c' := by
  cases hch with
  | last n l hlN hc =>
    rcases hc with rfl | ⟨h1, h2⟩
    · exact absurd hl (lt_irrefl _)
    · have hstop : (T.ranges n).stop = N := le_antisymm (hrange (by omega)) h2
      exact .inl ⟨(Range.contains_iff _ _).mpr ⟨h1, by omega⟩, hstop⟩
  | hop n m l k h c hlk hc hadj rest =>
    by_cases hcont : (T.ranges n).contains l = true
    · obtain ⟨h1, h2⟩ := (Range.contains_iff _ _).mp hcont
      have hstop := hrange (by omega)
      right
      refine ⟨m, h, c, rfl, rfl, hadj, ?_⟩
      rw [Range.handOver, if_pos hcont]
      refine rest.mono ?_ hstop
      rcases hc with rfl | ⟨-, h4⟩ <;> omega
    · right
      refine ⟨m, h, c, rfl, rfl, hadj, ?_⟩
      rw [Range.handOver, if_neg hcont]
      rcases hc with rfl | ⟨h3, h4⟩
      · exact rest
      · -- a range that holds layers from `l` on would contain `l`
        have hkl : k = l := by
          by_contra hne
          exact hcont ((Range.contains_iff _ _).mpr ⟨h3, by omega⟩)
        exact hkl ▸ rest

end Chains

/-- The range condition of a network: no node holds layers beyond the model. -/
def Topology.InModel (T : Topology Node) (N : ℕ) : Prop :=
  ∀ n, (T.ranges n).start < (T.ranges n).stop → (T.ranges n).stop ≤ N

variable [DecidableEq Node] {T : Topology Node}

namespace LinkNet

theorem finishes_iff {r : Range} {t : RouteTable Node N} (h : t.Sound r) (l : ℕ) :
    t.Finishes l ↔ r.contains l = true ∧ r.stop = N := by
  rw [RouteTable.Finishes, h.localLayers]

omit [DecidableEq Node] in
theorem handOver_lt (hT : T.InModel N) {n : Node} {l : ℕ} (hl : l < N)
    (hf : ¬ ((T.ranges n).contains l = true ∧ (T.ranges n).stop = N)) :
    (T.ranges n).handOver l < N := by
  unfold Range.handOver
  split
  · rename_i hc
    obtain ⟨h1, h2⟩ := (Range.contains_iff _ _).mp hc
    have hle := hT n (by omega)
    have hne : (T.ranges n).stop ≠ N := fun he => hf ⟨hc, he⟩
    omega
  · exact hl

/-- Neither a sync on a link nor an entry promises less than the optimum. -/
structure Sane (T : Topology Node) (σ : LinkNet Node N) : Prop where
  sound : ∀ n, (σ.tables n).Sound (T.ranges n)
  msgs : ∀ m n, ∀ s ∈ σ.queue m n, ∀ l < N, OPT T N m l ≤ s.costAt l
  entries : ∀ n (l : Fin N) m, (σ.tables n).entryCost l m = ⊤ ∨
    T.adj m n ∧ OPT T N m l + T.rtt m n ≤ (σ.tables n).entryCost l m

theorem sane_init : Sane T (init T.ranges : LinkNet Node N) := by
  refine ⟨fun n => RouteTable.sound_new _, by simp [init], ?_⟩
  intro n l m
  left
  simp [RouteTable.entryCost, init, RouteTable.new, LayerRemotePaths.empty]

/-- A table never promises less than the optimum. -/
theorem Sane.OPT_le_routeCost {σ : LinkNet Node N} (h : Sane T σ) (n : Node) {l : ℕ} :
    OPT T N n l ≤ (σ.tables n).routeCost l := by
  by_cases hf : (σ.tables n).Finishes l
  · rw [RouteTable.routeCost_of_finishes hf]
    obtain ⟨hc, hstop⟩ := (finishes_iff (h.sound n) l).mp hf
    obtain ⟨h1, h2⟩ := (Range.contains_iff _ _).mp hc
    exact OPT_le (.last n l (by omega) (.inr ⟨h1, hstop.ge⟩))
  · by_cases htop : (σ.tables n).routeCost l = ⊤
    · rw [htop]
      exact le_top
    · obtain ⟨hl, d, hd⟩ := RouteTable.exists_entryCost (h.sound n) hf htop
      rcases h.entries n ⟨_, hl⟩ d with he | ⟨hadj, hle⟩
      · exact absurd (hd.trans he) htop
      · have hlook : (σ.tables n).lookupLayer l = (T.ranges n).handOver l := by
          rw [RouteTable.lookupLayer, (h.sound n).localLayers]
        rw [hd]
        refine le_trans ?_ hle
        simp only [hlook]
        rw [T.rtt_symm]
        exact OPT_le_greedy (T.adj_symm _ _ hadj)

theorem sane_step {σ σ' : LinkNet Node N} {e : LinkEvent Node} (h : Sane T σ)
    (hs : Step T σ e σ') : Sane T σ' := by
  have hsound := sound_run h.sound (Run.nil.snoc hs)
  cases hs with
  | send m n nowMs s hadj hs =>
    refine ⟨hsound, ?_, h.entries⟩
    intro m' n' s' hs' l hl
    simp only [setLink] at hs'
    split at hs'
    · rename_i hlink
      obtain ⟨rfl, rfl⟩ := hlink
      rcases List.mem_append.mp hs' with hs' | hs'
      · exact h.msgs _ _ s' hs' l hl
      · rw [List.mem_singleton.mp hs', RouteTable.createSync_costAt hs hl]
        exact h.OPT_le_routeCost m'
    · exact h.msgs _ _ s' hs' l hl
  | deliver m n s rest ord hadj hq hfit =>
    refine ⟨hsound, ?_, ?_⟩
    · intro m' n' s' hs' l hl
      simp only [setLink] at hs'
      split at hs'
      · rename_i hlink
        obtain ⟨rfl, rfl⟩ := hlink
        exact h.msgs _ _ s' (by rw [hq]; exact List.mem_cons_of_mem _ hs') l hl
      · exact h.msgs _ _ s' hs' l hl
    · intro n' l m'
      by_cases hn : n' = n
      · subst hn
        simp only [Function.update_self]
        rw [RouteTable.entryCost_applySync hfit]
        by_cases hm : m' = m
        · subst hm
          rw [if_pos rfl]
          right
          exact ⟨hadj, add_le_add_left (h.msgs m' n' s (by simp [hq]) l l.isLt) _⟩
        · rw [if_neg hm]
          exact h.entries n' l m'
      · simp only [Function.update_of_ne hn]
        exact h.entries n' l m'

theorem sane_run {σ σ' : LinkNet Node N} {es : List (LinkEvent Node)} (h : Sane T σ)
    (hrun : Run (Step T) σ es σ') : Sane T σ' :=
  hrun.invariant h fun _ _ _ hs ha => sane_step ha hs

theorem AfterRounds.sane {k : ℕ} {σ : LinkNet Node N} (h : AfterRounds T k σ) : Sane T σ := by
  induction h with
  | start hrun => exact sane_run sane_init hrun
  | round _ hrun _ ih => exact sane_run ih hrun

theorem delivered_mono {σ σ' : LinkNet Node N} {es : List (LinkEvent Node)}
    (hrun : Run (Step T) σ es σ') (m n : Node) : σ.delivered m n ≤ σ'.delivered m n := by
  induction hrun with
  | nil => exact le_rfl
  | snoc _ hs ih =>
    refine ih.trans ?_
    cases hs with
    | send => exact le_rfl
    | deliver m' n' s rest ord hadj hq hfit =>
      simp only [setLink]
      split
      · rename_i hlink
        obtain ⟨rfl, rfl⟩ := hlink
        omega
      · exact le_rfl

/-- Rounds that are over stay over. -/
theorem AfterRounds.run {k : ℕ} {σ σ' : LinkNet Node N} {es : List (LinkEvent Node)}
    (h : AfterRounds T k σ) (hrun : Run (Step T) σ es σ') : AfterRounds T k σ' := by
  cases h with
  | start hrun0 => exact .start (hrun0.append hrun)
  | round h0 hrun0 hround =>
    refine .round h0 (hrun0.append hrun) fun m n hadj => ?_
    exact lt_of_lt_of_le (hround m n hadj) (delivered_mono hrun m n)

/-- Every chain of at most `k` hops from `m` costs at least what `cost` says. -/
def Serves (T : Topology Node) (N k : ℕ) (m : Node) (cost : ℕ → ℕ∞) : Prop :=
  ∀ l < N, ∀ h c, Chain T N m l h c → h ≤ k → cost l ≤ c

/-- What one link looks like since the state `σ₀`: what is left of the syncs that
were on it then, followed by syncs that serve `k` hops; once one of the latter
arrived, so does the entry. -/
structure Refreshed (T : Topology Node) (k : ℕ) (σ₀ σ : LinkNet Node N) (m n : Node) : Prop where
  mono : σ₀.delivered m n ≤ σ.delivered m n
  queue : ∃ new, σ.queue m n =
      (σ₀.queue m n).drop (σ.delivered m n - σ₀.delivered m n) ++ new ∧
    ∀ s ∈ new, Serves T N k m s.costAt
  entry : σ₀.delivered m n + (σ₀.queue m n).length < σ.delivered m n →
    ∀ (l : Fin N) h c, Chain T N m l h c → h ≤ k →
      (σ.tables n).entryCost l m ≤ c + T.rtt m n

theorem refreshed_step {k : ℕ} {σ₀ σ σ' : LinkNet Node N} {e : LinkEvent Node} {m n : Node}
    (hserve : Serves T N k m (σ.tables m).routeCost) (h : Refreshed T k σ₀ σ m n)
    (hs : Step T σ e σ') : Refreshed T k σ₀ σ' m n := by
  obtain ⟨hmono, ⟨new, hq, hnew⟩, hentry⟩ := h
  cases hs with
  | send m' n' nowMs s hadj hs =>
    refine ⟨hmono, ?_, hentry⟩
    simp only [setLink]
    split
    · rename_i hlink
      obtain ⟨rfl, rfl⟩ := hlink
      refine ⟨new ++ [s], by rw [hq, List.append_assoc], ?_⟩
      intro s' hs'
      rcases List.mem_append.mp hs' with hs' | hs'
      · exact hnew s' hs'
      · intro l hl h c hch hk
        rw [List.mem_singleton.mp hs', RouteTable.createSync_costAt hs hl]
        exact hserve l hl h c hch hk
    · exact ⟨new, hq, hnew⟩
  | deliver m' n' s rest ord hadj hq' hfit =>
    by_cases hlink : m = m' ∧ n = n'
    · obtain ⟨rfl, rfl⟩ := hlink
      have hq'' := hq'.symm.trans hq
      set d := σ.delivered m n - σ₀.delivered m n with hd
      by_cases hold : d < (σ₀.queue m n).length
      · -- the delivered sync is one of those that were under way in `σ₀`
        rw [List.drop_eq_getElem_cons hold, List.cons_append] at hq''
        injection hq'' with _ hrest
        refine ⟨by simp only [setLink, and_self, if_true]; omega, ⟨new, ?_, hnew⟩, ?_⟩
        · simp only [setLink, and_self, if_true]
          rw [hrest, show σ.delivered m n + 1 - σ₀.delivered m n = d + 1 by omega]
        · intro hlt
          simp only [setLink, and_self, if_true] at hlt
          omega
      · -- the delivered sync was created since
        rw [List.drop_eq_nil_of_le (by omega), List.nil_append] at hq''
        have hsnew : Serves T N k m s.costAt := hnew s (by simp [← hq''])
        refine ⟨by simp only [setLink, and_self, if_true]; omega, ⟨rest, ?_, ?_⟩, ?_⟩
        · simp only [setLink, and_self, if_true]
          rw [List.drop_eq_nil_of_le (by omega), List.nil_append]
        · intro s' hs'
          exact hnew s' (by rw [← hq'']; exact List.mem_cons_of_mem _ hs')
        · intro _ l h c hch hk
          simp only [Function.update_self]
          rw [RouteTable.entryCost_applySync hfit, if_pos rfl]
          exact add_le_add_left (hsnew l l.isLt h c hch hk) _
    · have hset : ∀ {α : Type} (f : Node → Node → α) (a : α), setLink f m' n' a m n = f m n :=
        fun f a => if_neg hlink
      refine ⟨by simp only [hset]; exact hmono, ⟨new, by simp only [hset]; exact hq, hnew⟩, ?_⟩
      intro hlt l h c hch hk
      simp only [hset] at hlt
      by_cases hn : n = n'
      · subst hn
        have hm : m ≠ m' := fun hm => hlink ⟨hm, rfl⟩
        simp only [Function.update_self]
        rw [RouteTable.entryCost_applySync hfit, if_neg hm]
        exact hentry hlt l h c hch hk
      · simp only [Function.update_of_ne hn]
        exact hentry hlt l h c hch hk

theorem refreshed_run {k : ℕ} {σ₀ σ : LinkNet Node N} {es : List (LinkEvent Node)}
    (hserve : ∀ es' σ', Run (Step T) σ₀ es' σ' → ∀ m, Serves T N k m (σ'.tables m).routeCost)
    (hrun : Run (Step T) σ₀ es σ) (m n : Node) : Refreshed T k σ₀ σ m n := by
  induction hrun with
  | nil =>
    refine ⟨le_rfl, ⟨[], by simp, by simp⟩, ?_⟩
    intro hlt
    omega
  | snoc hrun hs ih => exact refreshed_step (hserve _ _ hrun m) ih hs

/-- After `k` rounds every table serves `k` hops. -/
theorem AfterRounds.serves (hT : T.InModel N) {k : ℕ} :
    ∀ {σ : LinkNet Node N}, AfterRounds T k σ → ∀ n, Serves T N k n (σ.tables n).routeCost := by
  induction k with
  | zero =>
    intro σ hσ n l hl h c hch hk
    rcases hch.exchange hl (hT n) with hf | ⟨m, h', c', rfl, -⟩
    · rw [RouteTable.routeCost_of_finishes ((finishes_iff (hσ.sane.sound n) l).mpr hf)]
      exact zero_le
    · omega
  | succ k ih =>
    intro σ hσ n l hl h c hch hk
    have hsound := hσ.sane.sound
    cases hσ with
    | @round _ σ₀ _ es h0 hrun hround =>
      have hlink := fun m => refreshed_run (fun es' σ' hrun' => ih (h0.run hrun')) hrun m n
      by_cases hf : (T.ranges n).contains l = true ∧ (T.ranges n).stop = N
      · rw [RouteTable.routeCost_of_finishes ((finishes_iff (hsound n) l).mpr hf)]
        exact zero_le
      · rcases hch.exchange hl (hT n) with hf' | ⟨m, h', c', rfl, rfl, hadj, hrest⟩
        · exact absurd hf' hf
        · have hlook : (σ.tables n).lookupLayer l = (T.ranges n).handOver l := by
            rw [RouteTable.lookupLayer, (hsound n).localLayers]
          have hlt : (σ.tables n).lookupLayer l < N := hlook ▸ handOver_lt hT hl hf
          have hentry := (hlink m).entry (hround m n (T.adj_symm _ _ hadj)) ⟨_, hlt⟩ h' c'
            (by simpa only [hlook] using hrest) (by omega)
          refine (RouteTable.routeCost_le_entryCost (hsound n) hlt m).trans (hentry.trans ?_)
          rw [T.rtt_symm m n, ← Nat.cast_add, Nat.add_comm]

/-- A table answers for every layer of the model without panicking. -/
theorem selectNext_ok (hT : T.InModel N) {σ : LinkNet Node N} (h : Sane T σ) (n : Node) {l : ℕ}
    (hl : l < N) : ∃ o, (σ.tables n).selectNext l = .ok o := by
  by_cases hf : (σ.tables n).Finishes l
  · exact ⟨_, RouteTable.selectNext_of_finishes hf⟩
  · have hlt : (σ.tables n).lookupLayer l < N := by
      rw [RouteTable.lookupLayer, (h.sound n).localLayers]
      exact handOver_lt hT hl fun hf' => hf ((finishes_iff (h.sound n) l).mpr hf')
    exact ⟨_, RouteTable.selectNext_of_not_finishes hf hlt⟩

/-- Under every schedule of sync deliveries the answers of `select_next` stay at or
above the optimum, are absent where no chain exists, and after `k` rounds are
optimal wherever some optimal chain has at most `k` hops. -/
theorem routing_converges (T : Topology Node) (N : ℕ) (hT : T.InModel N) :
    (∀ es (σ : LinkNet Node N), Run (Step T) (init T.ranges) es σ → ∀ n l, l < N →
      (∀ p, (σ.tables n).selectNext l = .ok (some p) → OPT T N n l ≤ p.cost) ∧
      ((¬ ∃ h c, Chain T N n l h c) → (σ.tables n).selectNext l = .ok none)) ∧
    (∀ k (σ : LinkNet Node N), AfterRounds T k σ → ∀ n l, l < N →
      ∀ h c, Chain T N n l h c → (c : ℕ∞) = OPT T N n l → h ≤ k →
        ∃ p, (σ.tables n).selectNext l = .ok (some p) ∧ (p.cost : ℕ∞) = OPT T N n l) := by
  refine ⟨?_, ?_⟩
  · intro es σ hrun n l hl
    have hsane := sane_run sane_init hrun
    refine ⟨fun p hp => RouteTable.routeCost_of_ok hp ▸ hsane.OPT_le_routeCost n, ?_⟩
    intro hno
    obtain ⟨o, ho⟩ := selectNext_ok hT hsane n hl
    cases o with
    | none => exact ho
    | some p =>
      have hle := RouteTable.routeCost_of_ok ho ▸ hsane.OPT_le_routeCost n
      have htop : OPT T N n l = ⊤ :=
        top_le_iff.mp (le_OPT fun h c hch => absurd ⟨h, c, hch⟩ hno)
      rw [htop, top_le_iff] at hle
      exact absurd hle (ENat.natCast_ne_top _)
  · intro k σ hσ n l hl h c hch hopt hk
    have hle : (σ.tables n).routeCost l ≤ c := hσ.serves hT n l hl h c hch hk
    have htop : (σ.tables n).routeCost l ≠ ⊤ := ne_top_of_le_ne_top (ENat.natCast_ne_top _) hle
    obtain ⟨p, hp⟩ := RouteTable.exists_of_routeCost_ne_top htop
    refine ⟨p, hp, ?_⟩
    rw [← RouteTable.routeCost_of_ok hp]
    exact le_antisymm (hopt ▸ hle) (hσ.sane.OPT_le_routeCost n)

/-- Two nodes with one link: node 0 holds the second layer, node 1 the first. -/
def pair : Topology ℕ where
  ranges n := if n = 0 then ⟨1, 2⟩ else if n = 1 then ⟨0, 1⟩ else ⟨0, 0⟩
  adj m n := m = 0 ∧ n = 1 ∨ m = 1 ∧ n = 0
  rtt _ _ := 10
  adj_symm m n h := by omega
  rtt_symm _ _ := rfl

/-- One round over the link gives node 1 the optimal route through node 0. -/
theorem routing_converges_pair : pair.InModel 2 ∧ ∃ σ : LinkNet ℕ 2, AfterRounds pair 1 σ ∧
    ∃ p, (σ.tables 1).selectNext 0 = .ok (some p) ∧ (p.cost : ℕ∞) = OPT pair 2 1 0 := by
  have hT : pair.InModel 2 := by
    intro n
    simp only [pair]
    split_ifs <;> simp
  have hch : Chain pair 2 1 0 1 10 :=
    .hop 1 0 0 1 0 0 (by decide) (.inr (by decide)) (.inr ⟨rfl, rfl⟩)
      (.last 0 1 (by decide) (.inr (by decide)))
  have hopt : ((10 : ℕ) : ℕ∞) = OPT pair 2 1 0 := by
    refine le_antisymm (le_OPT fun h c hch' => ?_) (OPT_le hch)
    rcases hch'.exchange (by decide) (hT 1) with ⟨-, hf⟩ | ⟨m, h', c', -, rfl, -, -⟩
    · exact absurd hf (by decide)
    · exact Nat.cast_le.mpr (Nat.le_add_right _ _)
  have hfit : ∀ (t : RouteTable ℕ 2) (src : ℕ) (s : RouteSync),
      (∀ i, some i ∈ s.layers → i.cost = 0) → t.Fits (.applySync src 10 s) := by
    intro t src s hs l i hi
    rw [hs i (List.mem_of_getElem? hi)]
    decide
  have h0 : Run (Step pair) (init pair.ranges : LinkNet ℕ 2) [] _ := .nil
  have h1 := h0.snoc (.send _ 0 1 5 ⟨[none, some ⟨0, 5⟩]⟩ (.inl ⟨rfl, rfl⟩) rfl)
  have h2 := h1.snoc (.send _ 1 0 5 ⟨[none, none]⟩ (.inr ⟨rfl, rfl⟩) rfl)
  have h3 := h2.snoc (.deliver _ 0 1 _ _ (fun _ => .asIs) (.inl ⟨rfl, rfl⟩) rfl
    (hfit _ _ _ (by simp)))
  have h4 := h3.snoc (.deliver _ 1 0 _ _ (fun _ => .asIs) (.inr ⟨rfl, rfl⟩) rfl
    (hfit _ _ _ (by simp)))
  have hround : AfterRounds pair 1 _ := .round (.start .nil) h4 (by
    rintro m n (⟨rfl, rfl⟩ | ⟨rfl, rfl⟩) <;> decide)
  exact ⟨hT, _, hround,
    (routing_converges pair 2 hT).2 1 _ hround 1 0 (by decide) 1 10 hch hopt le_rfl⟩

end LinkNet
end Dllm
