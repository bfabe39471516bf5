import DecentralizedInference.Proofs.History

/-! The sums of a route table on what peers can send: they are exact in a history if and only
if the history itself stays in range, and nothing that the table receives or sends keeps it
there. -/

namespace Dllm

variable {Node : Type} {N : ℕ}

/-- The fields of a `SyncReq` are a `u32` and a `u64`. -/
def RouteSync.OnWire (s : RouteSync) : Prop :=
  ∀ i, some i ∈ s.layers → i.cost < 2 ^ 32 ∧ i.lastUpdated < 2 ^ 64

def TableEvent.OnWire : TableEvent Node → Prop
  | applySync _ rtt sync => rtt < 2 ^ 32 ∧ sync.OnWire
  | onTick nowMs => nowMs < 2 ^ 64
  | onDisconnected _ => True

/-- After these calls, another one stays in range: no advertised cost grows beyond `u32`, and no
advertisement that a tick meets is from within the timeout of the end of `u64`. -/
def TableEvent.InRange (N : ℕ) (es : List (TableEvent Node)) : TableEvent Node → Prop
  | applySync _ rtt sync =>
    ∀ l < N, ∀ i, sync.layers[l]? = some (some i) → i.cost + rtt < 2 ^ 32
  | onTick _ => ∀ l < N, ∀ n info, Advertises es l n info → info.lastUpdated + ROUTE_TIMEOUT_MS < 2 ^ 64
  | onDisconnected _ => True

variable [DecidableEq Node]

namespace RouteTable

/-- The call computes its sums exactly: no cost becomes smaller, and what is left are the
entries that are not timed out. -/
def Exact (t : RouteTable Node N) : TableCall Node → Prop
  | (.applySync src rtt sync, ord) => ∀ (l : Fin N) (i : LayerRemoteInfo), sync.layers[l.val]? = some (some i) →
    wrapAdd 32 i.cost rtt = i.cost + rtt ∧
      ∃ j, ((t.applySync ord src rtt sync).remoteLayers l).remotes.lookup src = some j ∧ i.cost ≤ j.cost
  | (.onTick nowMs, ord) => ∀ (l : Fin N) (n : Node) (i : LayerRemoteInfo),
    (t.remoteLayers l).remotes.lookup n = some i →
      wrapAdd 64 i.lastUpdated ROUTE_TIMEOUT_MS = i.lastUpdated + ROUTE_TIMEOUT_MS ∧
        (((t.onTick ord nowMs).remoteLayers l).remotes.lookup n = some i ↔
          i.lastUpdated + ROUTE_TIMEOUT_MS > nowMs)
  | (.onDisconnected _, _) => True

end RouteTable

theorem wrapAdd_eq_iff {w a b : ℕ} : wrapAdd w a b = a + b ↔ a + b < 2 ^ w := by
  refine ⟨fun h => ?_, wrapAdd_of_lt⟩
  rw [← h]
  exact Nat.mod_lt _ (Nat.two_pow_pos w)

namespace RouteTable

theorem exact_iff_fits (t : RouteTable Node N) (c : TableCall Node) : t.Exact c ↔ t.Fits c.1 := by
  obtain ⟨e, ord⟩ := c
  cases e with
  | applySync src rtt sync =>
    refine ⟨fun h l i hi => wrapAdd_eq_iff.mp (h l i hi).1, fun h l i hi => ?_⟩
    have hsum := wrapAdd_eq_iff.mpr (h l i hi)
    refine ⟨hsum, ⟨i.cost + rtt, i.lastUpdated⟩, ?_, Nat.le_add_right _ _⟩
    simp [applySync, LayerRemotePaths.lookup_applySync, hi, hsum]
  | onTick nowMs =>
    refine ⟨fun h l n i hi => wrapAdd_eq_iff.mp (h l n i hi).1, fun h l n i hi => ?_⟩
    have hsum := wrapAdd_eq_iff.mpr (h l n i hi)
    refine ⟨hsum, ?_⟩
    simp only [onTick]
    rw [LayerRemotePaths.lookup_onTick, hsum]
    simp [hi]
  | onDisconnected node => exact Iff.rfl

theorem exact_run_iff (t : RouteTable Node N) (calls : List (TableCall Node)) :
    (∀ pre c post, calls = pre ++ c :: post → (t.exec pre).Exact c) ↔ t.NoOverflow calls := by
  induction calls using List.reverseRecOn with
  | nil => simp [NoOverflow]
  | append_singleton calls c ih =>
    rw [List.forall_split_snoc_iff (P := fun pre c => (t.exec pre).Exact c), ih, noOverflow_snoc, exact_iff_fits]

/-- What a table holds is in its history, so this tells whether the next call fits. -/
theorem fits_iff_inRange (localLayers : Range) (calls : List (TableCall Node))
    (hfit : (new localLayers : RouteTable Node N).NoOverflow calls) (e : TableEvent Node) :
    ((new localLayers : RouteTable Node N).exec calls).Fits e ↔ e.InRange N (calls.map Prod.fst) := by
  cases e with
  | applySync src rtt sync => exact ⟨fun h l hl => h ⟨l, hl⟩, fun h l => h l.val l.isLt⟩
  | onTick nowMs =>
    refine ⟨fun h l hl n info hinfo => ?_, fun h l n info hinfo => ?_⟩
    · refine h ⟨l, hl⟩ n info ?_
      rw [lookup_exec localLayers calls hfit, foldl_entry_iff]
      exact hinfo
    · rw [lookup_exec localLayers calls hfit, foldl_entry_iff] at hinfo
      exact h l.val l.isLt n info hinfo
  | onDisconnected node => exact Iff.rfl

theorem noOverflow_iff_inRange (localLayers : Range) (calls : List (TableCall Node)) :
    (new localLayers : RouteTable Node N).NoOverflow calls ↔
      ∀ pre e post, calls.map Prod.fst = pre ++ e :: post → e.InRange N pre := by
  induction calls using List.reverseRecOn with
  | nil => simp [NoOverflow]
  | append_singleton calls c ih =>
    rw [noOverflow_snoc, List.map_append, List.map_singleton,
      List.forall_split_snoc_iff (P := fun pre (e : TableEvent Node) => e.InRange N pre), ← ih]
    exact and_congr_right fun hfit => fits_iff_inRange localLayers calls hfit c.1

/-- Every entry could be sent again. -/
def Stored (t : RouteTable Node N) : Prop :=
  ∀ (l : Fin N) (n : Node) (i : LayerRemoteInfo), (t.remoteLayers l).remotes.lookup n = some i →
    i.cost < 2 ^ 32 ∧ i.lastUpdated < 2 ^ 64

theorem Stored.call {t : RouteTable Node N} (h : t.Stored) {c : TableCall Node} (hwire : c.1.OnWire) :
    (t.call c).Stored := by
  obtain ⟨e, ord⟩ := c
  cases e with
  | applySync src rtt sync =>
    intro l n i hi
    simp only [RouteTable.call, applySync, LayerRemotePaths.lookup_applySync] at hi
    split at hi
    · obtain ⟨j, hj, rfl⟩ := Option.map_eq_some_iff.mp hi
      exact ⟨Nat.mod_lt _ (by decide), (hwire.2 j (List.mem_of_getElem? (Option.join_eq_some_iff.mp hj))).2⟩
    · exact h l n i hi
  | onTick nowMs => exact fun l n i hi => h l n i (lookup_of_call (by simp) l n i hi)
  | onDisconnected node => exact fun l n i hi => h l n i (lookup_of_call (by simp) l n i hi)

theorem stored_exec (localLayers : Range) (calls : List (TableCall Node)) (hwire : ∀ c ∈ calls, c.1.OnWire) :
    ((new localLayers : RouteTable Node N).exec calls).Stored := by
  induction calls using List.reverseRecOn with
  | nil => simp [exec, new, LayerRemotePaths.empty, Stored]
  | append_singleton calls c ih =>
    rw [exec_snoc]
    refine (ih fun c' hc' => hwire c' ?_).call (hwire c ?_) <;> simp [*]

omit [DecidableEq Node] in
theorem createSync_length {t : RouteTable Node N} {nowMs : ℕ} {s : RouteSync} (h : t.createSync nowMs = .ok s) :
    s.layers.length = N := by
  rw [Except.length_mapM (createSync_eq_ok h), List.length_range]

/-- What a table advertises is as much on the wire as what it has received. -/
theorem Stored.createSync {t : RouteTable Node N} (h : t.Stored)
    (hcons : ∀ l, (t.remoteLayers l).Consistent) {nowMs : ℕ} (hnow : nowMs < 2 ^ 64) {s : RouteSync}
    (hs : t.createSync nowMs = .ok s) : s.OnWire := by
  intro i hi
  obtain ⟨l, hl⟩ := List.mem_iff_getElem?.mp hi
  have hlN : l < N := by
    rw [← createSync_length hs]
    exact (List.getElem?_eq_some_iff.mp hl).1
  obtain ⟨o, ho, hlo⟩ := createSync_ok hs l hlN
  rw [hlo, Option.some.injEq] at hl
  obtain ⟨p, rfl, rfl⟩ := Option.map_eq_some_iff.mp hl
  obtain ⟨-, -, -, rfl⟩ | ⟨hstop, d, j, -, -, hj, rfl⟩ | ⟨hlt, d, j, -, hj, rfl⟩ := selectNext_cases ho
  · exact ⟨Nat.two_pow_pos 32, hnow⟩
  · exact h _ d j ((hcons _).isEntry d j hj)
  · exact h _ d j ((hcons _).isEntry d j hj)

/-- In a history of what can be on the wire, every sum is exact if and only if the history
stays in range; and what a table sends on can be on the wire again, however it got there. -/
theorem arithmetic_exact_iff (localLayers : Range) (calls : List (TableCall Node))
    (hwire : ∀ c ∈ calls, c.1.OnWire) :
    ((∀ pre c post, calls = pre ++ c :: post → ((new localLayers : RouteTable Node N).exec pre).Exact c) ↔
        ∀ pre e post, calls.map Prod.fst = pre ++ e :: post → e.InRange N pre) ∧
      ∀ nowMs, nowMs < 2 ^ 64 → ∀ s,
        ((new localLayers : RouteTable Node N).exec calls).createSync nowMs = .ok s → s.OnWire := by
  refine ⟨?_, fun nowMs hnow s hs => ?_⟩
  · rw [exact_run_iff, noOverflow_iff_inRange]
  · exact (stored_exec localLayers calls hwire).createSync (consistent_exec localLayers calls) hnow hs

omit [DecidableEq Node] in
/-- A sync that advertises one layer. -/
theorem onWire_single {src : Node} {rtt : ℕ} {i : LayerRemoteInfo} (hrtt : rtt < 2 ^ 32) (hcost : i.cost < 2 ^ 32)
    (htime : i.lastUpdated < 2 ^ 64) : (TableEvent.applySync src rtt ⟨[some i]⟩).OnWire := by
  refine ⟨hrtt, fun j hj => ?_⟩
  obtain rfl : j = i := by simpa using hj
  exact ⟨hcost, htime⟩

theorem arithmetic_exact_single :
    ((new ⟨0, 1⟩ : RouteTable ℕ 1).exec []).Exact (.applySync 2 50 ⟨[some ⟨0, 100⟩]⟩, fun _ => .asIs) := by
  let calls : List (TableCall ℕ) := [(.applySync 2 50 ⟨[some ⟨0, 100⟩]⟩, fun _ => .asIs)]
  have hwire : ∀ c ∈ calls, c.1.OnWire := by
    intro c hc
    rw [List.mem_singleton.mp hc]
    exact onWire_single (by decide) (by decide) (by decide)
  have hrange : ∀ pre e post, calls.map Prod.fst = pre ++ e :: post → e.InRange 1 pre :=
    (noOverflow_iff_inRange ⟨0, 1⟩ calls).mp ⟨fits_single _ 2 50 ⟨0, 100⟩ (by decide), trivial⟩
  exact (arithmetic_exact_iff ⟨0, 1⟩ calls hwire).1.mpr hrange [] _ [] rfl

/-- A peer advertises the largest cost, and its route becomes a cheap one. -/
theorem arithmetic_wraps :
    ¬ ∀ calls : List (TableCall ℕ), (∀ c ∈ calls, c.1.OnWire) → ∀ pre c post, calls = pre ++ c :: post →
      ((new ⟨0, 1⟩ : RouteTable ℕ 1).exec pre).Exact c := by
  intro h
  let c : TableCall ℕ := (.applySync 2 50 ⟨[some ⟨4294967295, 100⟩]⟩, fun _ => .asIs)
  have hwire : ∀ c' ∈ [c], c'.1.OnWire := by
    intro c' hc
    rw [List.mem_singleton.mp hc]
    exact onWire_single (by decide) (by decide) (by decide)
  obtain ⟨-, j, hj, hcost⟩ := h [c] hwire [] c [] rfl 0 ⟨4294967295, 100⟩ rfl
  rw [applySync, LayerRemotePaths.lookup_applySync] at hj
  obtain rfl : (⟨49, 100⟩ : LayerRemoteInfo) = j := Option.some.inj hj
  exact absurd hcost (by decide)

end RouteTable
end Dllm
