import DecentralizedInference.Lib.Run
import DecentralizedInference.Spec.RouteTable

/-! What the operations of a route table do to one layer's entries, that the
cached `next` stays a cheapest entry, and everything `select_next` and
`create_sync` can answer. Later proofs use these facts and never unfold the
operations. -/

namespace Dllm

variable {Node : Type}

/-- The layer at which a node hands over: the end of its range when it runs any
layer itself. -/
def Range.handOver (r : Range) (l : ℕ) : ℕ := if r.contains l then r.stop else l

/-- The `next` of a layer is a cheapest entry of its `remotes`, and absent only
when there is none. -/
structure LayerRemotePaths.Consistent [DecidableEq Node] (p : LayerRemotePaths Node) : Prop where
  none_iff : p.next = none ↔ p.remotes.entries = []
  isEntry : ∀ n i, p.next = some (n, i) → p.remotes.lookup n = some i
  least : ∀ n i, p.next = some (n, i) → ∀ m j, p.remotes.lookup m = some j → i.cost ≤ j.cost

namespace LayerRemotePaths

@[simp] theorem updateBest_remotes (ord : RemoteOrder Node) (p : LayerRemotePaths Node) :
    (p.updateBest ord).remotes = p.remotes := rfl

variable [DecidableEq Node]

theorem consistent_empty : (empty : LayerRemotePaths Node).Consistent :=
  ⟨by simp [empty], by simp [empty], by simp [empty]⟩

theorem consistent_updateBest (ord : RemoteOrder Node) (p : LayerRemotePaths Node) :
    (p.updateBest ord).Consistent := by
  refine ⟨?_, ?_, ?_⟩
  · simp only [updateBest, Option.map_eq_none_iff]
    exact ord.argmin_run_eq_none _
  · intro n i h
    simp only [updateBest, Option.map_eq_some_iff, Prod.mk.injEq] at h
    obtain ⟨e, he, rfl, rfl⟩ := h
    exact AList.lookup_eq_some_iff.mpr (ord.argmin_run _ he).1
  · intro n i h m j hm
    simp only [updateBest, Option.map_eq_some_iff, Prod.mk.injEq] at h
    obtain ⟨e, he, rfl, rfl⟩ := h
    exact (ord.argmin_run _ he).2 ⟨m, j⟩ (AList.lookup_eq_some_iff.mp hm)

theorem consistent_applySync (ord : RemoteOrder Node) (src : Node) (rtt : ℕ)
    (adv : Option (Option LayerRemoteInfo)) (p : LayerRemotePaths Node) :
    (p.applySync ord src rtt adv).Consistent := by
  unfold applySync
  split <;> exact consistent_updateBest _ _

theorem consistent_onDisconnected (ord : RemoteOrder Node) (node : Node)
    {p : LayerRemotePaths Node} (hp : p.Consistent) : (p.onDisconnected ord node).Consistent := by
  unfold onDisconnected
  split
  · exact consistent_updateBest _ _
  · exact hp

/-- `on_tick` refreshes `next` only when the size changed; an equal size means
that nothing was removed. -/
theorem consistent_onTick (ord : RemoteOrder Node) (nowMs : ℕ)
    {p : LayerRemotePaths Node} (hp : p.Consistent) : (p.onTick ord nowMs).Consistent := by
  unfold onTick
  simp only
  split
  · exact consistent_updateBest _ _
  · rename_i hlen
    rw [AList.retain_eq_of_length (not_not.mp hlen)]
    exact hp

theorem lookup_onTick (ord : RemoteOrder Node) (nowMs : ℕ) (p : LayerRemotePaths Node)
    (n : Node) (i : LayerRemoteInfo) :
    (p.onTick ord nowMs).remotes.lookup n = some i ↔
      p.remotes.lookup n = some i ∧ nowMs < wrapAdd 64 i.lastUpdated ROUTE_TIMEOUT_MS := by
  have hr : (p.onTick ord nowMs).remotes = p.remotes.retain fun _ info =>
      decide (wrapAdd 64 info.lastUpdated ROUTE_TIMEOUT_MS > nowMs) := by
    unfold onTick
    simp only
    split <;> rfl
  rw [hr, AList.lookup_retain, decide_eq_true_eq]

theorem lookup_onDisconnected (ord : RemoteOrder Node) (node : Node) (p : LayerRemotePaths Node)
    (n : Node) :
    (p.onDisconnected ord node).remotes.lookup n =
      if n = node then none else p.remotes.lookup n := by
  unfold onDisconnected
  by_cases hn : n = node
  · subst hn
    split
    · simp
    · rename_i h
      simpa using h
  · split <;> simp [hn]

theorem lookup_applySync (ord : RemoteOrder Node) (src : Node) (rtt : ℕ)
    (adv : Option (Option LayerRemoteInfo)) (p : LayerRemotePaths Node) (n : Node) :
    (p.applySync ord src rtt adv).remotes.lookup n =
      if n = src then adv.join.map fun i => { i with cost := wrapAdd 32 i.cost rtt }
      else p.remotes.lookup n := by
  unfold applySync
  by_cases hn : n = src
  · subst hn
    rcases adv with - | - | info <;> simp
  · split <;> simp [hn]

end LayerRemotePaths

namespace RouteTable

variable {N : ℕ}

theorem remoteLayer_of_lt (t : RouteTable Node N) {i : ℕ} (h : i < N) :
    t.remoteLayer i = .ok (t.remoteLayers ⟨i, h⟩) := dif_pos h

/-- Everything a successful `select_next` can answer: run to the end of the
model here, run to the end of the local range and hand over, or only relay. -/
theorem selectNext_cases {t : RouteTable Node N} {l : ℕ} {p : RoutePath Node}
    (h : t.selectNext l = .ok (some p)) :
    (t.localLayers.start ≤ l ∧ l < N ∧ t.localLayers.stop = N ∧ p = ⟨some ⟨l, N⟩, none⟩) ∨
    (∃ (hs : t.localLayers.stop < N) (d : Node) (i : LayerRemoteInfo),
      t.localLayers.start ≤ l ∧ l < t.localLayers.stop ∧
      (t.remoteLayers ⟨t.localLayers.stop, hs⟩).next = some (d, i) ∧
      p = ⟨some ⟨l, t.localLayers.stop⟩,
        some ⟨d, ⟨t.localLayers.stop, N⟩, i.cost, i.lastUpdated⟩⟩) ∨
    (∃ (hl : l < N) (d : Node) (i : LayerRemoteInfo),
      t.localLayers.contains l = false ∧ (t.remoteLayers ⟨l, hl⟩).next = some (d, i) ∧
      p = ⟨none, some ⟨d, ⟨l, N⟩, i.cost, i.lastUpdated⟩⟩) := by
  unfold selectNext remoteLayer at h
  split at h
  · rename_i hc
    rw [Range.contains_iff] at hc
    split at h
    · rename_i hN
      left
      injection h with h
      injection h with h
      exact ⟨hc.1, hN ▸ hc.2, hN, h.symm⟩
    · split at h
      · rename_i hs
        injection h with h
        obtain ⟨⟨d, i⟩, hn, rfl⟩ := Option.map_eq_some_iff.mp h
        exact .inr (.inl ⟨hs, d, i, hc.1, hc.2, hn, rfl⟩)
      · cases h
  · rename_i hc
    split at h
    · rename_i hl
      injection h with h
      obtain ⟨⟨d, i⟩, hn, rfl⟩ := Option.map_eq_some_iff.mp h
      exact .inr (.inr ⟨hl, d, i, Bool.eq_false_iff.mpr hc, hn, rfl⟩)
    · cases h

/-- The layer at whose `remotes` a table looks to route layer `l`. -/
def lookupLayer (t : RouteTable Node N) (l : ℕ) : ℕ := t.localLayers.handOver l

/-- A layer this node can run to the end of the model by itself. -/
def Finishes (t : RouteTable Node N) (l : ℕ) : Prop :=
  t.localLayers.contains l = true ∧ t.localLayers.stop = N

theorem selectNext_of_finishes {t : RouteTable Node N} {l : ℕ} (h : t.Finishes l) :
    t.selectNext l = .ok (some ⟨some ⟨l, N⟩, none⟩) := by
  unfold selectNext
  rw [if_pos h.1, if_pos h.2]

/-- Elsewhere the answer is the `next` of the layer that is looked up. -/
theorem selectNext_of_not_finishes {t : RouteTable Node N} {l : ℕ} (h : ¬ t.Finishes l)
    (hl : t.lookupLayer l < N) :
    t.selectNext l = .ok ((t.remoteLayers ⟨t.lookupLayer l, hl⟩).next.map fun e =>
      ⟨if t.localLayers.contains l then some ⟨l, t.lookupLayer l⟩ else none,
        some ⟨e.1, ⟨t.lookupLayer l, N⟩, e.2.cost, e.2.lastUpdated⟩⟩) := by
  by_cases hc : t.localLayers.contains l
  · have hne : t.localLayers.stop ≠ N := fun he => h ⟨hc, he⟩
    have hk : t.lookupLayer l = t.localLayers.stop := if_pos hc
    have hs : t.localLayers.stop < N := hk ▸ hl
    unfold selectNext
    rw [if_pos hc, if_neg hne, remoteLayer_of_lt t hs]
    simp only [hk, hc, if_true]
    rfl
  · have hk : t.lookupLayer l = l := if_neg hc
    have hs : l < N := hk ▸ hl
    unfold selectNext
    rw [if_neg hc, remoteLayer_of_lt t hs]
    simp only [hk, hc]
    rfl

theorem createSync_eq_ok {t : RouteTable Node N} {nowMs : ℕ} {s : RouteSync} (h : t.createSync nowMs = .ok s) :
    (List.range N).mapM (t.advertise nowMs) = .ok s.layers := by
  unfold createSync at h
  cases hm : (List.range N).mapM (t.advertise nowMs) with
  | error e => simp [hm, bind, Except.bind] at h
  | ok layers =>
    simp only [hm, bind, Except.bind, pure, Except.pure, Except.ok.injEq] at h
    rw [← h]

/-- A finished `create_sync` holds the answer of `select_next` for every layer. -/
theorem createSync_ok {t : RouteTable Node N} {nowMs : ℕ} {s : RouteSync}
    (h : t.createSync nowMs = .ok s) :
    ∀ l < N, ∃ o, t.selectNext l = .ok o ∧
      s.layers[l]? = some (o.map fun p => ⟨p.cost, p.lastUpdated.getD nowMs⟩) := by
  intro l hl
  obtain ⟨b, hb, hlb⟩ := Except.mapM_ok (createSync_eq_ok h) l (by simpa using hl)
  rw [List.getElem_range] at hb
  unfold advertise at hb
  cases ho : t.selectNext l with
  | error e => simp [ho, bind, Except.bind] at hb
  | ok o =>
    simp only [ho, bind, Except.bind, pure, Except.pure, Except.ok.injEq] at hb
    exact ⟨o, rfl, hb ▸ hlb⟩

end RouteTable
end Dllm
