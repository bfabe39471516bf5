import DecentralizedInference.Sanity.RouteNet
import Mathlib.Data.ENat.Lattice

/-! Costs of routes as extended naturals, with `⊤` for "no route": what a table
answers, what it advertises, and what its entries say. -/

namespace Dllm

variable {Node : Type} {N : ℕ}

/-- The cost a sync advertises for a layer. -/
def RouteSync.costAt (s : RouteSync) (l : ℕ) : ℕ∞ :=
  match s.layers[l]? with
  | some (some i) => i.cost
  | _ => ⊤

namespace RouteTable

/-- The cost of the answer of `select_next`. -/
def routeCost (t : RouteTable Node N) (l : ℕ) : ℕ∞ :=
  match t.selectNext l with
  | .ok (some p) => p.cost
  | _ => ⊤

/-- The cost of the cached `next` of a layer. -/
def nextCost (t : RouteTable Node N) (l : Fin N) : ℕ∞ :=
  match (t.remoteLayers l).next with
  | some e => e.2.cost
  | none => ⊤

theorem routeCost_of_finishes {t : RouteTable Node N} {l : ℕ} (h : t.Finishes l) :
    t.routeCost l = 0 := by
  simp [routeCost, selectNext_of_finishes h, RoutePath.cost]

theorem routeCost_of_not_finishes {t : RouteTable Node N} {l : ℕ} (h : ¬ t.Finishes l)
    (hl : t.lookupLayer l < N) : t.routeCost l = t.nextCost ⟨t.lookupLayer l, hl⟩ := by
  rw [routeCost, selectNext_of_not_finishes h hl, nextCost]
  cases (t.remoteLayers ⟨t.lookupLayer l, hl⟩).next with
  | none => rfl
  | some e => simp [RoutePath.cost]

/-- An answer of `select_next` names its cost. -/
theorem routeCost_of_ok {t : RouteTable Node N} {l : ℕ} {p : RoutePath Node}
    (h : t.selectNext l = .ok (some p)) : t.routeCost l = p.cost := by
  simp [routeCost, h]

theorem exists_of_routeCost_ne_top {t : RouteTable Node N} {l : ℕ} (h : t.routeCost l ≠ ⊤) :
    ∃ p, t.selectNext l = .ok (some p) := by
  unfold routeCost at h
  split at h
  · rename_i p hp
    exact ⟨p, hp⟩
  · exact absurd rfl h

/-- A layer that is routed at all is looked up inside the model. -/
theorem lookupLayer_lt {t : RouteTable Node N} {l : ℕ} (hc : ¬ t.Finishes l)
    (h : t.routeCost l ≠ ⊤) : t.lookupLayer l < N := by
  obtain ⟨p, hp⟩ := exists_of_routeCost_ne_top h
  rcases selectNext_cases hp with
    ⟨h1, h2, h3, -⟩ | ⟨hs, -, -, h1, h2, -, -⟩ | ⟨hl, -, -, h1, -, -⟩
  · exact absurd ⟨(Range.contains_iff _ _).mpr ⟨h1, by omega⟩, h3⟩ hc
  · rw [lookupLayer, Range.handOver, if_pos ((Range.contains_iff _ _).mpr ⟨h1, h2⟩)]
    exact hs
  · rw [lookupLayer, Range.handOver, h1]
    exact hl

/-- Tables that agree on the local range compare as their cached costs do. -/
theorem routeCost_mono {t t' : RouteTable Node N} (hlocal : t'.localLayers = t.localLayers)
    (h : ∀ l, t'.nextCost l ≤ t.nextCost l) (l : ℕ) : t'.routeCost l ≤ t.routeCost l := by
  have hfin : t'.Finishes l ↔ t.Finishes l := by rw [Finishes, Finishes, hlocal]
  have hlook : t'.lookupLayer l = t.lookupLayer l := by rw [lookupLayer, lookupLayer, hlocal]
  by_cases hf : t.Finishes l
  · rw [routeCost_of_finishes (hfin.mpr hf)]
    exact zero_le
  · by_cases htop : t.routeCost l = ⊤
    · rw [htop]
      exact le_top
    · have hl := lookupLayer_lt hf htop
      rw [routeCost_of_not_finishes hf hl,
        routeCost_of_not_finishes (fun h' => hf (hfin.mp h')) (hlook ▸ hl)]
      simp only [hlook]
      exact h _

theorem createSync_costAt {t : RouteTable Node N} {nowMs : ℕ} {s : RouteSync}
    (h : t.createSync nowMs = .ok s) {l : ℕ} (hl : l < N) : s.costAt l = t.routeCost l := by
  obtain ⟨o, ho, hs⟩ := createSync_ok h l hl
  rw [RouteSync.costAt, routeCost, hs, ho]
  cases o <;> rfl

variable [DecidableEq Node]

/-- The cost of the entry of `m` in a layer. -/
def entryCost (t : RouteTable Node N) (l : Fin N) (m : Node) : ℕ∞ :=
  match (t.remoteLayers l).remotes.lookup m with
  | some i => i.cost
  | none => ⊤

theorem nextCost_le_entryCost {r : Range} {t : RouteTable Node N} (h : t.Sound r) (l : Fin N)
    (m : Node) : t.nextCost l ≤ t.entryCost l m := by
  unfold entryCost
  split
  · rename_i i hi
    unfold nextCost
    cases hn : (t.remoteLayers l).next with
    | none =>
      have hnil := (h.consistent l).none_iff.mp hn
      rw [AList.entries_eq_nil_iff] at hnil
      simp [hnil m] at hi
    | some e => exact Nat.cast_le.mpr ((h.consistent l).least e.1 e.2 hn m i hi)
  · exact le_top

/-- What `next` points to is an entry. -/
theorem nextCost_eq_entryCost {r : Range} {t : RouteTable Node N} (h : t.Sound r) {l : Fin N}
    {d : Node} {i : LayerRemoteInfo} (hn : (t.remoteLayers l).next = some (d, i)) :
    t.nextCost l = t.entryCost l d := by
  simp [nextCost, entryCost, hn, (h.consistent l).isEntry d i hn]

/-- A routed layer is paid for by an entry of the layer that is looked up. -/
theorem exists_entryCost {r : Range} {t : RouteTable Node N} (h : t.Sound r) {l : ℕ}
    (hf : ¬ t.Finishes l) (htop : t.routeCost l ≠ ⊤) :
    ∃ (hl : t.lookupLayer l < N) (d : Node), t.routeCost l = t.entryCost ⟨t.lookupLayer l, hl⟩ d := by
  have hl := lookupLayer_lt hf htop
  rw [routeCost_of_not_finishes hf hl] at htop ⊢
  cases hn : (t.remoteLayers ⟨t.lookupLayer l, hl⟩).next with
  | none => simp [nextCost, hn] at htop
  | some e => exact ⟨hl, e.1, nextCost_eq_entryCost h hn⟩

theorem routeCost_le_entryCost {r : Range} {t : RouteTable Node N} (h : t.Sound r) {l : ℕ}
    (hl : t.lookupLayer l < N) (m : Node) :
    t.routeCost l ≤ t.entryCost ⟨t.lookupLayer l, hl⟩ m := by
  by_cases hf : t.Finishes l
  · rw [routeCost_of_finishes hf]
    exact zero_le
  · rw [routeCost_of_not_finishes hf hl]
    exact nextCost_le_entryCost h _ m

/-- A sync that fits replaces the entries of its sender by what it advertises. -/
theorem entryCost_applySync {t : RouteTable Node N} {src : Node} {rtt : ℕ} {s : RouteSync}
    (hfit : t.Fits (.applySync src rtt s)) (ord : ℕ → RemoteOrder Node) (l : Fin N) (m : Node) :
    (t.call (.applySync src rtt s, ord)).entryCost l m =
      if m = src then s.costAt l + rtt else t.entryCost l m := by
  rw [entryCost, lookup_call t (.applySync src rtt s, ord) hfit]
  simp only [TableEvent.entry]
  split
  · rename_i i hi
    split at hi
    · rename_i hm
      obtain ⟨j, hj, rfl⟩ := Option.map_eq_some_iff.mp hi
      rw [Option.join_eq_some_iff] at hj
      rw [if_pos hm, RouteSync.costAt, hj]
      simp
    · rename_i hm
      rw [if_neg hm, entryCost, hi]
  · rename_i hi
    split at hi
    · rename_i hm
      rw [Option.map_eq_none_iff] at hi
      rw [if_pos hm, RouteSync.costAt]
      split
      · rename_i j hj
        simp [hj] at hi
      · simp
    · rename_i hm
      rw [if_neg hm, entryCost, hi]

/-- A table with fewer entries has no cheaper ones. -/
theorem entryCost_le_of_lookup {t t' : RouteTable Node N} {l : Fin N} {m : Node}
    (h : ∀ i, (t'.remoteLayers l).remotes.lookup m = some i →
      (t.remoteLayers l).remotes.lookup m = some i) : t.entryCost l m ≤ t'.entryCost l m := by
  cases hi : (t'.remoteLayers l).remotes.lookup m with
  | none => simp [entryCost, hi]
  | some i => simp [entryCost, hi, h i hi]

end RouteTable
end Dllm
