import DecentralizedInference.Sanity.RouteTable
import DecentralizedInference.Spec.RouteNet

/-! Facts about single calls on a table of a network, and what holds of all tables
of every network state: each keeps its node's local range, and each `next` is a
cheapest entry. -/

namespace Dllm

variable {Node : Type} {N : ℕ} [DecidableEq Node]

/-- What a call does to the entry of `n` in layer `l`. -/
def TableEvent.entry (l : ℕ) (n : Node) (c : Option LayerRemoteInfo) : TableEvent Node → Option LayerRemoteInfo
  | .applySync src rtt sync =>
    if n = src then sync.layers[l]?.join.map fun i => ⟨i.cost + rtt, i.lastUpdated⟩ else c
  | .onTick nowMs => c.filter fun i => nowMs < i.lastUpdated + ROUTE_TIMEOUT_MS
  | .onDisconnected node => if n = node then none else c

namespace RouteTable

/-- One call does to each entry what `TableEvent.entry` says. -/
theorem lookup_call (t : RouteTable Node N) (c : TableCall Node) (hfit : t.Fits c.1) (l : Fin N)
    (n : Node) :
    ((t.call c).remoteLayers l).remotes.lookup n =
      c.1.entry l n ((t.remoteLayers l).remotes.lookup n) := by
  obtain ⟨e, ord⟩ := c
  cases e with
  | applySync src rtt sync =>
    simp only [call, applySync, LayerRemotePaths.lookup_applySync, TableEvent.entry]
    split
    · cases hl : sync.layers[l.val]? with
      | none => rfl
      | some adv =>
        cases adv with
        | none => rfl
        | some i => simp [wrapAdd_of_lt (hfit l i hl)]
    · rfl
  | onTick nowMs =>
    ext i
    simp only [call, onTick, TableEvent.entry, Option.filter_eq_some_iff,
      LayerRemotePaths.lookup_onTick, decide_eq_true_eq]
    refine ⟨fun ⟨hi, hnow⟩ => ?_, fun ⟨hi, hnow⟩ => ?_⟩
    · rw [wrapAdd_of_lt (hfit l n i hi)] at hnow
      exact ⟨hi, hnow⟩
    · rw [wrapAdd_of_lt (hfit l n i hi)]
      exact ⟨hi, hnow⟩
  | onDisconnected node =>
    simp only [call, onDisconnected, LayerRemotePaths.lookup_onDisconnected, TableEvent.entry]

/-- `on_tick` and `on_disconnected` only remove entries. -/
theorem lookup_of_call {t : RouteTable Node N} {e : TableEvent Node} {ord : ℕ → RemoteOrder Node}
    (he : ∀ src rtt s, e ≠ .applySync src rtt s) (l : Fin N) (d : Node) (i : LayerRemoteInfo)
    (h : ((t.call (e, ord)).remoteLayers l).remotes.lookup d = some i) :
    (t.remoteLayers l).remotes.lookup d = some i := by
  cases e with
  | applySync src rtt s => exact absurd rfl (he src rtt s)
  | onTick nowMs => exact ((LayerRemotePaths.lookup_onTick _ _ _ _ _).mp h).1
  | onDisconnected node =>
    have h' := (LayerRemotePaths.lookup_onDisconnected (ord l) node (t.remoteLayers l) d).symm.trans h
    split at h'
    · cases h'
    · exact h'

theorem consistent_call {t : RouteTable Node N} (h : ∀ l, (t.remoteLayers l).Consistent)
    (c : TableCall Node) (l : Fin N) : ((t.call c).remoteLayers l).Consistent := by
  obtain ⟨e, ord⟩ := c
  cases e with
  | applySync src rtt sync => exact LayerRemotePaths.consistent_applySync _ _ _ _ _
  | onTick nowMs => exact LayerRemotePaths.consistent_onTick _ _ (h l)
  | onDisconnected node => exact LayerRemotePaths.consistent_onDisconnected _ _ (h l)

@[simp] theorem localLayers_call (t : RouteTable Node N) (c : TableCall Node) :
    (t.call c).localLayers = t.localLayers := by
  obtain ⟨e, ord⟩ := c
  cases e <;> rfl

/-- The part of a table that no call and no peer can spoil. -/
structure Sound (r : Range) (t : RouteTable Node N) : Prop where
  localLayers : t.localLayers = r
  consistent : ∀ l, (t.remoteLayers l).Consistent

theorem sound_new (r : Range) : Sound r (new r : RouteTable Node N) :=
  ⟨rfl, fun _ => LayerRemotePaths.consistent_empty⟩

theorem Sound.call {r : Range} {t : RouteTable Node N} (h : Sound r t) (c : TableCall Node) :
    Sound r (t.call c) :=
  ⟨by rw [localLayers_call, h.localLayers], fun l => consistent_call h.consistent c l⟩

/-- Replacing one sound table keeps all tables sound. -/
theorem sound_update {ranges : Node → Range} {tables : Node → RouteTable Node N}
    (h : ∀ n, Sound (ranges n) (tables n)) (n : Node) (c : TableCall Node) (n' : Node) :
    Sound (ranges n') (Function.update tables n ((tables n).call c) n') := by
  by_cases hn : n' = n
  · subst hn
    rw [Function.update_self]
    exact (h n').call c
  · rw [Function.update_of_ne hn]
    exact h n'

end RouteTable

/-- A concrete network for runs on fixed inputs: node 0 holds the whole one-layer
model, all other nodes hold nothing. -/
def oneTail (n : ℕ) : Range := if n = 0 then ⟨0, 1⟩ else ⟨0, 0⟩

theorem fits_single (t : RouteTable ℕ 1) (src rtt : ℕ) (i : LayerRemoteInfo)
    (h : i.cost + rtt < 2 ^ 32) : t.Fits (.applySync src rtt ⟨[some i]⟩) := by
  intro l j hj
  obtain rfl : l = 0 := Subsingleton.elim _ _
  obtain rfl : i = j := by simpa using hj
  exact h

theorem RouteNet.sound_run {ranges : Node → Range} {es : List (NetEvent Node)}
    {σ : RouteNet Node N} (hrun : Run RouteNet.Step (RouteNet.init ranges) es σ) :
    ∀ n, (σ.tables n).Sound (ranges n) := by
  refine hrun.invariant (P := fun σ => ∀ n, (σ.tables n).Sound (ranges n))
    (fun n => RouteTable.sound_new _) ?_
  intro a e b hs ha
  cases hs with
  | broadcast => exact ha
  | deliver => exact RouteTable.sound_update ha _ _
  | tick => exact RouteTable.sound_update ha _ _
  | disconnected => exact RouteTable.sound_update ha _ _

theorem LinkNet.sound_run {T : Topology Node} {es : List (LinkEvent Node)} {σ σ' : LinkNet Node N}
    (h : ∀ n, (σ.tables n).Sound (T.ranges n)) (hrun : Run (LinkNet.Step T) σ es σ') :
    ∀ n, (σ'.tables n).Sound (T.ranges n) := by
  refine hrun.invariant (P := fun σ => ∀ n, (σ.tables n).Sound (T.ranges n)) h ?_
  intro a e b hs ha
  cases hs with
  | send => exact ha
  | deliver => exact RouteTable.sound_update ha _ _

end Dllm
