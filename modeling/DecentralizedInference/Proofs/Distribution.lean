import DecentralizedInference.Spec.Registry
import Mathlib.Data.Set.Card

/-! What `get_distribution` reports: after every history of a `SessionManager`, how many of the
registered nodes have each layer by the last update that they have sent. -/

namespace Dllm

/-- The calls that change a `SessionManager`. -/
inductive SessionCall (Node Stats Data : Type) where
  | start (node : Node)
  | event (node : Node) (event : ToRegistry Node Stats Data)
  | finish (node : Node)

/-- Whether a call replaces or takes back the range that the node has sent. -/
def SessionCall.Overrides {Node Stats Data : Type} (n : Node) : SessionCall Node Stats Data → Prop
  | .start node => node = n
  | .event node (.update _ _) => node = n
  | .event _ _ => False
  | .finish node => node = n

namespace SessionManager

variable {Node Stats Data : Type} [DecidableEq Node]

/-- One call; the map of an event's neighbours iterates in some order. -/
def Step [Inhabited Stats] (m : SessionManager Node Stats Data) :
    SessionCall Node Stats Data → SessionManager Node Stats Data → Prop
  | .start node, m' => m' = m.onStart node
  | .event node event, m' => ∃ ord, m.onEvent ord node event = .ok m'
  | .finish node, m' => m' = m.onEnd node

omit [DecidableEq Node] in
/-- The node's last update in a history, if it has not started again or ended since. -/
def Advertises (es : List (SessionCall Node Stats Data)) (n : Node) (r : Range) : Prop :=
  ∃ pre post, es = pre ++ .event n (.update r.start r.stop) :: post ∧ ∀ e ∈ post, ¬e.Overrides n

omit [DecidableEq Node] in
theorem advertises_snoc {es : List (SessionCall Node Stats Data)} {e : SessionCall Node Stats Data} {n : Node}
    {r : Range} :
    Advertises (es ++ [e]) n r ↔
      e = .event n (.update r.start r.stop) ∨ (¬e.Overrides n ∧ Advertises es n r) := by
  refine ⟨fun h => ?_, fun h => ?_⟩
  · obtain ⟨pre, post, hsplit, hpost⟩ := h
    obtain ⟨-, -, rfl⟩ | ⟨post', rfl, rfl⟩ := List.snoc_eq_append_cons_iff.mp hsplit
    · exact .inl rfl
    · refine .inr ⟨hpost e (by simp), pre, post', rfl, fun e' he' => hpost e' ?_⟩
      exact List.mem_append_left _ he'
  · obtain rfl | ⟨he, pre, post, rfl, hpost⟩ := h
    · exact ⟨es, [], rfl, nofun⟩
    · refine ⟨pre, post ++ [e], by simp, fun e' he' => ?_⟩
      obtain he' | he' := List.mem_append.mp he'
      · exact hpost e' he'
      · rw [List.mem_singleton.mp he']
        exact he

def rangeOf (m : SessionManager Node Stats Data) (n : Node) : Option Range :=
  (m.nodes.lookup n).bind NodeInfo.layers

theorem rangeOf_insert {m m' : SessionManager Node Stats Data} {node : Node} {info : NodeInfo Stats}
    (h : m'.nodes = m.nodes.insert node info) (n : Node) :
    m'.rangeOf n = if node = n then info.layers else m.rangeOf n := by
  unfold rangeOf
  rw [h]
  by_cases hn : node = n
  · subst hn
    simp [AList.lookup_insert]
  · simp [AList.lookup_insert_ne (Ne.symm hn), hn]

/-- An event that replaces no range. -/
theorem rangeOf_onEvent {ord : IterOrder Node} {m m' : SessionManager Node Stats Data} {node : Node}
    {event : ToRegistry Node Stats Data} (h : m.onEvent ord node event = .ok m')
    (hevent : ∀ fromLayer toLayer, event ≠ .update fromLayer toLayer) (n : Node) : m'.rangeOf n = m.rangeOf n := by
  have hsame : m'.nodes = m.nodes → m'.rangeOf n = m.rangeOf n := fun hnodes => by
    unfold rangeOf
    rw [hnodes]
  cases event with
  | update fromLayer toLayer => exact absurd rfl (hevent fromLayer toLayer)
  | neighbours =>
    obtain rfl := Except.ok.inj h
    exact hsame rfl
  | relay dest data =>
    simp only [onEvent] at h
    split at h
    · obtain rfl := Except.ok.inj h
      exact hsame rfl
    · obtain rfl := Except.ok.inj h
      rfl
  | stats stats =>
    simp only [onEvent] at h
    cases hinfo : m.nodes.lookup node with
    | none => simp [hinfo] at h
    | some info =>
      simp only [hinfo, Except.ok.injEq] at h
      subst h
      rw [rangeOf_insert (m := m) rfl]
      split
      case isTrue hn =>
        subst hn
        simp [rangeOf, hinfo]
      case isFalse => rfl

theorem rangeOf_update {ord : IterOrder Node} {m m' : SessionManager Node Stats Data} {node : Node}
    {fromLayer toLayer : ℕ} (h : m.onEvent ord node (.update fromLayer toLayer) = .ok m') (n : Node) :
    m'.rangeOf n = if node = n then some ⟨fromLayer, toLayer⟩ else m.rangeOf n := by
  simp only [onEvent] at h
  cases hinfo : m.nodes.lookup node with
  | none => simp [hinfo] at h
  | some info =>
    simp only [hinfo, Except.ok.injEq] at h
    subst h
    have hnodes : ∀ events, (⟨m.nodes.insert node { info with layers := some ⟨fromLayer, toLayer⟩ }, events⟩ :
        SessionManager Node Stats Data).nodes = m.nodes.insert node ⟨some ⟨fromLayer, toLayer⟩, info.stats⟩ :=
      fun _ => rfl
    exact rangeOf_insert (hnodes _) n

/-- The ranges that the manager knows, after a call. -/
theorem rangeOf_step [Inhabited Stats] {m m' : SessionManager Node Stats Data} {e : SessionCall Node Stats Data}
    (h : Step m e m') (n : Node) (r : Range) :
    m'.rangeOf n = some r ↔ e = .event n (.update r.start r.stop) ∨ (¬e.Overrides n ∧ m.rangeOf n = some r) := by
  match e with
  | .start node =>
    obtain rfl := h
    have hnodes : (m.onStart node).nodes = m.nodes.insert node ⟨none, default⟩ := rfl
    rw [rangeOf_insert hnodes n]
    by_cases hn : node = n <;> simp [SessionCall.Overrides, hn]
  | .finish node =>
    obtain rfl := h
    by_cases hn : node = n
    · subst hn
      simp [onEnd, rangeOf, SessionCall.Overrides, AList.lookup_erase]
    · simp [onEnd, rangeOf, SessionCall.Overrides, AList.lookup_erase_ne (Ne.symm hn), hn]
  | .event node (.update fromLayer toLayer) =>
    obtain ⟨ord, h⟩ := h
    rw [rangeOf_update h]
    by_cases hn : node = n
    · subst hn
      rw [if_pos rfl, Option.some.injEq]
      obtain ⟨start, stop⟩ := r
      simp [SessionCall.Overrides]
    · simp [SessionCall.Overrides, hn]
  | .event node .neighbours =>
    obtain ⟨ord, h⟩ := h
    simp [rangeOf_onEvent h nofun, SessionCall.Overrides]
  | .event node (.relay dest data) =>
    obtain ⟨ord, h⟩ := h
    simp [rangeOf_onEvent h nofun, SessionCall.Overrides]
  | .event node (.stats stats) =>
    obtain ⟨ord, h⟩ := h
    simp [rangeOf_onEvent h nofun, SessionCall.Overrides]

theorem rangeOf_run [Inhabited Stats] {m : SessionManager Node Stats Data} {es : List (SessionCall Node Stats Data)}
    (hrun : Run Step ({} : SessionManager Node Stats Data) es m) (n : Node) (r : Range) :
    m.rangeOf n = some r ↔ Advertises es n r := by
  induction hrun with
  | nil => simp [rangeOf, Advertises]
  | snoc _ hstep ih => rw [rangeOf_step hstep, advertises_snoc, ih]

omit [DecidableEq Node] in
/-- The ranges that are known, in the order of a list of entries. -/
def ranges (entries : List (Sigma fun _ : Node => NodeInfo Stats)) : List Range :=
  entries.filterMap fun e => e.2.layers

omit [DecidableEq Node] in
theorem ranges_run (ord : IterOrder (Sigma fun _ : Node => NodeInfo Stats))
    (entries : List (Sigma fun _ : Node => NodeInfo Stats)) : (ranges (ord.run entries)).Perm (ranges entries) :=
  (ord.perm entries).filterMap _

end SessionManager

theorem Range.count_layers (r : Range) (l : ℕ) : r.layers.count l = if r.contains l then 1 else 0 := by
  split
  case isTrue h => exact List.count_eq_one_of_mem List.nodup_range' (Range.mem_layers.mpr h)
  case isFalse h => exact List.count_eq_zero_of_not_mem fun hmem => h (Range.mem_layers.mp hmem)

theorem Range.count_flatMap_layers (rs : List Range) (l : ℕ) :
    (rs.flatMap Range.layers).count l = rs.countP (·.contains l) := by
  induction rs with
  | nil => rfl
  | cons r rs ih =>
    rw [List.flatMap_cons, List.count_append, ih, Range.count_layers, List.countP_cons, Nat.add_comm]

namespace SessionManager

variable {Node Stats Data : Type} [DecidableEq Node]

omit [DecidableEq Node] in
theorem getDistribution_eq (m : SessionManager Node Stats Data) :
    m.getDistribution =
      tally (List.replicate (largest Range.stop (ranges m.nodes.entries) 0) 0)
        ((ranges m.nodes.entries).flatMap Range.layers) := by
  unfold tally
  rw [List.foldl_flatMap]
  rfl

omit [DecidableEq Node] in
theorem getDistributionIn_loops (ord ord' : IterOrder (Sigma fun _ : Node => NodeInfo Stats))
    (m : SessionManager Node Stats Data) :
    m.getDistributionIn ord ord' =
      (ranges (ord'.run m.nodes.entries)).foldlM
        (fun layers r => r.layers.foldlM (incrementAt .indexOutOfBounds) layers)
        (List.replicate (largest Range.stop (ranges (ord.run m.nodes.entries)) 0) 0) := by
  unfold getDistributionIn ranges largest
  simp only
  rw [List.foldl_filterMap, List.foldlM_filterMap]
  congr 1
  · funext layers e
    cases e.2.layers <;> rfl
  · congr 2
    funext maxLayer e
    cases e.2.layers <;> rfl

omit [DecidableEq Node] in
/-- Every index is in bounds, and no order of iteration makes a difference. -/
theorem getDistributionIn_eq (ord ord' : IterOrder (Sigma fun _ : Node => NodeInfo Stats))
    (m : SessionManager Node Stats Data) : m.getDistributionIn ord ord' = .ok m.getDistribution := by
  have hbound : ∀ r ∈ ranges (ord'.run m.nodes.entries), ∀ l ∈ r.layers,
      l < (List.replicate (largest Range.stop (ranges m.nodes.entries) 0) 0).length := by
    intro r hr l hl
    rw [List.length_replicate]
    have hr' : r ∈ ranges m.nodes.entries := (ranges_run ord' _).mem_iff.mp hr
    exact Nat.lt_of_lt_of_le ((r.contains_iff l).mp (Range.mem_layers.mp hl)).2 (le_largest_of_mem hr' 0)
  rw [getDistributionIn_loops, largest_perm _ (ranges_run ord _), foldlM_foldlM_incrementAt _ hbound,
    getDistribution_eq, tally_perm _ ((ranges_run ord' m.nodes.entries).flatMap_right Range.layers)]

theorem mem_ranges_iff {m : SessionManager Node Stats Data} {r : Range} :
    r ∈ ranges m.nodes.entries ↔ ∃ n, m.rangeOf n = some r := by
  unfold ranges rangeOf
  rw [List.mem_filterMap]
  refine ⟨fun h => ?_, fun h => ?_⟩
  · obtain ⟨⟨n, info⟩, hmem, hr⟩ := h
    exact ⟨n, Option.bind_eq_some_iff.mpr ⟨info, AList.lookup_eq_some_iff.mpr hmem, hr⟩⟩
  · obtain ⟨n, hn⟩ := h
    obtain ⟨info, hinfo, hr⟩ := Option.bind_eq_some_iff.mp hn
    exact ⟨⟨n, info⟩, AList.lookup_eq_some_iff.mp hinfo, hr⟩

/-- How many nodes have a layer is how many ranges contain it. -/
theorem ncard_rangeOf (m : SessionManager Node Stats Data) (l : ℕ) :
    {n | ∃ r, m.rangeOf n = some r ∧ r.contains l = true}.ncard =
      (ranges m.nodes.entries).countP (·.contains l) := by
  let holders := m.nodes.retain fun _ info => info.layers.any (·.contains l)
  have hset : {n | ∃ r, m.rangeOf n = some r ∧ r.contains l = true} = ↑holders.keys.toFinset := by
    ext n
    simp only [Set.mem_ofPred_eq, List.coe_toFinset]
    rw [← AList.mem_keys, ← AList.lookup_isSome, Option.isSome_iff_exists]
    unfold rangeOf
    refine ⟨fun h => ?_, fun h => ?_⟩
    · obtain ⟨r, hn, hr⟩ := h
      obtain ⟨info, hinfo, hlayers⟩ := Option.bind_eq_some_iff.mp hn
      have hany : info.layers.any (·.contains l) = true := by
        rw [hlayers]
        exact hr
      exact ⟨info, (AList.lookup_retain (fun _ info => info.layers.any (·.contains l)) m.nodes n info).mpr ⟨hinfo, hany⟩⟩
    · obtain ⟨info, hholds⟩ := h
      obtain ⟨hinfo, hany⟩ := (AList.lookup_retain _ m.nodes n info).mp hholds
      obtain ⟨r, hr, hcontains⟩ := (Option.any_eq_true _ _).mp hany
      exact ⟨r, Option.bind_eq_some_iff.mpr ⟨info, hinfo, hr⟩, hcontains⟩
  have hkeys : holders.keys.length = holders.entries.length := List.length_map ..
  rw [hset, Set.ncard_coe_finset, List.toFinset_card_of_nodup holders.keys_nodup, hkeys, ranges,
    List.countP_filterMap, List.countP_eq_length_filter]
  refine congrArg List.length (List.filter_congr fun e _ => ?_)
  simp only
  cases e.2.layers <;> rfl

/-- `get_distribution` stays in bounds, reaches up to the largest `to_layer` that is advertised,
and counts at each layer the nodes that advertise it, however the map iterates. -/
theorem distribution_counts [Inhabited Stats] {m : SessionManager Node Stats Data}
    {es : List (SessionCall Node Stats Data)} (hrun : Run Step ({} : SessionManager Node Stats Data) es m) :
    (∀ ord ord', m.getDistributionIn ord ord' = .ok m.getDistribution) ∧
      (∀ n r, Advertises es n r → r.stop ≤ m.getDistribution.length) ∧
      (m.getDistribution.length = 0 ∨ ∃ n r, Advertises es n r ∧ r.stop = m.getDistribution.length) ∧
      ∀ l (h : l < m.getDistribution.length),
        m.getDistribution[l] = {n | ∃ r, Advertises es n r ∧ r.start ≤ l ∧ l < r.stop}.ncard := by
  have hlength : m.getDistribution.length = largest Range.stop (ranges m.nodes.entries) 0 := by
    rw [getDistribution_eq, length_tally, List.length_replicate]
  refine ⟨fun ord ord' => getDistributionIn_eq ord ord' m, fun n r hr => ?_, ?_, fun l h => ?_⟩
  · rw [hlength]
    exact le_largest_of_mem (mem_ranges_iff.mpr ⟨n, (rangeOf_run hrun n r).mpr hr⟩) 0
  · rw [hlength]
    obtain hzero | ⟨r, hr, hmax⟩ := largest_mem Range.stop (ranges m.nodes.entries) 0
    · exact .inl hzero
    · obtain ⟨n, hn⟩ := mem_ranges_iff.mp hr
      exact .inr ⟨n, r, (rangeOf_run hrun n r).mp hn, hmax⟩
  · have hentry : m.getDistribution[l]? = some ((ranges m.nodes.entries).countP (·.contains l)) := by
      rw [getDistribution_eq, getElem?_tally, Range.count_flatMap_layers, List.getElem?_replicate, if_pos]
      · simp
      · rwa [← hlength]
    rw [List.getElem?_eq_getElem h, Option.some.injEq] at hentry
    rw [hentry, ← ncard_rangeOf]
    simp only [rangeOf_run hrun, Range.contains_iff]

/-- Two nodes: one has the layers 1 and 2, the other one sends an inverted range. -/
theorem distribution_counts_two :
    ∃ m : SessionManager ℕ Unit Unit, m.getDistribution = [0, 1, 1, 0] ∧
      m.getDistributionIn .asIs .asIs = .ok m.getDistribution := by
  have hrun : Run Step ({} : SessionManager ℕ Unit Unit)
      [.start 1, .start 2, .event 1 (.update 1 3), .event 2 (.update 5 4)] _ :=
    .cons rfl (.cons rfl (.cons ⟨.asIs, rfl⟩ (.cons ⟨.asIs, rfl⟩ .nil)))
  exact ⟨_, by decide, (distribution_counts hrun).1 .asIs .asIs⟩

end SessionManager
end Dllm
