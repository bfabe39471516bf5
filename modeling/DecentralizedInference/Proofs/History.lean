import DecentralizedInference.Sanity.RouteNet

/-! A route table is a summary of the calls made on it: its entries are what the
last unexpired advertisement of each peer says, whatever the other peers did in
between, and `next` is a cheapest of them. -/

namespace Dllm

variable {Node : Type} {N : ℕ}

variable [DecidableEq Node]

namespace RouteTable

theorem noOverflow_snoc (t : RouteTable Node N) (calls : List (TableCall Node))
    (c : TableCall Node) :
    t.NoOverflow (calls ++ [c]) ↔ t.NoOverflow calls ∧ (t.exec calls).Fits c.1 := by
  induction calls generalizing t with
  | nil => simp [NoOverflow, exec]
  | cons a calls ih =>
    simp only [List.cons_append, NoOverflow, ih, and_assoc, exec, List.foldl_cons]

theorem exec_snoc (t : RouteTable Node N) (calls : List (TableCall Node)) (c : TableCall Node) :
    t.exec (calls ++ [c]) = (t.exec calls).call c := by
  simp [exec, List.foldl_append]

end RouteTable

namespace TableEvent

/-- A call that replaces or removes what the table knows from `n`. -/
def Resets (n : Node) : TableEvent Node → Prop
  | applySync src _ _ => src = n
  | onTick _ => False
  | onDisconnected node => node = n

/-- A call that can matter for the entries of `n`. -/
def concerns (n : Node) : TableEvent Node → Bool
  | applySync src _ _ => src = n
  | onTick _ => true
  | onDisconnected node => node = n

theorem entry_of_not_concerns {l : ℕ} {n : Node} {c : Option LayerRemoteInfo}
    {e : TableEvent Node} (h : e.concerns n = false) : entry l n c e = c := by
  cases e with
  | applySync src rtt sync =>
    have hne : n ≠ src := fun he => by simp [concerns, he] at h
    exact if_neg hne
  | onTick nowMs => simp [concerns] at h
  | onDisconnected node =>
    have hne : n ≠ node := fun he => by simp [concerns, he] at h
    exact if_neg hne

end TableEvent

/-- `n`'s last `apply_sync` since its last `on_disconnected` advertised layer `l`,
no later tick found it expired, and `info` is what the receiver makes of it. -/
def Advertises (es : List (TableEvent Node)) (l : ℕ) (n : Node) (info : LayerRemoteInfo) : Prop :=
  ∃ pre rtt sync post i, es = pre ++ .applySync n rtt sync :: post ∧
    (∀ e ∈ post, ¬ e.Resets n) ∧
    sync.layers[l]? = some (some i) ∧ info = ⟨i.cost + rtt, i.lastUpdated⟩ ∧
    ∀ nowMs, .onTick nowMs ∈ post → ¬ i.lastUpdated + ROUTE_TIMEOUT_MS ≤ nowMs

omit [DecidableEq Node] in
theorem advertises_snoc_of_resets {es : List (TableEvent Node)} {e : TableEvent Node} {l : ℕ}
    {n : Node} {info : LayerRemoteInfo} (hr : e.Resets n) :
    Advertises (es ++ [e]) l n info ↔ ∃ rtt sync i, e = .applySync n rtt sync ∧
      sync.layers[l]? = some (some i) ∧ info = ⟨i.cost + rtt, i.lastUpdated⟩ := by
  refine ⟨fun ⟨pre, rtt, sync, post, i, hes, hpost, hl, hi, _⟩ => ?_, fun hlast => ?_⟩
  · rcases List.snoc_eq_append_cons_iff.mp hes with ⟨-, -, he⟩ | ⟨post', rfl, -⟩
    · exact ⟨rtt, sync, i, he, hl, hi⟩
    · exact absurd hr (hpost e (by simp))
  · obtain ⟨rtt, sync, i, rfl, hl, hi⟩ := hlast
    exact ⟨es, rtt, sync, [], i, rfl, by simp, hl, hi, by simp⟩

omit [DecidableEq Node] in
theorem advertises_snoc_of_keeps {es : List (TableEvent Node)} {e : TableEvent Node} {l : ℕ}
    {n : Node} {info : LayerRemoteInfo} (hr : ¬ e.Resets n) :
    Advertises (es ++ [e]) l n info ↔ Advertises es l n info ∧
      ∀ nowMs, e = .onTick nowMs → ¬ info.lastUpdated + ROUTE_TIMEOUT_MS ≤ nowMs := by
  refine ⟨fun hlast => ?_, fun hlast => ?_⟩
  · obtain ⟨pre, rtt, sync, post, i, hes, hpost, hl, rfl, halive⟩ := hlast
    rcases List.snoc_eq_append_cons_iff.mp hes with ⟨-, -, rfl⟩ | ⟨post', rfl, rfl⟩
    · exact absurd rfl hr
    · refine ⟨⟨pre, rtt, sync, post', i, rfl, fun e' he' => hpost e' (by simp [he']), hl, rfl,
        fun nowMs hm => halive nowMs (by simp [hm])⟩, ?_⟩
      rintro nowMs rfl
      exact halive nowMs (by simp)
  · obtain ⟨⟨pre, rtt, sync, post, i, rfl, hpost, hl, rfl, halive⟩, hnow⟩ := hlast
    refine ⟨pre, rtt, sync, post ++ [e], i, by simp, ?_, hl, rfl, ?_⟩
    · intro e' he'
      rcases List.mem_append.mp he' with he' | he'
      · exact hpost e' he'
      · rw [List.mem_singleton.mp he']
        exact hr
    · intro nowMs hm
      rcases List.mem_append.mp hm with hm | hm
      · exact halive nowMs hm
      · exact hnow nowMs (List.mem_singleton.mp hm).symm

/-- Replaying the calls on one entry gives exactly what the history advertises. -/
theorem foldl_entry_iff (es : List (TableEvent Node)) (l : ℕ) (n : Node)
    (info : LayerRemoteInfo) :
    es.foldl (TableEvent.entry l n) none = some info ↔ Advertises es l n info := by
  induction es using List.reverseRecOn generalizing info with
  | nil => simp [Advertises]
  | append_singleton es e ih =>
    rw [List.foldl_append, List.foldl_cons, List.foldl_nil]
    by_cases hr : e.Resets n
    · rw [advertises_snoc_of_resets hr]
      cases e with
      | applySync src rtt sync =>
        obtain rfl : src = n := hr
        simp only [TableEvent.entry, if_true, Option.map_eq_some_iff, Option.join_eq_some_iff]
        refine ⟨fun hsync => ?_, fun hsync => ?_⟩
        · obtain ⟨i, hi, rfl⟩ := hsync
          exact ⟨rtt, sync, i, rfl, hi, rfl⟩
        · obtain ⟨rtt', sync', i, he, hi, rfl⟩ := hsync
          obtain ⟨-, rfl, rfl⟩ := TableEvent.applySync.inj he
          exact ⟨i, hi, rfl⟩
      | onTick nowMs => exact hr.elim
      | onDisconnected node =>
        obtain rfl : node = n := hr
        simp [TableEvent.entry]
    · rw [advertises_snoc_of_keeps hr, ← ih]
      cases e with
      | applySync src rtt sync =>
        have hne : n ≠ src := fun he => hr he.symm
        simp [TableEvent.entry, hne]
      | onTick nowMs => simp [TableEvent.entry, Option.filter_eq_some_iff]
      | onDisconnected node =>
        have hne : n ≠ node := fun he => hr he.symm
        simp [TableEvent.entry, hne]

namespace RouteTable

theorem lookup_exec (localLayers : Range) (calls : List (TableCall Node))
    (hfit : (new localLayers : RouteTable Node N).NoOverflow calls) (l : Fin N) (n : Node) :
    (((new localLayers : RouteTable Node N).exec calls).remoteLayers l).remotes.lookup n =
      (calls.map Prod.fst).foldl (TableEvent.entry l n) none := by
  induction calls using List.reverseRecOn with
  | nil => simp [exec, new, LayerRemotePaths.empty]
  | append_singleton calls c ih =>
    obtain ⟨hcalls, hc⟩ := (noOverflow_snoc _ _ _).mp hfit
    rw [exec_snoc, lookup_call _ _ hc, ih hcalls]
    simp [List.foldl_append]

theorem consistent_exec (localLayers : Range) (calls : List (TableCall Node)) (l : Fin N) :
    (((new localLayers : RouteTable Node N).exec calls).remoteLayers l).Consistent := by
  induction calls using List.reverseRecOn generalizing l with
  | nil => exact LayerRemotePaths.consistent_empty
  | append_singleton calls c ih =>
    rw [exec_snoc]
    exact consistent_call ih c l

/-- Entries are a function of the calls that concern their own node. -/
theorem foldl_entry_filter (es : List (TableEvent Node)) (l : ℕ) (n : Node)
    (c : Option LayerRemoteInfo) :
    (es.filter (TableEvent.concerns n)).foldl (TableEvent.entry l n) c =
      es.foldl (TableEvent.entry l n) c := by
  induction es generalizing c with
  | nil => rfl
  | cons e es ih =>
    by_cases he : e.concerns n
    · rw [List.filter_cons_of_pos he, List.foldl_cons, List.foldl_cons, ih]
    · rw [List.filter_cons_of_neg he, List.foldl_cons,
        TableEvent.entry_of_not_concerns (Bool.eq_false_iff.mpr he), ih]

/-- In every state a fresh table reaches, `remotes` is what the history of each
peer says, `next` is a cheapest entry of it with its current info, and the
entries depend on the calls of each peer only through their own order. -/
theorem table_summarises_history (localLayers : Range) (calls : List (TableCall Node))
    (hfit : (new localLayers : RouteTable Node N).NoOverflow calls) (l : Fin N) :
    let p := ((new localLayers : RouteTable Node N).exec calls).remoteLayers l
    (∀ n info, p.remotes.lookup n = some info ↔ Advertises (calls.map Prod.fst) l n info) ∧
    (p.next = none ↔ p.remotes.entries = []) ∧
    (∀ n info, p.next = some (n, info) → p.remotes.lookup n = some info ∧
      ∀ m j, p.remotes.lookup m = some j → info.cost ≤ j.cost) ∧
    (∀ calls', (new localLayers : RouteTable Node N).NoOverflow calls' →
      (∀ n, (calls'.map Prod.fst).filter (TableEvent.concerns n) =
        (calls.map Prod.fst).filter (TableEvent.concerns n)) →
      ∀ n, (((new localLayers : RouteTable Node N).exec calls').remoteLayers l).remotes.lookup n =
        p.remotes.lookup n) := by
  intro p
  have hp : p.Consistent := consistent_exec localLayers calls l
  refine ⟨?_, hp.none_iff, fun n info h => ⟨hp.isEntry n info h, hp.least n info h⟩, ?_⟩
  · intro n info
    rw [← foldl_entry_iff]
    exact (lookup_exec localLayers calls hfit l n) ▸ Iff.rfl
  · intro calls' hfit' hsame n
    rw [lookup_exec localLayers calls' hfit', ← foldl_entry_filter, hsame n, foldl_entry_filter]
    exact (lookup_exec localLayers calls hfit l n).symm

/-- The calls of the source's test `remote_timeout`. -/
def remoteTimeoutCalls : List (TableCall ℕ) :=
  [(.applySync 2 10 ⟨[none, some ⟨0, 100⟩, some ⟨0, 100⟩]⟩, fun _ => .asIs),
    (.onTick 5100, fun _ => .asIs)]

theorem table_summarises_remote_timeout :
    (new ⟨0, 1⟩ : RouteTable ℕ 3).NoOverflow remoteTimeoutCalls ∧
      ((((new ⟨0, 1⟩ : RouteTable ℕ 3).exec remoteTimeoutCalls).remoteLayers 1).next = none ↔
        (((new ⟨0, 1⟩ : RouteTable ℕ 3).exec remoteTimeoutCalls).remoteLayers 1).remotes.entries
          = []) := by
  have hlayer : ∀ (l : ℕ) (i : LayerRemoteInfo),
      [none, some (⟨0, 100⟩ : LayerRemoteInfo), some ⟨0, 100⟩][l]? = some (some i) →
      i = ⟨0, 100⟩ := by
    intro l i hi
    simpa using List.mem_of_getElem? hi
  have hsync : (new ⟨0, 1⟩ : RouteTable ℕ 3).Fits
      (.applySync 2 10 ⟨[none, some ⟨0, 100⟩, some ⟨0, 100⟩]⟩) := by
    intro l i hi
    rw [hlayer l i hi]
    decide
  have hfit : (new ⟨0, 1⟩ : RouteTable ℕ 3).NoOverflow remoteTimeoutCalls := by
    refine ⟨hsync, ?_, trivial⟩
    intro l n i hi
    rw [lookup_call _ _ hsync] at hi
    simp only [TableEvent.entry] at hi
    split at hi
    · obtain ⟨j, hj, rfl⟩ := Option.map_eq_some_iff.mp hi
      rw [hlayer l j (Option.join_eq_some_iff.mp hj)]
      decide
    · simp [new, LayerRemotePaths.empty] at hi
  exact ⟨hfit, (table_summarises_history ⟨0, 1⟩ remoteTimeoutCalls hfit 1).2.1⟩

end RouteTable
end Dllm
