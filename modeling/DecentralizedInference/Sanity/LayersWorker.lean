import DecentralizedInference.Sanity.Attention
import DecentralizedInference.Spec.LayersWorker

/-! What the calls of `Phi3LayersWorker` do to the caches of the session that they are for, of which
it has one in the map of each layer, and that they leave those of all other sessions alone. -/

namespace Dllm

variable {F : Type} {d : Phi3Dims}

theorem modify_length_append {α : Type} (g : α → α) (done : List α) (x : α) (xs : List α) :
    (done ++ x :: xs).modify done.length g = done ++ g x :: xs := by
  induction done with
  | nil => rfl
  | cons y done ih => simp [ih]

/-- A loop over the indices of all that is in a list. -/
theorem foldl_modify_range {α : Type} (g : α → α) (xs : List α) :
    (List.range xs.length).foldl (fun xs idx => xs.modify idx g) xs = xs.map g := by
  have h : ∀ done : List α, (List.range' done.length xs.length).foldl (fun xs idx => xs.modify idx g) (done ++ xs) =
      done ++ xs.map g := by
    induction xs with
    | nil => simp
    | cons x xs ih =>
      intro done
      have htail := ih (done ++ [g x])
      rw [List.length_append, List.length_singleton, List.append_assoc, List.append_assoc] at htail
      rw [List.length_cons, List.range'_succ, List.foldl_cons, modify_length_append]
      exact htail
  rw [List.range_eq_range']
  exact h []

/-- The caches of a session in all layers, if it has one in each. -/
def LayersCache.ofSession (session : UInt64) (c : LayersCache d F) : Option (List (KvCache d F)) :=
  c.mapM fun m => m.getClone session

namespace LayersCache

theorem ofSession_cons (session : UInt64) (m : SharedHashMap UInt64 (KvCache d F)) (c : LayersCache d F) :
    ofSession session (m :: c) = (m.getClone session).bind fun cache => (ofSession session c).map (cache :: ·) := by
  unfold ofSession
  rw [List.mapM_cons]
  cases m.getClone session with
  | none => rfl
  | some cache => cases c.mapM fun m => m.getClone session <;> rfl

theorem ofSession_map {session : UInt64} {g : SharedHashMap UInt64 (KvCache d F) → SharedHashMap UInt64 (KvCache d F)}
    (hg : ∀ m, (g m).getClone session = m.getClone session) (c : LayersCache d F) :
    ofSession session (c.map g) = ofSession session c := by
  induction c with
  | nil => rfl
  | cons m c ih => rw [List.map_cons, ofSession_cons, ofSession_cons, hg, ih]

theorem ofSession_modify {session : UInt64} {g : SharedHashMap UInt64 (KvCache d F) → SharedHashMap UInt64 (KvCache d F)}
    (hg : ∀ m, (g m).getClone session = m.getClone session) (idx : ℕ) (c : LayersCache d F) :
    ofSession session (c.modify idx g) = ofSession session c := by
  induction c generalizing idx with
  | nil => simp
  | cons m c ih =>
    cases idx with
    | zero => rw [List.modify_zero_cons, ofSession_cons, ofSession_cons, hg]
    | succ idx => rw [List.modify_succ_cons, ofSession_cons, ofSession_cons, ih]

/-- A session that has just been started. -/
theorem ofSession_start (session : UInt64) (c : LayersCache d F) :
    ofSession session (c.map fun m => m.insert session ([], [])) = some (List.replicate c.length ([], [])) := by
  induction c with
  | nil => rfl
  | cons m c ih => simp [ofSession_cons, ih, List.replicate_succ]

theorem ofSession_finish (session : UInt64) {c : LayersCache d F} (hc : c ≠ []) :
    ofSession session (c.map fun m => m.remove session) = none := by
  obtain ⟨m, c, rfl⟩ := List.exists_cons_of_ne_nil hc
  simp [ofSession_cons]

end LayersCache

variable (k : Kernels F)

section Turns

variable (session : UInt64) (mask : Option ℕ) (indexPos : ℕ)

theorem layerTurn_length (layer : LayerWeights d F × ℕ) (s : List (Row F d.embeddingLength) × LayersCache d F) :
    (layerTurn k session mask indexPos layer s).state.2.length = s.2.length := by
  unfold layerTurn
  split
  · rfl
  · split <;> simp [LoopTurn.state, LayersCache.setCache]

theorem layerTurn_other {t : UInt64} (ht : t ≠ session) (layer : LayerWeights d F × ℕ)
    (s : List (Row F d.embeddingLength) × LayersCache d F) :
    (layerTurn k session mask indexPos layer s).state.2.ofSession t = s.2.ofSession t := by
  have hset : ∀ cache, (s.2.setCache layer.2 session cache).ofSession t = s.2.ofSession t := fun cache =>
    LayersCache.ofSession_modify (fun m => by simp [ht]) layer.2 s.2
  unfold layerTurn
  split
  · rfl
  · split <;> exact hset _

/-- The loop over the layers from an index on. If the session has a cache in each, they are in series, and otherwise
the loop ends where there is none, or earlier. -/
theorem forEach_layerTurn {layers : List (LayerWeights d F)} (xs : List (Row F d.embeddingLength))
    (done : LayersCache d F) {c : LayersCache d F} (hlen : c.length = layers.length) :
    let turns := forEach (layerTurn k session mask indexPos) (layers.zipIdx done.length) (xs, done ++ c)
    match (c.ofSession session).map (inSeries (layers.map fun layer => layer.forward k mask) xs indexPos) with
    | none => ∃ xs' c', turns = .leave (xs', done ++ c') ∧ c'.ofSession session = none
    | some (none, caches) => ∃ xs' c', turns = .leave (xs', done ++ c') ∧ c'.ofSession session = some caches
    | some (some ys, caches) => ∃ c', turns = .next (ys, done ++ c') ∧ c'.ofSession session = some caches := by
  induction layers generalizing xs done c with
  | nil =>
    obtain rfl := List.eq_nil_of_length_eq_zero hlen
    exact ⟨[], rfl, rfl⟩
  | cons layer layers ih =>
    obtain ⟨m, c, rfl⟩ := List.exists_cons_of_length_eq_add_one hlen
    have hget : (done ++ m :: c).getCache done.length session = m.getClone session := by simp [LayersCache.getCache]
    have hset : ∀ cache, (done ++ m :: c).setCache done.length session cache = done ++ m.insert session cache :: c :=
      fun cache => modify_length_append _ _ _ _
    simp only [List.zipIdx_cons, forEach, layerTurn, hget, LayersCache.ofSession_cons]
    cases hm : m.getClone session with
    | none => exact ⟨xs, m :: c, rfl, by simp [LayersCache.ofSession_cons, hm]⟩
    | some cache =>
      simp only [hset]
      rcases hforward : layer.forward k mask xs indexPos cache with ⟨y, cache'⟩
      -- the cache of the first layer comes before those of the others
      have hcons : ∀ c' : LayersCache d F, LayersCache.ofSession session (m.insert session cache' :: c') =
          (LayersCache.ofSession session c').map (cache' :: ·) := fun c' => by simp [LayersCache.ofSession_cons]
      cases y with
      | none =>
        cases hc : LayersCache.ofSession session c with
        | none => exact ⟨xs, _, rfl, by rw [hcons, hc, Option.map_none]⟩
        | some caches =>
          simp only [Option.bind_some, Option.map_some, List.map_cons, inSeries, hforward]
          exact ⟨xs, _, rfl, by rw [hcons, hc, Option.map_some]⟩
      | some ys =>
        have htail := ih ys (done ++ [m.insert session cache']) (Nat.succ.inj hlen)
        simp only [List.length_append, List.length_singleton, List.append_assoc, List.singleton_append] at htail
        cases hc : LayersCache.ofSession session c with
        | none =>
          simp only [hc, Option.map_none] at htail
          obtain ⟨xs', c', hturns, hc'⟩ := htail
          exact ⟨xs', _, hturns, by rw [hcons, hc', Option.map_none]⟩
        | some caches =>
          simp only [Option.bind_some, Option.map_some, List.map_cons, inSeries, hforward]
          rcases hseries : inSeries (layers.map fun layer => layer.forward k mask) ys indexPos caches with ⟨_ | zs, caches'⟩
          · simp only [hc, Option.map_some, hseries] at htail ⊢
            obtain ⟨xs', c', hturns, hc'⟩ := htail
            exact ⟨xs', _, hturns, by rw [hcons, hc', Option.map_some]⟩
          · simp only [hc, Option.map_some, hseries] at htail ⊢
            obtain ⟨c', hturns, hc'⟩ := htail
            exact ⟨_, hturns, by rw [hcons, hc', Option.map_some]⟩

end Turns

section Worker

variable {layers : List (LayerWeights d F)}

theorem phi3_start (session : UInt64) {c : LayersCache d F} (hc : c.length = layers.length) :
    (phi3LayersWorker k layers).sessions.start session c = (true, c.map fun m => m.insert session ([], [])) := by
  simp only [phi3LayersWorker, LayersCache.addCache, ← hc, foldl_modify_range]

theorem phi3_finish (session : UInt64) {c : LayersCache d F} (hc : c.length = layers.length) :
    (phi3LayersWorker k layers).sessions.finish session c = c.map fun m => m.remove session := by
  simp only [phi3LayersWorker, LayersCache.delCache, ← hc, foldl_modify_range]

variable (session : UInt64) (step : UInt32) (x : List (Row F d.embeddingLength) × UInt32) (indexPos : UInt32) (c : LayersCache d F)

theorem phi3_forward_state : ((phi3LayersWorker k layers).forward session step x indexPos c).2 =
    (forEach (layerTurn k session (phi3Mask x.2) indexPos.toNat) layers.zipIdx (x.1, c)).state.2 := by
  unfold phi3LayersWorker
  simp only
  split <;> simp_all [LoopTurn.state]

theorem phi3_forward_length : ((phi3LayersWorker k layers).forward session step x indexPos c).2.length = c.length := by
  rw [phi3_forward_state]
  exact forEach_invariant (P := fun s : List (Row F d.embeddingLength) × LayersCache d F => s.2.length = c.length)
    (fun layer s hs => (layerTurn_length k session _ _ layer s).trans hs) layers.zipIdx (Eq.refl c.length)

theorem phi3_forward_other {t : UInt64} (ht : t ≠ session) :
    LayersCache.ofSession t ((phi3LayersWorker k layers).forward session step x indexPos c).2 = c.ofSession t := by
  rw [phi3_forward_state]
  exact forEach_invariant (P := fun s : List (Row F d.embeddingLength) × LayersCache d F => s.2.ofSession t = c.ofSession t)
    (fun layer s hs => (layerTurn_other k session _ _ ht layer s).trans hs) layers.zipIdx (Eq.refl (c.ofSession t))

/-- What the layers are for one session, when as many rows are said to come. -/
def phi3Stage (layers : List (LayerWeights d F)) (seqLen : UInt32) : CachedStage (Row F d.embeddingLength) (List (KvCache d F)) :=
  inSeries (layers.map fun layer => layer.forward k (phi3Mask seqLen))

theorem phi3_forward_own (hc : c.length = layers.length) :
    let (y, c') := (phi3LayersWorker k layers).forward session step x indexPos c
    match (c.ofSession session).map (phi3Stage k layers x.2 x.1 indexPos.toNat) with
    | none => y = none ∧ LayersCache.ofSession session c' = none
    | some (ys, caches) => y = ys.map (fun ys => (ys, x.2)) ∧ LayersCache.ofSession session c' = some caches := by
  have hturns := forEach_layerTurn k session (phi3Mask x.2) indexPos.toNat x.1 [] hc
  simp only [List.length_nil, List.nil_append] at hturns
  unfold phi3Stage
  cases hcaches : c.ofSession session with
  | none =>
    simp only [hcaches, Option.map_none] at hturns ⊢
    obtain ⟨xs', c', hturns, hc'⟩ := hturns
    simp only [phi3LayersWorker, hturns, hc', and_self]
  | some caches =>
    rcases hseries : inSeries (layers.map fun layer => layer.forward k (phi3Mask x.2)) x.1 indexPos.toNat caches with ⟨_ | ys, caches'⟩
    · simp only [hcaches, Option.map_some, hseries] at hturns ⊢
      obtain ⟨xs', c', hturns, hc'⟩ := hturns
      simp only [phi3LayersWorker, hturns, hc', Option.map_none, and_self]
    · simp only [hcaches, Option.map_some, hseries] at hturns ⊢
      obtain ⟨c', hturns, hc'⟩ := hturns
      simp only [phi3LayersWorker, hturns, hc', and_self]

end Worker
end Dllm
