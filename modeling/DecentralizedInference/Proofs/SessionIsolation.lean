import DecentralizedInference.Proofs.CachedInference
import DecentralizedInference.Sanity.LayersWorker

/-! The sessions of a layers worker do not disturb each other. Each has its own caches, so its
answers are those of a machine that serves this session alone; and that machine computes the same
rows however they are cut into pieces. -/

namespace Dllm

section Machine

variable {α κ : Type}

/-- A worker as one of its sessions sees it: it has the caches of the session, or none. -/
def ownSession (new : κ) (stage : UInt32 → CachedStage α κ) : WorkerCall (List α) → Option κ → WorkerAnswer (List α) × Option κ
  | .start _, _ => (.started true, some new)
  | .forward _ _ _ _, none => (.forwarded none, none)
  | .forward _ _ x indexPos, some cache =>
    let (y, cache) := stage x.2 x.1 indexPos.toNat cache
    (.forwarded (y.map fun y => (y, x.2)), some cache)
  | .finish _, _ => (.finished, none)

def WorkerAnswer.rows : WorkerAnswer (List α) → Option (List α)
  | started _ => some []
  | forwarded y => y.map Prod.fst
  | finished => some []

/-- All rows of some answers, if no forward among them fails. -/
def rowsOf (answers : List (WorkerCall (List α) × WorkerAnswer (List α))) : Option (List α) :=
  (answers.mapM fun a : WorkerCall (List α) × WorkerAnswer (List α) => a.2.rows).map List.flatten

/-- Calls that feed pieces to a session from a position on, each at its own position. -/
inductive Feeding (session : UInt64) : ℕ → List (WorkerCall (List α)) → List (List α) → Prop
  | done {pos : ℕ} : Feeding session pos [] []
  | feeds {pos : ℕ} {step : UInt32} {xs : List α} {calls : List (WorkerCall (List α))} {pieces : List (List α)}
      (hrest : Feeding session (pos + xs.length) calls pieces) :
      Feeding session pos (.forward session step (xs, .ofNat xs.length) (.ofNat pos) :: calls) (xs :: pieces)

theorem rowsOf_cons (a : WorkerCall (List α) × WorkerAnswer (List α))
    (answers : List (WorkerCall (List α) × WorkerAnswer (List α))) :
    rowsOf (a :: answers) = a.2.rows.bind fun ys => (rowsOf answers).map (ys ++ ·) := by
  unfold rowsOf
  rw [List.mapM_cons]
  cases a.2.rows with
  | none => rfl
  | some ys => cases answers.mapM fun a : WorkerCall (List α) × WorkerAnswer (List α) => a.2.rows <;> rfl

/-- Pieces that fit in give together what the function gives for all of them, and others fail. -/
theorem rowsOf_feeding {stage : UInt32 → CachedStage α κ} {max : UInt32} {f : List α → List α → List α} {after : List α → κ}
    (h : Incremental (fun xs => stage (.ofNat xs.length) xs) max.toNat f after) (new : κ) {session : UInt64} {pos : ℕ}
    {calls : List (WorkerCall (List α))} {pieces : List (List α)} (hfeeding : Feeding session pos calls pieces)
    {before : List α} (hpos : before.length = pos) (hle : pos ≤ max.toNat) (hfollow : MayFollowAll before pieces) :
    rowsOf (answersOf (ownSession new stage) calls (some (after before))) =
      if pos + pieces.flatten.length ≤ max.toNat then some (f before pieces.flatten) else none := by
  induction hfeeding generalizing before with
  | done => simp [rowsOf, hle, h.causal.nil]
  | @feeds pos step xs calls pieces hrest ih =>
    obtain ⟨hfirst, hlater⟩ := hfollow
    have hposition : (UInt32.ofNat pos).toNat = before.length := by
      rw [UInt32.toNat_ofNat_of_lt' (Nat.lt_of_le_of_lt hle max.toNat_lt), hpos]
    rw [List.flatten_cons, List.length_append, answersOf_cons, rowsOf_cons]
    by_cases hfits : pos + xs.length ≤ max.toNat
    · have hstage := h.fits before xs hfirst (by omega)
      have hfed : (before ++ xs).length = pos + xs.length := by rw [List.length_append, hpos]
      have htail := ih hfed hfits hlater
      simp only [ownSession, hposition, hstage, WorkerAnswer.rows, Option.map_some, Option.bind_some, htail, Nat.add_assoc,
        h.causal.append]
      split <;> rfl
    · have hstage := h.exceeds before xs hfirst (by omega)
      have hall : ¬pos + (xs.length + pieces.flatten.length) ≤ max.toNat := by omega
      simp only [ownSession, hposition, hstage, WorkerAnswer.rows, Option.map_none, Option.bind_none, if_neg hall]

/-- A session from its start on, that is fed pieces. -/
theorem rowsOf_session {stage : UInt32 → CachedStage α κ} {max : UInt32} {f : List α → List α → List α} {after : List α → κ}
    (h : Incremental (fun xs => stage (.ofNat xs.length) xs) max.toNat f after) {new : κ} (hnew : after [] = new)
    {session : UInt64} {calls : List (WorkerCall (List α))} {pieces : List (List α)} (hfeeding : Feeding session 0 calls pieces)
    (hfollow : MayFollowAll [] pieces) (cell : Option κ) :
    rowsOf (answersOf (ownSession new stage) (.start session :: calls) cell) =
      if pieces.flatten.length ≤ max.toNat then some (f [] pieces.flatten) else none := by
  have htail := rowsOf_feeding h new hfeeding rfl (Nat.zero_le _) hfollow
  rw [hnew, Nat.zero_add] at htail
  rw [answersOf_cons, rowsOf_cons]
  simp only [ownSession, WorkerAnswer.rows, Option.bind_some, List.nil_append, htail]
  exact Option.map_id'

/-- All rows of some pieces make up one piece. -/
theorem mayFollowAll_flatten {pieces : List (List α)} (hpieces : pieces ≠ []) (hfollow : MayFollowAll [] pieces) :
    MayFollowAll [] [pieces.flatten] := by
  obtain ⟨xs, pieces, rfl⟩ := List.exists_cons_of_ne_nil hpieces
  refine ⟨.inl ⟨rfl, fun hnil => ?_⟩, trivial⟩
  rw [List.flatten_cons, List.append_eq_nil_iff] at hnil
  rcases hfollow.1 with ⟨-, hxs⟩ | hxs
  · exact hxs hnil.1
  · simp [hnil.1] at hxs

/-- A session that is fed all rows in one piece, and nothing else. -/
def wholeCalls (session : UInt64) (step : UInt32) (xs : List α) : List (WorkerCall (List α)) :=
  [.start session, .forward session step (xs, .ofNat xs.length) 0]

theorem filter_wholeCalls (session : UInt64) (step : UInt32) (xs : List α) :
    (wholeCalls session step xs).filter (fun c => c.session = session) = wholeCalls session step xs := by
  simp [wholeCalls, WorkerCall.session]

variable {S : Type} {inv : S → Prop} {call : WorkerCall (List α) → S → WorkerAnswer (List α) × S} {cell : UInt64 → S → Option κ}
variable {new : κ} {stage : UInt32 → CachedStage α κ} {max : UInt32} {f : List α → List α → List α} {after : List α → κ}

/-- The answers for a session, among calls of all sessions in any order. -/
theorem rowsOf_undisturbed (hkeyed : Keyed inv call WorkerCall.session cell (ownSession new stage))
    (h : Incremental (fun xs => stage (.ofNat xs.length) xs) max.toNat f after) (hnew : after [] = new)
    {session : UInt64} {calls own : List (WorkerCall (List α))} {pieces : List (List α)}
    (hcalls : (calls.filter fun c => c.session = session) = .start session :: own) (hown : Feeding session 0 own pieces)
    (hfollow : MayFollowAll [] pieces) {s : S} (hs : inv s) :
    rowsOf ((answersOf call calls s).filter fun a => a.1.session = session) =
      if pieces.flatten.length ≤ max.toNat then some (f [] pieces.flatten) else none := by
  rw [hkeyed.answers session calls hs, hcalls, rowsOf_session h hnew hown hfollow]

theorem rowsOf_wholeCalls (hkeyed : Keyed inv call WorkerCall.session cell (ownSession new stage))
    (h : Incremental (fun xs => stage (.ofNat xs.length) xs) max.toNat f after) (hnew : after [] = new)
    (session : UInt64) (step : UInt32) {xs : List α} (hfollow : MayFollowAll [] [xs]) {s : S} (hs : inv s) :
    rowsOf (answersOf call (wholeCalls session step xs) s) = if xs.length ≤ max.toNat then some (f [] xs) else none := by
  have hown : Feeding session 0 [.forward session step (xs, .ofNat xs.length) 0] [xs] := .feeds .done
  have hall := rowsOf_undisturbed hkeyed h hnew (filter_wholeCalls session step xs) hown hfollow hs
  rw [List.flatten_singleton] at hall
  rw [← hall, List.filter_eq_self.mpr]
  intro a ha
  have hmem : a.1 ∈ wholeCalls session step xs := by
    rw [← map_fst_answersOf call (wholeCalls session step xs) s]
    exact List.mem_map_of_mem ha
  rw [← filter_wholeCalls, List.mem_filter] at hmem
  exact hmem.2

end Machine

section Llama

variable {F : Type} {d : LlamaDims} {blocks : List (Block d F)} {numHiddenLayers : ℕ}

theorem keyed_llamaLayersWorker (k : Kernels F) :
    Keyed (fun _ => True) (llamaLayersWorker k blocks numHiddenLayers).call WorkerCall.session (fun t s => s.getClone t)
      (ownSession (.new d F true numHiddenLayers) fun _ => llamaForward blocks k) where
  keeps _ _ _ := trivial
  answer c s _ := by
    cases c with
    | start session => rfl
    | forward session step x indexPos =>
      simp only [LayersWorker.call, llamaLayersWorker, cacheForward, WorkerCall.session]
      cases s.getClone session <;> rfl
    | finish session => rfl
  own c s _ := by
    cases c with
    | start session => simp [LayersWorker.call, llamaLayersWorker, cacheSessions, WorkerCall.session, ownSession]
    | forward session step x indexPos =>
      simp only [LayersWorker.call, llamaLayersWorker, cacheForward, WorkerCall.session]
      cases hcache : s.getClone session with
      | none => exact hcache
      | some cache => simp [ownSession]
    | finish session => simp [LayersWorker.call, llamaLayersWorker, cacheSessions, WorkerCall.session, ownSession]
  other c s t _ ht := by
    cases c with
    | start session => simp [LayersWorker.call, llamaLayersWorker, cacheSessions, WorkerCall.session] at ht ⊢; simp [ht]
    | forward session step x indexPos =>
      simp only [LayersWorker.call, llamaLayersWorker, cacheForward, WorkerCall.session] at ht ⊢
      cases s.getClone session with
      | none => rfl
      | some cache => simp [ht]
    | finish session => simp [LayersWorker.call, llamaLayersWorker, cacheSessions, WorkerCall.session] at ht ⊢; simp [ht]

variable {k : Kernels F} (r : k.ByRow)

theorem incremental_llamaForward (hcut : d.numKeyValueHeads ≤ d.maxPositionEmbeddings.toNat) (hblocks : blocks ≠ [])
    (numHiddenLayers : ℕ) :
    Incremental (llamaForward blocks k) d.maxPositionEmbeddings.toNat (rowsThrough r blocks) (.after r blocks numHiddenLayers) where
  causal := causal_rowsThrough r blocks
  fits before xs hfollows hfits := by
    have h := llamaForward_after r numHiddenLayers hcut hblocks hfollows
    rwa [if_pos hfits] at h
  exceeds before xs hfollows hover := by
    have h := llamaForward_after r numHiddenLayers hcut hblocks hfollows
    rwa [if_neg (Nat.not_le.mpr hover)] at h

include r in
/-- However the rows of a session are cut into pieces, and whatever other sessions have called in between, a worker gives
the rows that it gives for all of them at once. -/
theorem llama_sessions_undisturbed (hcut : d.numKeyValueHeads ≤ d.maxPositionEmbeddings.toNat) (hblocks : blocks ≠ [])
    (hle : blocks.length ≤ numHiddenLayers) {session : UInt64} {calls own : List (WorkerCall (List (Row F d.hiddenSize)))}
    {pieces : List (List (Row F d.hiddenSize))} (hcalls : (calls.filter fun c => c.session = session) = .start session :: own)
    (hown : Feeding session 0 own pieces) (hpieces : pieces ≠ []) (hfollow : MayFollowAll [] pieces)
    (s s' : SharedHashMap UInt64 (LlamaCache d F)) (session' : UInt64) (step' : UInt32) :
    rowsOf ((answersOf (llamaLayersWorker k blocks numHiddenLayers).call calls s).filter fun a => a.1.session = session) =
      rowsOf (answersOf (llamaLayersWorker k blocks numHiddenLayers).call (wholeCalls session' step' pieces.flatten) s') := by
  have hkeyed : Keyed (fun _ => True) (llamaLayersWorker k blocks numHiddenLayers).call WorkerCall.session
      (fun t s => s.getClone t) _ := keyed_llamaLayersWorker k
  have h := incremental_llamaForward r hcut hblocks numHiddenLayers
  have hnew := (LlamaCache.new_eq_after r hle).symm
  rw [rowsOf_undisturbed hkeyed h hnew hcalls hown hfollow trivial,
    rowsOf_wholeCalls hkeyed h hnew session' step' (mayFollowAll_flatten hpieces hfollow) trivial]

end Llama

/-- A row of one number. -/
def rowOf (n : ℚ) : Row (WithBot ℚ) 1 := fun _ => n

/-- Two sessions whose calls alternate. -/
def alternating : List (WorkerCall (List (Row (WithBot ℚ) 1))) :=
  [.start 7, .start 8, .forward 8 0 ([rowOf 5], 1) 0, .forward 7 0 ([rowOf 1, rowOf 2], 2) 0, .forward 8 1 ([rowOf 6], 1) 1,
    .finish 8, .forward 7 1 ([rowOf 3], 1) 2]

theorem feeding_alternating : Feeding 7 0 [.forward 7 0 ([rowOf 1, rowOf 2], 2) 0, .forward 7 1 ([rowOf 3], 1) 2]
    [[rowOf 1, rowOf 2], [rowOf 3]] :=
  .feeds (.feeds .done)

theorem mayFollowAll_alternating : MayFollowAll [] [[rowOf 1, rowOf 2], [rowOf 3]] :=
  mayFollowAll_singletons [] [rowOf 1, rowOf 2] (.inl ⟨rfl, by simp⟩) [rowOf 3]

theorem llama_sessions_undisturbed_mean :
    let worker := llamaLayersWorker evenKernels [meanBlock, meanBlock] 2
    let rows := rowsOf ((answersOf worker.call alternating fun _ => none).filter fun a => a.1.session = 7)
    rows = rowsOf (answersOf worker.call (wholeCalls 9 0 [rowOf 1, rowOf 2, rowOf 3]) fun _ => none) ∧ rows.isSome = true := by
  have hcut : oneNumber.numKeyValueHeads ≤ oneNumber.maxPositionEmbeddings.toNat := by decide
  have hblocks : [meanBlock, meanBlock] ≠ [] := by simp
  have hpieces : [[rowOf 1, rowOf 2], [rowOf 3]] ≠ [] := by simp
  exact ⟨llama_sessions_undisturbed evenByRow hcut hblocks (Nat.le_refl 2) rfl feeding_alternating hpieces
    mayFollowAll_alternating _ _ 9 0, by decide +kernel⟩

section Phi3

variable {F : Type} {d : Phi3Dims} {layers : List (LayerWeights d F)}

theorem keyed_phi3LayersWorker (k : Kernels F) (hlayers : layers ≠ []) :
    Keyed (fun c : LayersCache d F => c.length = layers.length) (phi3LayersWorker k layers).call WorkerCall.session
      LayersCache.ofSession (ownSession (List.replicate layers.length ([], [])) (phi3Stage k layers)) where
  keeps c s hs := by
    cases c with
    | start session => simp only [LayersWorker.call, phi3_start k session hs, List.length_map, hs]
    | forward session step x indexPos => exact (phi3_forward_length k session step x indexPos s).trans hs
    | finish session => simp only [LayersWorker.call, phi3_finish k session hs, List.length_map, hs]
  answer c s hs := by
    cases c with
    | start session => rfl
    | forward session step x indexPos =>
      have h := phi3_forward_own k session step x indexPos s hs
      simp only [LayersWorker.call, WorkerCall.session]
      cases hcaches : s.ofSession session with
      | none =>
        simp only [hcaches, Option.map_none] at h
        rw [h.1]
        rfl
      | some caches =>
        simp only [hcaches, Option.map_some] at h
        rw [h.1]
        rfl
    | finish session => rfl
  own c s hs := by
    cases c with
    | start session => simp [LayersWorker.call, phi3_start k session hs, WorkerCall.session, ownSession, LayersCache.ofSession_start, hs]
    | forward session step x indexPos =>
      have h := phi3_forward_own k session step x indexPos s hs
      simp only [LayersWorker.call, WorkerCall.session]
      cases hcaches : s.ofSession session with
      | none =>
        simp only [hcaches, Option.map_none] at h
        rw [h.2]
        rfl
      | some caches =>
        simp only [hcaches, Option.map_some] at h
        rw [h.2]
        rfl
    | finish session =>
      have hne : s ≠ [] := by
        rw [← List.length_pos_iff] at hlayers ⊢
        rwa [hs]
      simp only [LayersWorker.call, phi3_finish k session hs, WorkerCall.session, ownSession, LayersCache.ofSession_finish session hne]
  other c s t hs ht := by
    cases c with
    | start session =>
      simp only [LayersWorker.call, phi3_start k session hs]
      exact LayersCache.ofSession_map (fun m => by simp [show t ≠ session from ht]) s
    | forward session step x indexPos => exact phi3_forward_other k session step x indexPos s ht
    | finish session =>
      simp only [LayersWorker.call, phi3_finish k session hs]
      exact LayersCache.ofSession_map (fun m => by simp [show t ≠ session from ht]) s

variable {k : Kernels F} (r : k.ByRow)

/-- The caches of the layers after some rows, as in a session that is fed them. -/
theorem incremental_phi3Stage (hlayers : layers ≠ []) :
    Incremental (fun xs => phi3Stage k layers (.ofNat xs.length) xs) d.maxSeqLen.toNat
      (throughLayers (fun layer : LayerWeights d F => along (layer.rowAfter r)) layers)
      (layerCaches (fun layer : LayerWeights d F => along (layer.rowAfter r)) (fun layer => layer.cacheAfter k) layers) := by
  -- every layer is told how many rows the first one gets
  have hlen : ∀ (layer : LayerWeights d F) n xs pos cache ys,
      (layer.forward k (phi3Mask (.ofNat n)) xs pos cache).1 = some ys → ys.length = xs.length :=
    fun layer n xs pos cache ys h => layer.length_forward r _ xs pos cache h
  have hseries : ∀ xs pos caches, phi3Stage k layers (.ofNat xs.length) xs pos caches =
      inSeries (layers.map fun layer xs => layer.forward k (phi3Mask (.ofNat xs.length)) xs) xs pos caches :=
    fun xs pos caches => inSeries_of_length hlen layers xs pos caches
  have h : ∀ layer ∈ layers, Incremental _ d.maxSeqLen.toNat _ _ := fun layer _ => layer.incremental_forward r
  have hall := incremental_inSeries h hlayers
  exact ⟨hall.causal, fun before xs => hseries xs _ _ ▸ hall.fits before xs,
    fun before xs => hseries xs _ _ ▸ hall.exceeds before xs⟩

theorem phi3_caches_nil (layers : List (LayerWeights d F)) :
    layerCaches (fun layer : LayerWeights d F => along (layer.rowAfter r)) (fun layer => layer.cacheAfter k) layers [] =
      List.replicate layers.length ([], []) := by
  induction layers with
  | nil => rfl
  | cons layer layers ih =>
    rw [List.length_cons, List.replicate_succ, ← ih]
    rfl

include r in
/-- The same of the worker that has a map of caches for each of its layers. -/
theorem phi3_sessions_undisturbed (hlayers : layers ≠ []) {session : UInt64}
    {calls own : List (WorkerCall (List (Row F d.embeddingLength)))} {pieces : List (List (Row F d.embeddingLength))}
    (hcalls : (calls.filter fun c => c.session = session) = .start session :: own) (hown : Feeding session 0 own pieces)
    (hpieces : pieces ≠ []) (hfollow : MayFollowAll [] pieces) {c c' : LayersCache d F} (hc : c.length = layers.length)
    (hc' : c'.length = layers.length) (session' : UInt64) (step' : UInt32) :
    rowsOf ((answersOf (phi3LayersWorker k layers).call calls c).filter fun a => a.1.session = session) =
      rowsOf (answersOf (phi3LayersWorker k layers).call (wholeCalls session' step' pieces.flatten) c') := by
  have hkeyed := keyed_phi3LayersWorker k hlayers
  have h := incremental_phi3Stage r hlayers
  have hnew := phi3_caches_nil r layers
  rw [rowsOf_undisturbed hkeyed h hnew hcalls hown hfollow hc,
    rowsOf_wholeCalls hkeyed h hnew session' step' (mayFollowAll_flatten hpieces hfollow) hc']

end Phi3

/-- The same layer with the weights of a Phi3 model: the queries and keys are zero, the values the rows. -/
def meanLayer : LayerWeights ⟨1, 1, 1, 16, oneNumber.heads_dvd⟩ (WithBot ℚ) where
  attnQkv x h _ := if h.val = 2 then x ⟨0, by decide⟩ else (0 : ℚ)
  attnOutput x := x ⟨0, by decide⟩
  attnNorm x := x
  ffnNorm x := x
  mlp := ⟨fun _ _ => (0 : ℚ), fun x => x⟩

theorem phi3_sessions_undisturbed_mean :
    let worker := phi3LayersWorker evenKernels [meanLayer, meanLayer]
    let rows := rowsOf ((answersOf worker.call alternating [fun _ => none, fun _ => none]).filter fun a => a.1.session = 7)
    rows = rowsOf (answersOf worker.call (wholeCalls 9 0 [rowOf 1, rowOf 2, rowOf 3]) [fun _ => none, fun _ => none]) ∧
      rows.isSome = true := by
  have hlayers : [meanLayer, meanLayer] ≠ [] := by simp
  have hpieces : [[rowOf 1, rowOf 2], [rowOf 3]] ≠ [] := by simp
  exact ⟨phi3_sessions_undisturbed evenByRow hlayers rfl feeding_alternating hpieces mayFollowAll_alternating rfl rfl 9 0,
    by decide +kernel⟩

end Dllm
