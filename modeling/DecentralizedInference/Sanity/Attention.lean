import Mathlib.Algebra.BigOperators.Fin
import Mathlib.Algebra.Field.Basic
import Mathlib.Order.WithBot
import DecentralizedInference.Spec.Attention

/-! What a layer computes from the rows that it has been given, however they were cut into pieces.
A row of the mask hides what comes later: where masked scores do not count, a query finds what it
would among the keys up to its own position. With its cache a layer has just those. -/

namespace Dllm

/-- Kernels that compute each row of a tensor from its own rows of the operands, whatever else is in
the tensors, and for which a masked score is as good as none. In exact arithmetic they are such; with
`f16` and `f32` they are up to rounding, since the order of a sum can depend on the shapes. -/
structure Kernels.ByRow {F : Type} (k : Kernels F) where
  score : {dim : ℕ} → Row F dim → Row F dim → F
  softmaxRow : List F → List F
  weighRow : {dim : ℕ} → List F → List (Row F dim) → Row F dim
  scores_eq : ∀ {heads dim : ℕ} (q keys : List (HeadRows F heads dim)),
    k.scores q keys = q.map fun q h => keys.map fun key => score (q h) (key h)
  softmax_eq : ∀ {heads : ℕ} (att : List (Scores F heads)), k.softmax att = att.map fun att h => softmaxRow (att h)
  weigh_eq : ∀ {heads dim : ℕ} (att : List (Scores F heads)) (values : List (HeadRows F heads dim)),
    k.weigh att values = att.map fun att h => weighRow (att h) (values.map (· h))
  masked : ∀ {dim : ℕ} {att : List F} {values hidden : List (Row F dim)}, att ≠ [] → att.length = values.length →
    weighRow (softmaxRow (att ++ List.replicate hidden.length k.negInfinity)) (values ++ hidden) =
      weighRow (softmaxRow att) values

section Attention

variable {F : Type} {heads dim : ℕ}

theorem range_map_gt {i t : ℕ} (h : i < t) :
    (List.range t).map (fun j => decide (j > i)) = List.replicate (i + 1) false ++ List.replicate (t - (i + 1)) true := by
  refine List.ext_getElem (by simp; omega) fun j h₁ h₂ => ?_
  rw [List.getElem_append]
  split
  case isTrue hj =>
    rw [List.length_replicate] at hj
    simp [Nat.le_of_lt_succ hj]
  case isFalse hj =>
    rw [List.length_replicate] at hj
    simp [Nat.lt_of_not_ge fun hle => hj (Nat.lt_succ_of_le hle)]

theorem take_mapIdx {α β : Type} (f : ℕ → α → β) (xs : List α) (n : ℕ) : (xs.mapIdx f).take n = (xs.take n).mapIdx f := by
  refine List.ext_getElem (by simp) fun i h₁ h₂ => ?_
  simp

theorem mapIdx_of_map {α β γ : Type} (f : ℕ → β → γ) (g : α → β) (xs : List α) :
    (xs.map g).mapIdx f = xs.mapIdx fun i x => f i (g x) := by
  refine List.ext_getElem (by simp) fun i h₁ h₂ => ?_
  simp

theorem map_of_mapIdx {α β γ : Type} (f : ℕ → α → β) (g : β → γ) (xs : List α) :
    (xs.mapIdx f).map g = xs.mapIdx fun i x => g (f i x) := by
  refine List.ext_getElem (by simp) fun i h₁ h₂ => ?_
  simp

namespace Kernels

theorem maskedRow_false (k : Kernels F) (att : List F) : k.maskedRow (List.replicate att.length false) att = att := by
  unfold maskedRow
  induction att with
  | nil => rfl
  | cons a att ih => simp [List.replicate_succ, ih]

theorem maskedRow_true (k : Kernels F) (att : List F) :
    k.maskedRow (List.replicate att.length true) att = List.replicate att.length k.negInfinity := by
  unfold maskedRow
  induction att with
  | nil => rfl
  | cons a att ih => simp [List.replicate_succ, ih]

/-- A mask hides the scores of what it covers. -/
theorem maskedRow_replicate (k : Kernels F) (att att' : List F) :
    k.maskedRow (List.replicate att.length false ++ List.replicate att'.length true) (att ++ att') =
      att ++ List.replicate att'.length k.negInfinity := by
  have happend : k.maskedRow (List.replicate att.length false ++ List.replicate att'.length true) (att ++ att') =
      k.maskedRow (List.replicate att.length false) att ++ k.maskedRow (List.replicate att'.length true) att' :=
    List.zipWith_append List.length_replicate
  rw [happend, maskedRow_false, maskedRow_true]

namespace ByRow

variable {k : Kernels F} (r : k.ByRow)

/-- What the queries at one position find. -/
def attend (q : HeadRows F heads dim) (keys values : List (HeadRows F heads dim)) : HeadRows F heads dim :=
  fun h => r.weighRow (r.softmaxRow (keys.map fun key => r.score (q h) (key h))) (values.map (· h))

/-- A query under the row of the mask for its position finds what it would among the keys up to there. -/
theorem attend_causalMask {i t : ℕ} (h : i < t) (q : HeadRows F heads dim) {keys values : List (HeadRows F heads dim)}
    (hkeys : keys.length = t) (hvalues : values.length = t) (head : Fin heads) :
    r.weighRow (r.softmaxRow (k.maskedRow ((List.range t).map fun j => decide (j > i))
        (keys.map fun key => r.score (q head) (key head)))) (values.map (· head)) =
      r.attend q (keys.take (i + 1)) (values.take (i + 1)) head := by
  -- the scores and values up to the position, and those that are hidden
  have hmask := k.maskedRow_replicate ((keys.take (i + 1)).map fun key => r.score (q head) (key head))
    ((keys.drop (i + 1)).map fun key => r.score (q head) (key head))
  rw [← List.map_append, List.take_append_drop, List.length_map, List.length_map, List.length_take, List.length_drop, hkeys,
    Nat.min_eq_left h, ← range_map_gt h] at hmask
  have hvisible : (keys.take (i + 1)).map (fun key => r.score (q head) (key head)) ≠ [] := by
    rw [← List.length_pos_iff, List.length_map, List.length_take, hkeys]
    omega
  have hlength : ((keys.take (i + 1)).map fun key => r.score (q head) (key head)).length =
      ((values.take (i + 1)).map (· head)).length := by
    rw [List.length_map, List.length_map, List.length_take, List.length_take, hkeys, hvalues]
  have hhidden : t - (i + 1) = ((values.drop (i + 1)).map (· head)).length := by
    rw [List.length_map, List.length_drop, hvalues]
  have hsplit : values.map (· head) = (values.take (i + 1)).map (· head) ++ (values.drop (i + 1)).map (· head) := by
    rw [← List.map_append, List.take_append_drop]
  rw [hmask, hsplit, hhidden]
  exact r.masked hvisible hlength

/-- What the query at the position of `x` finds, after the rows `before`. -/
def attendAlong {α : Type} (pq pk : ℕ → α → HeadRows F heads dim) (pv : α → HeadRows F heads dim) (before : List α) (x : α) :
    HeadRows F heads dim :=
  r.attend (pq before.length x) ((before ++ [x]).mapIdx pk) ((before ++ [x]).map pv)

theorem attention_none (q keys values : List (HeadRows F heads dim)) :
    attention k none q keys values = some (q.map fun q => r.attend q keys values) := by
  simp only [attention, r.scores_eq, r.softmax_eq, r.weigh_eq, List.map_map]
  rfl

theorem attention_some {t : ℕ} {q keys : List (HeadRows F heads dim)} (hq : q.length = t) (hkeys : keys.length = t)
    {values : List (HeadRows F heads dim)} (hvalues : values.length = t) :
    attention k (some t) q keys values =
      some (q.mapIdx fun i q => r.attend q (keys.take (i + 1)) (values.take (i + 1))) := by
  simp only [attention, hq, hkeys, and_self, if_true, Option.some.injEq, r.scores_eq, r.softmax_eq, r.weigh_eq, List.map_map,
    Kernels.maskedFill, causalMask, List.zipWith_map_right]
  refine List.ext_getElem (by simp [hq]) fun i h₁ h₂ => ?_
  rw [List.length_mapIdx, hq] at h₂
  funext head
  simp only [List.getElem_map, Function.comp_apply, List.getElem_zipWith, List.getElem_range, List.getElem_mapIdx]
  exact r.attend_causalMask h₂ _ hkeys hvalues head

/-- Queries that come in one piece, with the keys and values of all rows up to the last. -/
theorem attention_mayFollow {α : Type} (pq pk : ℕ → α → HeadRows F heads dim) (pv : α → HeadRows F heads dim)
    {before xs : List α} (h : MayFollow before xs) :
    attention k (if xs.length = 1 then none else some xs.length) (xs.mapIdx fun i x => pq (before.length + i) x)
        ((before ++ xs).mapIdx pk) ((before ++ xs).map pv) =
      some (along (r.attendAlong pq pk pv) before xs) := by
  by_cases hone : xs.length = 1
  · obtain ⟨x, rfl⟩ := List.length_eq_one_iff.mp hone
    simp [r.attention_none, along_singleton, attendAlong]
  · obtain ⟨rfl, -⟩ := h.resolve_right hone
    rw [if_neg hone, List.nil_append, r.attention_some List.length_mapIdx List.length_mapIdx (List.length_map _)]
    refine congrArg some (List.ext_getElem (by simp) fun i h₁ h₂ => ?_)
    rw [length_along] at h₂
    rw [getElem_along]
    simp only [List.getElem_mapIdx, attendAlong, List.nil_append, List.get_eq_getElem, List.length_take, List.length_nil,
      Nat.zero_add, List.take_append_getElem]
    rw [Nat.min_eq_left (Nat.le_of_lt h₂), take_mapIdx, List.map_take]

include r in
theorem length_attention (t : Option ℕ) {q keys values ys : List (HeadRows F heads dim)}
    (h : attention k t q keys values = some ys) : ys.length = q.length := by
  unfold attention at h
  split at h
  · obtain rfl := Option.some.inj h
    rw [r.weigh_eq, r.softmax_eq, r.scores_eq, List.length_map, List.length_map, List.length_map]
  · split at h
    case isTrue ht =>
      obtain rfl := Option.some.inj h
      rw [r.weigh_eq, r.softmax_eq, List.length_map, List.length_map, maskedFill, List.length_zipWith, r.scores_eq,
        List.length_map, causalMask, List.length_map, List.length_range, ht.1, Nat.min_self]
    case isFalse => cases h

end ByRow

theorem length_addRows {n : ℕ} (k : Kernels F) (ys xs : List (Row F n)) :
    (k.addRows ys xs).length = min ys.length xs.length :=
  List.length_zipWith

theorem addRows_along {n : ℕ} (k : Kernels F) (g : List (Row F n) → Row F n → Row F n) (before xs : List (Row F n)) :
    k.addRows (along g before xs) xs = along (fun before x c => k.add (g before x c) (x c)) before xs :=
  zipWith_along _ g before xs

theorem addRows_along_along {α : Type} {n : ℕ} (k : Kernels F) (g g' : List α → α → Row F n) (before xs : List α) :
    k.addRows (along g before xs) (along g' before xs) = along (fun before x c => k.add (g before x c) (g' before x c)) before xs :=
  zipWith_along_along _ g g' before xs

end Kernels
end Attention

section Llama

variable {F : Type} {d : LlamaDims}

namespace Block

variable (block : Block d F)

section Rows

variable (k : Kernels F)

/-- The queries, keys and values of a row at a position. -/
def query (pos : ℕ) (x : Row F d.hiddenSize) : HeadRows F d.numAttentionHeads d.headDim :=
  fun h => k.rope pos (block.attn.qProj (block.rms1 x) h)

def key (pos : ℕ) (x : Row F d.hiddenSize) : HeadRows F d.numKeyValueHeads d.headDim :=
  fun h => k.rope pos (block.attn.kProj (block.rms1 x) h)

def value (x : Row F d.hiddenSize) : HeadRows F d.numKeyValueHeads d.headDim := block.attn.vProj (block.rms1 x)

/-- The cache of a block that has been given rows. -/
def cacheAfter (before : List (Row F d.hiddenSize)) : Kvs d F :=
  if before = [] then none else some (before.mapIdx (block.key k), before.map block.value)

theorem cacheAfter_getD (before : List (Row F d.hiddenSize)) :
    (block.cacheAfter k before).getD ([], []) = (before.mapIdx (block.key k), before.map block.value) := by
  unfold cacheAfter
  split
  case isTrue h => simp [h]
  case isFalse => rfl

end Rows

variable {k : Kernels F} (r : k.ByRow)

/-- What a block makes of the row `x` after the rows `before`. -/
def rowAfter (before : List (Row F d.hiddenSize)) (x : Row F d.hiddenSize) : Row F d.hiddenSize :=
  let found := block.attn.oProj (r.attendAlong (block.query k) (fun pos x => d.repeatKv (block.key k pos x))
    (fun x => d.repeatKv (block.value x)) before x)
  let y := fun c => k.add (found c) (x c)
  fun c => k.add (block.mlp.forward k (block.rms2 y) c) (y c)

include r in
theorem length_forward (useKvCache : Bool) (xs : List (Row F d.hiddenSize)) (indexPos : ℕ) (cached : Kvs d F)
    {ys : List (Row F d.hiddenSize)} (h : (block.forward k useKvCache xs indexPos cached).1 = some ys) :
    ys.length = xs.length := by
  unfold Block.forward at h
  obtain ⟨zs, hzs, rfl⟩ := Option.map_eq_some_iff.mp h
  have hlength : zs.length = xs.length := by
    unfold CausalSelfAttention.forward at hzs
    split at hzs
    · cases hzs
    · simp only at hzs
      generalize (if useKvCache = true then cached else none) = before at hzs
      split at hzs
      · cases hzs
      · obtain ⟨ws, hws, rfl⟩ := Option.map_eq_some_iff.mp hzs
        rw [List.length_map, r.length_attention _ hws, List.length_mapIdx, List.length_map]
  simp [hlength, Kernels.length_addRows]

/-- A block that has kept the keys and values of the rows before, in a piece that fits. -/
theorem forward_of_kept {useKvCache : Bool} {cached : Kvs d F} {before xs : List (Row F d.hiddenSize)}
    (hcut : ¬((if useKvCache then cached else none).isSome = true ∧ d.maxPositionEmbeddings.toNat < d.numKeyValueHeads))
    (hkept : (if useKvCache then cached else none).getD ([], []) = (before.mapIdx (block.key k), before.map block.value))
    (hfollows : MayFollow before xs) (hfits : before.length + xs.length ≤ d.maxPositionEmbeddings.toNat) :
    block.forward k useKvCache xs before.length cached =
      (some (along (block.rowAfter r) before xs),
        if useKvCache then some ((before ++ xs).mapIdx (block.key k), (before ++ xs).map block.value) else cached) := by
  have hattn := r.attention_mayFollow (block.query k) (fun pos x => d.repeatKv (block.key k pos x))
    (fun x => d.repeatKv (block.value x)) hfollows
  have hkeys : before.mapIdx (block.key k) ++
      (xs.map block.rms1).mapIdx (fun i r h => k.rope (before.length + i) (block.attn.kProj r h)) =
        (before ++ xs).mapIdx (block.key k) := by
    rw [List.mapIdx_append, mapIdx_of_map]
    simp only [Nat.add_comm before.length]
    rfl
  have hvalues : before.map block.value ++ (xs.map block.rms1).map block.attn.vProj = (before ++ xs).map block.value := by
    rw [List.map_append, List.map_map]
    rfl
  have hqueries : (xs.map block.rms1).mapIdx (fun i r h => k.rope (before.length + i) (block.attn.qProj r h)) =
      xs.mapIdx fun i x => block.query k (before.length + i) x := mapIdx_of_map _ _ _
  unfold Block.forward CausalSelfAttention.forward
  rw [List.length_map, if_neg (Nat.not_lt.mpr hfits), hqueries]
  simp only [hkept, if_neg hcut, hkeys, hvalues]
  rw [map_of_mapIdx, List.map_map]
  have hvaluesRepeated : d.repeatKv ∘ block.value = fun x => d.repeatKv (block.value x) := rfl
  rw [hvaluesRepeated, hattn]
  simp only [Option.map_some, map_along, Kernels.addRows_along, Kernels.addRows_along_along]
  rfl

/-- With its cache, a block computes the rows of a piece from those that it has been given before. -/
theorem incremental_forward (hcut : d.numKeyValueHeads ≤ d.maxPositionEmbeddings.toNat) :
    Incremental (block.forward k true) d.maxPositionEmbeddings.toNat (along (block.rowAfter r)) (block.cacheAfter k) where
  causal := causal_along _
  fits before xs hfollows hfits := by
    have hkept : (if true = true then block.cacheAfter k before else none).getD ([], []) =
        (before.mapIdx (block.key k), before.map block.value) := block.cacheAfter_getD k before
    rw [block.forward_of_kept r (fun h => Nat.not_lt.mpr hcut h.2) hkept hfollows hfits]
    have hne : before ++ xs ≠ [] := by
      rcases hfollows with ⟨-, hxs⟩ | hxs
      · simp [hxs]
      · simp [← List.length_eq_zero_iff, hxs]
    rw [if_pos rfl, cacheAfter, if_neg hne]
  exceeds before xs hfollows hover := by
    simp [Block.forward, CausalSelfAttention.forward, hover]

/-- Without a cache, a block computes all rows that it is given. -/
theorem forward_plain (cached : Kvs d F) {xs : List (Row F d.hiddenSize)} (hxs : xs ≠ []) :
    block.forward k false xs 0 cached =
      (if xs.length ≤ d.maxPositionEmbeddings.toNat then some (along (block.rowAfter r) [] xs) else none, cached) := by
  by_cases hfits : xs.length ≤ d.maxPositionEmbeddings.toNat
  · have hkept : (if false = true then cached else none).getD ([], []) =
        (([] : List (Row F d.hiddenSize)).mapIdx (block.key k), ([] : List (Row F d.hiddenSize)).map block.value) := rfl
    have h := block.forward_of_kept r (fun h => by simp at h) hkept (.inl ⟨rfl, hxs⟩) (by simpa using hfits)
    rw [if_pos hfits]
    simpa using h
  · rw [if_neg hfits]
    simp [Block.forward, CausalSelfAttention.forward, Nat.lt_of_not_le hfits]

end Block

/-- The loop over the blocks from an index on, where the caches before it have been dealt with. -/
theorem forEach_blockTurn (k : Kernels F) (indexPos : ℕ) (useKvCache : Bool) {blocks : List (Block d F)}
    (x : List (Row F d.hiddenSize)) (done : List (Kvs d F)) {kvs rest : List (Kvs d F)} (hlen : kvs.length = blocks.length) :
    let series := inSeries (blocks.map fun block => block.forward k useKvCache) x indexPos kvs
    match series.1, forEach (blockTurn k indexPos) (blocks.zipIdx done.length) (x, ⟨useKvCache, done ++ kvs ++ rest⟩) with
    | none, t => ∃ x', t = .leave (x', ⟨useKvCache, done ++ series.2 ++ rest⟩)
    | some y, t => t = .next (y, ⟨useKvCache, done ++ series.2 ++ rest⟩) := by
  induction blocks generalizing x done kvs with
  | nil =>
    obtain rfl := List.eq_nil_of_length_eq_zero hlen
    rfl
  | cons block blocks ih =>
    obtain ⟨cached, kvs, rfl⟩ := List.exists_cons_of_length_eq_add_one hlen
    have hat : (done ++ cached :: kvs ++ rest)[done.length]? = some cached := by simp
    have hset : ∀ cached', (done ++ cached :: kvs ++ rest).set done.length cached' = done ++ cached' :: kvs ++ rest := by
      simp
    simp only [List.zipIdx_cons, forEach, blockTurn, hat, List.map_cons, inSeries]
    rcases hforward : block.forward k useKvCache x indexPos cached with ⟨_ | y, cached'⟩
    · exact ⟨x, by simp⟩
    · have htail := ih y (done ++ [cached']) (Nat.succ.inj hlen)
      simp only [List.length_append, List.length_singleton, List.append_assoc, List.singleton_append] at htail
      simp only [hset]
      simpa using htail

/-- `LlamaLayers::forward` runs its blocks in series, each on the cache with its index. -/
theorem llamaForward_eq_inSeries (k : Kernels F) (indexPos : ℕ) (useKvCache : Bool) {blocks : List (Block d F)}
    (x : List (Row F d.hiddenSize)) {kvs : List (Kvs d F)} (rest : List (Kvs d F)) (hlen : kvs.length = blocks.length) :
    llamaForward blocks k x indexPos ⟨useKvCache, kvs ++ rest⟩ =
      let series := inSeries (blocks.map fun block => block.forward k useKvCache) x indexPos kvs
      (series.1, ⟨useKvCache, series.2 ++ rest⟩) := by
  have hloop := @forEach_blockTurn _ d k indexPos useKvCache blocks x [] kvs rest hlen
  simp only [List.length_nil, List.nil_append] at hloop
  unfold llamaForward
  rcases hseries : inSeries (blocks.map fun block => block.forward k useKvCache) x indexPos kvs with ⟨_ | y, kvs'⟩
  · simp only [hseries] at hloop ⊢
    obtain ⟨x', hloop⟩ := hloop
    rw [hloop]
  · simp only [hseries] at hloop ⊢
    rw [hloop]

end Llama

section Phi3

variable {F : Type} {d : Phi3Dims}

theorem phi3Mask_ofNat {n : ℕ} (hn : n < 2 ^ 32) : phi3Mask (.ofNat n) = if n = 1 then none else some n := by
  have hiff : UInt32.ofNat n = 1 ↔ n = 1 := by
    rw [← UInt32.toNat_inj, UInt32.toNat_ofNat_of_lt' hn]
    rfl
  simp only [phi3Mask, hiff, UInt32.toNat_ofNat_of_lt' hn]

namespace LayerWeights

variable (layer : LayerWeights d F)

section Rows

variable (k : Kernels F)

def query (pos : ℕ) (x : Row F d.embeddingLength) : HeadRows F d.nHead d.headDim :=
  fun h => k.rope pos (layer.attnQkv (layer.attnNorm x) (Fin.castAdd _ (Fin.castAdd _ h)))

def key (pos : ℕ) (x : Row F d.embeddingLength) : HeadRows F d.nHead d.headDim :=
  fun h => k.rope pos (layer.attnQkv (layer.attnNorm x) (Fin.castAdd _ (Fin.natAdd _ h)))

def value (x : Row F d.embeddingLength) : HeadRows F d.nHead d.headDim :=
  fun h => layer.attnQkv (layer.attnNorm x) (Fin.natAdd _ h)

/-- The cache of a layer that has been given rows. -/
def cacheAfter (before : List (Row F d.embeddingLength)) : KvCache d F :=
  (before.mapIdx (layer.key k), before.map layer.value)

end Rows

variable {k : Kernels F} (r : k.ByRow)

/-- What a layer makes of the row `x` after the rows `before`. -/
def rowAfter (before : List (Row F d.embeddingLength)) (x : Row F d.embeddingLength) : Row F d.embeddingLength :=
  let found := layer.attnOutput (r.attendAlong (layer.query k) (layer.key k) layer.value before x)
  let y := fun c => k.add (found c) (x c)
  fun c => k.add (layer.mlp.forward k (layer.ffnNorm y) c) (y c)

include r in
theorem length_forward (mask : Option ℕ) (xs : List (Row F d.embeddingLength)) (indexPos : ℕ) (cache : KvCache d F)
    {ys : List (Row F d.embeddingLength)} (h : (layer.forward k mask xs indexPos cache).1 = some ys) :
    ys.length = xs.length := by
  unfold LayerWeights.forward at h
  obtain ⟨zs, hzs, rfl⟩ := Option.map_eq_some_iff.mp h
  have hlength : zs.length = xs.length := by
    unfold forwardAttn at hzs
    split at hzs
    · cases hzs
    · simp only at hzs
      split at hzs
      · cases hzs
      · obtain ⟨ws, hws, rfl⟩ := Option.map_eq_some_iff.mp hzs
        rw [List.length_map, r.length_attention _ hws, List.length_mapIdx, List.length_map, List.length_map]
  simp [hlength, Kernels.length_addRows]

/-- With its cache, a layer computes the rows of a piece from those that it has been given before. -/
theorem incremental_forward :
    Incremental (fun xs => layer.forward k (phi3Mask (.ofNat xs.length)) xs) d.maxSeqLen.toNat (along (layer.rowAfter r))
      (layer.cacheAfter k) where
  causal := causal_along _
  fits before xs hfollows hfits := by
    have hattn := r.attention_mayFollow (layer.query k) (layer.key k) layer.value hfollows
    have hkeys : before.mapIdx (layer.key k) ++ ((xs.map layer.attnNorm).map layer.attnQkv).mapIdx
        (fun i r h => k.rope (before.length + i) (r (Fin.castAdd _ (Fin.natAdd _ h)))) = (before ++ xs).mapIdx (layer.key k) := by
      rw [List.mapIdx_append, mapIdx_of_map, mapIdx_of_map]
      simp only [Nat.add_comm before.length]
      rfl
    have hvalues : before.map layer.value ++ ((xs.map layer.attnNorm).map layer.attnQkv).map (fun r h => r (Fin.natAdd _ h)) =
        (before ++ xs).map layer.value := by
      rw [List.map_append, List.map_map, List.map_map]
      rfl
    have hqueries : ((xs.map layer.attnNorm).map layer.attnQkv).mapIdx
        (fun i r h => k.rope (before.length + i) (r (Fin.castAdd _ (Fin.castAdd _ h)))) =
          xs.mapIdx fun i x => layer.query k (before.length + i) x := by
      rw [mapIdx_of_map, mapIdx_of_map]
      rfl
    unfold LayerWeights.forward forwardAttn KvCache.append
    simp only [List.length_map, List.length_mapIdx, cacheAfter, Nat.not_lt.mpr hfits, if_false, hkeys, hvalues, hqueries]
    rw [phi3Mask_ofNat (Nat.lt_of_le_of_lt (Nat.le_trans (Nat.le_add_left _ _) hfits) d.maxSeqLen.toNat_lt), hattn]
    simp only [Option.map_some, map_along, Kernels.addRows_along, Kernels.addRows_along_along]
    rfl
  exceeds before xs hfollows hover := by
    simp [LayerWeights.forward, forwardAttn, hover]

end LayerWeights
end Phi3
end Dllm
