import Mathlib.Algebra.Field.Rat
import Mathlib.Algebra.Order.Ring.Unbundled.Rat
import DecentralizedInference.Sanity.ExactKernels
import DecentralizedInference.Sanity.KvCache
import DecentralizedInference.Spec.LlamaModel

/-! A chat with the cache for keys and values is the chat without it. In every turn but the first
the layers are given the last token alone, and with what they have kept they compute for it what
they would compute from all tokens; the sampling only sees the last row. -/

namespace Dllm

theorem ChatParts.close_tokens {σ E : Type} (m : ChatParts σ E) (undecodable : ChatEnd) (s : ChatState σ) :
    (m.close undecodable s).2.tokens = s.tokens := by
  unfold ChatParts.close
  rcases m.decodeRest s.parts with ⟨_ | _ | _, parts⟩ <;> rfl

section Llama

variable {F : Type} {d : LlamaDims}

/-- What the blocks make of rows after others, if they are computed all at once. -/
def rowsThrough {k : Kernels F} (r : k.ByRow) (blocks : List (Block d F)) (before xs : List (Row F d.hiddenSize)) : List (Row F d.hiddenSize) :=
  throughLayers (fun block : Block d F => along (block.rowAfter r)) blocks before xs

theorem causal_rowsThrough {k : Kernels F} (r : k.ByRow) (blocks : List (Block d F)) : Causal (rowsThrough r blocks) :=
  causal_throughLayers fun _ _ => causal_along _

/-- The keys and values of blocks that have been given rows. -/
def kvsAfter {k : Kernels F} (r : k.ByRow) (blocks : List (Block d F)) (before : List (Row F d.hiddenSize)) : List (Kvs d F) :=
  layerCaches (fun block => along (block.rowAfter r)) (fun block => block.cacheAfter k) blocks before

theorem kvsAfter_nil {k : Kernels F} (r : k.ByRow) (blocks : List (Block d F)) : kvsAfter r blocks [] = List.replicate blocks.length none := by
  induction blocks with
  | nil => rfl
  | cons block blocks ih =>
    rw [List.length_cons, List.replicate_succ, ← ih]
    rfl

/-- The cache of blocks that have been given rows, with a place for each hidden layer of the model. -/
def LlamaCache.after {k : Kernels F} (r : k.ByRow) (blocks : List (Block d F)) (numHiddenLayers : ℕ) (before : List (Row F d.hiddenSize)) :
    LlamaCache d F :=
  ⟨true, kvsAfter r blocks before ++ List.replicate (numHiddenLayers - blocks.length) none⟩

/-- A new cache is that of nothing. -/
theorem LlamaCache.new_eq_after {k : Kernels F} (r : k.ByRow) {blocks : List (Block d F)} {numHiddenLayers : ℕ}
    (h : blocks.length ≤ numHiddenLayers) : LlamaCache.new d F true numHiddenLayers = .after r blocks numHiddenLayers [] := by
  unfold LlamaCache.new LlamaCache.after
  rw [kvsAfter_nil, List.replicate_append_replicate, Nat.add_sub_of_le h]

/-- The layers on what they have kept of the rows before. -/
theorem llamaForward_after {k : Kernels F} (r : k.ByRow) {blocks : List (Block d F)} (numHiddenLayers : ℕ)
    (hcut : d.numKeyValueHeads ≤ d.maxPositionEmbeddings.toNat) (hblocks : blocks ≠ []) {before xs : List (Row F d.hiddenSize)}
    (hfollows : MayFollow before xs) :
    if before.length + xs.length ≤ d.maxPositionEmbeddings.toNat then
      llamaForward blocks k xs before.length (.after r blocks numHiddenLayers before) =
        (some (rowsThrough r blocks before xs), .after r blocks numHiddenLayers (before ++ xs))
    else (llamaForward blocks k xs before.length (.after r blocks numHiddenLayers before)).1 = none := by
  have hblock : ∀ block ∈ blocks, Incremental (block.forward k true) d.maxPositionEmbeddings.toNat (along (block.rowAfter r))
      (block.cacheAfter k) := fun block _ => block.incremental_forward r hcut
  have hseries := incremental_inSeries hblock hblocks
  have hlen : (kvsAfter r blocks before).length = blocks.length := length_layerCaches _ _
  unfold LlamaCache.after
  rw [llamaForward_eq_inSeries k before.length true xs (List.replicate (numHiddenLayers - blocks.length) none) hlen]
  split
  case isTrue h =>
    have hfits := hseries.fits before xs hfollows h
    simp only [kvsAfter, hfits, rowsThrough]
  case isFalse h => exact hseries.exceeds before xs hfollows (Nat.lt_of_not_le h)

/-- Blocks that keep nothing compute all rows, or the first of them fails. -/
theorem inSeries_plain {k : Kernels F} (r : k.ByRow) {blocks : List (Block d F)} {xs : List (Row F d.hiddenSize)} (hxs : xs ≠ [])
    {kvs : List (Kvs d F)} (hlen : kvs.length = blocks.length) :
    inSeries (blocks.map fun block => block.forward k false) xs 0 kvs =
      (if blocks = [] ∨ xs.length ≤ d.maxPositionEmbeddings.toNat then some (rowsThrough r blocks [] xs) else none, kvs) := by
  induction blocks generalizing xs kvs with
  | nil => rfl
  | cons block blocks ih =>
    obtain ⟨cached, kvs, rfl⟩ := List.exists_cons_of_length_eq_add_one hlen
    simp only [List.map_cons, inSeries, block.forward_plain r cached hxs, List.cons_ne_nil, false_or]
    by_cases hfits : xs.length ≤ d.maxPositionEmbeddings.toNat
    · have hys : along (block.rowAfter r) [] xs ≠ [] := by
        rw [← List.length_pos_iff] at hxs ⊢
        rwa [length_along]
      rw [if_pos hfits, if_pos hfits]
      simp only [ih hys (Nat.succ.inj hlen), length_along, hfits, or_true, if_true]
      rfl
    · rw [if_neg hfits, if_neg hfits]

theorem llamaForward_plain {k : Kernels F} (r : k.ByRow) {blocks : List (Block d F)} (hblocks : blocks ≠ []) {xs : List (Row F d.hiddenSize)}
    (hxs : xs ≠ []) {numHiddenLayers : ℕ} (h : blocks.length ≤ numHiddenLayers) :
    llamaForward blocks k xs 0 (.new d F false numHiddenLayers) =
      (if xs.length ≤ d.maxPositionEmbeddings.toNat then some (rowsThrough r blocks [] xs) else none,
        .new d F false numHiddenLayers) := by
  have hlen : (List.replicate blocks.length (none : Kvs d F)).length = blocks.length := List.length_replicate
  have hnew : LlamaCache.new d F false numHiddenLayers =
      ⟨false, List.replicate blocks.length none ++ List.replicate (numHiddenLayers - blocks.length) none⟩ := by
    unfold LlamaCache.new
    rw [List.replicate_append_replicate, Nat.add_sub_of_le h]
  rw [hnew, llamaForward_eq_inSeries k 0 false xs _ hlen, inSeries_plain r hxs hlen]
  simp only [hblocks, false_or]

/-- As many rows come out as have been given. -/
theorem length_llamaForward {k : Kernels F} (r : k.ByRow) (blocks : List (Block d F)) {xs : List (Row F d.hiddenSize)} (indexPos : ℕ)
    (cache : LlamaCache d F) {y : List (Row F d.hiddenSize)} (h : (llamaForward blocks k xs indexPos cache).1 = some y) :
    y.length = xs.length := by
  have hinv : (forEach (blockTurn k indexPos) blocks.zipIdx (xs, cache)).state.1.length = xs.length := by
    refine forEach_invariant (P := fun s : List (Row F d.hiddenSize) × LlamaCache d F => s.1.length = xs.length)
      (fun block s hs => ?_) _ rfl
    unfold blockTurn
    split
    · exact hs
    · rcases hforward : block.1.forward k s.2.useKvCache s.1 indexPos _ with ⟨_ | y, cached⟩
      · exact hs
      · exact (block.1.length_forward r _ _ _ _ (congrArg Prod.fst hforward)).trans hs
  unfold llamaForward at h
  cases hloop : forEach (blockTurn k indexPos) blocks.zipIdx (xs, cache) <;> rw [hloop] at hinv h
  case leave s => cases h
  all_goals
    cases h
    exact hinv

theorem length_of_mapM {α β : Type} {f : α → Option β} {as : List α} {bs : List β} (h : as.mapM f = some bs) :
    bs.length = as.length := by
  induction as generalizing bs with
  | nil =>
    cases h
    rfl
  | cons a as ih =>
    rw [List.mapM_cons] at h
    obtain ⟨b, -, h⟩ := Option.bind_eq_some_iff.mp h
    obtain ⟨bs, hbs, h⟩ := Option.bind_eq_some_iff.mp h
    cases h
    simp [ih hbs]

namespace LlamaModel

variable {L σ : Type} (m : LlamaModel d F L σ) (k : Kernels F)

theorem parts_emit (useKvCache : Bool) (token : UInt32) (s : σ × LlamaCache d F) :
    (m.parts k useKvCache).emit token s = ((m.emit token s.1).1, (m.emit token s.1).2, s.2) := rfl

theorem parts_decodeRest (useKvCache : Bool) (s : σ × LlamaCache d F) :
    (m.parts k useKvCache).decodeRest s = ((m.decodeRest s.1).1, (m.decodeRest s.1).2, s.2) := rfl

/-- An input that the layers fail at, or give no row for, has no next token. -/
theorem infer_none (useKvCache : Bool) {input : List UInt32} {pos : UInt32} (penalized : List UInt32)
    {s : ChatState (σ × LlamaCache d F)} {xs : List (Row F d.hiddenSize)} (hxs : input.mapM m.wte = some xs)
    (hforward : ∀ y, (llamaForward m.blocks k xs pos.toNat s.parts.2).1 = some y → y = []) :
    ((m.parts k useKvCache).infer input 0 pos penalized s).1 = none ∧
      ((m.parts k useKvCache).infer input 0 pos penalized s).2.parts.1 = s.parts.1 := by
  unfold ChatParts.infer parts
  simp only [hxs]
  rcases hy : llamaForward m.blocks k xs pos.toNat s.parts.2 with ⟨_ | y, cache⟩
  · exact ⟨rfl, rfl⟩
  · obtain rfl := hforward y (by rw [hy])
    simp

theorem infer_some (useKvCache : Bool) {input : List UInt32} {pos : UInt32} (penalized : List UInt32)
    {s : ChatState (σ × LlamaCache d F)} {xs y : List (Row F d.hiddenSize)} {cache : LlamaCache d F} {row : Row F d.hiddenSize}
    (hxs : input.mapM m.wte = some xs) (hforward : llamaForward m.blocks k xs pos.toNat s.parts.2 = (some y, cache))
    (hrow : y.getLast? = some row) :
    ((m.parts k useKvCache).infer input 0 pos penalized s).1 = (m.sample penalized (m.logits row) s.parts.1).1 ∧
      ((m.parts k useKvCache).infer input 0 pos penalized s).2.parts =
        ((m.sample penalized (m.logits row) s.parts.1).2, cache) := by
  unfold ChatParts.infer parts
  simp [hxs, hforward, hrow]

variable {k} (r : k.ByRow)

/-- Both ways to go on from a prompt or a token: the layers are given what follows the tokens that they have kept,
or all tokens. -/
theorem infer_alike (hcut : d.numKeyValueHeads ≤ d.maxPositionEmbeddings.toNat) (hblocks : m.blocks ≠ [])
    {before ctxt : List UInt32} {rows : List (Row F d.hiddenSize)} (hrows : before.mapM m.wte = some rows)
    (hctxt : before = [] ∨ ctxt.length = 1) {pos : UInt32} (hpos : pos.toNat = rows.length) (penalized : List UInt32)
    {s t : ChatState (σ × LlamaCache d F)} (hs : s.parts.2 = .after r m.blocks m.numHiddenLayers rows)
    (ht : t.parts.2 = .new d F false m.numHiddenLayers) (hown : t.parts.1 = s.parts.1) :
    let cached := (m.parts k true).infer ctxt 0 pos penalized s
    let plain := (m.parts k false).infer (before ++ ctxt) 0 0 penalized t
    plain.1 = cached.1 ∧ plain.2.parts.1 = cached.2.parts.1 ∧
      (cached.1 ≠ none → plain.2.parts.2 = .new d F false m.numHiddenLayers ∧ ∃ xs, ctxt.mapM m.wte = some xs ∧
        cached.2.parts.2 = .after r m.blocks m.numHiddenLayers (rows ++ xs) ∧
          (rows ++ xs).length ≤ d.maxPositionEmbeddings.toNat) := by
  cases hxs : ctxt.mapM m.wte with
  | none => simp [ChatParts.infer, parts, hxs, hrows, List.mapM_append, hown]
  | some xs =>
    have hlength : xs.length = ctxt.length := length_of_mapM hxs
    have hall : (before ++ ctxt).mapM m.wte = some (rows ++ xs) := by simp [List.mapM_append, hrows, hxs]
    -- nothing is sampled, the state of the sampling stays the same
    have hneither : (∀ y, (llamaForward m.blocks k xs pos.toNat s.parts.2).1 = some y → y = []) →
        (∀ y, (llamaForward m.blocks k (rows ++ xs) (0 : UInt32).toNat t.parts.2).1 = some y → y = []) →
        ((m.parts k false).infer (before ++ ctxt) 0 0 penalized t).1 = ((m.parts k true).infer ctxt 0 pos penalized s).1 ∧
          ((m.parts k false).infer (before ++ ctxt) 0 0 penalized t).2.parts.1 =
            ((m.parts k true).infer ctxt 0 pos penalized s).2.parts.1 ∧
          ((m.parts k true).infer ctxt 0 pos penalized s).1 = none := by
      intro hcached hplain
      obtain ⟨h₁, h₂⟩ := m.infer_none k true penalized hxs hcached
      obtain ⟨h₃, h₄⟩ := m.infer_none k false penalized hall hplain
      exact ⟨h₃.trans h₁.symm, by rw [h₄, h₂, hown], h₁⟩
    by_cases hempty : xs = []
    · subst hempty
      have hbefore : before = [] := hctxt.resolve_right fun h => by simp [h] at hlength
      subst hbefore
      obtain rfl : [] = rows := by simpa using hrows
      have hnil : ∀ pos cache y, (llamaForward m.blocks k [] pos cache).1 = some y → y = [] :=
        fun pos cache y hy => List.eq_nil_of_length_eq_zero (length_llamaForward r m.blocks pos cache hy)
      obtain ⟨h₁, h₂, h₃⟩ := hneither (hnil _ _) (hnil _ _)
      exact ⟨h₁, h₂, fun h => absurd h₃ h⟩
    · have hfollows : MayFollow rows xs := by
        refine hctxt.imp (fun h => ⟨?_, hempty⟩) fun h => hlength.trans h
        subst h
        simpa using hrows.symm
      have hne : rows ++ xs ≠ [] := by simp [hempty]
      have hcached := llamaForward_after r m.numHiddenLayers hcut hblocks hfollows
      have hplain := llamaForward_plain r hblocks hne m.blocks_le
      rw [← List.length_append, ← hpos, ← hs] at hcached
      rw [← ht, ← UInt32.toNat_zero] at hplain
      by_cases hfits : (rows ++ xs).length ≤ d.maxPositionEmbeddings.toNat
      · rw [if_pos hfits] at hcached hplain
        have hthrough : rowsThrough r m.blocks rows xs ≠ [] := by
          rw [← List.length_pos_iff, (causal_rowsThrough r m.blocks).length]
          exact List.length_pos_iff.mpr hempty
        obtain ⟨row, hrow⟩ : ∃ row, (rowsThrough r m.blocks rows xs).getLast? = some row :=
          ⟨_, List.getLast?_eq_some_getLast hthrough⟩
        -- the last of all rows is the last of the new ones
        have hrow' : (rowsThrough r m.blocks [] (rows ++ xs)).getLast? = some row := by
          rw [(causal_rowsThrough r m.blocks).split, List.getLast?_append, hrow, Option.some_or]
        obtain ⟨h₁, h₂⟩ := m.infer_some k true penalized hxs hcached hrow
        obtain ⟨h₃, h₄⟩ := m.infer_some k false penalized hall hplain hrow'
        refine ⟨by rw [h₁, h₃, hown], by rw [h₂, h₄, hown], fun _ => ⟨by rw [h₄, ht], xs, rfl, by rw [h₂], hfits⟩⟩
      · rw [if_neg hfits] at hcached hplain
        obtain ⟨h₁, h₂, h₃⟩ := hneither (fun y hy => by rw [hcached] at hy; cases hy) fun y hy => by rw [hplain] at hy; cases hy
        exact ⟨h₁, h₂, fun h => absurd h₃ h⟩

/-- Two chats that have generated the same, and have sampled and sent on the same. -/
def SameSoFar (s t : ChatState (σ × LlamaCache d F)) : Prop := t.tokens = s.tokens ∧ t.parts.1 = s.parts.1

/-- The loops before a turn: the layers with a cache have kept all tokens but those that the turn feeds. -/
structure InStep (index : ℕ) (s t : ChatState (σ × LlamaCache d F)) : Prop where
  same : SameSoFar s t
  plain : t.parts.2 = .new d F false m.numHiddenLayers
  cached : ∃ before rows, before.mapM m.wte = some rows ∧ s.parts.2 = .after r m.blocks m.numHiddenLayers rows ∧
    s.indexPos.toNat = rows.length ∧ (index = 0 ∧ before = [] ∨ 0 < index ∧ ∃ last, s.tokens = before ++ [last])

theorem llamaTurn_alike (hcut : d.numKeyValueHeads ≤ d.maxPositionEmbeddings.toNat) (hblocks : m.blocks ≠ []) {index : ℕ}
    {s t : ChatState (σ × LlamaCache d F)} (h : m.InStep r index s t) :
    LoopTurn.Alike (m.InStep r (index + 1)) SameSoFar SameSoFar ((m.parts k true).llamaTurnWith true index s)
      ((m.parts k false).llamaTurnWith false index t) := by
  obtain ⟨⟨htokens, hown⟩, hplain, before, rows, hrows, hcached, hpos, hindex⟩ := h
  -- what the turn feeds is what comes after the tokens that have been kept
  obtain ⟨ctxt, pos, hsplit, hcontext, hctxt, hstart⟩ : ∃ ctxt, ∃ pos : UInt32, s.tokens = before ++ ctxt ∧
      (∀ c, (if true = true ∧ 0 < index then (1, s.indexPos) else (s.tokens.length, 0)) = c →
        s.tokens.drop (s.tokens.length - c.1) = ctxt ∧ c.2 = pos) ∧ (before = [] ∨ ctxt.length = 1) ∧
          pos.toNat = rows.length := by
    rcases hindex with ⟨rfl, rfl⟩ | ⟨hpositive, last, hlast⟩
    · obtain rfl : [] = rows := by simpa using hrows
      exact ⟨s.tokens, 0, rfl, fun c hc => by subst hc; simp, .inl rfl, rfl⟩
    · exact ⟨[last], s.indexPos, hlast, fun c hc => by subst hc; simp [hpositive, hlast], .inr rfl, hpos⟩
  have hinfer := m.infer_alike r hcut hblocks hrows hctxt hstart s.tokens hcached hplain hown
  obtain ⟨hvars, -, hindexPos⟩ := (m.parts k true).infer_vars ctxt 0 pos s.tokens s
  obtain ⟨hvars', -, -⟩ := (m.parts k false).infer_vars (before ++ ctxt) 0 0 s.tokens t
  unfold ChatParts.llamaTurnWith
  generalize hc : (if true = true ∧ 0 < index then (1, s.indexPos) else (s.tokens.length, 0)) = c
  obtain ⟨hdrop, hcpos⟩ := hcontext c hc
  simp only [Bool.false_eq_true, false_and, if_false, Nat.sub_self, List.drop_zero, hdrop, hcpos, htokens]
  rw [← hsplit] at hinfer hvars'
  rcases hr : (m.parts k true).infer ctxt 0 pos s.tokens s with ⟨next, s'⟩
  rcases hr' : (m.parts k false).infer s.tokens 0 0 s.tokens t with ⟨next', t'⟩
  simp only [hr, hr'] at hinfer hvars hvars' hindexPos
  obtain ⟨rfl, hown', hkept⟩ := hinfer
  cases next' with
  | none => exact ⟨hvars'.trans (htokens.trans hvars.symm), hown'⟩
  | some next =>
    obtain ⟨hplain', xs, hxs, hcached', hle⟩ := hkept (by simp)
    have hall : (before ++ ctxt).mapM m.wte = some (rows ++ xs) := by simp [List.mapM_append, hrows, hxs]
    -- the position stays within the tables of the layers, so it does not wrap
    have hpos' : (s'.indexPos + UInt32.ofNat ctxt.length).toNat = (rows ++ xs).length := by
      have hmax := d.maxPositionEmbeddings.toNat_lt
      have hlength := length_of_mapM hxs
      rw [List.length_append] at hle ⊢
      have hlt : xs.length < 2 ^ 32 := by omega
      rw [hindexPos, UInt32.toNat_add, hpos, ← hlength, UInt32.toNat_ofNat_of_lt' hlt]
      exact Nat.mod_eq_of_lt (Nat.lt_of_le_of_lt hle hmax)
    have hstep : m.InStep r (index + 1)
        { s' with indexPos := s'.indexPos + .ofNat ctxt.length, tokens := s'.tokens ++ [next] }
        { t' with indexPos := t'.indexPos + .ofNat s.tokens.length, tokens := t'.tokens ++ [next] } := by
      refine ⟨⟨?_, hown'⟩, hplain', before ++ ctxt, rows ++ xs, hall, hcached', hpos', .inr ⟨Nat.succ_pos _, next, ?_⟩⟩
      · simp only [hvars', htokens, hvars]
      · simp only [hvars, hsplit]
    have heosOf : ∀ useKvCache, (m.parts k useKvCache).eos = m.eos := fun _ => rfl
    simp only [heosOf]
    by_cases heos : next ∈ m.eos.getD []
    · rw [if_pos heos, if_pos heos]
      exact hstep.same
    · rw [if_neg heos, if_neg heos]
      simp only [parts_emit, hown']
      rcases m.emit next s'.parts.1 with ⟨_ | _ | _, own⟩
      · exact ⟨hstep.same.1, rfl⟩
      · exact ⟨hstep.same.1, rfl⟩
      · exact ⟨⟨hstep.same.1, rfl⟩, hstep.plain, hstep.cached⟩

theorem close_alike {s t : ChatState (σ × LlamaCache d F)} (h : SameSoFar s t) :
    ((m.parts k false).close (.panic .unwrapOnError) t).1 = ((m.parts k true).close (.panic .unwrapOnError) s).1 ∧
      SameSoFar ((m.parts k true).close (.panic .unwrapOnError) s).2 ((m.parts k false).close (.panic .unwrapOnError) t).2 := by
  obtain ⟨htokens, hown⟩ := h
  unfold ChatParts.close
  simp only [parts_decodeRest, hown]
  rcases m.decodeRest s.parts.1 with ⟨_ | _ | _, own⟩
  all_goals exact ⟨rfl, htokens, rfl⟩

include r in
theorem llamaChatWith_alike (hcut : d.numKeyValueHeads ≤ d.maxPositionEmbeddings.toNat) (hblocks : m.blocks ≠ [])
    (maxLen : UInt32) (prompt : String) (own : σ) (cache cache' : LlamaCache d F) :
    let cached := (m.parts k true).llamaChatWith true maxLen prompt (own, cache)
    let plain := (m.parts k false).llamaChatWith false maxLen prompt (own, cache')
    plain.1 = cached.1 ∧ SameSoFar cached.2 plain.2 := by
  unfold ChatParts.llamaChatWith
  have hencode : ∀ useKvCache, (m.parts k useKvCache).encode prompt = m.encode prompt := fun _ => rfl
  have hstart : ∀ useKvCache cache, (m.parts k useKvCache).start maxLen (own, cache) =
      (true, own, .new d F useKvCache m.numHiddenLayers) := fun _ _ => rfl
  simp only [hencode, hstart]
  cases m.encode prompt with
  | none => exact ⟨rfl, rfl, rfl⟩
  | some tokens =>
    have hbegin : m.InStep r 0 { parts := (own, .new d F true m.numHiddenLayers), tokens }
        { parts := (own, .new d F false m.numHiddenLayers), tokens } :=
      ⟨⟨rfl, rfl⟩, rfl, [], [], rfl, LlamaCache.new_eq_after r m.blocks_le, rfl, .inl ⟨rfl, rfl⟩⟩
    have hloop := forEach_range_alike (n := maxLen.toNat) hbegin
      fun index s t _ hst => m.llamaTurn_alike r hcut hblocks hst
    cases hturns : forEach ((m.parts k true).llamaTurnWith true) (List.range maxLen.toNat)
        { parts := (own, .new d F true m.numHiddenLayers), tokens } <;>
      cases hturns' : forEach ((m.parts k false).llamaTurnWith false) (List.range maxLen.toNat)
        { parts := (own, .new d F false m.numHiddenLayers), tokens } <;>
      rw [hturns, hturns'] at hloop
    case next.next s t =>
      simp only [hturns, hturns']
      exact m.close_alike (InStep.same hloop)
    case brk.brk s t =>
      simp only [hturns, hturns']
      exact m.close_alike hloop
    case leave.leave s t =>
      simp only [hturns, hturns']
      exact ⟨trivial, hloop⟩
    all_goals exact hloop.elim

include r in
/-- A chat with the cache ends as one that feeds all tokens in every turn: with the same tokens, and with the same
that has been sampled and sent, whether it fails or not. -/
theorem cached_chat_eq_plain (hcut : d.numKeyValueHeads ≤ d.maxPositionEmbeddings.toNat) (hblocks : m.blocks ≠ [])
    (maxLen : UInt32) (prompt : String) (own : σ) (cache cache' : LlamaCache d F) :
    let cached := (m.parts k true).llamaChat maxLen prompt (own, cache)
    let plain := (m.parts k false).llamaChatWith false maxLen prompt (own, cache')
    plain.1 = cached.1 ∧ plain.2.tokens = cached.2.tokens ∧ plain.2.parts.1 = cached.2.parts.1 := by
  rw [← ChatParts.llamaChatWith_true]
  exact m.llamaChatWith_alike r hcut hblocks maxLen prompt own cache cache'

end LlamaModel
end Llama

/-- Rows of one number, up to 16 of them. -/
def oneNumber : LlamaDims := ⟨1, 1, 1, 1, 16, by decide, by decide⟩

/-- Exact kernels for layers where all scores are zero, so that every key counts the same. -/
def evenKernels : Kernels (WithBot ℚ) := exactKernels (fun x => if x = 0 then 1 else 0) (fun _ => 1) (fun _ => 0) fun _ x => x

def evenByRow : evenKernels.ByRow := exactByRow _ _ _ _

/-- A layer that adds the mean of all rows so far. -/
def meanBlock : Block oneNumber (WithBot ℚ) where
  rms1 x := x
  attn := ⟨fun _ _ _ => (0 : ℚ), fun _ _ _ => (0 : ℚ), fun x _ => x, fun x => x ⟨0, by decide⟩⟩
  rms2 x := x
  mlp := ⟨fun _ _ => (0 : ℚ), fun x => x, fun x => x⟩

/-- A model of two such layers that answers with 3 until the last number is large. -/
def meanModel : LlamaModel oneNumber (WithBot ℚ) (WithBot ℚ) (List UInt32) where
  encode _ := some [1, 2]
  eos := some [0]
  wte token := some fun _ => (token.toNat : ℚ)
  blocks := [meanBlock, meanBlock]
  numHiddenLayers := 2
  blocks_le := by decide
  logits x := x ⟨0, by decide⟩
  sample _ x own := (some (if x < (9 : ℚ) then 3 else 0), own)
  emit token own := (.sent, own ++ [token])
  decodeRest own := (.sent, own)

theorem cached_chat_eq_plain_mean :
    let cached := (meanModel.parts evenKernels true).llamaChat 8 "hi" ([], ⟨true, []⟩)
    let plain := (meanModel.parts evenKernels false).llamaChatWith false 8 "hi" ([], ⟨false, []⟩)
    cached.2.tokens = [1, 2, 3, 3, 0] ∧ plain.2.tokens = cached.2.tokens ∧ plain.2.parts.1 = cached.2.parts.1 := by
  have h := meanModel.cached_chat_eq_plain evenByRow (by decide) (by decide) 8 "hi" [] ⟨true, []⟩ ⟨false, []⟩
  exact ⟨by decide +kernel, h.2⟩

end Dllm
