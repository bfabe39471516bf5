import DecentralizedInference.Lib.Reorder
import DecentralizedInference.Proofs.WindowAccount

/-! One frame on a fresh buffer, and its chunks at a fresh receiver, in whatever order they
come. Numbers and counts of chunks are cast to sixteen bits: up to 65535 chunks nothing is
lost, and beyond that already the count is wrong. -/

namespace Dllm

open ConnectionChunk

variable {C A : UInt64} {data : List UInt8} {b : ConnectionBuffer C A}

/-- A buffer after messages have arrived, one after the other. -/
def ConnectionBuffer.receiveAll (b : ConnectionBuffer C A) (msgs : List (List UInt8)) : ConnectionBuffer C A :=
  msgs.foldl (fun b msg => (b.onReceived msg).getD b) b

/-- What waits to be sent, in order. -/
def ConnectionBuffer.waiting (b : ConnectionBuffer C A) : List ConnectionChunk :=
  b.highPriority ++ b.lowPriority

/-- How many chunks a frame is cut into. -/
def chunkTotal (C : UInt64) (data : List UInt8) : ℕ := max 1 ((data.length + C.toNat - 1) / C.toNat)

/-- The buffer `b` holds the frame `data` in chunks from which every receiver gets it back. -/
structure Lossless (data : List UInt8) (b : ConnectionBuffer C A) : Prop where
  oneFrame : ∃ id, ∀ c ∈ b.waiting, ∃ i n d, c = .chunk id i n d ∧ n.toNat = chunkTotal C data
  numbers : (b.waiting.map fun c => c.key.2.toNat) = List.range (chunkTotal C data)
  sizes : ∀ k size, b.outSize k = some size ↔ ∃ c ∈ b.waiting, c.key = k ∧ c.inAirSize = size
  received : ∀ arrived : List ConnectionChunk, arrived.Perm b.waiting →
    (({} : ConnectionBuffer C A).receiveAll (arrived.map serialize)).outs = [data] ∧
    ∀ seen, seen <+: arrived → seen ≠ arrived →
      (({} : ConnectionBuffer C A).receiveAll (seen.map serialize)).outs = []

/-- The count that a chunk carries has sixteen bits. -/
theorem Lossless.length_le (hC : 0 < C) (h : Lossless data b) : data.length ≤ 65535 * C.toNat := by
  have hpos : 0 < C.toNat := by simpa [UInt64.lt_iff_toNat_lt] using hC
  have hlen : b.waiting.length = chunkTotal C data := by
    simpa using congrArg List.length h.numbers
  have htotal : 1 ≤ chunkTotal C data := le_max_left _ _
  obtain ⟨c, hc⟩ := List.exists_mem_of_length_pos (show 0 < b.waiting.length by omega)
  obtain ⟨id, hid⟩ := h.oneFrame
  obtain ⟨i, n, d, -, hn⟩ := hid c hc
  have hn16 := n.toNat_lt
  have hle : (data.length + C.toNat - 1) / C.toNat ≤ 65535 := by
    have := le_max_right 1 ((data.length + C.toNat - 1) / C.toNat)
    unfold chunkTotal at hn
    omega
  have := Nat.div_lt_iff_lt_mul hpos |>.mp (Nat.lt_succ_of_le hle)
  rw [Nat.succ_mul] at this
  omega

/-- A fresh receiver to which pieces of a frame of `n` chunks have come. -/
def afterPieces (C A : UInt64) (id : UInt32) (n : UInt16) (ps : List (UInt16 × List UInt8)) :
    ConnectionBuffer C A :=
  ps.foldl (fun b p => b.onChunk id p.1 n p.2) {}

theorem afterPieces_snoc (id : UInt32) (n : UInt16) (ps : List (UInt16 × List UInt8))
    (p : UInt16 × List UInt8) :
    afterPieces C A id n (ps ++ [p]) = (afterPieces C A id n ps).onChunk id p.1 n p.2 := by
  simp [afterPieces]

/-- As long as pieces are missing, the receiver keeps those that have come, and hands out
nothing. -/
theorem afterPieces_some {id : UInt32} {n : UInt16} (hn : n ≠ 1) (ps : List (UInt16 × List UInt8))
    (hnodup : (ps.map Prod.fst).Nodup) (hlt : ps.length < n.toNat) :
    (afterPieces C A id n ps).outs = [] ∧
      ((afterPieces C A id n ps).incomings.lookup id).getD ⟨n, ∅⟩ = ⟨n, Std.TreeMap.fill compare ps⟩ := by
  induction ps using List.reverseRecOn with
  | nil => exact ⟨rfl, rfl⟩
  | append_singleton ps p ih =>
    have hsize : (Std.TreeMap.fill compare (ps ++ [p])).size = (ps ++ [p]).length :=
      Std.TreeMap.fill_size hnodup
    rw [List.map_append, List.nodup_append] at hnodup
    rw [List.length_append, List.length_singleton] at hlt hsize
    obtain ⟨houts, hinc⟩ := ih hnodup.1 (by omega)
    rw [Std.TreeMap.fill_snoc] at hsize ⊢
    rw [afterPieces_snoc]
    unfold ConnectionBuffer.onChunk
    rw [if_neg hn, hinc]
    dsimp only
    rw [if_neg (by omega)]
    exact ⟨houts, by rw [AList.lookup_insert]; rfl⟩

/-- The last piece completes the frame: its pieces in the order of their numbers. -/
theorem afterPieces_all {id : UInt32} {n : UInt16} (hn : n ≠ 1) {ps qs : List (UInt16 × List UInt8)}
    (hperm : ps.Perm qs) (hsorted : qs.Pairwise fun p q => compare p.1 q.1 = .lt)
    (hlen : qs.length = n.toNat) (hpos : 0 < n.toNat) :
    (afterPieces C A id n ps).outs = [(qs.map Prod.snd).flatten] := by
  have hnodup := Std.TreeMap.nodup_of_sorted hperm hsorted
  have hlist := Std.TreeMap.fill_toList_eq hperm hsorted
  have hsize : (Std.TreeMap.fill compare ps).size = ps.length := Std.TreeMap.fill_size hnodup
  have hps := hperm.length_eq
  induction ps using List.reverseRecOn with
  | nil => simp at hps; omega
  | append_singleton ps p _ =>
    rw [List.length_append, List.length_singleton] at hps hsize
    rw [List.map_append, List.nodup_append] at hnodup
    obtain ⟨houts, hinc⟩ := @afterPieces_some C A id n hn ps hnodup.1 (by omega)
    rw [Std.TreeMap.fill_snoc] at hsize hlist
    rw [afterPieces_snoc]
    unfold ConnectionBuffer.onChunk
    rw [if_neg hn, hinc]
    dsimp only
    rw [if_pos (by omega), houts, hlist]
    rfl

/-- The number and the data of a chunk. -/
def ConnectionChunk.piece : ConnectionChunk → UInt16 × List UInt8
  | .chunk _ i _ d => (i, d)
  | .chunkAck _ i _ => (i, [])

/-- The chunks of a frame that is cut into the pieces `ds`. -/
def cut (id : UInt32) (ds : List (List UInt8)) : List ConnectionChunk :=
  ds.zipIdx.map fun c => .chunk id (.ofNat c.2) (.ofNat ds.length) c.1

/-- How a frame is cut, whichever of the two ways of `push_frame` it takes. -/
theorem frameChunks_cut (hC : 0 < C.toNat) (i : ℕ) (data : List UInt8) :
    ∃ ds : List (List UInt8), frameChunks C i data = cut (.ofNat i) ds ∧ ds.flatten = data ∧
      ds.length = chunkTotal C data ∧ ∀ d ∈ ds, d.length ≤ C.toNat := by
  unfold frameChunks chunkTotal
  by_cases hle : data.length ≤ C.toNat
  · refine ⟨[data], if_pos hle, by simp, ?_, by simpa using hle⟩
    have hone : (data.length + C.toNat - 1) / C.toNat < 2 := by
      rw [Nat.div_lt_iff_lt_mul hC]
      omega
    simp only [List.length_singleton]
    omega
  · refine ⟨data.chunks C.toNat, if_neg hle, List.chunks_flatten hC data, ?_,
      fun d => List.length_of_mem_chunks⟩
    have htwo := List.two_le_length_chunks hC (Nat.lt_of_not_le hle)
    unfold List.chunks at htwo ⊢
    rw [List.length_map, List.length_range] at htwo ⊢
    omega

section Cut

variable {id : UInt32} {ds : List (List UInt8)} {c : ConnectionChunk}

theorem cut_length : (cut id ds).length = ds.length := by simp [cut]

theorem mem_cut (hc : c ∈ cut id ds) : ∃ i d, d ∈ ds ∧ c = .chunk id i (.ofNat ds.length) d := by
  obtain ⟨⟨d, i⟩, hmem, rfl⟩ := List.mem_map.mp hc
  exact ⟨_, d, List.mem_of_getElem (List.mem_zipIdx' hmem).2.symm, rfl⟩

theorem cut_pieces : (cut id ds).map piece = numbered ds := by
  simp [cut, numbered, piece]

theorem cut_numbers (hlen : ds.length ≤ 65536) :
    ((cut id ds).map fun c => c.key.2.toNat) = List.range ds.length := by
  have hsnd : (cut id ds).map (fun c => c.key.2.toNat) = ds.zipIdx.map fun c => c.2 % 2 ^ 16 := by
    simp [cut, key]
  rw [hsnd, List.range_eq_range', ← List.zipIdx_map_snd 0 ds]
  apply List.map_congr_left
  rintro ⟨d, i⟩ hmem
  exact Nat.mod_eq_of_lt (lt_of_lt_of_le (List.mem_zipIdx' hmem).1 hlen)

theorem cut_nodup (hlen : ds.length ≤ 65536) : ((cut id ds).map fun c => c.key.2).Nodup := by
  apply List.Nodup.of_map UInt16.toNat
  rw [List.map_map]
  exact (cut_numbers hlen) ▸ List.nodup_range

theorem numbered_sorted (hlen : ds.length ≤ 65536) :
    (numbered ds).Pairwise fun p q => compare p.1 q.1 = .lt := by
  rw [numbered, List.pairwise_map, List.pairwise_iff_getElem]
  intro i j hi hj hij
  rw [List.length_zipIdx] at hi hj
  simp only [List.getElem_zipIdx, Nat.zero_add]
  exact compare_number hij (by omega)

end Cut

/-- Chunks of one frame, as they come over the channel. -/
theorem receiveAll_chunks {id : UInt32} {n : UInt16} (cs : List ConnectionChunk)
    (hall : ∀ c ∈ cs, ∃ i d, d.length ≤ C.toNat ∧ c = .chunk id i n d) :
    ({} : ConnectionBuffer C A).receiveAll (cs.map serialize) = afterPieces C A id n (cs.map piece) := by
  induction cs using List.reverseRecOn with
  | nil => rfl
  | append_singleton cs c ih =>
    obtain ⟨i, d, hd, rfl⟩ := hall c (by simp)
    have hsome := deserialize_serialize (.chunk id i n d) (lt_of_le_of_lt hd C.toNat_lt)
    rw [List.map_append, List.map_append, List.map_singleton, List.map_singleton, afterPieces_snoc,
      ← ih fun c hc => hall c (by simp [hc])]
    simp only [ConnectionBuffer.receiveAll, List.foldl_append, List.foldl_cons, List.foldl_nil,
      ConnectionBuffer.onReceived, hsome]
    rfl

/-- The chunks of a frame in any order: the last one to come completes it. -/
theorem cut_received {id : UInt32} {ds : List (List UInt8)} (hne : ds ≠ []) (hlen : ds.length ≤ 65535)
    (hds : ∀ d ∈ ds, d.length ≤ C.toNat) {arrived : List ConnectionChunk} (hperm : arrived.Perm (cut id ds)) :
    (({} : ConnectionBuffer C A).receiveAll (arrived.map serialize)).outs = [ds.flatten] ∧
      ∀ seen, seen <+: arrived → seen ≠ arrived →
        (({} : ConnectionBuffer C A).receiveAll (seen.map serialize)).outs = [] := by
  have hall : ∀ c ∈ arrived, ∃ i d, d.length ≤ C.toNat ∧ c = .chunk id i (.ofNat ds.length) d := by
    intro c hc
    obtain ⟨i, d, hd, rfl⟩ := mem_cut (hperm.mem_iff.mp hc)
    exact ⟨i, d, hds d hd, rfl⟩
  have hpos := List.length_pos_iff.mpr hne
  have hcast : (UInt16.ofNat ds.length).toNat = ds.length := by
    rw [UInt16.toNat_ofNat']
    omega
  have hpieces : (arrived.map piece).Perm (numbered ds) := by
    rw [← cut_pieces]
    exact hperm.map piece
  have hlength : arrived.length = ds.length := hperm.length_eq.trans cut_length
  rw [receiveAll_chunks arrived hall]
  by_cases hone : UInt16.ofNat ds.length = 1
  · -- a frame of one chunk does not go through the map of its pieces
    rw [hone] at hcast hall
    obtain ⟨d, rfl⟩ := List.length_eq_one_iff.mp hcast.symm
    obtain ⟨c, rfl⟩ := List.length_eq_one_iff.mp hlength
    have hc : c.piece = (0, d) := by simpa [numbered] using hpieces
    refine ⟨?_, fun seen hseen hlt => ?_⟩
    · simp [afterPieces, hc, ConnectionBuffer.onChunk]
    · rcases List.prefix_cons_iff.mp hseen with rfl | ⟨t, rfl, ht⟩
      · rfl
      · exact absurd (by rw [List.prefix_nil.mp ht]) hlt
  · have hsorted : (numbered ds).Pairwise fun p q => compare p.1 q.1 = .lt := numbered_sorted (by omega)
    have hnodup := Std.TreeMap.nodup_of_sorted hpieces hsorted
    refine ⟨?_, fun seen hseen hlt => ?_⟩
    · rw [afterPieces_all hone hpieces hsorted (by simp [numbered, hcast]) (by omega), numbered_flatten]
    · rw [receiveAll_chunks seen fun c hc => hall c (hseen.subset hc)]
      refine (afterPieces_some hone _ ?_ ?_).1
      · exact hnodup.sublist ((hseen.sublist.map piece).map Prod.fst)
      · have hle := hseen.length_le
        have hne : seen.length ≠ arrived.length := fun heq => hlt (hseen.eq_of_length heq)
        rw [List.length_map]
        omega

/-- Where a frame is cut into at most 65535 chunks, nothing is lost. -/
theorem lossless_of_le (hC : 0 < C) (hlen : data.length ≤ 65535 * C.toNat) :
    ∃ b, ({} : ConnectionBuffer C A).pushFrame data = .ok b ∧ Lossless data b := by
  have hpos : 0 < C.toNat := by simpa [UInt64.lt_iff_toNat_lt] using hC
  have hpush : ∃ b, ({} : ConnectionBuffer C A).pushFrame data = .ok b ∧
      b.waiting = frameChunks C 0 data ∧
      b.outgoings = AList.insert 0 (.ofChunks (frameChunks C 0 data)) ∅ := by
    unfold ConnectionBuffer.pushFrame frameChunks
    by_cases hle : data.length ≤ C.toNat
    · simp only [if_pos hle]
      exact ⟨_, rfl, rfl, rfl⟩
    · simp only [if_neg hle, if_neg (show C ≠ 0 by rintro rfl; exact absurd hpos (by decide))]
      exact ⟨_, rfl, rfl, rfl⟩
  obtain ⟨b, hb, hwait, hout⟩ := hpush
  obtain ⟨ds, hcut, hflat, htotal, hds⟩ := frameChunks_cut hpos 0 data
  have hle : ds.length ≤ 65535 := by
    have hdiv : (data.length + C.toNat - 1) / C.toNat < 65536 := by
      rw [Nat.div_lt_iff_lt_mul hpos]
      omega
    rw [htotal, chunkTotal]
    omega
  have hone : 1 ≤ ds.length := by
    rw [htotal]
    exact le_max_left _ _
  refine ⟨b, hb, ?_⟩
  rw [hcut] at hwait hout
  exact
    { oneFrame := by
        refine ⟨.ofNat 0, fun c hc => ?_⟩
        rw [hwait] at hc
        obtain ⟨i, d, -, rfl⟩ := mem_cut hc
        refine ⟨i, _, d, rfl, ?_⟩
        rw [← htotal, UInt16.toNat_ofNat']
        omega
      numbers := by rw [hwait, cut_numbers (by omega), htotal]
      sizes := by
        have hcs : ∀ c ∈ cut (.ofNat 0) ds, c.isAck = false ∧ c.key.1 = .ofNat 0 := by
          intro c hc
          obtain ⟨i, d, -, rfl⟩ := mem_cut hc
          exact ⟨rfl, rfl⟩
        have hin := fun c hc => b.outSize_of_mem hout hcs (cut_nodup (by omega)) (c := c) hc
        intro k size
        rw [hwait]
        refine ⟨fun hk => ?_, fun hchunk => ?_⟩
        · by_cases hmem : k ∈ (cut (.ofNat 0) ds).map key
          · obtain ⟨c, hc, rfl⟩ := List.mem_map.mp hmem
            exact ⟨c, hc, rfl, Option.some.inj ((hin c hc).symm.trans hk)⟩
          · rw [ConnectionBuffer.outSize_of_not_mem hout hcs hmem] at hk
            split at hk <;> cases hk
        · obtain ⟨c, hc, rfl, rfl⟩ := hchunk
          exact hin c hc
      received := by
        intro arrived hperm
        rw [hwait] at hperm
        have hreceived := cut_received (A := A) (List.ne_nil_of_length_pos hone) hle hds hperm
        rwa [hflat] at hreceived }

/-- Chunking loses nothing exactly where the number of chunks has sixteen bits. -/
theorem chunking_lossless_iff (C A : UInt64) (data : List UInt8) (hC : 0 < C) :
    (∃ b, ({} : ConnectionBuffer C A).pushFrame data = .ok b ∧ Lossless data b) ↔
      chunkTotal C data ≤ 65535 := by
  have hpos : 0 < C.toNat := by simpa [UInt64.lt_iff_toNat_lt] using hC
  have hiff : chunkTotal C data ≤ 65535 ↔ data.length ≤ 65535 * C.toNat := by
    have hdiv : (data.length + C.toNat - 1) / C.toNat < 65536 ↔ data.length ≤ 65535 * C.toNat := by
      rw [Nat.div_lt_iff_lt_mul hpos]
      omega
    rw [← hdiv, chunkTotal]
    omega
  rw [hiff]
  refine ⟨fun ⟨b, _, h⟩ => ?_, ?_⟩
  · exact h.length_le hC
  · exact lossless_of_le hC

/-- A frame of exactly two chunks and a rest. -/
theorem chunking_lossless_iff_three : (∃ b, ({} : ConnectionBuffer 2 100).pushFrame [1, 2, 3, 4, 5] = .ok b ∧
    Lossless [1, 2, 3, 4, 5] b) ↔ chunkTotal 2 [1, 2, 3, 4, 5] ≤ 65535 :=
  chunking_lossless_iff 2 100 [1, 2, 3, 4, 5] (by decide)

/-- A frame of 65536 chunks: its chunks carry the count 0. -/
theorem chunking_wraps : ¬ ∀ (C A : UInt64) (data : List UInt8), 0 < C →
    ∃ b, ({} : ConnectionBuffer C A).pushFrame data = .ok b ∧ Lossless data b := by
  intro h
  obtain ⟨b, -, hb⟩ := h 1 100 (List.replicate 65536 0) (by decide)
  have hle := hb.length_le (by decide)
  rw [List.length_replicate] at hle
  exact absurd hle (by decide)

end Dllm
