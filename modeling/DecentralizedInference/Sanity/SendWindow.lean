import DecentralizedInference.Lib.Window
import DecentralizedInference.Sanity.ConnectionBuffer

/-! The window of one sender: `outgoings` books every chunk from the moment it is
queued to the arrival of its acknowledgement, and `in_air_size` is the total size
of those that have been sent. -/

namespace Dllm

open ConnectionChunk

variable {C A : UInt64}

/-- A chunk of a sender: the frame it belongs to and its number there. -/
abbrev ChunkKey := UInt32 × UInt16

def ConnectionChunk.key : ConnectionChunk → ChunkKey
  | chunk f i _ _ => (f, i)
  | chunkAck f i _ => (f, i)

/-- The chunks that the acknowledgements of a list are for. -/
def acksOf (cs : List ConnectionChunk) : List ChunkKey := (cs.filter isAck).map key

@[simp] theorem acksOf_append (cs cs' : List ConnectionChunk) :
    acksOf (cs ++ cs') = acksOf cs ++ acksOf cs' := by
  simp [acksOf]

@[simp] theorem acksOf_nil : acksOf [] = [] := rfl

@[simp] theorem acksOf_cons_chunk (f : UInt32) (i n : UInt16) (d : List UInt8)
    (cs : List ConnectionChunk) : acksOf (.chunk f i n d :: cs) = acksOf cs := rfl

@[simp] theorem acksOf_cons_chunkAck (f : UInt32) (i n : UInt16) (cs : List ConnectionChunk) :
    acksOf (.chunkAck f i n :: cs) = (f, i) :: acksOf cs := rfl

/-- Frames are queued, and chunks of them sent, past the acknowledgements. -/
theorem ConnectionBuffer.acksOf_pushFrame {b b' : ConnectionBuffer C A} {f : List UInt8}
    (h : b.pushFrame f = .ok b') : acksOf b'.highPriority = acksOf b.highPriority := by
  rcases pushFrame_cases h with ⟨-, rfl⟩ | ⟨-, -, rfl⟩
  · simp
  · rfl

theorem ConnectionBuffer.Sends.acksOf_chunk {b b' : ConnectionBuffer C A} {f : UInt32} {i n : UInt16} {d : List UInt8}
    (h : b.Sends (.chunk f i n d) b') : acksOf b'.highPriority = acksOf b.highPriority := by
  cases h with
  | high high _ hhigh => simp [hhigh]
  | low low _ _ _ => rfl

namespace OutgoingFrame

theorem ofChunks_snoc (cs : List ConnectionChunk) {c : ConnectionChunk} (hc : c.isAck = false) :
    (ofChunks (cs ++ [c])).chunks = (ofChunks cs).chunks.insert c.key.2 c.inAirSize := by
  cases c with
  | chunk f i n d => simp [ofChunks, key]
  | chunkAck f i n => cases hc

theorem ofChunks_of_mem {cs : List ConnectionChunk} (hdata : ∀ c ∈ cs, c.isAck = false)
    (hnodup : (cs.map fun c => c.key.2).Nodup) {c : ConnectionChunk} (hc : c ∈ cs) :
    (ofChunks cs).chunks[c.key.2]? = some c.inAirSize := by
  induction cs using List.reverseRecOn with
  | nil => cases hc
  | append_singleton cs last ih =>
    rw [ofChunks_snoc cs (hdata last (by simp)), Std.TreeMap.getElem?_insert]
    rw [List.map_append, List.nodup_append] at hnodup
    rcases List.mem_append.mp hc with hc | hc
    · have hne : last.key.2 ≠ c.key.2 := fun h =>
        hnodup.2.2 _ (List.mem_map_of_mem hc) _ (by simp) h.symm
      rw [if_neg (by simpa using hne)]
      exact ih (fun c hc => hdata c (by simp [hc])) hnodup.1 hc
    · rw [List.mem_singleton.mp hc, if_pos (by simp)]

theorem ofChunks_of_not_mem {cs : List ConnectionChunk} (hdata : ∀ c ∈ cs, c.isAck = false)
    {i : UInt16} (hi : ∀ c ∈ cs, c.key.2 ≠ i) : (ofChunks cs).chunks[i]? = none := by
  induction cs using List.reverseRecOn with
  | nil => rfl
  | append_singleton cs last ih =>
    rw [ofChunks_snoc cs (hdata last (by simp)), Std.TreeMap.getElem?_insert,
      if_neg (by simpa using hi last (by simp))]
    exact ih (fun c hc => hdata c (by simp [hc])) fun c hc => hi c (by simp [hc])

end OutgoingFrame

/-- The numbers of the chunks of a frame are told apart up to 65536 of them. -/
theorem splitFrame_nodup {f : UInt32} {data : List UInt8} (hpos : 0 < C.toNat)
    (hlen : data.length ≤ 65536 * C.toNat) :
    ((splitFrame C f data).map fun c => c.key.2).Nodup := by
  have hids : (splitFrame C f data).map (fun c => c.key.2) =
      (List.range (data.chunks C.toNat).length).map UInt16.ofNat := by
    rw [List.range_eq_range', ← List.zipIdx_map_snd 0 (data.chunks C.toNat)]
    simp only [splitFrame, List.map_map]
    rfl
  rw [hids]
  apply List.Nodup.map_on _ List.nodup_range
  intro i hi j hj hij
  have hmax := List.length_chunks_le hpos hlen
  rw [List.mem_range] at hi hj
  have hnat := congrArg UInt16.toNat hij
  rw [UInt16.toNat_ofNat', UInt16.toNat_ofNat'] at hnat
  omega

namespace ConnectionBuffer

/-- The size that is booked for a chunk. -/
def outSize (b : ConnectionBuffer C A) (k : ChunkKey) : Option ℕ :=
  (b.outgoings.lookup k.1).bind fun fr => fr.chunks[k.2]?

/-- An acknowledgement that finds nothing booked changes nothing. -/
theorem onAck_of_not_booked {b : ConnectionBuffer C A} {f : UInt32} {i : UInt16}
    (h : b.outSize (f, i) = none) : b.onAck f i = b := by
  unfold onAck
  cases hfr : b.outgoings.lookup f with
  | none => rfl
  | some fr =>
    have hsize : fr.chunks[i]? = none := by simpa [outSize, hfr] using h
    simp [hsize]

theorem onAck_of_outSize {b : ConnectionBuffer C A} {f : UInt32} {i : UInt16} {size : ℕ}
    (h : b.outSize (f, i) = some size) :
    ∃ fr, b.outgoings.lookup f = some fr ∧ fr.chunks[i]? = some size ∧
      b.onAck f i = { b with
        inAirSize := wrapSub 64 b.inAirSize size
        outgoings :=
          if (fr.chunks.erase i).isEmpty then b.outgoings.erase f
          else b.outgoings.insert f ⟨fr.chunks.erase i⟩ } := by
  obtain ⟨fr, hfr, hsize⟩ := Option.bind_eq_some_iff.mp h
  refine ⟨fr, hfr, hsize, ?_⟩
  simp only [onAck, hfr, hsize]

/-- An acknowledgement strikes its chunk off and leaves the others alone. -/
theorem outSize_onAck {b : ConnectionBuffer C A} {f : UInt32} {i : UInt16} {size : ℕ}
    (h : b.outSize (f, i) = some size) (k : ChunkKey) :
    (b.onAck f i).outSize k = if k = (f, i) then none else b.outSize k := by
  obtain ⟨fr, hfr, hsize, hack⟩ := onAck_of_outSize h
  have herase : ∀ i', (fr.chunks.erase i)[i']? = if i' = i then none else fr.chunks[i']? := by
    intro i'
    rw [Std.TreeMap.getElem?_erase]
    apply if_congr _ rfl rfl
    rw [Std.compare_eq_iff_eq, eq_comm]
  obtain ⟨f', i'⟩ := k
  simp only [hack, outSize, Prod.mk.injEq]
  split
  case isTrue hempty =>
    by_cases hf : f' = f
    · subst hf
      have hnone := Std.TreeMap.getElem?_of_isEmpty hempty (a := i')
      rw [herase] at hnone
      simp only [AList.lookup_erase, hfr, true_and, Option.bind_none, Option.bind_some]
      exact hnone.symm
    · simp [AList.lookup_erase_ne hf, hf]
  case isFalse hempty =>
    by_cases hf : f' = f
    · subst hf
      simp [AList.lookup_insert, hfr, herase]
    · simp [AList.lookup_insert_ne hf, hf]

/-- A frame that has just been entered under `id` books each of its chunks. -/
theorem outSize_of_mem {b : ConnectionBuffer C A} {g : AList fun _ : UInt32 => OutgoingFrame} {id : UInt32}
    {cs : List ConnectionChunk} (hout : b.outgoings = g.insert id (.ofChunks cs))
    (hcs : ∀ c ∈ cs, c.isAck = false ∧ c.key.1 = id) (hnodup : (cs.map fun c => c.key.2).Nodup)
    {c : ConnectionChunk} (hc : c ∈ cs) : b.outSize c.key = some c.inAirSize := by
  rw [outSize, hout, (hcs c hc).2, AList.lookup_insert]
  exact OutgoingFrame.ofChunks_of_mem (fun c hc => (hcs c hc).1) hnodup hc

/-- It books nothing else under its id, and nothing under another. -/
theorem outSize_of_not_mem {b : ConnectionBuffer C A} {g : AList fun _ : UInt32 => OutgoingFrame} {id : UInt32}
    {cs : List ConnectionChunk} (hout : b.outgoings = g.insert id (.ofChunks cs))
    (hcs : ∀ c ∈ cs, c.isAck = false ∧ c.key.1 = id) {k : ChunkKey} (hk : k ∉ cs.map key) :
    b.outSize k = if k.1 = id then none else (g.lookup k.1).bind fun fr => fr.chunks[k.2]? := by
  rw [outSize, hout]
  split
  case isTrue hid =>
    rw [hid, AList.lookup_insert]
    apply OutgoingFrame.ofChunks_of_not_mem fun c hc => (hcs c hc).1
    intro c hc heq
    exact hk (List.mem_map.mpr ⟨c, hc, Prod.ext ((hcs c hc).2.trans hid.symm) heq⟩)
  case isFalse hid => rw [AList.lookup_insert_ne hid]

/-- The chunks waiting in the two queues. -/
def queued (b : ConnectionBuffer C A) : List ConnectionChunk :=
  dataOf b.highPriority ++ dataOf b.lowPriority

end ConnectionBuffer

/-- The books of a sender are right when `flight` is on its way and `acked` has
arrived but the acknowledgements have not come back. -/
structure Accounted (tx : ConnectionBuffer C A) (flight : List ConnectionChunk)
    (acked : List ChunkKey) : Prop where
  booked : Booked tx.outSize (tx.queued.map key) (flight.map key ++ acked) tx.inAirSize
  sizes : ∀ c ∈ tx.queued ++ flight, tx.outSize c.key = some c.inAirSize
  unfinished : ∀ id fr, tx.outgoings.lookup id = some fr → fr.chunks.isEmpty = false
  window : tx.inAirSize ≤ A.toNat

namespace Accounted

variable {tx tx' : ConnectionBuffer C A} {flight cs : List ConnectionChunk} {acked acked' : List ChunkKey}
  {c : ConnectionChunk} {f : UInt32} {i n : UInt16}

theorem perm (h : Accounted tx flight acked) (hp : acked.Perm acked') : Accounted tx flight acked' :=
  ⟨h.booked.perm (List.Perm.refl _) (hp.append_left _), h.sizes, h.unfinished, h.window⟩

/-- A new frame whose chunks `cs` are queued, under an id that is not in use. -/
theorem queue (h : Accounted tx flight acked) {id : UInt32} (hfresh : tx.outgoings.lookup id = none)
    (hcs : ∀ c ∈ cs, c.isAck = false ∧ c.key.1 = id) (hne : cs ≠ [])
    (hnodup : (cs.map fun c => c.key.2).Nodup) (hair : tx'.inAirSize = tx.inAirSize)
    (hout : tx'.outgoings = tx.outgoings.insert id (.ofChunks cs))
    (hq : (tx.queued ++ cs).Perm tx'.queued) : Accounted tx' flight acked := by
  have hdata : ∀ c ∈ cs, c.isAck = false := fun c hc => (hcs c hc).1
  have hin : ∀ c ∈ cs, tx'.outSize c.key = some c.inAirSize :=
    fun c hc => ConnectionBuffer.outSize_of_mem hout hcs hnodup hc
  have hother : ∀ k : ChunkKey, k ∉ cs.map key → tx'.outSize k = tx.outSize k := by
    intro k hk
    rw [ConnectionBuffer.outSize_of_not_mem hout hcs hk, ConnectionBuffer.outSize]
    split
    case isTrue hid => rw [hid, hfresh]; rfl
    case isFalse => rfl
  have hnew : ∀ k ∈ cs.map key, tx.outSize k = none := by
    intro k hk
    obtain ⟨c, hc, rfl⟩ := List.mem_map.mp hk
    rw [ConnectionBuffer.outSize, (hcs c hc).2, hfresh]
    rfl
  refine ⟨?_, ?_, ?_, hair ▸ h.window⟩
  · have hkeys : (cs.map key).Nodup := List.Nodup.of_map Prod.snd (by rw [List.map_map]; exact hnodup)
    have hbook : ∀ k ∈ cs.map key, tx'.outSize k ≠ none := by
      intro k hk
      obtain ⟨c, hc, rfl⟩ := List.mem_map.mp hk
      simp [hin c hc]
    rw [hair]
    exact (h.booked.issue hkeys hnew hbook hother).perm (by simpa using hq.map key) (List.Perm.refl _)
  · intro c hc
    have hold : c ∈ tx.queued ++ flight → tx'.outSize c.key = some c.inAirSize := by
      intro hc
      have hs := h.sizes c hc
      rw [hother, hs]
      intro hk
      simp [hnew _ hk] at hs
    rcases List.mem_append.mp hc with hc | hc
    · rcases List.mem_append.mp (hq.mem_iff.mpr hc) with hc | hc
      · exact hold (List.mem_append_left _ hc)
      · exact hin c hc
    · exact hold (List.mem_append_right _ hc)
  · intro id' fr hfr
    rw [hout] at hfr
    by_cases hid : id' = id
    · subst hid
      rw [AList.lookup_insert] at hfr
      cases hfr
      obtain ⟨c, hc⟩ := List.exists_mem_of_ne_nil cs hne
      have hget := OutgoingFrame.ofChunks_of_mem hdata hnodup hc
      apply Std.TreeMap.isEmpty_eq_false_of_contains
      rw [Std.TreeMap.contains_eq_isSome_getElem?, hget]
      rfl
    · rw [AList.lookup_insert_ne hid] at hfr
      exact h.unfinished id' fr hfr

theorem push (h : Accounted tx flight acked) {data : List UInt8}
    (hfresh : tx.outgoings.lookup tx.frameIdSeed = none) (hlen : data.length ≤ 65536 * C.toNat)
    (hpush : tx.pushFrame data = .ok tx') : Accounted tx' flight acked := by
  rcases ConnectionBuffer.pushFrame_cases hpush with ⟨-, rfl⟩ | ⟨hlt, hpos, rfl⟩
  · refine h.queue hfresh ?_ (List.cons_ne_nil (.chunk tx.frameIdSeed 0 1 data) []) ?_ rfl rfl ?_
    · simp [isAck, key]
    · simp
    · simp only [ConnectionBuffer.queued, dataOf_append, dataOf_cons_chunk, dataOf_nil,
        List.append_assoc]
      exact List.perm_append_comm.append_left _
  · have hne : splitFrame C tx.frameIdSeed data ≠ [] := by
      have htwo := List.two_le_length_chunks hpos hlt
      rw [← splitFrame_length C tx.frameIdSeed] at htwo
      intro hnil
      simp [hnil] at htwo
    refine h.queue hfresh ?_ hne (splitFrame_nodup hpos hlen) rfl rfl ?_
    · intro c hc
      obtain ⟨d, i, -, -, rfl⟩ := mem_splitFrame hc
      exact ⟨rfl, rfl⟩
    · simp [ConnectionBuffer.queued]

/-- A data chunk is sent; the sum of the window does not overflow. -/
theorem send (h : Accounted tx flight acked) {d : List UInt8} (hs : tx.Sends (.chunk f i n d) tx')
    (hfit : (ConnectionChunk.chunk f i n d).inAirSize + tx.inAirSize < 2 ^ 64) :
    Accounted tx' (flight ++ [.chunk f i n d]) acked := by
  have hq : tx.queued = .chunk f i n d :: tx'.queued := by
    cases hs with
    | high high _ hhigh => simp [ConnectionBuffer.queued, hhigh]
    | low low _ hhigh hlow => simp [ConnectionBuffer.queued, hhigh, hlow]
  have hout : tx'.outgoings = tx.outgoings := by cases hs <;> rfl
  have hsize : tx'.outSize = tx.outSize := by
    funext k
    rw [ConnectionBuffer.outSize, hout]
    rfl
  have hair : tx'.inAirSize = tx.inAirSize + (ConnectionChunk.chunk f i n d).inAirSize := by
    rw [Nat.add_comm] at hfit
    cases hs <;> exact wrapAdd_of_lt hfit
  have hwin : tx'.inAirSize ≤ A.toNat := by
    rw [hair, Nat.add_comm]
    cases hs with
    | high high hle _ => exact (wrapAdd_of_lt hfit).symm.trans_le hle
    | low low hle _ _ => exact (wrapAdd_of_lt hfit).symm.trans_le hle
  have hmine := h.sizes (.chunk f i n d) (by simp [hq])
  refine ⟨?_, ?_, by rw [hout]; exact h.unfinished, hwin⟩
  · have hbooked := h.booked
    rw [hq, List.map_cons] at hbooked
    rw [hsize, hair]
    apply (hbooked.launch hmine).perm (List.Perm.refl _)
    simp only [List.map_append, List.map_cons, List.map_nil, List.append_assoc, List.singleton_append]
    exact List.perm_middle.symm
  · intro c hc
    rw [hsize]
    apply h.sizes
    rw [hq]
    simp only [List.mem_append, List.mem_cons, List.cons_append] at hc ⊢
    tauto

/-- An acknowledgement for the other side is sent. -/
theorem send_ack (h : Accounted tx flight acked) (hs : tx.Sends (.chunkAck f i n) tx') :
    Accounted tx' flight acked := by
  have hq : tx'.queued = tx.queued := by
    cases hs with
    | high high _ hhigh => simp [ConnectionBuffer.queued, hhigh]
    | low low _ hhigh hlow => simp [ConnectionBuffer.queued, hlow]
  have hout : tx'.outgoings = tx.outgoings := by cases hs <;> rfl
  have hsize : tx'.outSize = tx.outSize := by
    funext k
    rw [ConnectionBuffer.outSize, hout]
    rfl
  have hair : tx'.inAirSize = tx.inAirSize := by
    have hlt : tx.inAirSize + 0 < 2 ^ 64 := lt_of_le_of_lt h.window A.toNat_lt
    cases hs <;> exact wrapAdd_of_lt hlt
  refine ⟨?_, ?_, by rw [hout]; exact h.unfinished, hair ▸ h.window⟩
  · rw [hsize, hq, hair]
    exact h.booked
  · rw [hsize, hq]
    exact h.sizes

/-- A data chunk arrives, and its acknowledgement is queued. -/
theorem arrive (h : Accounted tx (c :: flight) acked) : Accounted tx flight (c.key :: acked) :=
  ⟨h.booked.perm (List.Perm.refl _) (by simpa using List.perm_middle.symm),
    fun c' hc' => h.sizes c' (by
      simp only [List.mem_append, List.mem_cons] at hc' ⊢
      tauto),
    h.unfinished, h.window⟩

/-- The other side's data chunks only add acknowledgements to the queue. -/
theorem onChunk (h : Accounted tx flight acked) (d : List UInt8) :
    Accounted (tx.onChunk f i n d) flight acked := by
  have hq : (tx.onChunk f i n d).queued = tx.queued := by simp [ConnectionBuffer.queued]
  have hsize : (tx.onChunk f i n d).outSize = tx.outSize := by
    funext k
    simp [ConnectionBuffer.outSize]
  refine ⟨?_, ?_, by simpa using h.unfinished, by simpa using h.window⟩
  · simpa [hq, hsize] using h.booked
  · simpa [hq, hsize] using h.sizes

theorem recv (h : Accounted tx flight acked) (outs : List (List UInt8)) :
    Accounted (C := C) (A := A) { tx with outs } flight acked :=
  ⟨h.booked, h.sizes, h.unfinished, h.window⟩

/-- An acknowledgement comes back. -/
theorem ack (h : Accounted tx flight ((f, i) :: acked)) : Accounted (tx.onAck f i) flight acked := by
  have hmem : ((f, i) : ChunkKey) ∈ flight.map key ++ (f, i) :: acked := by simp
  obtain ⟨size, hsize⟩ := Option.ne_none_iff_exists'.mp
    ((h.booked.booked (f, i)).mpr (List.mem_append_right _ hmem))
  obtain ⟨fr, hfr, -, hack⟩ := ConnectionBuffer.onAck_of_outSize hsize
  have hbook := ConnectionBuffer.outSize_onAck hsize
  have hair : (tx.onAck f i).inAirSize = tx.inAirSize - size := by
    rw [hack]
    exact wrapSub_of_le (h.booked.le_used hmem hsize)
  have hq : (tx.onAck f i).queued = tx.queued := by
    rw [hack]
    rfl
  have hperm : (flight.map key ++ (f, i) :: acked).Perm ((f, i) :: (flight.map key ++ acked)) :=
    List.perm_middle
  have hstruck : (tx.onAck f i).outSize (f, i) = none := by rw [hbook, if_pos rfl]
  have hothers : ∀ k, k ≠ (f, i) → (tx.onAck f i).outSize k = tx.outSize k := by
    intro k hk
    rw [hbook, if_neg hk]
  have hsettle := (h.booked.perm (List.Perm.refl _) hperm).settle hsize hstruck hothers
  refine ⟨?_, ?_, ?_, ?_⟩
  · rw [hq, hair]
    exact hsettle
  · intro c hc
    rw [hq] at hc
    have hne : c.key ≠ (f, i) := by
      intro heq
      have hlive : c.key ∈ tx.queued.map key ++ (flight.map key ++ acked) := by
        rcases List.mem_append.mp hc with hc | hc
        · exact List.mem_append_left _ (List.mem_map_of_mem hc)
        · exact List.mem_append_right _ (List.mem_append_left _ (List.mem_map_of_mem hc))
      have hnone : (tx.onAck f i).outSize c.key ≠ none := (hsettle.booked _).mpr hlive
      rw [heq] at hnone
      exact hnone hstruck
    rw [hothers _ hne]
    exact h.sizes c hc
  · intro id fr' hfr'
    rw [hack] at hfr'
    simp only at hfr'
    split at hfr'
    case isTrue =>
      by_cases hid : id = f
      · rw [hid, AList.lookup_erase] at hfr'
        cases hfr'
      · rw [AList.lookup_erase_ne hid] at hfr'
        exact h.unfinished id fr' hfr'
    case isFalse hempty =>
      by_cases hid : id = f
      · rw [hid, AList.lookup_insert] at hfr'
        cases hfr'
        exact Bool.not_eq_true _ ▸ hempty
      · rw [AList.lookup_insert_ne hid] at hfr'
        exact h.unfinished id fr' hfr'
  · rw [hair]
    exact (Nat.sub_le _ _).trans h.window

/-- When nothing is queued or in the air, nothing is booked. -/
theorem rest (h : Accounted tx [] []) (hq : tx.queued = []) :
    tx.inAirSize = 0 ∧ tx.outgoings.entries = [] := by
  refine ⟨h.booked.used_eq_zero, AList.entries_eq_nil_iff.mpr ?_⟩
  intro id
  by_contra hne
  obtain ⟨fr, hfr⟩ := Option.ne_none_iff_exists'.mp hne
  obtain ⟨i, hi⟩ := Std.TreeMap.isEmpty_eq_false_iff_exists_mem.mp (h.unfinished id fr hfr)
  rw [Std.TreeMap.mem_iff_isSome_getElem?, Option.isSome_iff_ne_none] at hi
  have hlive : tx.outSize (id, i) ≠ none := by simpa [ConnectionBuffer.outSize, hfr] using hi
  have hmem := (h.booked.booked _).mp hlive
  simp [hq] at hmem

end Accounted

end Dllm
