import DecentralizedInference.Proofs.WindowAccount

/-! One buffer and a peer that sends it anything. `outgoings` books a chunk from the moment it
is queued, so an acknowledgement that comes before the chunk has left takes its size out of a
window it was never added to. Where no such acknowledgement comes, nothing the peer sends can
spoil the window. -/

namespace Dllm

open ConnectionChunk

variable {C A : UInt64}

inductive BufferEvent where
  | push (frame : List UInt8)
  | send
  | received (msg : List UInt8)
  | recv
deriving DecidableEq, Repr

/-- A buffer and, for the observer, the data chunks that `pop_send` has emitted and that no
acknowledgement has settled. -/
structure Tally (C A : UInt64) where
  buf : ConnectionBuffer C A := {}
  air : List ConnectionChunk := []

/-- The acknowledgement of a booked chunk settles one that was sent under its name and size. -/
def ConnectionBuffer.settle (b : ConnectionBuffer C A) (air : List ConnectionChunk) (msg : List UInt8) :
    List ConnectionChunk :=
  match deserialize msg with
  | some (.chunkAck f i _) =>
    match b.outSize (f, i) with
    | some size => air.eraseP fun c => c.key = (f, i) ∧ c.inAirSize = size
    | none => air
  | _ => air

inductive TallyStep : Tally C A → BufferEvent → Tally C A → Prop
  | push (s : Tally C A) (frame : List UInt8) (b : ConnectionBuffer C A)
      (hb : s.buf.pushFrame frame = .ok b) : TallyStep s (.push frame) ⟨b, s.air⟩
  | send (s : Tally C A) (c : ConnectionChunk) (b : ConnectionBuffer C A)
      (hc : (s.buf.highPriority ++ s.buf.lowPriority).head? = some c)
      (hb : s.buf.popSend = some (c.serialize, b)) : TallyStep s .send ⟨b, s.air ++ dataOf [c]⟩
  | received (s : Tally C A) (msg : List UInt8) :
      TallyStep s (.received msg) ⟨(s.buf.onReceived msg).getD s.buf, s.buf.settle s.air msg⟩
  | recv (s : Tally C A) (frame : List UInt8) (b : ConnectionBuffer C A)
      (hb : s.buf.popRecv = some (frame, b)) : TallyStep s .recv ⟨b, s.air⟩

/-- An acknowledgement that finds its chunk booked does not find it waiting in a queue; and
the sum that `pop_send` compares with the limit does not overflow. -/
def Orderly (b : ConnectionBuffer C A) : BufferEvent → Prop
  | .received msg => ∀ f i n, deserialize msg = some (.chunkAck f i n) →
      b.outSize (f, i) ≠ none → (f, i) ∉ b.queued.map key
  | .send => ∀ c, (b.highPriority ++ b.lowPriority).head? = some c → c.inAirSize + b.inAirSize < 2 ^ 64
  | _ => True

def OrderlyStep (s : Tally C A) (e : BufferEvent) (s' : Tally C A) : Prop :=
  Orderly s.buf e ∧ TallyStep s e s'

/-- What the bytes `msg` may do to a window: a data chunk leaves it alone; an acknowledgement
takes out, without underflow, the size of a chunk that was sent and is not acknowledged, or
changes nothing at all; and so do bytes that are no chunk. -/
def Harmless (s : Tally C A) (msg : List UInt8) : Prop :=
  match deserialize msg with
  | some (.chunk ..) => ∃ b, s.buf.onReceived msg = some b ∧
      b.inAirSize = s.buf.inAirSize ∧ b.outgoings = s.buf.outgoings
  | some (.chunkAck f i _) =>
      s.buf.onReceived msg = some s.buf ∨
      ∃ c ∈ s.air, c.key = (f, i) ∧ s.buf.outSize (f, i) = some c.inAirSize ∧
        c.inAirSize ≤ s.buf.inAirSize ∧ ∃ outgoings,
          s.buf.onReceived msg =
            some { s.buf with inAirSize := s.buf.inAirSize - c.inAirSize, outgoings := outgoings }
  | none => s.buf.onReceived msg = none

/-- Every booked chunk is queued or in the air, the window is the size of what is in the air,
and within the limit. -/
structure Tally.Sound (s : Tally C A) : Prop where
  booked : ∀ k size, s.buf.outSize k = some size →
    ∃ c ∈ s.buf.queued ++ s.air, c.key = k ∧ c.inAirSize = size
  total : s.buf.inAirSize = (s.air.map inAirSize).sum
  limit : s.buf.inAirSize ≤ A.toNat

theorem Tally.Sound.init : ({} : Tally C A).Sound where
  booked := fun k size h => by cases h
  total := rfl
  limit := Nat.zero_le _

/-- A booked size is that of some chunk with the number, even if several have it. -/
theorem OutgoingFrame.mem_of_ofChunks {cs : List ConnectionChunk} (hdata : ∀ c ∈ cs, c.isAck = false)
    {i : UInt16} {size : ℕ} (h : (ofChunks cs).chunks[i]? = some size) :
    ∃ c ∈ cs, c.key.2 = i ∧ c.inAirSize = size := by
  induction cs using List.reverseRecOn with
  | nil => cases h
  | append_singleton cs last ih =>
    rw [ofChunks_snoc cs (hdata last (by simp)), Std.TreeMap.getElem?_insert] at h
    split at h
    case isTrue hi =>
      exact ⟨last, by simp, by simpa using hi, Option.some.inj h⟩
    case isFalse =>
      obtain ⟨c, hc, hkey⟩ := ih (fun c hc => hdata c (by simp [hc])) h
      exact ⟨c, by simp [hc], hkey⟩

theorem ConnectionBuffer.Sends.queued {b b' : ConnectionBuffer C A} {c : ConnectionChunk} (h : b.Sends c b') :
    b.queued = dataOf [c] ++ b'.queued := by
  cases h with
  | high high _ hhigh =>
    simp [ConnectionBuffer.queued, hhigh, ← List.append_assoc, ← dataOf_append]
  | low low _ hhigh hlow =>
    simp [ConnectionBuffer.queued, hhigh, hlow, ← dataOf_append]

namespace Tally.Sound

variable {s s' : Tally C A}

theorem push (h : s.Sound) {frame : List UInt8} {b : ConnectionBuffer C A}
    (hb : s.buf.pushFrame frame = .ok b) : Sound ⟨b, s.air⟩ := by
  have hseed : s.buf.frameIdSeed = .ofNat s.buf.frameIdSeed.toNat := UInt32.ofNat_toNat.symm
  obtain ⟨-, hout, hperm⟩ := pushFrame_books hseed hb
  have hair : b.inAirSize = s.buf.inAirSize := by
    rcases ConnectionBuffer.pushFrame_cases hb with ⟨-, rfl⟩ | ⟨-, -, rfl⟩ <;> rfl
  refine ⟨?_, hair.trans h.total, hair ▸ h.limit⟩
  intro k size hk
  simp only [ConnectionBuffer.outSize, hout] at hk
  by_cases hid : k.1 = s.buf.frameIdSeed
  · rw [hid, AList.lookup_insert] at hk
    obtain ⟨c, hc, hi, hsize⟩ :=
      OutgoingFrame.mem_of_ofChunks (fun c hc => (key_of_mem_frameChunks hc).1) hk
    have hkey : c.key = k :=
      Prod.ext ((key_of_mem_frameChunks hc).2.trans (hseed.symm.trans hid.symm)) hi
    refine ⟨c, List.mem_append_left _ (hperm.mem_iff.mp ?_), hkey, hsize⟩
    exact List.mem_append_right _ hc
  · rw [AList.lookup_insert_ne hid] at hk
    obtain ⟨c, hc, hkey⟩ := h.booked k size hk
    refine ⟨c, ?_, hkey⟩
    rcases List.mem_append.mp hc with hc | hc
    · exact List.mem_append_left _ (hperm.mem_iff.mp (List.mem_append_left _ hc))
    · exact List.mem_append_right _ hc

theorem send (h : s.Sound) {c : ConnectionChunk} {b : ConnectionBuffer C A}
    (hs : s.buf.Sends c b) (hfit : c.inAirSize + s.buf.inAirSize < 2 ^ 64) :
    Sound ⟨b, s.air ++ dataOf [c]⟩ := by
  have hqueued := hs.queued
  have hsum : ((dataOf [c]).map inAirSize).sum = c.inAirSize := by
    cases c <;> simp
  have hcomm : s.buf.inAirSize + c.inAirSize < 2 ^ 64 := by omega
  have hair : b.inAirSize = s.buf.inAirSize + c.inAirSize ∧ b.outgoings = s.buf.outgoings ∧
      s.buf.inAirSize + c.inAirSize ≤ A.toNat := by
    cases hs with
    | high high hle hhigh =>
      rw [wrapAdd_of_lt hfit] at hle
      exact ⟨wrapAdd_of_lt hcomm, rfl, by omega⟩
    | low low hle hhigh hlow =>
      rw [wrapAdd_of_lt hfit] at hle
      exact ⟨wrapAdd_of_lt hcomm, rfl, by omega⟩
  refine ⟨?_, ?_, ?_⟩
  · intro k size hk
    simp only [ConnectionBuffer.outSize, hair.2.1] at hk
    obtain ⟨d, hd, hkey⟩ := h.booked k size hk
    refine ⟨d, ?_, hkey⟩
    rw [hqueued] at hd
    simp only [List.mem_append] at hd ⊢
    tauto
  · simp only [List.map_append, List.sum_append, hsum]
    rw [hair.1, h.total]
  · exact hair.1 ▸ hair.2.2

/-- The chunk that an orderly acknowledgement is for, if it finds one booked. -/
theorem settles (h : s.Sound) {f : UInt32} {i : UInt16} {size : ℕ} (hk : s.buf.outSize (f, i) = some size)
    (hnot : (f, i) ∉ s.buf.queued.map key) : ∃ c ∈ s.air, c.key = (f, i) ∧ c.inAirSize = size := by
  obtain ⟨c, hc, hkey, hsize⟩ := h.booked _ _ hk
  rcases List.mem_append.mp hc with hc | hc
  · exact absurd (List.mem_map.mpr ⟨c, hc, hkey⟩) hnot
  · exact ⟨c, hc, hkey, hsize⟩

theorem inAirSize_le (h : s.Sound) {c : ConnectionChunk} (hc : c ∈ s.air) :
    c.inAirSize ≤ s.buf.inAirSize := by
  rw [h.total]
  exact List.single_le_sum (fun _ _ => Nat.zero_le _) _ (List.mem_map_of_mem hc)

/-- The acknowledgement of a chunk in the air. -/
theorem ack (h : s.Sound) {f : UInt32} {i : UInt16} {size : ℕ} (hk : s.buf.outSize (f, i) = some size)
    (hnot : (f, i) ∉ s.buf.queued.map key) :
    Sound ⟨s.buf.onAck f i, s.air.eraseP fun c => c.key = (f, i) ∧ c.inAirSize = size⟩ := by
  obtain ⟨c, hc, hkey⟩ := h.settles hk hnot
  obtain ⟨c, l, r, -, hp, hair, herase⟩ := List.exists_of_eraseP
    (p := fun c => decide (c.key = (f, i) ∧ c.inAirSize = size)) hc (by simpa using hkey)
  obtain ⟨hkey, hsize⟩ : c.key = (f, i) ∧ c.inAirSize = size := by simpa using hp
  have hle := h.inAirSize_le (c := c) (by simp [hair])
  obtain ⟨fr, -, -, hack⟩ := ConnectionBuffer.onAck_of_outSize hk
  rw [herase]
  refine ⟨?_, ?_, ?_⟩
  · intro k size' hk'
    rw [ConnectionBuffer.outSize_onAck hk] at hk'
    split at hk'
    · cases hk'
    · rename_i hne
      obtain ⟨d, hd, hdkey, hdsize⟩ := h.booked k size' hk'
      refine ⟨d, ?_, hdkey, hdsize⟩
      have hdc : d ≠ c := by
        rintro rfl
        exact hne (hdkey.symm.trans hkey)
      have hqueued : (s.buf.onAck f i).queued = s.buf.queued := by rw [hack]; rfl
      rw [hqueued]
      simp only [hair, List.mem_append, List.mem_cons, hdc, false_or] at hd ⊢
      exact hd
  · have htotal := h.total
    simp only [hair, List.map_append, List.map_cons, List.sum_append, List.sum_cons] at htotal ⊢
    rw [hack, ← hsize]
    simp only [wrapSub_of_le hle]
    omega
  · rw [hack, ← hsize]
    simp only [wrapSub_of_le hle]
    have := h.limit
    omega

theorem received (h : s.Sound) {msg : List UInt8} (horder : Orderly s.buf (.received msg)) :
    Sound ⟨(s.buf.onReceived msg).getD s.buf, s.buf.settle s.air msg⟩ := by
  unfold ConnectionBuffer.settle ConnectionBuffer.onReceived
  cases hd : deserialize msg with
  | none => exact h
  | some c =>
    cases c with
    | chunk f i n d =>
      have hqueued : (s.buf.onChunk f i n d).queued = s.buf.queued := by
        simp [ConnectionBuffer.queued]
      have hsize : (s.buf.onChunk f i n d).outSize = s.buf.outSize := by
        funext k
        simp [ConnectionBuffer.outSize]
      exact
        { booked := fun k size hk => by
            simp only [Option.map_some, Option.getD_some, hqueued, hsize] at hk ⊢
            exact h.booked k size hk
          total := by simpa using h.total
          limit := by simpa using h.limit }
    | chunkAck f i n =>
      cases hk : s.buf.outSize (f, i) with
      | none => simpa [ConnectionBuffer.onAck_of_not_booked hk, hk] using h
      | some size => simpa [hk] using h.ack hk (horder f i n hd (by simp [hk]))

/-- Every orderly step keeps the tally sound. -/
theorem step {e : BufferEvent} (h : s.Sound) (hs : OrderlyStep s e s') : s'.Sound := by
  obtain ⟨horder, hstep⟩ := hs
  cases hstep with
  | push frame b hb => exact h.push hb
  | send c b hc hb =>
    obtain ⟨c', -, hsends⟩ := ConnectionBuffer.popSend_cases hb
    obtain rfl : c' = c := Option.some.inj (hsends.head.symm.trans hc)
    exact h.send hsends (horder c' hc)
  | received msg => exact h.received horder
  | recv frame b hb =>
    obtain ⟨outs, -, rfl⟩ := ConnectionBuffer.popRecv_cases hb
    exact ⟨h.booked, h.total, h.limit⟩

end Tally.Sound

/-- What an orderly message does to a sound tally. -/
theorem Tally.Sound.harmless {s : Tally C A} (h : s.Sound) {msg : List UInt8}
    (horder : Orderly s.buf (.received msg)) : Harmless s msg := by
  unfold Harmless ConnectionBuffer.onReceived
  cases hd : deserialize msg with
  | none => rfl
  | some c =>
    cases c with
    | chunk f i n d => exact ⟨_, rfl, by simp, by simp⟩
    | chunkAck f i n =>
      cases hk : s.buf.outSize (f, i) with
      | none => exact .inl (by simp [ConnectionBuffer.onAck_of_not_booked hk])
      | some size =>
        obtain ⟨c, hc, hkey, rfl⟩ := h.settles hk (horder f i n hd (by simp [hk]))
        have hle := h.inAirSize_le hc
        obtain ⟨fr, -, -, hack⟩ := ConnectionBuffer.onAck_of_outSize hk
        refine .inr ⟨c, hc, hkey, hk, hle, (s.buf.onAck f i).outgoings, ?_⟩
        simp only [Option.map_some]
        rw [hack, wrapSub_of_le hle]

/-- An acknowledgement of a chunk that still waits does harm, unless another chunk of the same
name is in the air. -/
theorem Tally.Sound.orderly_of_harmless {s : Tally C A} (hnodup : ((s.buf.queued ++ s.air).map key).Nodup)
    {msg : List UInt8} (hharmless : Harmless s msg) : Orderly s.buf (.received msg) := by
  intro f i n hd hbooked hmem
  obtain ⟨size, hk⟩ := Option.ne_none_iff_exists'.mp hbooked
  unfold Harmless ConnectionBuffer.onReceived at hharmless
  simp only [hd, Option.map_some] at hharmless
  rcases hharmless with hsame | ⟨c, hc, hkey, -⟩
  · have hgone := ConnectionBuffer.outSize_onAck hk (f, i)
    rw [Option.some.inj hsame, hk, if_pos rfl] at hgone
    cases hgone
  · rw [List.map_append, List.nodup_append] at hnodup
    exact hnodup.2.2 _ hmem _ (List.mem_map_of_mem hc) hkey.symm

/-- Whatever a peer sends, as long as no acknowledgement is for a chunk that still waits: the
window is the size of what was sent and is not acknowledged, it stays within its limit, and a
message changes it only by the acknowledgement of such a chunk. Where no two chunks share a
name, that is the only harm a message can do. -/
theorem peer_keeps_window {C A : UInt64} {es : List BufferEvent} {s : Tally C A}
    (hrun : Run OrderlyStep {} es s) :
    s.buf.inAirSize ≤ A.toNat ∧ s.buf.inAirSize = (s.air.map inAirSize).sum ∧
      (∀ msg, Orderly s.buf (.received msg) → Harmless s msg) ∧
      (((s.buf.queued ++ s.air).map key).Nodup →
        ∀ msg, Harmless s msg → Orderly s.buf (.received msg)) := by
  have h : s.Sound := hrun.invariant .init fun a e b hs ha => ha.step hs
  exact ⟨h.limit, h.total, fun msg => h.harmless, fun hnodup msg => Tally.Sound.orderly_of_harmless hnodup⟩

/-- One chunk is sent and acknowledged. -/
theorem peer_keeps_window_one_chunk : ∃ s : Tally 4 100,
    Run OrderlyStep {} [.push [1], .send, .received (chunkAck 0 0 1).serialize] s ∧
      s.buf.inAirSize ≤ (100 : UInt64).toNat ∧ s.buf.inAirSize = (s.air.map inAirSize).sum ∧
      (∀ msg, Orderly s.buf (.received msg) → Harmless s msg) ∧
      (((s.buf.queued ++ s.air).map key).Nodup →
        ∀ msg, Harmless s msg → Orderly s.buf (.received msg)) := by
  have h0 : Run OrderlyStep ({} : Tally 4 100) [] _ := .nil
  have h1 := h0.snoc (e := BufferEvent.push [1]) ⟨trivial, .push _ [1] _ rfl⟩
  have h2 := h1.snoc (e := BufferEvent.send) ⟨fun c hc => by cases hc; decide, .send _ _ _ rfl rfl⟩
  have h3 := h2.snoc (e := BufferEvent.received (chunkAck 0 0 1).serialize)
    ⟨fun f i n hd hbooked hmem => absurd hmem (List.not_mem_nil), .received _ _⟩
  exact ⟨_, h3, peer_keeps_window h3⟩

/-- The acknowledgement of a chunk that is still queued: the window underflows. -/
theorem early_ack_underflows : ¬ ∀ (C A : UInt64) (es : List BufferEvent) (s : Tally C A),
    Run TallyStep {} es s → s.buf.inAirSize ≤ A.toNat ∧ ∀ msg, Harmless s msg := by
  intro h
  have h0 : Run TallyStep ({} : Tally 4 100) [] _ := .nil
  have h1 := h0.snoc (.push _ [1] _ rfl)
  have h2 := h1.snoc (.received _ (chunkAck 0 0 1).serialize)
  have hle := (h 4 100 _ _ h2).1
  exact absurd hle (by decide +kernel)

end Dllm
