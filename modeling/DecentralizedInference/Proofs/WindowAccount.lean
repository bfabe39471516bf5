import DecentralizedInference.Proofs.FlowControl
import DecentralizedInference.Proofs.FrameDelivery

/-! The window against the history of a link: `in_air_size` is the size of what a side has
sent and has no acknowledgement for, and `outgoings` holds what it has been given and has
no acknowledgement for. The history is kept in a ledger beside the buffers. -/

namespace Dllm

open ConnectionChunk

variable {C A : UInt64}

/-- Observer data: the data chunks that `pop_send` has returned on a side, and the chunks
whose acknowledgement the side has processed. -/
structure Ledger where
  popped : List ConnectionChunk
  acked : List ChunkKey

namespace Duplex

variable {σ σ' : Duplex C A} {e : DuplexEvent} {x : Side}

/-- What a step adds to the ledger of `x`. -/
def note (σ : Duplex C A) (x : Side) (l : Ledger) : DuplexEvent → Ledger
  | .send y =>
    if y = x then
      match ((σ.buf x).highPriority ++ (σ.buf x).lowPriority).head? with
      | some (.chunk f i n d) => { l with popped := l.popped ++ [.chunk f i n d] }
      | _ => l
    else l
  | .deliver y =>
    if y = x.peer then
      match (σ.chan y).head?.bind deserialize with
      | some (.chunkAck f i _) => { l with acked := l.acked ++ [(f, i)] }
      | _ => l
    else l
  | .push _ _ => l
  | .recv _ _ => l

/-- A link with the ledgers of both sides. -/
structure Logged (C A : UInt64) where
  link : Duplex C A
  ledger : Side → Ledger

def Logged.init : Logged C A := ⟨Duplex.init, fun _ => ⟨[], []⟩⟩

def LoggedStep (s : Logged C A) (e : DuplexEvent) (s' : Logged C A) : Prop :=
  Step s.link e s'.link ∧ s'.ledger = fun x => s.link.note x (s.ledger x) e

/-- Every message on the way is a chunk. -/
def Clean (σ : Duplex C A) : Prop := ∀ x, ∀ msg ∈ σ.chan x, deserialize msg ≠ none

theorem clean_step (hb : σ.Bounded) (h : Step σ e σ') (hc : σ.Clean) : σ'.Clean := by
  cases h with
  | push y f b hpush => exact hc
  | recv y f b hrecv => exact hc
  | send y msg b hsend =>
    obtain ⟨c, rfl, hsends⟩ := ConnectionBuffer.popSend_cases hsend
    have hround : deserialize c.serialize = some c :=
      deserialize_serialize c (lt_of_le_of_lt ((hb y).len c hsends.mem) C.toNat_lt)
    intro x msg hmsg
    by_cases hx : x = y
    · subst hx
      simp only [setChan, Function.update_self, List.mem_append, List.mem_singleton] at hmsg
      rcases hmsg with hmsg | rfl
      · exact hc x msg hmsg
      · simp [hround]
    · simp only [setChan, Function.update_of_ne hx] at hmsg
      exact hc x msg hmsg
  | deliver y msg rest hmsg =>
    intro x m hm
    by_cases hx : x = y
    · subst hx
      simp only [setChan, Function.update_self] at hm
      exact hc x m (by simp [hmsg, hm])
    · simp only [setChan, Function.update_of_ne hx] at hm
      exact hc x m hm

theorem clean_run {es : List DuplexEvent} (h : Run Step (init : Duplex C A) es σ) : σ.Clean := by
  induction h with
  | nil => exact fun x msg hmsg => by cases hmsg
  | snoc hrun hs ih => exact clean_step (bounded_run hrun) hs ih

theorem Clean.head (hc : σ.Clean) (y : Side) :
    (σ.chan y).head?.bind deserialize = (σ.wire y).head? := by
  unfold wire
  cases hchan : σ.chan y with
  | nil => rfl
  | cons msg rest =>
    obtain ⟨c, hd⟩ := Option.ne_none_iff_exists'.mp (hc y msg (by simp [hchan]))
    simp [hd]

/-- On a clean link an arrival takes the first chunk off the wire. -/
theorem Clean.no_junk (hc : σ.Clean) {y : Side} (h : Step σ (.deliver y) σ') : σ'.wire ≠ σ.wire := by
  cases h with
  | deliver _ msg rest hmsg =>
    obtain ⟨c, hd⟩ := Option.ne_none_iff_exists'.mp (hc y msg (by simp [hmsg]))
    intro heq
    have hy := congrArg List.length (congrFun heq y)
    rw [wire_setChan, Function.update_self] at hy
    simp [wire, hmsg, hd] at hy

end Duplex

/-- The chunks that a side was given with the frames `pushed`. -/
def Issued (C : UInt64) (pushed : List (List UInt8)) (c : ConnectionChunk) : Prop :=
  ∃ i f, pushed[i]? = some f ∧ c ∈ frameChunks C i f

theorem Issued.snoc {pushed : List (List UInt8)} {c : ConnectionChunk} (h : Issued C pushed c)
    (f : List UInt8) : Issued C (pushed ++ [f]) c := by
  obtain ⟨i, g, hi, hc⟩ := h
  refine ⟨i, g, ?_, hc⟩
  rw [List.getElem?_append_left (List.getElem?_eq_some_iff.mp hi).1]
  exact hi

theorem issued_snoc_iff {pushed : List (List UInt8)} {f : List UInt8} {c : ConnectionChunk} :
    Issued C (pushed ++ [f]) c ↔ Issued C pushed c ∨ c ∈ frameChunks C pushed.length f := by
  constructor
  · rintro ⟨i, g, hi, hc⟩
    rw [List.getElem?_append] at hi
    split_ifs at hi with hlt
    · exact .inl ⟨i, g, hi, hc⟩
    · have hi' : i = pushed.length := by
        have hlen := (List.getElem?_eq_some_iff.mp hi).1
        simp only [List.length_singleton] at hlen
        omega
      subst hi'
      simp only [Nat.sub_self, List.getElem?_cons_zero, Option.some.injEq] at hi
      exact .inr (hi ▸ hc)
  · rintro (hc | hc)
    · exact hc.snoc f
    · exact ⟨pushed.length, f, by simp, hc⟩

theorem key_of_mem_frameChunks {i : ℕ} {f : List UInt8} {c : ConnectionChunk}
    (hc : c ∈ frameChunks C i f) : c.isAck = false ∧ c.key.1 = .ofNat i := by
  unfold frameChunks at hc
  split_ifs at hc with hle
  · rw [List.mem_singleton.mp hc]
    exact ⟨rfl, rfl⟩
  · obtain ⟨d, j, -, -, rfl⟩ := mem_splitFrame hc
    exact ⟨rfl, rfl⟩

/-- The numbers of the chunks of one frame differ. -/
theorem frameChunks_nodup {i : ℕ} {f : List UInt8} (hlen : f.length ≤ 65535 * C.toNat) :
    ((frameChunks C i f).map fun c => c.key.2).Nodup := by
  unfold frameChunks
  split_ifs with hle
  · simp
  · have hpos : 0 < C.toNat := by
      by_contra h0
      simp only [Nat.not_lt, Nat.le_zero] at h0
      simp [h0] at hlen hle
      exact hle hlen
    exact splitFrame_nodup hpos (by omega)

/-- The buffer after a push, whichever queue the frame has gone to. -/
theorem pushFrame_books {tx tx' : ConnectionBuffer C A} {i : ℕ} {f : List UInt8}
    (hseed : tx.frameIdSeed = .ofNat i) (h : tx.pushFrame f = .ok tx') :
    tx'.frameIdSeed = tx.frameIdSeed + 1 ∧
      tx'.outgoings = tx.outgoings.insert tx.frameIdSeed (.ofChunks (frameChunks C i f)) ∧
      (tx.queued ++ frameChunks C i f).Perm tx'.queued := by
  unfold frameChunks
  rw [← hseed]
  rcases ConnectionBuffer.pushFrame_cases h with ⟨hle, rfl⟩ | ⟨hle, -, rfl⟩
  · rw [if_pos hle]
    refine ⟨rfl, rfl, ?_⟩
    simp only [ConnectionBuffer.queued, dataOf_append, dataOf_cons_chunk, dataOf_nil,
      List.append_assoc]
    exact List.perm_append_comm.append_left _
  · rw [if_neg (Nat.not_le.mpr hle)]
    exact ⟨rfl, rfl, by simp [ConnectionBuffer.queued]⟩

/-- What the ledger `l` of a sender says, when `air` are the chunks that are sent and not
acknowledged. -/
structure Tracked (pushed : List (List UInt8)) (tx : ConnectionBuffer C A) (air : List ChunkKey)
    (l : Ledger) : Prop where
  seed : tx.frameIdSeed = .ofNat pushed.length
  booked : ∀ c, Issued C pushed c →
    tx.outSize c.key = if c.key ∈ l.acked then none else some c.inAirSize
  issued : ∀ k, tx.outSize k ≠ none → ∃ c, Issued C pushed c ∧ c.key = k
  queued : ∀ c ∈ tx.queued, Issued C pushed c
  popped : ∀ c ∈ l.popped, Issued C pushed c
  settled : ∀ k ∈ l.acked, ∃ c, Issued C pushed c ∧ c.key = k
  air : (l.popped.map key).Perm (air ++ l.acked)

namespace Tracked

variable {pushed : List (List UInt8)} {tx tx' : ConnectionBuffer C A} {air air' : List ChunkKey}
  {l : Ledger} {c : ConnectionChunk} {f : UInt32} {i n : UInt16}

theorem perm (h : Tracked pushed tx air l) (hp : air.Perm air') : Tracked pushed tx air' l :=
  { h with air := h.air.trans (hp.append_right _) }

/-- Steps that leave the books and the queue of the sender alone. -/
theorem same (h : Tracked pushed tx air l) (hseed : tx'.frameIdSeed = tx.frameIdSeed)
    (hout : tx'.outgoings = tx.outgoings) (hq : tx'.queued = tx.queued) : Tracked pushed tx' air l := by
  have hsize : tx'.outSize = tx.outSize := by
    funext k
    unfold ConnectionBuffer.outSize
    rw [hout]
  exact ⟨hseed ▸ h.seed, hsize ▸ h.booked, hsize ▸ h.issued, hq ▸ h.queued, h.popped, h.settled, h.air⟩

/-- An id that has not been given out is not in use. -/
theorem fresh (h : Tracked pushed tx air l) (hlt : pushed.length < 2 ^ 32)
    (hun : ∀ id fr, tx.outgoings.lookup id = some fr → fr.chunks.isEmpty = false) :
    tx.outgoings.lookup tx.frameIdSeed = none := by
  by_contra hne
  obtain ⟨fr, hfr⟩ := Option.ne_none_iff_exists'.mp hne
  obtain ⟨j, hj⟩ := Std.TreeMap.isEmpty_eq_false_iff_exists_mem.mp (hun _ fr hfr)
  rw [Std.TreeMap.mem_iff_isSome_getElem?, Option.isSome_iff_ne_none] at hj
  have hlive : tx.outSize (tx.frameIdSeed, j) ≠ none := by
    simpa [ConnectionBuffer.outSize, hfr] using hj
  obtain ⟨c, ⟨i, g, hi, hc⟩, hkey⟩ := h.issued _ hlive
  have hid := (key_of_mem_frameChunks hc).2
  rw [hkey, h.seed] at hid
  have hi' := (List.getElem?_eq_some_iff.mp hi).1
  have hnat := congrArg UInt32.toNat hid
  simp only [UInt32.toNat_ofNat'] at hnat
  omega

/-- A frame that is pushed under a new id. -/
theorem push (h : Tracked pushed tx air l) (hlt : pushed.length < 2 ^ 32) {data : List UInt8}
    (hlen : data.length ≤ 65535 * C.toNat) (hpush : tx.pushFrame data = .ok tx') :
    Tracked (pushed ++ [data]) tx' air l := by
  obtain ⟨hseed, hout, hq⟩ := pushFrame_books h.seed hpush
  have hid : ∀ c ∈ frameChunks C pushed.length data, c.key.1 = tx.frameIdSeed := by
    intro c hc
    rw [(key_of_mem_frameChunks hc).2, h.seed]
  have hin : ∀ c ∈ frameChunks C pushed.length data, tx'.outSize c.key = some c.inAirSize := by
    intro c hc
    rw [ConnectionBuffer.outSize, hout, hid c hc, AList.lookup_insert]
    exact OutgoingFrame.ofChunks_of_mem (fun c hc => (key_of_mem_frameChunks hc).1)
      (frameChunks_nodup hlen) hc
  -- the chunks of the earlier frames have other ids
  have hold : ∀ c, Issued C pushed c → c.key.1 ≠ tx.frameIdSeed := by
    rintro c ⟨i, g, hi, hc⟩ heq
    rw [(key_of_mem_frameChunks hc).2, h.seed] at heq
    have hi' := (List.getElem?_eq_some_iff.mp hi).1
    have hnat := congrArg UInt32.toNat heq
    simp only [UInt32.toNat_ofNat'] at hnat
    omega
  have hother : ∀ k : ChunkKey, k.1 ≠ tx.frameIdSeed → tx'.outSize k = tx.outSize k := by
    intro k hk
    rw [ConnectionBuffer.outSize, ConnectionBuffer.outSize, hout, AList.lookup_insert_ne hk]
  refine ⟨?_, ?_, ?_, ?_, fun c hc => (h.popped c hc).snoc data, ?_, h.air⟩
  · rw [hseed, h.seed, List.length_append, List.length_singleton, UInt32.ofNat_add]
    rfl
  · intro c hc
    rcases issued_snoc_iff.mp hc with hc | hc
    · rw [hother _ (hold c hc), h.booked c hc]
    · rw [hin c hc, if_neg]
      intro hacked
      obtain ⟨c', hc', hkey⟩ := h.settled _ hacked
      exact hold c' hc' (hkey ▸ hid c hc)
  · intro k hk
    by_cases hid' : k.1 = tx.frameIdSeed
    · have hmem : ∃ c ∈ frameChunks C pushed.length data, c.key.2 = k.2 := by
        by_contra hno
        simp only [not_exists, not_and] at hno
        rw [ConnectionBuffer.outSize, hout, hid', AList.lookup_insert] at hk
        exact hk (OutgoingFrame.ofChunks_of_not_mem (fun c hc => (key_of_mem_frameChunks hc).1) hno)
      obtain ⟨c, hc, hkey⟩ := hmem
      exact ⟨c, issued_snoc_iff.mpr (.inr hc), Prod.ext ((hid c hc).trans hid'.symm) hkey⟩
    · rw [hother k hid'] at hk
      obtain ⟨c, hc, hkey⟩ := h.issued k hk
      exact ⟨c, hc.snoc data, hkey⟩
  · intro c hc
    apply issued_snoc_iff.mpr
    exact (List.mem_append.mp (hq.mem_iff.mpr hc)).imp_left (h.queued c)
  · intro k hk
    obtain ⟨c, hc, hkey⟩ := h.settled k hk
    exact ⟨c, hc.snoc data, hkey⟩

/-- A data chunk is popped. -/
theorem send (h : Tracked pushed tx air l) {d : List UInt8} (hs : tx.Sends (.chunk f i n d) tx') :
    Tracked pushed tx' ((f, i) :: air) { l with popped := l.popped ++ [.chunk f i n d] } := by
  have hq : tx.queued = .chunk f i n d :: tx'.queued := by
    cases hs with
    | high high _ hhigh => simp [ConnectionBuffer.queued, hhigh]
    | low low _ hhigh hlow => simp [ConnectionBuffer.queued, hhigh, hlow]
  have hsize : tx'.outSize = tx.outSize := by
    funext k
    unfold ConnectionBuffer.outSize
    cases hs <;> rfl
  have hseed : tx'.frameIdSeed = tx.frameIdSeed := by cases hs <;> rfl
  refine ⟨hseed ▸ h.seed, hsize ▸ h.booked, hsize ▸ h.issued, ?_, ?_, h.settled, ?_⟩
  · intro c hc
    exact h.queued c (by simp [hq, hc])
  · intro c hc
    rcases List.mem_append.mp hc with hc | hc
    · exact h.popped c hc
    · rw [List.mem_singleton.mp hc]
      exact h.queued _ (by simp [hq])
  · have hkeys : ((l.popped ++ [ConnectionChunk.chunk f i n d]).map key).Perm ((f, i) :: l.popped.map key) := by
      rw [List.map_append]
      exact List.perm_append_singleton _ _
    exact hkeys.trans (h.air.cons _)

/-- An acknowledgement of a chunk in the air is processed. -/
theorem ack (h : Tracked pushed tx ((f, i) :: air) l) (hlive : tx.outSize (f, i) ≠ none) :
    Tracked pushed (tx.onAck f i) air { l with acked := l.acked ++ [(f, i)] } := by
  obtain ⟨size, hsize⟩ := Option.ne_none_iff_exists'.mp hlive
  obtain ⟨fr, -, -, hack⟩ := ConnectionBuffer.onAck_of_outSize hsize
  have hbook := ConnectionBuffer.outSize_onAck hsize
  have hseed : (tx.onAck f i).frameIdSeed = tx.frameIdSeed := by rw [hack]
  have hq : (tx.onAck f i).queued = tx.queued := by
    rw [hack]
    rfl
  refine ⟨hseed ▸ h.seed, ?_, ?_, hq ▸ h.queued, h.popped, ?_, ?_⟩
  · intro c hc
    rw [hbook, h.booked c hc]
    by_cases hk : c.key = (f, i)
    · simp [hk]
    · simp [hk]
  · intro k hk
    rw [hbook] at hk
    split_ifs at hk with heq
    · exact absurd rfl hk
    · exact h.issued k hk
  · intro k hk
    rcases List.mem_append.mp hk with hk | hk
    · exact h.settled k hk
    · rw [List.mem_singleton.mp hk]
      exact h.issued _ hlive
  · have hmove : ((f, i) :: air ++ l.acked).Perm (air ++ (l.acked ++ [(f, i)])) := by
      rw [← List.append_assoc]
      exact (List.perm_append_singleton _ _).symm
    exact h.air.trans hmove

end Tracked

theorem pushes_append (x : Side) (es es' : List DuplexEvent) :
    pushes x (es ++ es') = pushes x es ++ pushes x es' := List.filterMap_append

namespace Duplex

variable {σ σ' : Duplex C A} {e : DuplexEvent} {x : Side} {es : List DuplexEvent}

/-- The chunks of `x` that are sent and whose acknowledgement has not come back. -/
def airOf (σ : Duplex C A) (x : Side) : List ChunkKey :=
  (dataOf (σ.wire x)).map key ++ (acksOf (σ.buf x.peer).highPriority ++ acksOf (σ.wire x.peer))

/-- What is in the air is booked. -/
theorem Account.live (hx : σ.Account x) {k : ChunkKey} (hk : k ∈ σ.airOf x) :
    (σ.buf x).outSize k ≠ none :=
  (hx.booked.booked k).mpr (List.mem_append_right _ hk)

/-- The limits that the ids of a link set: a frame has at most 65535 chunks, and there are
fewer than 2^32 frames on each side. -/
def InLimits (C : UInt64) (es : List DuplexEvent) : Prop :=
  ∀ x, (∀ f ∈ pushes x es, f.length ≤ 65535 * C.toNat) ∧ (pushes x es).length < 2 ^ 32

theorem InLimits.of_snoc (h : InLimits C (es ++ [e])) : InLimits C es := by
  intro x
  obtain ⟨hlen, hcount⟩ := h x
  rw [pushes_append] at hlen hcount
  refine ⟨fun f hf => hlen f (List.mem_append_left _ hf), ?_⟩
  rw [List.length_append] at hcount
  omega

theorem InLimits.of_push {f : List UInt8} (h : InLimits C (es ++ [.push x f])) :
    f.length ≤ 65535 * C.toNat :=
  (h x).1 f (by rw [mem_pushes]; simp)

theorem track_step {l : Ledger} (hb : σ.Bounded) (hclean : σ.Clean) (hacc : ∀ x, σ.Account x)
    (h : Step σ e σ') (hlim : InLimits C (es ++ [e]))
    (ht : Tracked (pushes x es) (σ.buf x) (σ.airOf x) l) :
    Tracked (pushes x (es ++ [e])) (σ'.buf x) (σ'.airOf x) (σ.note x l e) := by
  unfold airOf at ht ⊢
  rw [pushes_append]
  cases h.moves hb with
  | push y f b hpush hbuf hwire =>
    have hlen := hlim.of_push
    rcases x.eq_or_eq_peer y with rfl | rfl
    · simpa [hbuf, hwire, pushes, note] using ht.push (hlim.of_snoc y).2 hlen hpush
    · have hacks := ConnectionBuffer.acksOf_pushFrame hpush
      simpa [hbuf, hwire, hacks, pushes, note] using ht
  | send y c b hsend hbuf hwire =>
    have hhead := hsend.head
    cases c with
    | chunk f i n d =>
      rcases x.eq_or_eq_peer y with rfl | rfl
      · have hsent := ht.send hsend
        have hair : ((f, i) :: ((dataOf (σ.wire y)).map key ++ (acksOf (σ.buf y.peer).highPriority ++
            acksOf (σ.wire y.peer)))).Perm ((dataOf (σ.wire y)).map key ++ (f, i) ::
              (acksOf (σ.buf y.peer).highPriority ++ acksOf (σ.wire y.peer))) :=
          List.perm_middle.symm
        simpa [hbuf, hwire, pushes, note, hhead, key] using hsent.perm hair
      · have hacks := hsend.acksOf_chunk
        simpa [hbuf, hwire, hacks, pushes, note] using ht
    | chunkAck f i n =>
      rcases x.eq_or_eq_peer y with rfl | rfl
      · have hsame : Tracked (pushes y es) b _ l := ht.same (by cases hsend <;> rfl)
          (by cases hsend <;> rfl) (by
            cases hsend with
            | high high _ hhigh => simp [ConnectionBuffer.queued, hhigh]
            | low low _ hhigh hlow => simp [ConnectionBuffer.queued, hlow])
        simpa [hbuf, hwire, pushes, note, hhead] using hsame
      · cases hsend with
        | high high _ hhigh =>
          rw [hhigh, acksOf_cons_chunkAck] at ht
          have hair : ((f, i) :: acksOf high ++ acksOf (σ.wire x.peer)).Perm
              (acksOf high ++ (acksOf (σ.wire x.peer) ++ [(f, i)])) := by
            rw [← List.append_assoc]
            exact (List.perm_append_singleton _ _).symm
          simpa [hbuf, hwire, pushes, note] using ht.perm (hair.append_left _)
        | low low _ _ hlow =>
          have hdata := (hb x.peer).low (.chunkAck f i n) (by simp [hlow])
          cases hdata
  | chunk y f i n d rest hw hbuf hwire =>
    have hhead : (σ.chan y).head?.bind deserialize = some (.chunk f i n d) := by
      rw [hclean.head, hw]
      rfl
    rcases x.eq_or_eq_peer y with rfl | rfl
    · rw [hw, dataOf_cons_chunk] at ht
      have hair : ((f, i) :: ((dataOf rest).map key ++ (acksOf (σ.buf y.peer).highPriority ++
          acksOf (σ.wire y.peer)))).Perm ((dataOf rest).map key ++
            (acksOf (σ.buf y.peer).highPriority ++ ((f, i) :: acksOf (σ.wire y.peer)))) := by
        rw [← List.append_assoc, ← List.append_assoc]
        exact List.perm_middle.symm
      simpa [hbuf, hwire, pushes, note] using ht.perm hair
    · rw [hw, acksOf_cons_chunk] at ht
      have hsame : Tracked (pushes x es) ((σ.buf x).onChunk f i n d) _ l :=
        ht.same (by simp) (by simp) (by simp [ConnectionBuffer.queued])
      simpa [hbuf, hwire, pushes, note, hhead] using hsame
  | ack y f i n rest hw hbuf hwire =>
    have hhead : (σ.chan y).head?.bind deserialize = some (.chunkAck f i n) := by
      rw [hclean.head, hw]
      rfl
    rcases x.eq_or_eq_peer y with rfl | rfl
    · rw [hw, dataOf_cons_chunkAck] at ht
      obtain ⟨out, air, hack⟩ := ConnectionBuffer.onAck_eq (b := σ.buf y.peer) f i
      simpa [hbuf, hwire, hack, pushes, note] using ht
    · have hlive : (σ.buf x).outSize (f, i) ≠ none := (hacc x).live (by simp [airOf, hw])
      rw [hw, acksOf_cons_chunkAck] at ht
      have hair : ((dataOf (σ.wire x)).map key ++ (acksOf (σ.buf x.peer).highPriority ++
          (f, i) :: acksOf rest)).Perm ((f, i) :: ((dataOf (σ.wire x)).map key ++
            (acksOf (σ.buf x.peer).highPriority ++ acksOf rest))) := by
        rw [← List.append_assoc, ← List.append_assoc]
        exact List.perm_middle
      simpa [hbuf, hwire, pushes, note, hhead] using (ht.perm hair).ack hlive
  | junk y hbuf hwire => exact absurd hwire (hclean.no_junk h)
  | recv y f b hrecv hbuf hwire =>
    obtain ⟨outs, -, rfl⟩ := ConnectionBuffer.popRecv_cases hrecv
    rcases x.eq_or_eq_peer y with rfl | rfl
    · have hsame : Tracked (pushes y es) { σ.buf y with outs } _ l := ht.same rfl rfl rfl
      simpa [hbuf, hwire, pushes, note] using hsame
    · simpa [hbuf, hwire, pushes, note] using ht

/-- Within the limits no counter of a link runs over. -/
theorem sane_of_track (hfit : A.toNat + C.toNat + 20 < 2 ^ 64) (hb : σ.Bounded)
    (hacc : ∀ x, σ.Account x) (hlim : InLimits C (es ++ [e])) {ledger : Side → Ledger}
    (ht : ∀ x, Tracked (pushes x es) (σ.buf x) (σ.airOf x) (ledger x)) : σ.Sane e := by
  cases e with
  | push y f =>
    have hlen := hlim.of_push
    exact ⟨by omega, (ht y).fresh (hlim.of_snoc y).2 (hacc y).unfinished⟩
  | send y =>
    intro c hc
    have hmem := List.mem_of_mem_head? hc
    have hsize := c.inAirSize_le
    have hlen := (hb y).len c hmem
    have hwin := (hacc y).window
    omega
  | deliver y => trivial
  | recv y f => trivial

/-- Every run of a link has its ledgers, and they are right. -/
theorem track_run (hfit : A.toNat + C.toNat + 20 < 2 ^ 64) (hrun : Run Step (init : Duplex C A) es σ)
    (hlim : InLimits C es) : ∃ ledger, Run LoggedStep Logged.init es ⟨σ, ledger⟩ ∧
      (∀ x, σ.Account x) ∧ ∀ x, Tracked (pushes x es) (σ.buf x) (σ.airOf x) (ledger x) := by
  induction hrun with
  | nil =>
    refine ⟨fun _ => ⟨[], []⟩, .nil, account_init, fun x => ⟨rfl, ?_, ?_, ?_, ?_, ?_, ?_⟩⟩
    · rintro c ⟨i, f, hi, -⟩
      cases hi
    · exact fun k hk => absurd rfl hk
    · intro c hc
      cases hc
    · intro c hc
      cases hc
    · intro k hk
      cases hk
    · exact List.Perm.refl _
  | @snoc es τ τ' e hrun hs ih =>
    obtain ⟨ledger, hlog, hacc, ht⟩ := ih hlim.of_snoc
    have hb := bounded_run hrun
    refine ⟨fun x => τ.note x (ledger x) e, hlog.snoc ⟨hs, rfl⟩, ?_, ?_⟩
    · exact account_step hb (sane_of_track hfit hb hacc hlim ht) hs hacc
    · exact fun x => track_step hb (clean_run hrun) hacc hs hlim (ht x)

/-- The window of a side is exact: its size is that of the data chunks that were popped and
are not acknowledged, and within the limit; an acknowledgement that arrives next finds its
chunk, and a size that can be taken off; and a frame is out of `outgoings` when and only
when all its chunks are acknowledged. -/
structure Exact (es : List DuplexEvent) (σ : Duplex C A) (x : Side) (l : Ledger) : Prop where
  total : (σ.buf x).inAirSize =
    ((l.popped.filter fun c => c.key ∉ l.acked).map fun c => c.serialize.length).sum
  window : (σ.buf x).inAirSize ≤ A.toNat
  found : ∀ msg ∈ (σ.chan x.peer).head?, ∀ f i n, deserialize msg = some (.chunkAck f i n) →
    ∃ fr size, (σ.buf x).outgoings.lookup f = some fr ∧ fr.chunks[i]? = some size ∧
      size ≤ (σ.buf x).inAirSize
  leaves : ∀ i f, (pushes x es)[i]? = some f →
    ((σ.buf x).outgoings.lookup (.ofNat i) = none ↔ ∀ c ∈ frameChunks C i f, c.key ∈ l.acked)

theorem total_of_track {l : Ledger} (hacc : σ.Account x)
    (ht : Tracked (pushes x es) (σ.buf x) (σ.airOf x) l) : (σ.buf x).inAirSize =
      ((l.popped.filter fun c => c.key ∉ l.acked).map fun c => c.serialize.length).sum := by
  -- what is in the air is live, so not acknowledged
  have hdisj : ∀ k ∈ σ.airOf x, k ∉ l.acked := by
    intro k hk hacked
    obtain ⟨c, hc, rfl⟩ := ht.settled k hacked
    apply hacc.live hk
    rw [ht.booked c hc, if_pos hacked]
  have hair : ((l.popped.filter fun c => c.key ∉ l.acked).map key).Perm (σ.airOf x) := by
    have hkept : (σ.airOf x).filter (fun k => decide (k ∉ l.acked)) = σ.airOf x :=
      List.filter_eq_self.mpr fun k hk => decide_eq_true (hdisj k hk)
    have hgone : l.acked.filter (fun k => decide (k ∉ l.acked)) = [] :=
      List.filter_eq_nil_iff.mpr fun k hk => by simp [hk]
    have hfilter := ht.air.filter fun k => decide (k ∉ l.acked)
    rw [List.filter_map, List.filter_append, hkept, hgone, List.append_nil] at hfilter
    exact hfilter
  have hsizes : (l.popped.filter fun c => c.key ∉ l.acked).map (fun c => c.serialize.length) =
      ((l.popped.filter fun c => c.key ∉ l.acked).map key).map
        fun k => ((σ.buf x).outSize k).getD 0 := by
    rw [List.map_map]
    apply List.map_congr_left
    intro c hc
    obtain ⟨hc, hlive⟩ := List.mem_filter.mp hc
    have hissued := ht.popped c hc
    have hdata : c.inAirSize = c.serialize.length := by
      obtain ⟨i, f, -, hmem⟩ := hissued
      cases c with
      | chunk f i n d => rfl
      | chunkAck f i n => cases (key_of_mem_frameChunks hmem).1
    simp [ht.booked c hissued, of_decide_eq_true hlive, hdata]
  have htotal := hacc.booked.total
  change (σ.buf x).inAirSize = ((σ.airOf x).map _).sum at htotal
  rw [htotal, hsizes, (hair.map _).sum_eq]

theorem leaves_of_track {l : Ledger} (hacc : σ.Account x)
    (ht : Tracked (pushes x es) (σ.buf x) (σ.airOf x) l) (hcount : (pushes x es).length < 2 ^ 32)
    {i : ℕ} {f : List UInt8} (hi : (pushes x es)[i]? = some f) :
    (σ.buf x).outgoings.lookup (.ofNat i) = none ↔ ∀ c ∈ frameChunks C i f, c.key ∈ l.acked := by
  refine ⟨fun hnone c hc => ?_, fun hall => ?_⟩
  · have hbook := ht.booked c ⟨i, f, hi, hc⟩
    rw [ConnectionBuffer.outSize, (key_of_mem_frameChunks hc).2, hnone, Option.bind_none] at hbook
    by_contra hacked
    rw [if_neg hacked] at hbook
    cases hbook
  · by_contra hne
    obtain ⟨fr, hfr⟩ := Option.ne_none_iff_exists'.mp hne
    obtain ⟨j, hj⟩ := Std.TreeMap.isEmpty_eq_false_iff_exists_mem.mp (hacc.unfinished _ fr hfr)
    rw [Std.TreeMap.mem_iff_isSome_getElem?, Option.isSome_iff_ne_none] at hj
    have hlive : (σ.buf x).outSize (.ofNat i, j) ≠ none := by
      simpa [ConnectionBuffer.outSize, hfr] using hj
    obtain ⟨c, hissued, hkey⟩ := ht.issued _ hlive
    -- the chunk that is left is one of this frame, as ids are not used twice
    obtain ⟨i', f', hi', hc⟩ := id hissued
    have hid : i' = i := by
      have hid := (key_of_mem_frameChunks hc).2
      rw [hkey] at hid
      have hnat := congrArg UInt32.toNat hid
      have hlt := (List.getElem?_eq_some_iff.mp hi).1
      have hlt' := (List.getElem?_eq_some_iff.mp hi').1
      simp only [UInt32.toNat_ofNat'] at hnat
      omega
    subst hid
    rw [hi] at hi'
    cases hi'
    apply hlive
    rw [← hkey, ht.booked c hissued, if_pos (hall c hc)]

/-- In every state that two buffers on a reliable link can reach, the window of each side is
exact. The constants are such that the window cannot overflow `usize`. -/
theorem window_accounted (hfit : A.toNat + C.toNat + 20 < 2 ^ 64)
    (hrun : Run Step (init : Duplex C A) es σ) (hlim : InLimits C es) :
    ∃ ledger, Run LoggedStep Logged.init es ⟨σ, ledger⟩ ∧ ∀ x, σ.Exact es x (ledger x) := by
  obtain ⟨ledger, hlog, hacc, ht⟩ := track_run hfit hrun hlim
  refine ⟨ledger, hlog, fun x => ⟨total_of_track (hacc x) (ht x), (hacc x).window, ?_,
    fun i f hi => leaves_of_track (hacc x) (ht x) (hlim x).2 hi⟩⟩
  intro msg hmsg f i n hd
  have hwire : (σ.wire x.peer).head? = some (.chunkAck f i n) := by
    rw [← (clean_run hrun).head, Option.mem_def.mp hmsg, Option.bind_some, hd]
  obtain ⟨rest, hrest⟩ := List.head?_eq_some_iff.mp hwire
  have hair : (f, i) ∈ (dataOf (σ.wire x)).map key ++
      (acksOf (σ.buf x.peer).highPriority ++ acksOf (σ.wire x.peer)) := by simp [hrest]
  obtain ⟨size, hsize⟩ := Option.ne_none_iff_exists'.mp ((hacc x).live hair)
  obtain ⟨fr, hfr, hchunk, -⟩ := ConnectionBuffer.onAck_of_outSize hsize
  exact ⟨fr, size, hfr, hchunk, (hacc x).booked.le_used hair hsize⟩

/-- A frame of two chunks: both are sent, one is acknowledged. -/
theorem window_accounted_two_chunks : ∃ σ : Duplex 2 100,
    Run Step init [.push .a [1, 2, 3], .send .a, .send .a, .deliver .a, .send .b, .deliver .b] σ ∧
      ∃ ledger, Run LoggedStep Logged.init
        [.push .a [1, 2, 3], .send .a, .send .a, .deliver .a, .send .b, .deliver .b] ⟨σ, ledger⟩ ∧
      ∀ x, σ.Exact [.push .a [1, 2, 3], .send .a, .send .a, .deliver .a, .send .b, .deliver .b] x
        (ledger x) := by
  have h0 : Run Step (init : Duplex 2 100) [] _ := .nil
  have h1 := h0.snoc (.push _ .a [1, 2, 3] _ rfl)
  have h2 := h1.snoc (.send _ .a _ _ rfl)
  have h3 := h2.snoc (.send _ .a _ _ rfl)
  have h4 := h3.snoc (.deliver _ .a _ _ rfl)
  have h5 := h4.snoc (.send _ .b _ _ rfl)
  have h6 := h5.snoc (.deliver _ .b _ _ rfl)
  refine ⟨_, h6, window_accounted (by decide) h6 ?_⟩
  intro x
  cases x <;> decide

end Duplex
end Dllm
