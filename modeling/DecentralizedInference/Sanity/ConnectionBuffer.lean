import DecentralizedInference.Spec.ConnectionBuffer

/-! What the operations of a buffer do to its queues, and the messages of a channel
read as chunks. -/

namespace Dllm

namespace ConnectionChunk

def isAck : ConnectionChunk → Bool
  | chunk .. => false
  | chunkAck .. => true

/-- The length of the carried data. -/
def dataLen : ConnectionChunk → ℕ
  | chunk _ _ _ data => data.length
  | chunkAck .. => 0

@[simp] theorem inAirSize_chunk (f : UInt32) (i n : UInt16) (data : List UInt8) :
    (chunk f i n data).inAirSize = 20 + data.length := by
  simp only [inAirSize, serialize, List.length_append, leBytes_length]
  omega

@[simp] theorem inAirSize_chunkAck (f : UInt32) (i n : UInt16) :
    (chunkAck f i n).inAirSize = 0 := rfl

theorem inAirSize_le (c : ConnectionChunk) : c.inAirSize ≤ 20 + c.dataLen := by
  cases c with
  | chunk f i n data => simp [dataLen]
  | chunkAck f i n => simp

/-- A chunk whose data a machine can hold comes back as it was sent. -/
theorem deserialize_serialize (c : ConnectionChunk) (h : c.dataLen < 2 ^ 64) :
    deserialize c.serialize = some c := by
  cases c with
  | chunk f i n data =>
    have hlen : data.length % 256 ^ 8 = data.length := Nat.mod_eq_of_lt (by simpa [dataLen] using h)
    have hf : f.toNat % 256 ^ 4 = f.toNat := Nat.mod_eq_of_lt f.toNat_lt
    have hi : i.toNat % 256 ^ 2 = i.toNat := Nat.mod_eq_of_lt i.toNat_lt
    have hn : n.toNat % 256 ^ 2 = n.toNat := Nat.mod_eq_of_lt n.toNat_lt
    simp only [deserialize, serialize, readLE_leBytes, hlen, hf, hi, hn, bind, Option.bind,
      Nat.zero_mod]
    simp
  | chunkAck f i n =>
    have hf : f.toNat % 256 ^ 4 = f.toNat := Nat.mod_eq_of_lt f.toNat_lt
    have hi : i.toNat % 256 ^ 2 = i.toNat := Nat.mod_eq_of_lt i.toNat_lt
    have hn : n.toNat % 256 ^ 2 = n.toNat := Nat.mod_eq_of_lt n.toNat_lt
    have hend := readLE_leBytes 2 n.toNat []
    rw [List.append_nil, hn] at hend
    have hone : 1 % 256 ^ 4 = 1 := rfl
    simp only [deserialize, serialize, readLE_leBytes, hf, hi, hend, hone, bind, Option.bind]
    simp

end ConnectionChunk

open ConnectionChunk

/-- The chunks of the `i`-th frame pushed on a side. -/
def frameChunks (CHUNK_SIZE : UInt64) (i : ℕ) (data : List UInt8) : List ConnectionChunk :=
  if data.length ≤ CHUNK_SIZE.toNat then [.chunk (.ofNat i) 0 1 data]
  else splitFrame CHUNK_SIZE (.ofNat i) data

theorem mem_splitFrame {C : UInt64} {f : UInt32} {data : List UInt8} {c : ConnectionChunk}
    (h : c ∈ splitFrame C f data) :
    ∃ d i, d ∈ data.chunks C.toNat ∧ i < (data.chunks C.toNat).length ∧
      c = .chunk f (.ofNat i) (.ofNat (data.chunks C.toNat).length) d := by
  obtain ⟨⟨d, i⟩, hmem, rfl⟩ := List.mem_map.mp h
  obtain ⟨hi, hd⟩ := List.mem_zipIdx' hmem
  exact ⟨d, i, List.mem_of_getElem hd.symm, hi, rfl⟩

theorem splitFrame_length (C : UInt64) (f : UInt32) (data : List UInt8) :
    (splitFrame C f data).length = (data.chunks C.toNat).length := by
  simp [splitFrame]

/-- The data chunks of a list. -/
def dataOf (cs : List ConnectionChunk) : List ConnectionChunk := cs.filter fun c => !c.isAck

@[simp] theorem dataOf_append (cs cs' : List ConnectionChunk) :
    dataOf (cs ++ cs') = dataOf cs ++ dataOf cs' := List.filter_append ..

@[simp] theorem dataOf_nil : dataOf [] = [] := rfl

@[simp] theorem dataOf_cons_chunk (f : UInt32) (i n : UInt16) (d : List UInt8)
    (cs : List ConnectionChunk) : dataOf (.chunk f i n d :: cs) = .chunk f i n d :: dataOf cs := rfl

@[simp] theorem dataOf_cons_chunkAck (f : UInt32) (i n : UInt16) (cs : List ConnectionChunk) :
    dataOf (.chunkAck f i n :: cs) = dataOf cs := rfl

@[simp] theorem dataOf_splitFrame (C : UInt64) (f : UInt32) (data : List UInt8) :
    dataOf (splitFrame C f data) = splitFrame C f data := by
  apply List.filter_eq_self.mpr
  intro c hc
  obtain ⟨d, i, -, -, rfl⟩ := mem_splitFrame hc
  rfl

namespace ConnectionBuffer

variable {C A : UInt64} {b b' : ConnectionBuffer C A}

theorem pushFrame_cases {f : List UInt8} (h : b.pushFrame f = .ok b') :
    (f.length ≤ C.toNat ∧ b' = { b with
      frameIdSeed := b.frameIdSeed + 1
      outgoings := b.outgoings.insert b.frameIdSeed (.ofChunks [.chunk b.frameIdSeed 0 1 f])
      highPriority := b.highPriority ++ [.chunk b.frameIdSeed 0 1 f] }) ∨
    (C.toNat < f.length ∧ 0 < C.toNat ∧ b' = { b with
      frameIdSeed := b.frameIdSeed + 1
      outgoings := b.outgoings.insert b.frameIdSeed (.ofChunks (splitFrame C b.frameIdSeed f))
      lowPriority := b.lowPriority ++ splitFrame C b.frameIdSeed f }) := by
  simp only [pushFrame] at h
  split at h
  case isTrue hle => exact .inl ⟨hle, (Except.ok.inj h).symm⟩
  case isFalse hle =>
    split at h
    case isTrue => cases h
    case isFalse hC =>
      have hpos : 0 < C.toNat := Nat.pos_of_ne_zero fun h0 => hC (UInt64.toNat_inj.mp h0)
      exact .inr ⟨Nat.lt_of_not_le hle, hpos, (Except.ok.inj h).symm⟩

/-- How the chunk `c` leaves a buffer: from the front of the first queue that has one,
if it fits the window. -/
inductive Sends (b : ConnectionBuffer C A) (c : ConnectionChunk) : ConnectionBuffer C A → Prop
  | high (high : List ConnectionChunk) (hfit : wrapAdd 64 c.inAirSize b.inAirSize ≤ A.toNat)
      (hhigh : b.highPriority = c :: high) :
      Sends b c { b with
        highPriority := high, inAirSize := wrapAdd 64 b.inAirSize c.inAirSize }
  | low (low : List ConnectionChunk) (hfit : wrapAdd 64 c.inAirSize b.inAirSize ≤ A.toNat)
      (hhigh : b.highPriority = []) (hlow : b.lowPriority = c :: low) :
      Sends b c { b with
        lowPriority := low, inAirSize := wrapAdd 64 b.inAirSize c.inAirSize }

theorem popSend_cases {msg : List UInt8} (h : b.popSend = some (msg, b')) :
    ∃ c, msg = c.serialize ∧ b.Sends c b' := by
  simp only [popSend, popFront] at h
  split at h
  case h_1 c high hhigh =>
    simp only [bind, Option.bind] at h
    split at h
    case isTrue hfit =>
      cases h
      exact ⟨c, rfl, .high high hfit hhigh⟩
    case isFalse => cases h
  case h_2 c low hhigh hlow =>
    simp only [bind, Option.bind] at h
    split at h
    case isTrue hfit =>
      cases h
      exact ⟨c, rfl, .low low hfit hhigh hlow⟩
    case isFalse => cases h
  case h_3 => cases h

theorem Sends.head {c : ConnectionChunk} (h : b.Sends c b') :
    (b.highPriority ++ b.lowPriority).head? = some c := by
  cases h with
  | high high _ hhigh => simp [hhigh]
  | low low _ hhigh hlow => simp [hhigh, hlow]

theorem Sends.mem {c : ConnectionChunk} (h : b.Sends c b') :
    c ∈ b.highPriority ++ b.lowPriority := by
  cases h with
  | high high _ hhigh => simp [hhigh]
  | low low _ _ hlow => simp [hlow]

/-- Nothing goes out only if nothing is queued or the next chunk does not fit. -/
theorem popSend_eq_none (h : b.popSend = none) :
    (b.highPriority = [] ∧ b.lowPriority = []) ∨
      ∃ c, A.toNat < wrapAdd 64 c.inAirSize b.inAirSize ∧
        (b.highPriority.head? = some c ∨ b.highPriority = [] ∧ b.lowPriority.head? = some c) := by
  simp only [popSend, popFront] at h
  split at h
  case h_1 c high hhigh =>
    simp only [bind, Option.bind, ite_eq_right_iff, reduceCtorEq, imp_false, Nat.not_le] at h
    exact .inr ⟨c, h, .inl (by simp [hhigh])⟩
  case h_2 c low hhigh hlow =>
    simp only [bind, Option.bind, ite_eq_right_iff, reduceCtorEq, imp_false, Nat.not_le] at h
    exact .inr ⟨c, h, .inr ⟨hhigh, by simp [hlow]⟩⟩
  case h_3 hhigh hlow => exact .inl ⟨hhigh, hlow⟩

theorem popRecv_cases {f : List UInt8} (h : b.popRecv = some (f, b')) :
    ∃ outs, b.outs = f :: outs ∧ b' = { b with outs } := by
  simp only [popRecv] at h
  split at h
  · cases h
  · cases h
    exact ⟨_, by assumption, rfl⟩

@[simp] theorem onChunk_highPriority (f : UInt32) (i n : UInt16) (d : List UInt8) :
    (b.onChunk f i n d).highPriority = b.highPriority ++ [.chunkAck f i n] := by
  simp only [onChunk]
  split_ifs <;> rfl

@[simp] theorem onChunk_lowPriority (f : UInt32) (i n : UInt16) (d : List UInt8) :
    (b.onChunk f i n d).lowPriority = b.lowPriority := by
  simp only [onChunk]
  split_ifs <;> rfl

@[simp] theorem onChunk_outgoings (f : UInt32) (i n : UInt16) (d : List UInt8) :
    (b.onChunk f i n d).outgoings = b.outgoings := by
  simp only [onChunk]
  split_ifs <;> rfl

@[simp] theorem onChunk_inAirSize (f : UInt32) (i n : UInt16) (d : List UInt8) :
    (b.onChunk f i n d).inAirSize = b.inAirSize := by
  simp only [onChunk]
  split_ifs <;> rfl

@[simp] theorem onChunk_frameIdSeed (f : UInt32) (i n : UInt16) (d : List UInt8) :
    (b.onChunk f i n d).frameIdSeed = b.frameIdSeed := by
  simp only [onChunk]
  split_ifs <;> rfl

/-- An acknowledgement changes nothing but the window and the list of unfinished frames. -/
theorem onAck_eq (f : UInt32) (i : UInt16) :
    ∃ out air, b.onAck f i = { b with outgoings := out, inAirSize := air } := by
  simp only [onAck]
  split
  · exact ⟨b.outgoings, b.inAirSize, rfl⟩
  · split
    · exact ⟨b.outgoings, b.inAirSize, rfl⟩
    · exact ⟨_, _, rfl⟩

/-- A queued chunk carries at most `CHUNK_SIZE` bytes, and acknowledgements have high
priority. -/
structure Bounded (b : ConnectionBuffer C A) : Prop where
  len : ∀ c ∈ b.highPriority ++ b.lowPriority, c.dataLen ≤ C.toNat
  low : ∀ c ∈ b.lowPriority, c.isAck = false

theorem Bounded.push {f : List UInt8} (hb : b.Bounded) (h : b.pushFrame f = .ok b') : b'.Bounded := by
  rcases pushFrame_cases h with ⟨hle, rfl⟩ | ⟨-, -, rfl⟩
  · refine ⟨?_, hb.low⟩
    intro c hc
    simp only [List.mem_append, List.mem_singleton] at hc
    rcases hc with (hc | rfl) | hc
    · exact hb.len c (List.mem_append_left _ hc)
    · exact hle
    · exact hb.len c (List.mem_append_right _ hc)
  · refine ⟨?_, ?_⟩
    · intro c hc
      simp only [List.mem_append] at hc
      rcases hc with hc | hc | hc
      · exact hb.len c (List.mem_append_left _ hc)
      · exact hb.len c (List.mem_append_right _ hc)
      · obtain ⟨d, i, hd, -, rfl⟩ := mem_splitFrame hc
        exact List.length_of_mem_chunks hd
    · intro c hc
      rcases List.mem_append.mp hc with hc | hc
      · exact hb.low c hc
      · obtain ⟨d, i, -, -, rfl⟩ := mem_splitFrame hc
        rfl

theorem Bounded.send {c : ConnectionChunk} (hb : b.Bounded) (h : b.Sends c b') : b'.Bounded := by
  cases h with
  | high high _ hhigh =>
    refine ⟨fun c hc => hb.len c ?_, hb.low⟩
    rw [hhigh]
    exact List.mem_cons_of_mem _ hc
  | low low _ hhigh hlow =>
    refine ⟨fun c hc => hb.len c ?_, fun c hc => hb.low c ?_⟩
    · rcases List.mem_append.mp hc with hc | hc
      · exact List.mem_append_left _ hc
      · exact List.mem_append_right _ (hlow ▸ List.mem_cons_of_mem _ hc)
    · exact hlow ▸ List.mem_cons_of_mem _ hc

theorem Bounded.onChunk (hb : b.Bounded) (f : UInt32) (i n : UInt16) (d : List UInt8) :
    (b.onChunk f i n d).Bounded := by
  refine ⟨fun c hc => ?_, by simpa using hb.low⟩
  simp only [onChunk_highPriority, onChunk_lowPriority, List.mem_append, List.mem_singleton] at hc
  rcases hc with (hc | rfl) | hc
  · exact hb.len c (List.mem_append_left _ hc)
  · exact Nat.zero_le _
  · exact hb.len c (List.mem_append_right _ hc)

theorem Bounded.onAck (hb : b.Bounded) (f : UInt32) (i : UInt16) : (b.onAck f i).Bounded := by
  obtain ⟨out, air, hack⟩ := onAck_eq (b := b) f i
  rw [hack]
  exact ⟨hb.len, hb.low⟩

theorem Bounded.recv {f : List UInt8} (hb : b.Bounded) (h : b.popRecv = some (f, b')) :
    b'.Bounded := by
  obtain ⟨outs, -, rfl⟩ := popRecv_cases h
  exact ⟨hb.len, hb.low⟩

end ConnectionBuffer

@[simp] theorem Side.peer_peer (x : Side) : x.peer.peer = x := by cases x <;> rfl

@[simp] theorem Side.peer_ne (x : Side) : x.peer ≠ x := by cases x <;> decide

@[simp] theorem Side.ne_peer (x : Side) : x ≠ x.peer := by cases x <;> decide

theorem Side.eq_or_eq_peer (x y : Side) : y = x ∨ y = x.peer := by
  cases x <;> cases y <;> decide

namespace Duplex

variable {C A : UInt64} {σ σ' : Duplex C A} {e : DuplexEvent} {x : Side}

/-- The messages of a channel as the chunks they encode. -/
def wire (σ : Duplex C A) (x : Side) : List ConnectionChunk :=
  (σ.chan x).filterMap deserialize

@[simp] theorem setBuf_chan (x : Side) (b : ConnectionBuffer C A) :
    (σ.setBuf x b).chan = σ.chan := rfl

@[simp] theorem setChan_buf (x : Side) (msgs : List (List UInt8)) :
    (σ.setChan x msgs).buf = σ.buf := rfl

def Bounded (σ : Duplex C A) : Prop := ∀ x, (σ.buf x).Bounded

/-- What a step does, with the channels read as chunks. -/
inductive Moves (σ σ' : Duplex C A) : DuplexEvent → Prop
  | push (y : Side) (f : List UInt8) (b : ConnectionBuffer C A)
      (hb : (σ.buf y).pushFrame f = .ok b) (hbuf : σ'.buf = Function.update σ.buf y b)
      (hwire : σ'.wire = σ.wire) : Moves σ σ' (.push y f)
  | send (y : Side) (c : ConnectionChunk) (b : ConnectionBuffer C A)
      (hb : (σ.buf y).Sends c b) (hbuf : σ'.buf = Function.update σ.buf y b)
      (hwire : σ'.wire = Function.update σ.wire y (σ.wire y ++ [c])) : Moves σ σ' (.send y)
  | chunk (y : Side) (f : UInt32) (i n : UInt16) (d : List UInt8) (rest : List ConnectionChunk)
      (hw : σ.wire y = .chunk f i n d :: rest)
      (hbuf : σ'.buf = Function.update σ.buf y.peer ((σ.buf y.peer).onChunk f i n d))
      (hwire : σ'.wire = Function.update σ.wire y rest) : Moves σ σ' (.deliver y)
  | ack (y : Side) (f : UInt32) (i n : UInt16) (rest : List ConnectionChunk)
      (hw : σ.wire y = .chunkAck f i n :: rest)
      (hbuf : σ'.buf = Function.update σ.buf y.peer ((σ.buf y.peer).onAck f i))
      (hwire : σ'.wire = Function.update σ.wire y rest) : Moves σ σ' (.deliver y)
  | junk (y : Side) (hbuf : σ'.buf = σ.buf) (hwire : σ'.wire = σ.wire) : Moves σ σ' (.deliver y)
  | recv (y : Side) (f : List UInt8) (b : ConnectionBuffer C A)
      (hb : (σ.buf y).popRecv = some (f, b)) (hbuf : σ'.buf = Function.update σ.buf y b)
      (hwire : σ'.wire = σ.wire) : Moves σ σ' (.recv y f)

theorem wire_setChan (σ : Duplex C A) (y : Side) (msgs : List (List UInt8)) :
    (σ.setChan y msgs).wire = Function.update σ.wire y (msgs.filterMap deserialize) := by
  funext x
  by_cases hx : x = y
  · subst hx
    simp [wire, setChan]
  · simp [wire, setChan, hx]

theorem Step.moves (hb : σ.Bounded) (h : Step σ e σ') : Moves σ σ' e := by
  cases h with
  | push y f b hpush => exact .push y f b hpush rfl rfl
  | recv y f b hrecv => exact .recv y f b hrecv rfl rfl
  | send y msg b hsend =>
    obtain ⟨c, rfl, hsends⟩ := ConnectionBuffer.popSend_cases hsend
    have hround : deserialize c.serialize = some c :=
      deserialize_serialize c (lt_of_le_of_lt ((hb y).len c hsends.mem) C.toNat_lt)
    refine .send y c b hsends rfl ?_
    rw [wire_setChan, List.filterMap_append]
    simp [wire, hround]
    rfl
  | deliver y msg rest hmsg =>
    cases hd : deserialize msg with
    | none =>
      have hnone : (σ.buf y.peer).onReceived msg = none := by
        simp [ConnectionBuffer.onReceived, hd]
      rw [hnone, Option.getD_none]
      refine .junk y ?_ ?_
      · exact Function.update_eq_self _ _
      · rw [wire_setChan]
        have hw : rest.filterMap deserialize = σ.wire y := by simp [wire, hmsg, hd]
        rw [hw]
        exact Function.update_eq_self _ _
    | some c =>
      have hw : σ.wire y = c :: rest.filterMap deserialize := by simp [wire, hmsg, hd]
      cases c with
      | chunk f i n d =>
        refine .chunk y f i n d _ hw ?_ (wire_setChan _ y rest)
        simp [ConnectionBuffer.onReceived, hd, setBuf]
      | chunkAck f i n =>
        refine .ack y f i n _ hw ?_ (wire_setChan _ y rest)
        simp [ConnectionBuffer.onReceived, hd, setBuf]

theorem bounded_step (hb : σ.Bounded) (h : Step σ e σ') : σ'.Bounded := by
  -- a step touches the queues of one side only
  have hside : ∀ y b, σ'.buf = Function.update σ.buf y b → b.Bounded → σ'.Bounded := by
    intro y b hbuf hnew x
    rw [hbuf]
    by_cases hx : x = y
    · subst hx
      rwa [Function.update_self]
    · rw [Function.update_of_ne hx]
      exact hb x
  cases h.moves hb with
  | push y f b hpush hbuf _ => exact hside y b hbuf ((hb y).push hpush)
  | send y c b hsend hbuf _ => exact hside y b hbuf ((hb y).send hsend)
  | chunk y f i n d rest _ hbuf _ => exact hside y.peer _ hbuf ((hb y.peer).onChunk f i n d)
  | ack y f i n rest _ hbuf _ => exact hside y.peer _ hbuf ((hb y.peer).onAck f i)
  | junk y hbuf _ =>
    intro x
    rw [hbuf]
    exact hb x
  | recv y f b hrecv hbuf _ => exact hside y b hbuf ((hb y).recv hrecv)

theorem bounded_init : (init : Duplex C A).Bounded := by
  intro x
  exact ⟨by simp [init], by simp [init]⟩

theorem bounded_run {es : List DuplexEvent} (h : Run Step (init : Duplex C A) es σ) : σ.Bounded :=
  h.invariant bounded_init fun _ _ _ hs hb => bounded_step hb hs

end Duplex
end Dllm
