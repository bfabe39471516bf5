import DecentralizedInference.Sanity.SendWindow

/-! When two buffers can block each other. Acknowledgements wait in the
high-priority queue behind data chunks that the window holds back, and only
acknowledgements open the window of the other side: if both sides wait behind such
a chunk, the link stands still for ever. As long as no data chunk arrives in such a
state, the link comes to rest only when all is sent and acknowledged. -/

namespace Dllm

open ConnectionChunk

namespace Duplex

variable {C A : UInt64} {σ σ' : Duplex C A} {e : DuplexEvent} {x : Side}

/-- Both channels are empty and neither side has anything it may send. -/
def Stuck (σ : Duplex C A) : Prop := ∀ x, σ.chan x = [] ∧ (σ.buf x).popSend = none

/-- Everything is sent and acknowledged. -/
def Drained (σ : Duplex C A) : Prop := ∀ x, (σ.buf x).highPriority = [] ∧
  (σ.buf x).lowPriority = [] ∧ (σ.buf x).outgoings.entries = [] ∧ (σ.buf x).inAirSize = 0

/-- The high-priority queue from its first data chunk on. -/
def jam (σ : Duplex C A) (x : Side) : List ConnectionChunk :=
  (σ.buf x).highPriority.dropWhile isAck

/-- The part of the window of `x` that cannot become free before the peer has sent a
data chunk: what is in the channel, and what the peer would acknowledge after its
first data chunk. -/
def held (σ : Duplex C A) (x : Side) : ℕ :=
  ((dataOf (σ.wire x)).map inAirSize).sum +
    ((acksOf (σ.jam x.peer)).map fun k => ((σ.buf x).outSize k).getD 0).sum

/-- The first data chunk of the high-priority queue of `x` has to wait for the peer to
send a data chunk. -/
def ClosedIn (σ : Duplex C A) (x : Side) : Prop :=
  ∃ c ∈ (σ.jam x).head?, A.toNat < c.inAirSize + σ.held x

/-- Each side waits for the other to send a data chunk first. -/
def Gridlocked (σ : Duplex C A) : Prop := ∀ x, σ.ClosedIn x

/-- The counters of a step do not run over: a pushed frame has at most 65536 chunks
and an id that is not in use, and the window sum of a sent chunk fits its type. -/
def Sane (σ : Duplex C A) : DuplexEvent → Prop
  | .push x f => f.length ≤ 65536 * C.toNat ∧ (σ.buf x).outgoings.lookup (σ.buf x).frameIdSeed = none
  | .send x => ∀ c ∈ ((σ.buf x).highPriority ++ (σ.buf x).lowPriority).head?,
    c.inAirSize + (σ.buf x).inAirSize < 2 ^ 64
  | .deliver _ => True
  | .recv _ _ => True

/-- The step is no arrival of a data chunk while the sides wait for each other. -/
def Clear (σ : Duplex C A) (e : DuplexEvent) : Prop :=
  ∀ x, e = .deliver x → ∀ c ∈ (σ.wire x).head?, c.isAck = false → ¬ σ.Gridlocked

def SaneStep (σ : Duplex C A) (e : DuplexEvent) (σ' : Duplex C A) : Prop :=
  Step σ e σ' ∧ σ.Sane e

def ClearStep (σ : Duplex C A) (e : DuplexEvent) (σ' : Duplex C A) : Prop :=
  Step σ e σ' ∧ σ.Sane e ∧ σ.Clear e

/-- The books of the direction that starts at `x`. -/
def Account (σ : Duplex C A) (x : Side) : Prop :=
  Accounted (σ.buf x) (dataOf (σ.wire x)) (acksOf (σ.buf x.peer).highPriority ++ acksOf (σ.wire x.peer))

theorem account_step (hb : σ.Bounded) (hc : σ.Sane e) (h : Step σ e σ')
    (hacc : ∀ x, σ.Account x) : ∀ x, σ'.Account x := by
  intro x
  have hx := hacc x
  unfold Account at hx ⊢
  cases h.moves hb with
  | push y f b hpush hbuf hwire =>
    rcases x.eq_or_eq_peer y with rfl | rfl
    · simpa [hbuf, hwire] using hx.push hc.2 hc.1 hpush
    · have hacks := ConnectionBuffer.acksOf_pushFrame hpush
      simpa [hbuf, hwire, hacks] using hx
  | send y c b hsend hbuf hwire =>
    have hfit := hc c hsend.head
    cases c with
    | chunk f i n d =>
      rcases x.eq_or_eq_peer y with rfl | rfl
      · simpa [hbuf, hwire] using hx.send hsend hfit
      · have hacks := hsend.acksOf_chunk
        simpa [hbuf, hwire, hacks] using hx
    | chunkAck f i n =>
      rcases x.eq_or_eq_peer y with rfl | rfl
      · simpa [hbuf, hwire] using hx.send_ack hsend
      · cases hsend with
        | high high _ hhigh =>
          rw [hhigh, acksOf_cons_chunkAck] at hx
          have hmoved := hx.perm (List.perm_append_singleton (f, i)
            (acksOf high ++ acksOf (σ.wire x.peer))).symm
          simpa [hbuf, hwire] using hmoved
        | low low _ _ hlow =>
          have hdata := (hb x.peer).low (.chunkAck f i n) (by simp [hlow])
          cases hdata
  | chunk y f i n d rest hw hbuf hwire =>
    rcases x.eq_or_eq_peer y with rfl | rfl
    · rw [hw, dataOf_cons_chunk] at hx
      have hmid : (acksOf (σ.buf y.peer).highPriority ++ (f, i) :: acksOf (σ.wire y.peer)).Perm
          ((f, i) :: (acksOf (σ.buf y.peer).highPriority ++ acksOf (σ.wire y.peer))) :=
        List.perm_middle
      simpa [hbuf, hwire] using hx.arrive.perm hmid.symm
    · rw [hw, acksOf_cons_chunk] at hx
      simpa [hbuf, hwire] using hx.onChunk d
  | ack y f i n rest hw hbuf hwire =>
    rcases x.eq_or_eq_peer y with rfl | rfl
    · rw [hw, dataOf_cons_chunkAck] at hx
      obtain ⟨out, air, hack⟩ := ConnectionBuffer.onAck_eq (b := σ.buf y.peer) f i
      simpa [hbuf, hwire, hack] using hx
    · rw [hw, acksOf_cons_chunkAck] at hx
      simpa [hbuf, hwire] using (hx.perm List.perm_middle).ack
  | junk y hbuf hwire => simpa [hbuf, hwire] using hx
  | recv y f b hrecv hbuf hwire =>
    obtain ⟨outs, -, rfl⟩ := ConnectionBuffer.popRecv_cases hrecv
    rcases x.eq_or_eq_peer y with rfl | rfl
    · simpa [hbuf, hwire] using hx.recv outs
    · simpa [hbuf, hwire] using hx

theorem account_init (x : Side) : (init : Duplex C A).Account x where
  booked := Booked.empty
  sizes := by simp [init, ConnectionBuffer.queued, wire]
  unfinished := by simp [init]
  window := Nat.zero_le _

/-- A chunk that does not fit the window is a data chunk, and something of its side is
in the air. -/
theorem Account.of_blocked (hA : C.toNat + 20 ≤ A.toNat) (hb : σ.Bounded) (hx : σ.Account x)
    {c : ConnectionChunk} (hc : c ∈ (σ.buf x).highPriority ++ (σ.buf x).lowPriority)
    (hblocked : A.toNat < wrapAdd 64 c.inAirSize (σ.buf x).inAirSize) :
    c.isAck = false ∧ A.toNat < c.inAirSize + (σ.buf x).inAirSize ∧ (σ.buf x).inAirSize ≠ 0 := by
  have hle : wrapAdd 64 c.inAirSize (σ.buf x).inAirSize ≤ c.inAirSize + (σ.buf x).inAirSize :=
    Nat.mod_le _ _
  have hsize := c.inAirSize_le
  have hlen := (hb x).len c hc
  have hwin := hx.window
  refine ⟨?_, by omega, by omega⟩
  cases c with
  | chunk f i n d => rfl
  | chunkAck f i n =>
    rw [inAirSize_chunkAck] at hle hblocked
    omega

theorem Stuck.wire_eq_nil (hs : σ.Stuck) (x : Side) : σ.wire x = [] := by
  rw [wire, (hs x).1]
  rfl

theorem Stuck.inAirSize_eq (hacc : ∀ x, σ.Account x) (hs : σ.Stuck) (x : Side) :
    (σ.buf x).inAirSize =
      ((acksOf (σ.buf x.peer).highPriority).map fun k => ((σ.buf x).outSize k).getD 0).sum := by
  have htotal := (hacc x).booked.total
  rw [hs.wire_eq_nil, hs.wire_eq_nil] at htotal
  simpa using htotal

/-- In a state that stands still, a side with a queued chunk waits for acknowledgements
that the peer has queued. -/
theorem Stuck.waits (hA : C.toNat + 20 ≤ A.toNat) (hb : σ.Bounded) (hacc : ∀ x, σ.Account x)
    (hs : σ.Stuck) (x : Side) (hq : (σ.buf x).highPriority ++ (σ.buf x).lowPriority ≠ []) :
    (σ.buf x.peer).highPriority ≠ [] ∧
      ∃ c ∈ ((σ.buf x).highPriority ++ (σ.buf x).lowPriority).head?,
        c.isAck = false ∧ A.toNat < c.inAirSize + (σ.buf x).inAirSize := by
  rcases ConnectionBuffer.popSend_eq_none (hs x).2 with ⟨hhigh, hlow⟩ | ⟨c, hblocked, hhead⟩
  · simp [hhigh, hlow] at hq
  have hfirst : ((σ.buf x).highPriority ++ (σ.buf x).lowPriority).head? = some c := by
    rcases hhead with hhead | ⟨hnil, hhead⟩
    · rw [List.head?_append, hhead]
      rfl
    · rw [hnil, List.nil_append, hhead]
  obtain ⟨hdata, hlt, hair⟩ := (hacc x).of_blocked hA hb (List.mem_of_head? hfirst) hblocked
  refine ⟨?_, c, hfirst, hdata, hlt⟩
  intro hnil
  rw [hs.inAirSize_eq hacc, hnil] at hair
  exact hair rfl

theorem Stuck.jam_eq (hA : C.toNat + 20 ≤ A.toNat) (hb : σ.Bounded) (hacc : ∀ x, σ.Account x)
    (hs : σ.Stuck) (x : Side) (hhigh : (σ.buf x).highPriority ≠ []) :
    σ.jam x = (σ.buf x).highPriority := by
  obtain ⟨-, c, hfirst, hdata, -⟩ := hs.waits hA hb hacc x (by simp [hhigh])
  rw [jam]
  cases h : (σ.buf x).highPriority with
  | nil => rfl
  | cons c' high =>
    rw [h] at hfirst
    cases hfirst
    rw [List.dropWhile_cons_of_neg (by simp [hdata])]

/-- A state that stands still with something queued is a gridlock. -/
theorem Stuck.gridlocked (hA : C.toNat + 20 ≤ A.toNat) (hb : σ.Bounded) (hacc : ∀ x, σ.Account x)
    (hs : σ.Stuck) (y : Side) (hq : (σ.buf y).highPriority ++ (σ.buf y).lowPriority ≠ []) :
    σ.Gridlocked := by
  have hhigh : ∀ x, (σ.buf x).highPriority ≠ [] := by
    have hpeer := (hs.waits hA hb hacc y hq).1
    have hself := (hs.waits hA hb hacc y.peer (by simp [hpeer])).1
    rw [Side.peer_peer] at hself
    intro x
    rcases y.eq_or_eq_peer x with rfl | rfl
    · exact hself
    · exact hpeer
  intro x
  obtain ⟨-, c, hfirst, -, hlt⟩ := hs.waits hA hb hacc x (by simp [hhigh x])
  refine ⟨c, ?_, ?_⟩
  · rw [hs.jam_eq hA hb hacc x (hhigh x)]
    rwa [List.head?_append_of_ne_nil _ (hhigh x)] at hfirst
  · rw [held, hs.wire_eq_nil, hs.jam_eq hA hb hacc x.peer (hhigh x.peer), ← hs.inAirSize_eq hacc]
    simpa using hlt

theorem Stuck.drained (hA : C.toNat + 20 ≤ A.toNat) (hb : σ.Bounded) (hacc : ∀ x, σ.Account x)
    (hs : σ.Stuck) (hgrid : ¬ σ.Gridlocked) : σ.Drained := by
  have hempty : ∀ x, (σ.buf x).highPriority = [] ∧ (σ.buf x).lowPriority = [] := by
    intro x
    by_contra hne
    apply hgrid
    apply hs.gridlocked hA hb hacc x
    intro hnil
    exact hne (List.append_eq_nil_iff.mp hnil)
  intro x
  have hx := hacc x
  rw [Account, hs.wire_eq_nil, hs.wire_eq_nil, (hempty x.peer).1] at hx
  obtain ⟨hair, hout⟩ := hx.rest (by simp [ConnectionBuffer.queued, hempty x])
  exact ⟨(hempty x).1, (hempty x).2, hout, hair⟩

/-- Steps that change neither what stands in the jams nor the data on the way nor the
sizes of what waits for an acknowledgement keep a gridlock and make none. -/
theorem gridlocked_congr (hhead : ∀ x, (σ'.jam x).head? = (σ.jam x).head?)
    (hdata : ∀ x, dataOf (σ'.wire x) = dataOf (σ.wire x))
    (hacks : ∀ x, acksOf (σ'.jam x) = acksOf (σ.jam x))
    (hsize : ∀ x, ∀ k ∈ acksOf (σ.jam x.peer), (σ'.buf x).outSize k = (σ.buf x).outSize k) :
    σ'.Gridlocked ↔ σ.Gridlocked := by
  apply forall_congr'
  intro x
  have hsum : (acksOf (σ.jam x.peer)).map (fun k => ((σ'.buf x).outSize k).getD 0) =
      (acksOf (σ.jam x.peer)).map fun k => ((σ.buf x).outSize k).getD 0 :=
    List.map_congr_left fun k hk => by rw [hsize x k hk]
  simp only [ClosedIn, held, hhead, hdata, hacks, hsum]

theorem mem_acksOf_jam {k : ChunkKey} (h : k ∈ acksOf (σ.jam x)) :
    k ∈ acksOf (σ.buf x).highPriority := by
  obtain ⟨c, hc, rfl⟩ := List.mem_map.mp h
  obtain ⟨hc, hack⟩ := List.mem_filter.mp hc
  exact List.mem_map_of_mem (List.mem_filter.mpr ⟨(List.dropWhile_sublist _).subset hc, hack⟩)

/-- What waits for an acknowledgement is booked. -/
theorem Account.outSize_ne_none (hx : σ.Account x) {k : ChunkKey}
    (h : k ∈ acksOf (σ.buf x.peer).highPriority) : (σ.buf x).outSize k ≠ none := by
  rw [hx.booked.booked]
  simp [h]

/-- A new frame does not touch the booked sizes. -/
theorem outSize_push {b b' : ConnectionBuffer C A} {f : List UInt8} (h : b.pushFrame f = .ok b')
    (hfresh : b.outgoings.lookup b.frameIdSeed = none) {k : ChunkKey} (hk : b.outSize k ≠ none) :
    b'.outSize k = b.outSize k := by
  have hid : k.1 ≠ b.frameIdSeed := by
    intro heq
    rw [ConnectionBuffer.outSize, heq, hfresh] at hk
    exact hk rfl
  rcases ConnectionBuffer.pushFrame_cases h with ⟨-, rfl⟩ | ⟨-, -, rfl⟩
  · simp [ConnectionBuffer.outSize, AList.lookup_insert_ne hid]
  · simp [ConnectionBuffer.outSize, AList.lookup_insert_ne hid]

theorem gridlocked_push {y : Side} {f : List UInt8} {b : ConnectionBuffer C A}
    (hacc : ∀ x, σ.Account x) (hfresh : (σ.buf y).outgoings.lookup (σ.buf y).frameIdSeed = none)
    (hpush : (σ.buf y).pushFrame f = .ok b) (hbuf : σ'.buf = Function.update σ.buf y b)
    (hwire : σ'.wire = σ.wire) (hjam : σ.jam y ≠ []) : σ'.Gridlocked ↔ σ.Gridlocked := by
  have hold : ∀ x, x ≠ y → σ'.buf x = σ.buf x := fun x hx => by rw [hbuf, Function.update_of_ne hx]
  have hnew : σ'.buf y = b := by rw [hbuf, Function.update_self]
  -- the queue of the pushing side only grows behind its first data chunk
  have hmine : ∃ cs, dataOf cs = cs ∧ σ'.jam y = σ.jam y ++ cs := by
    rcases ConnectionBuffer.pushFrame_cases hpush with ⟨-, rfl⟩ | ⟨-, -, rfl⟩
    · refine ⟨[.chunk (σ.buf y).frameIdSeed 0 1 f], rfl, ?_⟩
      rw [jam, hnew, List.dropWhile_append, if_neg (by simpa [jam] using hjam)]
      rfl
    · refine ⟨[], rfl, ?_⟩
      rw [jam, hnew, List.append_nil]
      rfl
  obtain ⟨cs, hcs, hmine⟩ := hmine
  have hnoack : acksOf cs = [] := by
    rw [← hcs, acksOf, dataOf, List.filter_filter]
    simp
  apply gridlocked_congr
  · intro x
    by_cases hx : x = y
    · rw [hx, hmine, List.head?_append_of_ne_nil _ hjam]
    · rw [jam, jam, hold x hx]
  · intro x
    rw [hwire]
  · intro x
    by_cases hx : x = y
    · rw [hx, hmine, acksOf_append, hnoack, List.append_nil]
    · rw [jam, jam, hold x hx]
  · intro x k hk
    by_cases hx : x = y
    · subst hx
      rw [hnew]
      exact outSize_push hpush hfresh ((hacc x).outSize_ne_none (mem_acksOf_jam hk))
    · rw [hold x hx]

theorem gridlocked_send_ack {y : Side} {f : UInt32} {i n : UInt16} {b : ConnectionBuffer C A}
    (hb : σ.Bounded) (hsend : (σ.buf y).Sends (.chunkAck f i n) b)
    (hbuf : σ'.buf = Function.update σ.buf y b)
    (hwire : σ'.wire = Function.update σ.wire y (σ.wire y ++ [.chunkAck f i n])) :
    σ'.Gridlocked ↔ σ.Gridlocked := by
  have hold : ∀ x, x ≠ y → σ'.buf x = σ.buf x := fun x hx => by rw [hbuf, Function.update_of_ne hx]
  have hnew : σ'.buf y = b := by rw [hbuf, Function.update_self]
  have hjam : ∀ x, σ'.jam x = σ.jam x := by
    intro x
    by_cases hx : x = y
    · subst hx
      rw [jam, jam, hnew]
      cases hsend with
      | high high _ hhigh => rw [hhigh, List.dropWhile_cons_of_pos rfl]
      | low low _ _ hlow => cases (hb x).low (.chunkAck f i n) (by simp [hlow])
    · rw [jam, jam, hold x hx]
  have hout : ∀ x, (σ'.buf x).outgoings = (σ.buf x).outgoings := by
    intro x
    by_cases hx : x = y
    · rw [hx, hnew]
      cases hsend <;> rfl
    · rw [hold x hx]
  apply gridlocked_congr
  · intro x
    rw [hjam]
  · intro x
    by_cases hx : x = y
    · simp [hx, hwire]
    · simp [hwire, hx]
  · intro x
    rw [hjam]
  · intro x k _
    rw [ConnectionBuffer.outSize, hout]
    rfl

/-- An arriving data chunk stays on the account of its sender: its acknowledgement
is queued behind the first data chunk of the receiver. -/
theorem gridlocked_chunk {y : Side} {f : UInt32} {i n : UInt16} {d : List UInt8}
    {rest : List ConnectionChunk} (hacc : ∀ x, σ.Account x) (hw : σ.wire y = .chunk f i n d :: rest)
    (hbuf : σ'.buf = Function.update σ.buf y.peer ((σ.buf y.peer).onChunk f i n d))
    (hwire : σ'.wire = Function.update σ.wire y rest) : σ'.Gridlocked ↔ σ.Gridlocked := by
  have hself : σ'.buf y = σ.buf y := by rw [hbuf, Function.update_of_ne (Side.ne_peer y)]
  have hpeer : σ'.buf y.peer = (σ.buf y.peer).onChunk f i n d := by rw [hbuf, Function.update_self]
  have hjam : σ'.jam y = σ.jam y := by rw [jam, jam, hself]
  have hjam' : σ'.jam y.peer = if (σ.jam y.peer).isEmpty then [] else
      σ.jam y.peer ++ [.chunkAck f i n] := by
    rw [jam, hpeer, ConnectionBuffer.onChunk_highPriority, List.dropWhile_append]
    rfl
  by_cases hnil : σ.jam y.peer = []
  · -- without a data chunk in its queue the receiver is not closed in
    have hopen : ∀ τ : Duplex C A, τ.jam y.peer = [] → ¬ τ.Gridlocked := by
      intro τ hτ hg
      obtain ⟨c, hc, -⟩ := hg y.peer
      simp [hτ] at hc
    exact iff_of_false (hopen σ' (by simp [hjam', hnil])) (hopen σ hnil)
  · rw [if_neg (by simpa using hnil)] at hjam'
    have hsize : (σ.buf y).outSize (f, i) = some (ConnectionChunk.chunk f i n d).inAirSize :=
      (hacc y).sizes (.chunk f i n d) (by simp [hw])
    have hmine : σ'.held y = σ.held y := by
      simp only [held, hself, hjam', hwire, hw, Function.update_self, dataOf_cons_chunk, List.map_cons,
        List.sum_cons, acksOf_append, List.map_append, List.sum_append, acksOf_cons_chunkAck,
        acksOf_nil, hsize, List.map_nil, List.sum_nil, Option.getD_some]
      omega
    have hother : σ'.held y.peer = σ.held y.peer := by
      have hsizes : (σ'.buf y.peer).outSize = (σ.buf y.peer).outSize := by
        funext k
        simp [hpeer, ConnectionBuffer.outSize]
      simp only [held, Side.peer_peer, hsizes, hjam, hwire, Function.update_of_ne (Side.peer_ne y)]
    apply forall_congr'
    intro x
    rcases y.eq_or_eq_peer x with rfl | rfl
    · rw [ClosedIn, ClosedIn, hjam, hmine]
    · rw [ClosedIn, ClosedIn, hjam', hother, List.head?_append_of_ne_nil _ hnil]

theorem gridlocked_ack {y : Side} {f : UInt32} {i n : UInt16} {rest : List ConnectionChunk}
    (hacc : ∀ x, σ.Account x) (hw : σ.wire y = .chunkAck f i n :: rest)
    (hbuf : σ'.buf = Function.update σ.buf y.peer ((σ.buf y.peer).onAck f i))
    (hwire : σ'.wire = Function.update σ.wire y rest) : σ'.Gridlocked ↔ σ.Gridlocked := by
  have hself : σ'.buf y = σ.buf y := by rw [hbuf, Function.update_of_ne (Side.ne_peer y)]
  have hpeer : σ'.buf y.peer = (σ.buf y.peer).onAck f i := by rw [hbuf, Function.update_self]
  have hjam : ∀ x, σ'.jam x = σ.jam x := by
    intro x
    rcases y.eq_or_eq_peer x with rfl | rfl
    · rw [jam, jam, hself]
    · obtain ⟨out, air, hack⟩ := ConnectionBuffer.onAck_eq (b := σ.buf y.peer) f i
      rw [jam, jam, hpeer, hack]
  apply gridlocked_congr
  · intro x
    rw [hjam]
  · intro x
    rcases y.eq_or_eq_peer x with rfl | rfl
    · simp [hwire, hw]
    · simp [hwire]
  · intro x
    rw [hjam]
  · intro x k hk
    rcases y.eq_or_eq_peer x with rfl | rfl
    · rw [hself]
    · rw [Side.peer_peer] at hk
      -- the acknowledgement that arrives is not among those still queued
      have hne : k ≠ (f, i) := by
        intro heq
        have hnodup := (hacc y.peer).booked.nodup
        rw [Side.peer_peer, hw, acksOf_cons_chunkAck] at hnodup
        have hacks := (List.nodup_append.mp (List.nodup_append.mp
          (List.nodup_append.mp hnodup).2.1).2.1).2.2
        exact hacks k (mem_acksOf_jam hk) (f, i) (by simp) heq
      have hbooked : (σ.buf y.peer).outSize (f, i) ≠ none := by
        rw [(hacc y.peer).booked.booked]
        simp [hw]
      obtain ⟨size, hsize⟩ := Option.ne_none_iff_exists'.mp hbooked
      rw [hpeer, ConnectionBuffer.outSize_onAck hsize, if_neg hne]

/-- Only a frame pushed into a queue without data chunks, or a data chunk that is sent,
can make a gridlock; nothing but the latter could end one. -/
theorem gridlocked_step (hb : σ.Bounded) (hacc : ∀ x, σ.Account x) (hc : σ.Sane e)
    (h : Step σ e σ') :
    (σ'.Gridlocked ↔ σ.Gridlocked) ∨
      (∃ y f b, (σ.buf y).pushFrame f = .ok b ∧ σ.jam y = [] ∧
        σ'.buf = Function.update σ.buf y b ∧ σ'.wire = σ.wire) ∨
      ∃ y f i n d b, (σ.buf y).Sends (.chunk f i n d) b ∧
        (chunk f i n d).inAirSize + (σ.buf y).inAirSize < 2 ^ 64 ∧
        σ'.wire = Function.update σ.wire y (σ.wire y ++ [.chunk f i n d]) := by
  cases h.moves hb with
  | push y f b hpush hbuf hwire =>
    by_cases hjam : σ.jam y = []
    · exact .inr (.inl ⟨y, f, b, hpush, hjam, hbuf, hwire⟩)
    · exact .inl (gridlocked_push hacc hc.2 hpush hbuf hwire hjam)
  | send y c b hsend hbuf hwire =>
    cases c with
    | chunk f i n d => exact .inr (.inr ⟨y, f, i, n, d, b, hsend, hc _ hsend.head, hwire⟩)
    | chunkAck f i n => exact .inl (gridlocked_send_ack hb hsend hbuf hwire)
  | chunk y f i n d rest hw hbuf hwire => exact .inl (gridlocked_chunk hacc hw hbuf hwire)
  | ack y f i n rest hw hbuf hwire => exact .inl (gridlocked_ack hacc hw hbuf hwire)
  | junk y hbuf hwire =>
    left
    apply gridlocked_congr <;> simp [jam, hbuf, hwire]
  | recv y f b hrecv hbuf hwire =>
    obtain ⟨outs, -, rfl⟩ := ConnectionBuffer.popRecv_cases hrecv
    left
    have hsame : ∀ x, (σ'.buf x).highPriority = (σ.buf x).highPriority ∧
        (σ'.buf x).outgoings = (σ.buf x).outgoings := by
      intro x
      by_cases hx : x = y
      · subst hx
        simp [hbuf]
      · simp [hbuf, hx]
    apply gridlocked_congr <;> simp [jam, hsame, hwire, ConnectionBuffer.outSize]

/-- In a gridlock, clear steps leave the data that are on the way there. -/
theorem data_stays (hb : σ.Bounded) (h : Step σ e σ') (hclear : σ.Clear e) (hg : σ.Gridlocked)
    (hx : dataOf (σ.wire x) ≠ []) : dataOf (σ'.wire x) ≠ [] := by
  cases h.moves hb with
  | push y f b _ _ hwire => rwa [hwire]
  | recv y f b _ _ hwire => rwa [hwire]
  | junk y _ hwire => rwa [hwire]
  | send y c b _ _ hwire =>
    by_cases hxy : x = y
    · subst hxy
      simp [hwire, hx]
    · simpa [hwire, hxy] using hx
  | chunk y f i n d rest hw _ _ => exact absurd hg (hclear y rfl (.chunk f i n d) (by simp [hw]) rfl)
  | ack y f i n rest hw _ hwire =>
    by_cases hxy : x = y
    · subst hxy
      simpa [hwire, hw] using hx
    · simpa [hwire, hxy] using hx

/-- Behind the only data chunk of a queue there is nothing to acknowledge. -/
theorem acksOf_jam_push {y : Side} {f : List UInt8} {b : ConnectionBuffer C A}
    (hpush : (σ.buf y).pushFrame f = .ok b) (hjam : σ.jam y = [])
    (hbuf : σ'.buf = Function.update σ.buf y b) : acksOf (σ'.jam y) = [] := by
  rw [jam, hbuf, Function.update_self]
  rw [jam] at hjam
  rcases ConnectionBuffer.pushFrame_cases hpush with ⟨-, rfl⟩ | ⟨-, -, rfl⟩
  · rw [List.dropWhile_append, hjam]
    rfl
  · rw [hjam]
    rfl

/-- A gridlock begins with data on the way, and stays one until they have arrived. -/
theorem data_in_flight_step (hA : C.toNat + 20 ≤ A.toNat) (hb : σ.Bounded)
    (hacc : ∀ x, σ.Account x) (h : ClearStep σ e σ')
    (ih : σ.Gridlocked → ∃ x, dataOf (σ.wire x) ≠ []) (hg : σ'.Gridlocked) :
    ∃ x, dataOf (σ'.wire x) ≠ [] := by
  obtain ⟨hs, hsane, hclear⟩ := h
  rcases gridlocked_step hb hacc hsane hs with
    hiff | ⟨y, f, b, hpush, hjam, hbuf, hwire⟩ | ⟨y, f, i, n, d, b, -, -, hwire⟩
  · obtain ⟨x, hx⟩ := ih (hiff.mp hg)
    exact ⟨x, data_stays hb hs hclear (hiff.mp hg) hx⟩
  · -- the peer's first data chunk fits an empty window, so it has data in the channel
    obtain ⟨c, hc, hlt⟩ := hg y.peer
    have hlen : c.dataLen ≤ C.toNat := by
      apply (bounded_step hb hs y.peer).len
      exact List.mem_append_left _ ((List.dropWhile_sublist _).subset (List.mem_of_head? hc))
    have hsize := c.inAirSize_le
    refine ⟨y.peer, ?_⟩
    intro hnil
    rw [held, hnil, Side.peer_peer, acksOf_jam_push hpush hjam hbuf] at hlt
    simp at hlt
    omega
  · exact ⟨y, by simp [hwire]⟩

theorem Account.held_le (hx : σ.Account x) : σ.held x ≤ (σ.buf x).inAirSize := by
  have hflight : ((dataOf (σ.wire x)).map key).map (fun k => ((σ.buf x).outSize k).getD 0) =
      (dataOf (σ.wire x)).map inAirSize := by
    rw [List.map_map]
    apply List.map_congr_left
    intro c hc
    simp [hx.sizes c (List.mem_append_right _ hc)]
  have hjam : (acksOf (σ.jam x.peer)).Sublist (acksOf (σ.buf x.peer).highPriority) :=
    ((List.dropWhile_sublist _).filter _).map _
  have hsum := (hjam.map fun k => ((σ.buf x).outSize k).getD 0).sum_le_sum fun _ _ => Nat.zero_le _
  rw [held, hx.booked.total]
  simp only [List.map_append, List.sum_append, hflight]
  omega

/-- A gridlock lasts: neither side can send its first data chunk. -/
theorem gridlock_lasts (hb : σ.Bounded) (hacc : ∀ x, σ.Account x) (h : SaneStep σ e σ')
    (hg : σ.Gridlocked) : σ'.Gridlocked := by
  obtain ⟨hs, hsane⟩ := h
  rcases gridlocked_step hb hacc hsane hs with
    hiff | ⟨y, f, b, -, hjam, -⟩ | ⟨y, f, i, n, d, b, hsend, hfit, -⟩
  · exact hiff.mpr hg
  · obtain ⟨c, hc, -⟩ := hg y
    simp [hjam] at hc
  · -- the chunk that goes out would be the one that does not fit
    obtain ⟨c, hc, hlt⟩ := hg y
    have hheld := (hacc y).held_le
    cases hsend with
    | high high hle hhigh =>
      rw [jam, hhigh, List.dropWhile_cons_of_neg (by simp [isAck])] at hc
      cases hc
      rw [wrapAdd_of_lt hfit] at hle
      omega
    | low low _ hhigh _ =>
      rw [jam, hhigh] at hc
      cases hc

theorem account_run {es : List DuplexEvent} (h : Run SaneStep (init : Duplex C A) es σ) :
    σ.Bounded ∧ ∀ x, σ.Account x :=
  h.invariant (P := fun σ => σ.Bounded ∧ ∀ x, σ.Account x) ⟨bounded_init, account_init⟩
    fun _ _ _ hs hi => ⟨bounded_step hi.1 hs.1, account_step hi.1 hs.2 hs.1 hi.2⟩

theorem sane_of_clear {es : List DuplexEvent} (h : Run ClearStep (init : Duplex C A) es σ) :
    Run SaneStep init es σ :=
  h.mono fun _ _ _ hs => ⟨hs.1, hs.2.1⟩

theorem data_in_flight_run (hA : C.toNat + 20 ≤ A.toNat) {es : List DuplexEvent}
    (h : Run ClearStep (init : Duplex C A) es σ) :
    σ.Gridlocked → ∃ x, dataOf (σ.wire x) ≠ [] := by
  induction h with
  | nil =>
    intro hg
    obtain ⟨c, hc, -⟩ := hg .a
    cases hc
  | snoc hrun hs ih =>
    obtain ⟨hb, hacc⟩ := account_run (sane_of_clear hrun)
    exact data_in_flight_step hA hb hacc hs ih

/-- A run in which the counters do not run over is clear to its end, or ends in a
gridlock. -/
theorem clear_or_gridlocked {es : List DuplexEvent} (h : Run SaneStep (init : Duplex C A) es σ) :
    Run ClearStep init es σ ∨ σ.Gridlocked := by
  induction h with
  | nil => exact .inl .nil
  | @snoc es τ τ' e hrun hs ih =>
    obtain ⟨hb, hacc⟩ := account_run hrun
    rcases ih with hclear | hg
    · by_cases hc : τ.Clear e
      · exact .inl (hclear.snoc ⟨hs.1, hs.2, hc⟩)
      · simp only [Clear, not_forall, not_not] at hc
        obtain ⟨-, -, -, -, -, hg⟩ := hc
        exact .inr (gridlock_lasts hb hacc hs hg)
    · exact .inr (gridlock_lasts hb hacc hs hg)

/-- In every run of clear steps, a link that stands still is drained; and no other run
without overflowing counters ever drains the link. -/
theorem clear_link_drains (hA : C.toNat + 20 ≤ A.toNat) (es : List DuplexEvent) (σ : Duplex C A) :
    (Run ClearStep init es σ → σ.Stuck → σ.Drained) ∧
      (Run SaneStep init es σ → σ.Drained → Run ClearStep init es σ) := by
  refine ⟨?_, ?_⟩
  · intro hrun hs
    obtain ⟨hb, hacc⟩ := account_run (sane_of_clear hrun)
    apply hs.drained hA hb hacc
    intro hg
    obtain ⟨x, hx⟩ := data_in_flight_run hA hrun hg
    rw [hs.wire_eq_nil] at hx
    exact hx rfl
  · intro hrun hd
    apply (clear_or_gridlocked hrun).resolve_right
    intro hg
    obtain ⟨c, hc, -⟩ := hg .a
    rw [jam, (hd .a).1] at hc
    cases hc

/-- A message that is sent is no arrival, and only has to fit the counter. -/
theorem send_clear {x : Side} {msg : List UInt8} {b : ConnectionBuffer C A} {c : ConnectionChunk}
    (hb : (σ.buf x).popSend = some (msg, b)) (hhead : ((σ.buf x).highPriority ++ (σ.buf x).lowPriority).head? = some c)
    (hfew : c.inAirSize + (σ.buf x).inAirSize < 2 ^ 64) :
    ClearStep σ (.send x) ((σ.setBuf x b).setChan x (σ.chan x ++ [msg])) := by
  refine ⟨.send _ x _ _ hb, fun d hd => ?_, fun y hy => by cases hy⟩
  rw [hhead] at hd
  cases hd
  exact hfew

/-- Where a side has no data chunk to send, there is no gridlock. -/
theorem deliver_clear {x : Side} {msg : List UInt8} {rest : List (List UInt8)} (hmsg : σ.chan x = msg :: rest)
    (hjam : σ.jam .b = []) :
    ClearStep σ (.deliver x)
      ((σ.setBuf x.peer (((σ.buf x.peer).onReceived msg).getD (σ.buf x.peer))).setChan x rest) := by
  refine ⟨.deliver _ x _ _ hmsg, trivial, fun y _ c _ _ hg => ?_⟩
  obtain ⟨d, hd, -⟩ := hg .b
  rw [hjam] at hd
  cases hd

/-- Two frames from one side and one from the other, with room for one of them in each window. -/
def threeFrames : List DuplexEvent := [.push .a [7], .push .a [8], .push .b [9], .send .a, .send .b]

/-- What is left of them comes and goes. -/
def threeFramesLeft : List DuplexEvent :=
  [.deliver .a, .deliver .b, .send .b, .deliver .b, .send .a, .send .a, .deliver .a, .deliver .a, .send .b, .deliver .b]

/-- The second frame is held back until the first one is acknowledged, and then it comes too. -/
theorem clear_link_drains_three_frames : ∃ σ₁ σ : Duplex 4 24,
    Run ClearStep init threeFrames σ₁ ∧ (σ₁.buf .a).popSend = none ∧
      Run ClearStep init (threeFrames ++ threeFramesLeft) σ ∧ σ.Stuck ∧ σ.Drained := by
  have h0 : Run ClearStep (init : Duplex 4 24) [] _ := .nil
  have h1 := h0.snoc ⟨.push _ .a [7] _ rfl, ⟨by decide, rfl⟩, fun x hx => by cases hx⟩
  have h2 := h1.snoc ⟨.push _ .a [8] _ rfl, ⟨by decide, rfl⟩, fun x hx => by cases hx⟩
  have h3 := h2.snoc ⟨.push _ .b [9] _ rfl, ⟨by decide, rfl⟩, fun x hx => by cases hx⟩
  have h4 := h3.snoc (send_clear (x := .a) rfl rfl (by decide))
  have h5 := h4.snoc (send_clear (x := .b) rfl rfl (by decide))
  have h6 := h5.snoc (deliver_clear (x := .a) rfl rfl)
  have h7 := h6.snoc (deliver_clear (x := .b) rfl rfl)
  have h8 := h7.snoc (send_clear (x := .b) rfl rfl (by decide))
  have h9 := h8.snoc (deliver_clear (x := .b) rfl rfl)
  have h10 := h9.snoc (send_clear (x := .a) rfl rfl (by decide))
  have h11 := h10.snoc (send_clear (x := .a) rfl rfl (by decide))
  have h12 := h11.snoc (deliver_clear (x := .a) rfl rfl)
  have h13 := h12.snoc (deliver_clear (x := .a) rfl rfl)
  have h14 := h13.snoc (send_clear (x := .b) rfl rfl (by decide))
  have h15 := h14.snoc (deliver_clear (x := .b) rfl rfl)
  have hdrained := (clear_link_drains (by decide) (threeFrames ++ threeFramesLeft) _).1 h15
  refine ⟨_, _, h5, rfl, h15, (and_iff_left_of_imp hdrained).mpr ?_⟩
  intro x
  cases x <;> exact ⟨rfl, rfl⟩

/-- Two frames on each side and room for one of them in each window: after the first
ones have arrived, each side's acknowledgement waits behind its second frame, which
waits for the other side's acknowledgement. -/
theorem blocked_frames_hold_acks : ¬ ∀ (C A : UInt64), C.toNat + 20 ≤ A.toNat →
    ∀ (es : List DuplexEvent) (σ : Duplex C A), Run Step init es σ → σ.Stuck → σ.Drained := by
  intro h
  have h0 : Run Step (init : Duplex 4 24) [] _ := .nil
  have h1 := h0.snoc (.push _ .a [1] _ rfl)
  have h2 := h1.snoc (.push _ .a [2] _ rfl)
  have h3 := h2.snoc (.push _ .b [3] _ rfl)
  have h4 := h3.snoc (.push _ .b [4] _ rfl)
  have h5 := h4.snoc (.send _ .a _ _ rfl)
  have h6 := h5.snoc (.send _ .b _ _ rfl)
  have h7 := h6.snoc (.deliver _ .a _ _ rfl)
  have h8 := h7.snoc (.deliver _ .b _ _ rfl)
  have hd := h 4 24 (by decide) _ _ h8 (fun x => by cases x <;> exact ⟨rfl, rfl⟩)
  exact absurd (hd .a).1 (List.cons_ne_nil _ _)

end Duplex
end Dllm
