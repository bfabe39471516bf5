import DecentralizedInference.Sanity.ConnectionBuffer

/-! Frames pushed on one side come out of the other side once, whole and, among
those that fit one chunk and among those that do not, in order; nothing is lost
on the way. Each direction of a link is looked at alone, with the
acknowledgements of the other direction left out. -/

namespace Dllm

open ConnectionChunk

variable {C A : UInt64}

/-- One direction of a link: what its sender has been given and has queued, what is
on the way, and what its receiver has put together and handed out. -/
structure Lanes where
  pushed : List (List UInt8)
  popped : List (List UInt8)
  seed : UInt32
  high : List ConnectionChunk
  low : List ConnectionChunk
  wire : List ConnectionChunk
  incomings : AList (fun _ : UInt32 => IncomingFrame)
  outs : List (List UInt8)

inductive LaneStep (C A : UInt64) : Lanes → Lanes → Prop
  | pushSmall (s : Lanes) (f : List UInt8) (hf : f.length ≤ C.toNat) :
      LaneStep C A s { s with
        pushed := s.pushed ++ [f]
        seed := s.seed + 1
        high := s.high ++ [.chunk s.seed 0 1 f] }
  | pushLarge (s : Lanes) (f : List UInt8) (hf : C.toNat < f.length)
      (hmax : f.length ≤ 65535 * C.toNat) :
      LaneStep C A s { s with
        pushed := s.pushed ++ [f]
        seed := s.seed + 1
        low := s.low ++ splitFrame C s.seed f }
  | sendHigh (s : Lanes) (c : ConnectionChunk) (rest : List ConnectionChunk)
      (h : s.high = c :: rest) :
      LaneStep C A s { s with high := rest, wire := s.wire ++ [c] }
  | sendLow (s : Lanes) (c : ConnectionChunk) (rest : List ConnectionChunk)
      (h : s.low = c :: rest) :
      LaneStep C A s { s with low := rest, wire := s.wire ++ [c] }
  | arrive (s : Lanes) (f : UInt32) (i n : UInt16) (d : List UInt8) (rest : List ConnectionChunk)
      (h : s.wire = .chunk f i n d :: rest) (b : ConnectionBuffer C A)
      (hinc : b.incomings = s.incomings) (houts : b.outs = s.outs) :
      LaneStep C A s { s with
        wire := rest
        incomings := (b.onChunk f i n d).incomings
        outs := (b.onChunk f i n d).outs }
  | recv (s : Lanes) (f : List UInt8) (rest : List (List UInt8)) (h : s.outs = f :: rest) :
      LaneStep C A s { s with popped := s.popped ++ [f], outs := rest }

/-- The frames that a history pushes on a side. -/
def pushes (x : Side) (es : List DuplexEvent) : List (List UInt8) :=
  es.filterMap fun
    | .push y f => if y = x then some f else none
    | _ => none

/-- The frames that a history takes out at a side. -/
def recvs (x : Side) (es : List DuplexEvent) : List (List UInt8) :=
  es.filterMap fun
    | .recv y f => if y = x then some f else none
    | _ => none

theorem mem_pushes {x : Side} {es : List DuplexEvent} {f : List UInt8} :
    f ∈ pushes x es ↔ .push x f ∈ es := by
  rw [pushes, List.mem_filterMap]
  refine ⟨fun ⟨e, he, hf⟩ => ?_, fun h => ?_⟩
  · cases e with
    | push y g =>
      obtain ⟨rfl, hg⟩ := Option.ite_none_right_eq_some.mp hf
      cases hg
      exact he
    | send y => cases hf
    | deliver y => cases hf
    | recv y g => cases hf
  · exact ⟨_, h, by simp⟩

def lanesOf (pushed popped : List (List UInt8)) (tx : ConnectionBuffer C A)
    (wire : List ConnectionChunk) (rx : ConnectionBuffer C A) : Lanes where
  pushed := pushed
  popped := popped
  seed := tx.frameIdSeed
  high := dataOf tx.highPriority
  low := dataOf tx.lowPriority
  wire := dataOf wire
  incomings := rx.incomings
  outs := rx.outs

/-- The direction that starts at `x`. -/
def Duplex.lanes (es : List DuplexEvent) (σ : Duplex C A) (x : Side) : Lanes :=
  lanesOf (pushes x es) (recvs x.peer es) (σ.buf x) (σ.wire x) (σ.buf x.peer)

theorem lanes_push (pushed popped : List (List UInt8)) (wire : List ConnectionChunk)
    (rx : ConnectionBuffer C A) {tx tx' : ConnectionBuffer C A} {f : List UInt8} (h : tx.pushFrame f = .ok tx')
    (hmax : f.length ≤ 65535 * C.toNat) :
    LaneStep C A (lanesOf pushed popped tx wire rx) (lanesOf (pushed ++ [f]) popped tx' wire rx) := by
  rcases ConnectionBuffer.pushFrame_cases h with ⟨hle, rfl⟩ | ⟨hlt, -, rfl⟩
  · simpa [lanesOf] using LaneStep.pushSmall (lanesOf pushed popped tx wire rx) f hle
  · simpa [lanesOf] using LaneStep.pushLarge (lanesOf pushed popped tx wire rx) f hlt hmax

theorem lanes_send (pushed popped : List (List UInt8)) (wire : List ConnectionChunk)
    (rx : ConnectionBuffer C A) {tx tx' : ConnectionBuffer C A} {c : ConnectionChunk} (h : tx.Sends c tx') :
    lanesOf pushed popped tx' (wire ++ [c]) rx = lanesOf pushed popped tx wire rx ∨
      LaneStep C A (lanesOf pushed popped tx wire rx) (lanesOf pushed popped tx' (wire ++ [c]) rx) := by
  cases c with
  | chunkAck f i n =>
    left
    cases h with
    | high high _ hhigh => simp [lanesOf, hhigh]
    | low low _ _ hlow => simp [lanesOf, hlow]
  | chunk f i n d =>
    right
    cases h with
    | high high _ hhigh =>
      have hstep := LaneStep.sendHigh (C := C) (A := A) (lanesOf pushed popped tx wire rx)
        (.chunk f i n d) (dataOf high) (by simp [lanesOf, hhigh])
      simpa [lanesOf] using hstep
    | low low _ _ hlow =>
      have hstep := LaneStep.sendLow (C := C) (A := A) (lanesOf pushed popped tx wire rx)
        (.chunk f i n d) (dataOf low) (by simp [lanesOf, hlow])
      simpa [lanesOf] using hstep

/-- Seen in one direction, every step of a link is a step of that direction or nothing. -/
theorem Duplex.lanes_step (es : List DuplexEvent) (x : Side) {σ σ' : Duplex C A} {e : DuplexEvent}
    (hb : σ.Bounded) (h : Step σ e σ') (hmax : ∀ f, e = .push x f → f.length ≤ 65535 * C.toNat) :
    σ'.lanes (es ++ [e]) x = σ.lanes es x ∨ LaneStep C A (σ.lanes es x) (σ'.lanes (es ++ [e]) x) := by
  cases h.moves hb with
  | push y f b hpush hbuf hwire =>
    rcases x.eq_or_eq_peer y with rfl | rfl
    · right
      have hstep := lanes_push (pushes y es) (recvs y.peer es) (σ.wire y) (σ.buf y.peer) hpush (hmax f rfl)
      simpa [lanes, pushes, recvs, hbuf, hwire] using hstep
    · left
      rcases ConnectionBuffer.pushFrame_cases hpush with ⟨-, rfl⟩ | ⟨-, -, rfl⟩
      · simp [lanes, lanesOf, pushes, recvs, hbuf, hwire]
      · simp [lanes, lanesOf, pushes, recvs, hbuf, hwire]
  | send y c b hsend hbuf hwire =>
    rcases x.eq_or_eq_peer y with rfl | rfl
    · have hstep := lanes_send (pushes y es) (recvs y.peer es) (σ.wire y) (σ.buf y.peer) hsend
      simpa [lanes, pushes, recvs, hbuf, hwire] using hstep
    · left
      cases hsend with
      | high high _ hhigh => simp [lanes, lanesOf, pushes, recvs, hbuf, hwire]
      | low low _ _ hlow => simp [lanes, lanesOf, pushes, recvs, hbuf, hwire]
  | chunk y f i n d rest hw hbuf hwire =>
    rcases x.eq_or_eq_peer y with rfl | rfl
    · right
      have hstep := LaneStep.arrive (σ.lanes es y) f i n d (dataOf rest)
        (by simp [lanes, lanesOf, hw]) (σ.buf y.peer) rfl rfl
      simpa [lanes, lanesOf, pushes, recvs, hbuf, hwire] using hstep
    · left
      simp [lanes, lanesOf, pushes, recvs, hbuf, hwire]
  | ack y f i n rest hw hbuf hwire =>
    left
    rcases x.eq_or_eq_peer y with rfl | rfl
    · obtain ⟨out, air, hack⟩ := ConnectionBuffer.onAck_eq (b := σ.buf y.peer) f i
      simp [lanes, lanesOf, pushes, recvs, hbuf, hwire, hw, hack]
    · obtain ⟨out, air, hack⟩ := ConnectionBuffer.onAck_eq (b := σ.buf x) f i
      simp [lanes, lanesOf, pushes, recvs, hbuf, hwire, hack]
  | junk y hbuf hwire =>
    left
    simp [lanes, lanesOf, pushes, recvs, hbuf, hwire]
  | recv y f b hrecv hbuf hwire =>
    obtain ⟨outs, houts, rfl⟩ := ConnectionBuffer.popRecv_cases hrecv
    rcases x.eq_or_eq_peer y with rfl | rfl
    · left
      simp [lanes, lanesOf, pushes, recvs, hbuf, hwire]
    · right
      have hstep := LaneStep.recv (C := C) (A := A) (σ.lanes es x) f outs houts
      simpa [lanes, lanesOf, pushes, recvs, hbuf, hwire] using hstep

/-- A pushed frame with its number. -/
abbrev Item := List UInt8 × ℕ

/-- The frame fits one chunk. -/
def Item.small (C : UInt64) (p : Item) : Bool := p.1.length ≤ C.toNat

def Item.whole (p : Item) : ConnectionChunk := .chunk (.ofNat p.2) 0 1 p.1

def Item.pieces (C : UInt64) (p : Item) : List ConnectionChunk := splitFrame C (.ofNat p.2) p.1

/-- A chunk that is a frame of its own. -/
def isWhole : ConnectionChunk → Bool
  | .chunk _ _ n _ => n = 1
  | .chunkAck .. => false

/-- Chunks under their numbers, as the receiver stores them. -/
def numbered (ds : List (List UInt8)) : List (UInt16 × List UInt8) :=
  ds.zipIdx.map fun c => (UInt16.ofNat c.2, c.1)

/-- The receiver has the first `j` chunks of the next large frame, and of no other. -/
def Assembling (C : UInt64) (inc : AList (fun _ : UInt32 => IncomingFrame)) (todo : List Item)
    (j : ℕ) : Prop :=
  (j = 0 ∧ ∀ id, inc.lookup id = none) ∨
  ∃ p rest fr, todo = p :: rest ∧ 0 < j ∧ j < (p.1.chunks C.toNat).length ∧
    inc.lookup (.ofNat p.2) = some fr ∧ fr.chunkCount = .ofNat (p.1.chunks C.toNat).length ∧
    fr.chunks.toList = numbered ((p.1.chunks C.toNat).take j) ∧
    ∀ id, id ≠ .ofNat p.2 → inc.lookup id = none

/-- The frames `out` have come out, those of `todoS` and `todoL` are still to come,
and of the first of `todoL` the first `j` chunks have arrived. -/
structure LaneInv (C : UInt64) (s : Lanes) (out todoS todoL : List Item) (j : ℕ) : Prop where
  seed : s.seed = .ofNat s.pushed.length
  fits : ∀ f ∈ s.pushed, f.length ≤ 65535 * C.toNat
  outs : out.map Prod.fst = s.popped ++ s.outs
  small : out.filter (Item.small C) ++ todoS = s.pushed.zipIdx.filter (Item.small C)
  large : out.filter (fun p => !Item.small C p) ++ todoL = s.pushed.zipIdx.filter (fun p => !Item.small C p)
  high : s.wire.filter isWhole ++ s.high = todoS.map Item.whole
  low : s.wire.filter (fun c => !isWhole c) ++ s.low = (todoL.flatMap (Item.pieces C)).drop j
  rx : Assembling C s.incomings todoL j

/-- Chunk numbers are in order as long as they fit. -/
theorem compare_number {i j : ℕ} (hij : i < j) (hj : j < 2 ^ 16) :
    compare (UInt16.ofNat i) (UInt16.ofNat j) = .lt := by
  have hlt : UInt16.ofNat i < UInt16.ofNat j := by
    rw [UInt16.lt_iff_toNat_lt, UInt16.toNat_ofNat', UInt16.toNat_ofNat']
    omega
  exact if_pos hlt

theorem numbered_insert {t : Std.TreeMap UInt16 (List UInt8)} {ds : List (List UInt8)} {j : ℕ}
    (hj : j < ds.length) (hlen : ds.length ≤ 65535) (ht : t.toList = numbered (ds.take j)) :
    (t.insert (.ofNat j) ds[j]).toList = numbered (ds.take (j + 1)) := by
  rw [Std.TreeMap.toList_insert_of_lt, ht]
  · rw [List.take_succ_eq_append_getElem hj, numbered, numbered, List.zipIdx_append,
      List.map_append, List.length_take_of_le (Nat.le_of_lt hj)]
    simp
  · intro p hp
    rw [ht] at hp
    obtain ⟨⟨d, i⟩, hmem, rfl⟩ := List.mem_map.mp hp
    have hi : i < j := by
      have hlt := (List.mem_zipIdx' hmem).1
      rw [List.length_take] at hlt
      omega
    exact compare_number hi (by omega)

theorem numbered_flatten (ds : List (List UInt8)) :
    ((numbered ds).map Prod.snd).flatten = ds.flatten := by
  have h : (numbered ds).map Prod.snd = ds := by
    rw [numbered, List.map_map]
    exact List.zipIdx_map_fst _ _
  rw [h]

theorem zipIdx_snoc (fs : List (List UInt8)) (f : List UInt8) :
    (fs ++ [f]).zipIdx = fs.zipIdx ++ [(f, fs.length)] := by
  simp [List.zipIdx_append]

/-- The receiver's view of the next chunk of a large frame. -/
theorem onChunk_piece {b : ConnectionBuffer C A} {id : UInt32} {ds : List (List UInt8)} {j : ℕ}
    {fr : IncomingFrame} (hj : j < ds.length) (htwo : 2 ≤ ds.length) (hlen : ds.length ≤ 65535)
    (hfr : (b.incomings.lookup id).getD ⟨.ofNat ds.length, ∅⟩ = fr)
    (hcount : fr.chunkCount = .ofNat ds.length) (hchunks : fr.chunks.toList = numbered (ds.take j)) :
    (j + 1 = ds.length ∧
      (b.onChunk id (.ofNat j) (.ofNat ds.length) ds[j]).incomings = b.incomings.erase id ∧
      (b.onChunk id (.ofNat j) (.ofNat ds.length) ds[j]).outs = b.outs ++ [ds.flatten]) ∨
    (j + 1 < ds.length ∧ ∃ fr' : IncomingFrame,
      (b.onChunk id (.ofNat j) (.ofNat ds.length) ds[j]).incomings = b.incomings.insert id fr' ∧
      (b.onChunk id (.ofNat j) (.ofNat ds.length) ds[j]).outs = b.outs ∧
      fr'.chunkCount = .ofNat ds.length ∧ fr'.chunks.toList = numbered (ds.take (j + 1))) := by
  have hcast : (UInt16.ofNat ds.length).toNat = ds.length := by
    rw [UInt16.toNat_ofNat']
    omega
  have hne : UInt16.ofNat ds.length ≠ 1 := by
    intro h
    rw [h] at hcast
    simp at hcast
    omega
  have hins := numbered_insert hj hlen hchunks
  have hsize : (fr.chunks.insert (.ofNat j) ds[j]).size = j + 1 := by
    rw [← Std.TreeMap.length_toList, hins]
    simp only [numbered, List.length_map, List.length_zipIdx, List.length_take]
    omega
  simp only [ConnectionBuffer.onChunk, if_neg hne, hfr, hsize, hcount, hcast]
  split
  case isTrue hlast =>
    refine .inl ⟨hlast, rfl, ?_⟩
    rw [hins, numbered_flatten, hlast, List.take_length]
  case isFalse hmore => exact .inr ⟨by omega, _, rfl, rfl, rfl, hins⟩

/-- How many chunks a large frame has, and that none of them passes for a whole frame. -/
theorem chunks_of_large {f : List UInt8} (hlt : C.toNat < f.length)
    (hmax : f.length ≤ 65535 * C.toNat) :
    2 ≤ (f.chunks C.toNat).length ∧ (f.chunks C.toNat).length ≤ 65535 := by
  have hpos : 0 < C.toNat := by omega
  exact ⟨List.two_le_length_chunks hpos hlt, List.length_chunks_le hpos hmax⟩

theorem isWhole_of_mem_pieces {p : Item} (hlt : C.toNat < p.1.length)
    (hmax : p.1.length ≤ 65535 * C.toNat) {c : ConnectionChunk} (hc : c ∈ p.pieces C) :
    isWhole c = false := by
  obtain ⟨h2, hlen⟩ := chunks_of_large hlt hmax
  obtain ⟨d, i, -, -, rfl⟩ := mem_splitFrame hc
  apply decide_eq_false
  intro h
  have hcast := congrArg UInt16.toNat h
  rw [UInt16.toNat_ofNat'] at hcast
  simp at hcast
  omega

theorem pieces_getElem? (p : Item) (j : ℕ) :
    (p.pieces C)[j]? = (p.1.chunks C.toNat)[j]?.map fun d =>
      .chunk (.ofNat p.2) (.ofNat j) (.ofNat (p.1.chunks C.toNat).length) d := by
  simp [Item.pieces, splitFrame, List.getElem?_zipIdx, Function.comp_def]

namespace LaneInv

variable {s : Lanes} {out todoS todoL : List Item} {j : ℕ}

theorem small_of_mem (h : LaneInv C s out todoS todoL j) {p : Item} (hp : p ∈ todoS) :
    p ∈ s.pushed.zipIdx ∧ p.small C = true := by
  have hmem : p ∈ s.pushed.zipIdx.filter (Item.small C) := by
    rw [← h.small]
    exact List.mem_append_right _ hp
  exact List.mem_filter.mp hmem

theorem large_of_mem (h : LaneInv C s out todoS todoL j) {p : Item} (hp : p ∈ todoL) :
    p ∈ s.pushed.zipIdx ∧ C.toNat < p.1.length ∧ p.1.length ≤ 65535 * C.toNat := by
  have hmem : p ∈ s.pushed.zipIdx.filter fun p => !Item.small C p := by
    rw [← h.large]
    exact List.mem_append_right _ hp
  obtain ⟨hin, hlarge⟩ := List.mem_filter.mp hmem
  refine ⟨hin, ?_, h.fits _ (List.fst_mem_of_mem_zipIdx hin)⟩
  simpa [Item.small] using hlarge

/-- The position in the next large frame is inside what is still to come. -/
theorem j_le (h : LaneInv C s out todoS todoL j) : j ≤ (todoL.flatMap (Item.pieces C)).length := by
  rcases h.rx with ⟨rfl, -⟩ | ⟨p, rest, fr, rfl, -, hj, -⟩
  · exact Nat.zero_le _
  · have hp := splitFrame_length C (.ofNat p.2) p.1
    simp only [List.flatMap_cons, List.length_append, Item.pieces]
    omega

theorem pushSmall (h : LaneInv C s out todoS todoL j) {f : List UInt8} (hf : f.length ≤ C.toNat) :
    LaneInv C { s with
      pushed := s.pushed ++ [f], seed := s.seed + 1, high := s.high ++ [.chunk s.seed 0 1 f] }
      out (todoS ++ [(f, s.pushed.length)]) todoL j where
  seed := by simp [h.seed]
  fits := by
    intro g hg
    rcases List.mem_append.mp hg with hg | hg
    · exact h.fits g hg
    · rw [List.mem_singleton.mp hg]
      omega
  outs := h.outs
  small := by
    rw [zipIdx_snoc, List.filter_append, ← h.small, List.append_assoc]
    simp [Item.small, hf]
  large := by
    rw [zipIdx_snoc, List.filter_append, h.large]
    simp [Item.small, hf]
  high := by
    rw [List.map_append, ← h.high, List.append_assoc, h.seed]
    rfl
  low := h.low
  rx := h.rx

theorem pushLarge (h : LaneInv C s out todoS todoL j) {f : List UInt8} (hf : C.toNat < f.length)
    (hmax : f.length ≤ 65535 * C.toNat) :
    LaneInv C { s with
      pushed := s.pushed ++ [f], seed := s.seed + 1, low := s.low ++ splitFrame C s.seed f }
      out todoS (todoL ++ [(f, s.pushed.length)]) j where
  seed := by simp [h.seed]
  fits := by
    intro g hg
    rcases List.mem_append.mp hg with hg | hg
    · exact h.fits g hg
    · rw [List.mem_singleton.mp hg]
      exact hmax
  outs := h.outs
  small := by
    rw [zipIdx_snoc, List.filter_append, h.small]
    simp [Item.small, hf]
  large := by
    rw [zipIdx_snoc, List.filter_append, ← h.large, List.append_assoc]
    simp [Item.small, hf]
  high := h.high
  low := by
    rw [List.flatMap_append, List.drop_append_of_le_length h.j_le, ← h.low, List.append_assoc, h.seed]
    simp [Item.pieces]
  rx := by
    rcases h.rx with hnone | ⟨p, rest, fr, rfl, hsome⟩
    · exact .inl hnone
    · exact .inr ⟨p, rest ++ [(f, s.pushed.length)], fr, rfl, hsome⟩

theorem sendHigh (h : LaneInv C s out todoS todoL j) {c : ConnectionChunk}
    {rest : List ConnectionChunk} (hc : s.high = c :: rest) :
    LaneInv C { s with high := rest, wire := s.wire ++ [c] } out todoS todoL j := by
  have hwhole : isWhole c = true := by
    have hmem : c ∈ todoS.map Item.whole := by
      rw [← h.high, hc]
      simp
    obtain ⟨p, -, rfl⟩ := List.mem_map.mp hmem
    rfl
  refine ⟨h.seed, h.fits, h.outs, h.small, h.large, ?_, ?_, h.rx⟩
  · rw [← h.high, hc]
    simp [List.filter_append, hwhole]
  · rw [← h.low]
    simp [List.filter_append, hwhole]

theorem sendLow (h : LaneInv C s out todoS todoL j) {c : ConnectionChunk}
    {rest : List ConnectionChunk} (hc : s.low = c :: rest) :
    LaneInv C { s with low := rest, wire := s.wire ++ [c] } out todoS todoL j := by
  have hpiece : isWhole c = false := by
    have hmem : c ∈ (todoL.flatMap (Item.pieces C)).drop j := by
      rw [← h.low, hc]
      simp
    obtain ⟨p, hp, hcp⟩ := List.mem_flatMap.mp (List.mem_of_mem_drop hmem)
    obtain ⟨-, hlt, hmax⟩ := h.large_of_mem hp
    exact isWhole_of_mem_pieces hlt hmax hcp
  refine ⟨h.seed, h.fits, h.outs, h.small, h.large, ?_, ?_, h.rx⟩
  · rw [← h.high]
    simp [List.filter_append, hpiece]
  · rw [← h.low, hc]
    simp [List.filter_append, hpiece]

theorem recv (h : LaneInv C s out todoS todoL j) {f : List UInt8} {rest : List (List UInt8)}
    (hf : s.outs = f :: rest) :
    LaneInv C { s with popped := s.popped ++ [f], outs := rest } out todoS todoL j := by
  refine ⟨h.seed, h.fits, ?_, h.small, h.large, h.high, h.low, h.rx⟩
  rw [h.outs, hf]
  simp

/-- A whole frame arrives and comes out at once. -/
theorem arrive_whole (h : LaneInv C s out todoS todoL j) {f : UInt32} {i : UInt16}
    {d : List UInt8} {rest : List ConnectionChunk} (hw : s.wire = .chunk f i 1 d :: rest) :
    ∃ p todoS', todoS = p :: todoS' ∧
      LaneInv C { s with wire := rest, outs := s.outs ++ [d] } (out ++ [p]) todoS' todoL j := by
  have hhigh := h.high
  have hlow := h.low
  have hwhole : isWhole (.chunk f i 1 d) = true := rfl
  rw [hw] at hhigh hlow
  simp only [List.filter_cons, hwhole, if_true, Bool.not_true, Bool.false_eq_true, if_false,
    List.cons_append] at hhigh hlow
  obtain ⟨p, todoS', rfl, hp, hrest⟩ := List.map_eq_cons_iff.mp hhigh.symm
  obtain ⟨-, hsmall⟩ := h.small_of_mem List.mem_cons_self
  have hd : p.1 = d := by
    cases hp
    rfl
  refine ⟨p, todoS', rfl, h.seed, h.fits, ?_, ?_, ?_, hrest.symm, hlow, h.rx⟩
  · rw [List.map_append, h.outs, List.append_assoc]
    simp [hd]
  · rw [← h.small, List.filter_append]
    simp [hsmall]
  · rw [← h.large, List.filter_append]
    simp [hsmall]

/-- What the receiver holds of the next large frame. -/
theorem frame (h : LaneInv C s out todoS todoL j) {p : Item} {rest : List Item}
    (hL : todoL = p :: rest) : j < (p.1.chunks C.toNat).length ∧ ∃ fr : IncomingFrame,
      (s.incomings.lookup (.ofNat p.2)).getD ⟨.ofNat (p.1.chunks C.toNat).length, ∅⟩ = fr ∧
      fr.chunkCount = .ofNat (p.1.chunks C.toNat).length ∧
      fr.chunks.toList = numbered ((p.1.chunks C.toNat).take j) ∧
      ∀ id, id ≠ .ofNat p.2 → s.incomings.lookup id = none := by
  rcases h.rx with ⟨rfl, hnone⟩ | ⟨q, rest', fr, hq, -, hj, hfr, hcount, hchunks, hother⟩
  · obtain ⟨-, hlt, hmax⟩ := h.large_of_mem (hL ▸ List.mem_cons_self)
    have htwo := (chunks_of_large hlt hmax).1
    exact ⟨by omega, _, rfl, by simp [hnone], by rw [hnone]; rfl, fun id _ => hnone id⟩
  · cases hL.symm.trans hq
    exact ⟨hj, fr, by simp [hfr], hcount, hchunks, hother⟩

/-- A chunk of a large frame arrives: it is the next one of the next such frame,
which comes out with its last chunk. -/
theorem arrive_piece (h : LaneInv C s out todoS todoL j) {f : UInt32} {i n : UInt16}
    {d : List UInt8} {rest : List ConnectionChunk} (hw : s.wire = .chunk f i n d :: rest)
    (hn : n ≠ 1) {b : ConnectionBuffer C A} (hinc : b.incomings = s.incomings)
    (houts : b.outs = s.outs) :
    ∃ out' todoL' j', LaneInv C { s with
      wire := rest
      incomings := (b.onChunk f i n d).incomings
      outs := (b.onChunk f i n d).outs } out' todoS todoL' j' := by
  have hhigh := h.high
  have hlow := h.low
  have hpiece : isWhole (.chunk f i n d) = false := decide_eq_false hn
  rw [hw] at hhigh hlow
  simp only [List.filter_cons, hpiece, Bool.not_false, Bool.false_eq_true, if_true, if_false,
    List.cons_append] at hhigh hlow
  cases hL : todoL with
  | nil => simp [hL] at hlow
  | cons p tl =>
    obtain ⟨hj, fr, hfr, hcount, hchunks, hother⟩ := h.frame hL
    obtain ⟨hin, hlt, hmax⟩ := h.large_of_mem (hL ▸ List.mem_cons_self)
    obtain ⟨htwo, hlen⟩ := chunks_of_large hlt hmax
    have hj' : j < (p.pieces C).length := by
      rw [Item.pieces, splitFrame_length]
      exact hj
    -- the arriving chunk is number `j` of the frame
    rw [hL, List.flatMap_cons, List.drop_append_of_le_length (Nat.le_of_lt hj'),
      List.drop_eq_getElem_cons hj', List.cons_append] at hlow
    obtain ⟨hchunk, hrest⟩ := List.cons_eq_cons.mp hlow
    have hget := pieces_getElem? (C := C) p j
    rw [List.getElem?_eq_getElem hj', List.getElem?_eq_getElem hj, ← hchunk] at hget
    cases hget
    have hlarge : p.small C = false := by simpa [Item.small] using hlt
    rw [← hinc] at hfr
    rcases onChunk_piece hj htwo hlen hfr hcount hchunks with
      ⟨hlast, hinc', houts'⟩ | ⟨hmore, fr', hinc', houts', hcount', hchunks'⟩
    · refine ⟨out ++ [p], tl, 0, h.seed, h.fits, ?_, ?_, ?_, hhigh, ?_, .inl ⟨rfl, ?_⟩⟩
      · rw [houts', houts, List.map_append, h.outs, List.chunks_flatten (by omega)]
        simp
      · rw [← h.small, List.filter_append]
        simp [hlarge]
      · rw [← h.large, List.filter_append, hL]
        simp [hlarge]
      · have hend : (p.pieces C).length = j + 1 := by
          rw [Item.pieces, splitFrame_length, hlast]
        rw [hrest, ← hend, List.drop_length]
        rfl
      · intro id
        rw [hinc', hinc]
        by_cases hid : id = .ofNat p.2
        · rw [hid]
          exact AList.lookup_erase _ _
        · rw [AList.lookup_erase_ne hid]
          exact hother id hid
    · refine ⟨out, p :: tl, j + 1, h.seed, h.fits, ?_, h.small, ?_, hhigh, ?_, .inr
        ⟨p, tl, fr', rfl, Nat.succ_pos j, hmore, ?_, hcount', hchunks', ?_⟩⟩
      · rw [houts', houts]
        exact h.outs
      · rw [← h.large, hL]
      · rw [hrest, List.flatMap_cons, List.drop_append_of_le_length hj']
      · rw [hinc']
        exact AList.lookup_insert _
      · intro id hid
        rw [hinc', AList.lookup_insert_ne hid, hinc]
        exact hother id hid

theorem step {s' : Lanes} (h : LaneInv C s out todoS todoL j) (hs : LaneStep C A s s') :
    ∃ out' todoS' todoL' j', LaneInv C s' out' todoS' todoL' j' := by
  cases hs with
  | pushSmall f hf => exact ⟨_, _, _, _, h.pushSmall hf⟩
  | pushLarge f hf hmax => exact ⟨_, _, _, _, h.pushLarge hf hmax⟩
  | sendHigh c rest hc => exact ⟨_, _, _, _, h.sendHigh hc⟩
  | sendLow c rest hc => exact ⟨_, _, _, _, h.sendLow hc⟩
  | recv f rest hf => exact ⟨_, _, _, _, h.recv hf⟩
  | arrive f i n d rest hw b hinc houts =>
    by_cases hn : n = 1
    · subst hn
      obtain ⟨p, todoS', -, h'⟩ := h.arrive_whole hw
      refine ⟨out ++ [p], todoS', todoL, j, ?_⟩
      simpa [ConnectionBuffer.onChunk, hinc, houts] using h'
    · obtain ⟨out', todoL', j', h'⟩ := h.arrive_piece hw hn hinc houts
      exact ⟨out', _, todoL', j', h'⟩

end LaneInv

/-- The numbers `ids` say which of the pushed frames came out: each of them as it
was pushed, none twice, small and large ones in order among themselves; a frame
that has not come out still has a chunk that is pending. -/
structure Delivered (C : UInt64) (pushed out : List (List UInt8)) (pending : ConnectionChunk → Prop)
    (ids : List ℕ) : Prop where
  intact : List.Forall₂ (fun i f => pushed[i]? = some f) ids out
  once : ids.Nodup
  inOrder : ids.Pairwise fun i j => ∀ f g, pushed[i]? = some f → pushed[j]? = some g →
    (f.length ≤ C.toNat ↔ g.length ≤ C.toNat) → i < j
  kept : ∀ i f, pushed[i]? = some f → i ∉ ids → ∃ c ∈ frameChunks C i f, pending c

namespace LaneInv

variable {s : Lanes} {out todoS todoL : List Item} {j : ℕ}

theorem getElem?_of_mem_out (h : LaneInv C s out todoS todoL j) {p : Item} (hp : p ∈ out) :
    s.pushed[p.2]? = some p.1 := by
  apply List.mem_zipIdx_iff_getElem?.mp
  cases hsmall : p.small C with
  | true =>
    have hmem : p ∈ s.pushed.zipIdx.filter (Item.small C) := by
      rw [← h.small]
      exact List.mem_append_left _ (List.mem_filter.mpr ⟨hp, hsmall⟩)
    exact (List.mem_filter.mp hmem).1
  | false =>
    have hmem : p ∈ s.pushed.zipIdx.filter fun p => !Item.small C p := by
      rw [← h.large]
      exact List.mem_append_left _ (List.mem_filter.mpr ⟨hp, by simp [hsmall]⟩)
    exact (List.mem_filter.mp hmem).1

/-- Frames of one kind come out in the order of their numbers. -/
theorem out_pairwise (h : LaneInv C s out todoS todoL j) :
    out.Pairwise fun p q => p.small C = q.small C → p.2 < q.2 := by
  have hsorted : s.pushed.zipIdx.Pairwise fun p q => p.2 < q.2 := by
    rw [← List.pairwise_map, List.zipIdx_map_snd]
    exact List.pairwise_lt_range'
  have hsmall : (out.filter (Item.small C)).Pairwise fun p q => p.2 < q.2 := by
    have hp := hsorted.filter (Item.small C)
    rw [← h.small] at hp
    exact (List.pairwise_append.mp hp).1
  have hlarge : (out.filter fun p => !Item.small C p).Pairwise fun p q => p.2 < q.2 := by
    have hp := hsorted.filter fun p => !Item.small C p
    rw [← h.large] at hp
    exact (List.pairwise_append.mp hp).1
  rw [List.pairwise_filter] at hsmall hlarge
  apply (hsmall.and hlarge).imp
  intro p q hpq hkind
  cases hp : p.small C with
  | true => exact hpq.1 hp (hkind ▸ hp)
  | false => exact hpq.2 (by simp [hp]) (by simp [← hkind, hp])

/-- Some piece of every large frame that is still to come has not arrived. -/
theorem piece_left (h : LaneInv C s out todoS todoL j) {p : Item} (hp : p ∈ todoL) :
    ∃ c ∈ p.pieces C, c ∈ (todoL.flatMap (Item.pieces C)).drop j := by
  cases hL : todoL with
  | nil => simp [hL] at hp
  | cons q tl =>
    have hj : j < (q.pieces C).length := by
      rw [Item.pieces, splitFrame_length]
      exact (h.frame hL).1
    rw [List.flatMap_cons, List.drop_append_of_le_length (Nat.le_of_lt hj)]
    rcases List.mem_cons.mp (hL ▸ hp) with rfl | htl
    · refine ⟨(p.pieces C)[j], List.getElem_mem hj, ?_⟩
      rw [List.drop_eq_getElem_cons hj]
      exact List.mem_cons_self
    · obtain ⟨-, hlt, hmax⟩ := h.large_of_mem hp
      have htwo := (chunks_of_large hlt hmax).1
      have hpos : 0 < (p.pieces C).length := by
        rw [Item.pieces, splitFrame_length]
        omega
      refine ⟨(p.pieces C)[0], List.getElem_mem hpos, ?_⟩
      exact List.mem_append_right _ (List.mem_flatMap.mpr ⟨p, htl, List.getElem_mem hpos⟩)

/-- A frame that has not come out has a chunk queued or on the way. -/
theorem pending_chunk (h : LaneInv C s out todoS todoL j) {i : ℕ} {f : List UInt8}
    (hi : s.pushed[i]? = some f) (hout : (f, i) ∉ out) :
    ∃ c ∈ frameChunks C i f, c ∈ s.wire ∨ c ∈ s.high ∨ c ∈ s.low := by
  have hin : ((f, i) : Item) ∈ s.pushed.zipIdx := List.mem_zipIdx_iff_getElem?.mpr hi
  cases hkind : Item.small C (f, i) with
  | true =>
    have hmem : (f, i) ∈ out.filter (Item.small C) ++ todoS := by
      rw [h.small]
      exact List.mem_filter.mpr ⟨hin, hkind⟩
    have htodo : (f, i) ∈ todoS :=
      (List.mem_append.mp hmem).resolve_left fun hm => hout (List.mem_filter.mp hm).1
    have hchunk : Item.whole (f, i) ∈ s.wire.filter isWhole ++ s.high := by
      rw [h.high]
      exact List.mem_map_of_mem htodo
    have hle : f.length ≤ C.toNat := of_decide_eq_true hkind
    refine ⟨Item.whole (f, i), by simp [frameChunks, hle, Item.whole], ?_⟩
    rcases List.mem_append.mp hchunk with hc | hc
    · exact .inl (List.mem_filter.mp hc).1
    · exact .inr (.inl hc)
  | false =>
    have hmem : (f, i) ∈ out.filter (fun p => !Item.small C p) ++ todoL := by
      rw [h.large]
      exact List.mem_filter.mpr ⟨hin, by simp [hkind]⟩
    have htodo : (f, i) ∈ todoL :=
      (List.mem_append.mp hmem).resolve_left fun hm => hout (List.mem_filter.mp hm).1
    obtain ⟨-, hlt, -⟩ := h.large_of_mem htodo
    obtain ⟨c, hc, hrest⟩ := h.piece_left htodo
    have hle : ¬ f.length ≤ C.toNat := Nat.not_le.mpr hlt
    refine ⟨c, by simpa [frameChunks, hle, Item.pieces] using hc, ?_⟩
    rw [← h.low] at hrest
    rcases List.mem_append.mp hrest with hc | hc
    · exact .inl (List.mem_filter.mp hc).1
    · exact .inr (.inr hc)

theorem delivered (h : LaneInv C s out todoS todoL j) :
    Delivered C s.pushed (s.popped ++ s.outs) (fun c => c ∈ s.wire ∨ c ∈ s.high ∨ c ∈ s.low)
      (out.map Prod.snd) where
  intact := by
    rw [← h.outs, List.forall₂_map_left_iff, List.forall₂_map_right_iff, List.forall₂_same]
    exact fun p hp => h.getElem?_of_mem_out hp
  once := by
    rw [List.Nodup, List.pairwise_map]
    apply h.out_pairwise.imp_of_mem
    intro p q hp hq hlt heq
    -- two frames of one number are one frame, so of one kind
    have hp' := h.getElem?_of_mem_out hp
    have hq' := h.getElem?_of_mem_out hq
    rw [heq, hq'] at hp'
    have hpq : q = p := Prod.ext (Option.some.inj hp') heq.symm
    subst hpq
    exact lt_irrefl _ (hlt rfl)
  inOrder := by
    rw [List.pairwise_map]
    apply h.out_pairwise.imp_of_mem
    intro p q hp hq hlt f g hf hg hkind
    rw [h.getElem?_of_mem_out hp] at hf
    rw [h.getElem?_of_mem_out hq] at hg
    cases hf
    cases hg
    exact hlt (decide_eq_decide.mpr hkind)
  kept := by
    intro i f hi hids
    apply h.pending_chunk hi
    intro hmem
    exact hids (List.mem_map_of_mem hmem)

end LaneInv

namespace Duplex

theorem lanes_run {es : List DuplexEvent} {σ : Duplex C A} (hrun : Run Step init es σ) (x : Side)
    (hmax : ∀ f ∈ pushes x es, f.length ≤ 65535 * C.toNat) :
    ∃ out todoS todoL j, LaneInv C (σ.lanes es x) out todoS todoL j := by
  induction hrun with
  | nil => exact ⟨[], [], [], 0, rfl, by simp [lanes, lanesOf, pushes], rfl, rfl, rfl, rfl, rfl,
      .inl ⟨rfl, fun id => rfl⟩⟩
  | @snoc es τ τ' e hrun hs ih =>
    obtain ⟨out, todoS, todoL, j, h⟩ :=
      ih fun f hf => hmax f (by simpa [pushes] using .inl (by simpa [pushes] using hf))
    rcases lanes_step es x (bounded_run hrun) hs
      (fun f he => hmax f (by rw [mem_pushes, he]; simp)) with heq | hstep
    · exact ⟨out, todoS, todoL, j, heq ▸ h⟩
    · exact h.step hstep

/-- Whatever the order of pushes, sends, arrivals and receptions: what comes out on
the other side of `x` are frames pushed on `x`, whole, none of them twice, and in
order within each kind; and of every frame that has not come out some chunk is
still queued at `x` or on its way. -/
theorem frames_delivered_once {es : List DuplexEvent} {σ : Duplex C A} (hrun : Run Step init es σ)
    (x : Side) (hmax : ∀ f ∈ pushes x es, f.length ≤ 65535 * C.toNat) :
    ∃ ids, Delivered C (pushes x es) (recvs x.peer es ++ (σ.buf x.peer).outs)
      (fun c => c ∈ (σ.buf x).highPriority ∨ c ∈ (σ.buf x).lowPriority ∨
        ∃ msg ∈ σ.chan x, ConnectionChunk.deserialize msg = some c) ids := by
  obtain ⟨out, todoS, todoL, j, h⟩ := lanes_run hrun x hmax
  have hd := h.delivered
  refine ⟨out.map Prod.snd, hd.intact, hd.once, hd.inOrder, ?_⟩
  intro i f hi hids
  obtain ⟨c, hc, hwire | hhigh | hlow⟩ := hd.kept i f hi hids
  · exact ⟨c, hc, .inr (.inr (List.mem_filterMap.mp (List.mem_filter.mp hwire).1))⟩
  · exact ⟨c, hc, .inl (List.mem_filter.mp hhigh).1⟩
  · exact ⟨c, hc, .inr (.inl (List.mem_filter.mp hlow).1)⟩

/-- A small frame overtakes a large one, of which one chunk arrives. -/
theorem frames_delivered_once_hybrid :
    ∃ σ : Duplex 2 100, Run Step init
      [.push .a [1, 2, 3], .push .a [9], .send .a, .send .a, .deliver .a, .recv .b [9], .deliver .a] σ ∧
      ∃ ids, Delivered 2 [[1, 2, 3], [9]] ([[9]] ++ (σ.buf .b).outs)
        (fun c => c ∈ (σ.buf .a).highPriority ∨ c ∈ (σ.buf .a).lowPriority ∨
          ∃ msg ∈ σ.chan .a, ConnectionChunk.deserialize msg = some c) ids := by
  have h0 : Run Step (init : Duplex 2 100) [] _ := .nil
  have h1 := h0.snoc (.push _ .a [1, 2, 3] _ rfl)
  have h2 := h1.snoc (.push _ .a [9] _ rfl)
  have h3 := h2.snoc (.send _ .a _ _ rfl)
  have h4 := h3.snoc (.send _ .a _ _ rfl)
  have h5 := h4.snoc (.deliver _ .a _ _ rfl)
  have h6 := h5.snoc (.recv _ .b [9] _ rfl)
  have h7 := h6.snoc (.deliver _ .a _ _ rfl)
  exact ⟨_, h7, frames_delivered_once h7 .a (by decide)⟩

end Duplex
end Dllm
