import DecentralizedInference.Proofs.RpcMatching

/-! What keeps a call waiting. A call is entered into `waits` before its request is sent, a
failed `send` is only logged, and a disconnect only concerns the route table, although a
dropped oneshot would end the call with an error. So every waiter has a request under way
exactly as long as no request is sent to a node without a connection and no node disconnects
while a call waits for it. -/

namespace Dllm

namespace NetworkNode

variable {Node Msg : Type} [DecidableEq Node]

/-- The index of nodes leads to a connection that is there. -/
def Connected (s : NetworkNode Node Msg) (dest : Node) : Prop :=
  ∃ connId ∈ s.nodes.lookup dest, s.conns.lookup connId ≠ none

instance (s : NetworkNode Node Msg) (dest : Node) : Decidable (s.Connected dest) :=
  inferInstanceAs (Decidable (∃ connId ∈ s.nodes.lookup dest, s.conns.lookup connId ≠ none))

theorem send_ok_iff (decode : List UInt8 → Option Msg) (s : NetworkNode Node Msg) (dest : Node)
    (buf : List UInt8) (outputs : List RtcOutput) : (s.send decode dest buf outputs).1 = .ok () ↔ s.Connected dest := by
  unfold send Connected
  cases s.nodes.lookup dest with
  | none => simp
  | some connId =>
    cases hconn : s.conns.lookup connId <;> simp [hconn]

end NetworkNode

namespace CallBook

variable {Node : Type} [DecidableEq Node] {b b' : CallBook Node} {k k' : ℕ} {m : CallMove Node}

/-- What waits was taken by `send`, and its destination has not disconnected since. -/
def NoOrphan (b : CallBook Node) : Prop :=
  ∀ q i, b.rpc.waits.lookup q = some i → ∃ r, b.records[i]? = some r ∧ r.accepted = true ∧ r.cut = false

def WaitsFor (b : CallBook Node) (node : Node) : Prop :=
  ∃ p ∈ b.rpc.waits.entries, ∃ r ∈ b.records[p.2]?, r.call.dest = node

instance (b : CallBook Node) (node : Node) : Decidable (b.WaitsFor node) :=
  inferInstanceAs (Decidable (∃ p ∈ b.rpc.waits.entries, ∃ r ∈ b.records[p.2]?, r.call.dest = node))

omit [DecidableEq Node] in
theorem noOrphan_asked (hb : b.NoOrphan) (c : RpcCall Node) :
    NoOrphan ⟨b.rpc.request c, b.records ++ [{ call := c }]⟩ := by
  intro q i hq
  obtain ⟨r, hr, hgood⟩ := hb q i hq
  exact ⟨r, List.getElem?_snoc_eq_some_iff.mpr (.inl hr), hgood⟩

theorem noOrphan_heard (hb : b.NoOrphan) (rpc : RpcClientRx Node) (remote : Node) (res : RpcRes)
    (hwaits : ∀ q i, rpc.waits.lookup q = some i → b.rpc.waits.lookup q = some i) :
    NoOrphan ⟨rpc, b.records.map (CallRecord.heard remote res)⟩ := by
  intro q i hq
  obtain ⟨r, hr, hgood⟩ := hb q i (hwaits q i hq)
  refine ⟨r.heard remote res, by rw [List.getElem?_map, hr]; rfl, ?_⟩
  unfold CallRecord.heard
  split <;> exact hgood

omit [DecidableEq Node] in
/-- The call that is sent waits from then on, whatever `send` has said. -/
theorem noOrphan_sent_iff (h : b.Numbered k) (hb : b.NoOrphan) (accepted : Bool) {c : RpcCall Node}
    {rx : List (ℕ × RpcCall Node)} (hrx : b.rpc.rx = (k, c) :: rx) :
    NoOrphan ⟨{ b.rpc with
        seqSeed := b.rpc.seqSeed + 1
        waits := b.rpc.waits.insert (b.rpc.seqSeed + 1) k
        rx },
      b.records.modify k (CallRecord.sent (b.rpc.seqSeed + 1) accepted)⟩ ↔ accepted = true := by
  refine ⟨fun h' => ?_, fun haccepted q i hq => ?_⟩
  · obtain ⟨r, hr, haccepted, -⟩ := h' (b.rpc.seqSeed + 1) k (AList.lookup_insert _)
    rw [List.getElem?_modify_eq] at hr
    obtain ⟨r, -, rfl⟩ := Option.map_eq_some_iff.mp hr
    exact haccepted
  · by_cases hqk : q = b.rpc.seqSeed + 1
    · rw [hqk, AList.lookup_insert] at hq
      obtain rfl := Option.some.inj hq
      have hk : k < b.records.length := Nat.lt_of_succ_le (by simpa using (h.sent accepted hrx).le)
      refine ⟨b.records[k].sent (b.rpc.seqSeed + 1) accepted, ?_, haccepted, ?_⟩
      · rw [List.getElem?_modify_eq, List.getElem?_eq_getElem hk]
        rfl
      · have hseq : b.records[k].seq = none := by simpa using h.seq k _ (List.getElem?_eq_getElem hk)
        exact (h.unsent k _ (List.getElem?_eq_getElem hk) hseq).2
    · rw [AList.lookup_insert_ne hqk] at hq
      obtain ⟨r, hr, hgood⟩ := hb q i hq
      refine ⟨r, ?_, hgood⟩
      rw [List.getElem?_modify_ne _ _ (Nat.ne_of_gt (h.waits q i hq))]
      exact hr

theorem noOrphan_disconnected_iff (h : b.Numbered k) (hb : b.NoOrphan) (node : Node) :
    NoOrphan ⟨b.rpc, b.records.map (CallRecord.cutOff node)⟩ ↔ ¬ b.WaitsFor node := by
  constructor
  · rintro h' ⟨⟨q, i⟩, hq, r, hr, hdest⟩
    rw [← AList.lookup_eq_some_iff] at hq
    obtain ⟨r', hr', -, hcut⟩ := h' q i hq
    rw [List.getElem?_map, hr] at hr'
    obtain rfl := Option.some.inj hr'
    have hseq : r.seq ≠ none := by simp [h.seq i r hr, h.waits q i hq]
    simp [CallRecord.cutOff, hseq, hdest] at hcut
  · intro hnone q i hq
    obtain ⟨r, hr, hgood⟩ := hb q i hq
    have hdest : r.call.dest ≠ node := fun hdest => hnone ⟨⟨q, i⟩, AList.lookup_eq_some_iff.mp hq, r, hr, hdest⟩
    refine ⟨r, ?_, hgood⟩
    rw [List.getElem?_map, hr]
    simp [CallRecord.cutOff, hdest]

/-- The moves that leave no call behind. -/
def Attended (b : CallBook Node) : CallMove Node → Prop
  | .sent accepted => accepted = true
  | .disconnected node => ¬ b.WaitsFor node
  | _ => True

theorem noOrphan_step_iff (h : b.Numbered k) (hm : Moved b k m b' k') (hb : b.NoOrphan) :
    b'.NoOrphan ↔ b.Attended m := by
  cases hm with
  | idle => exact iff_of_true hb trivial
  | asked c => exact iff_of_true (noOrphan_asked hb c) trivial
  | abandoned call => exact iff_of_true hb trivial
  | sent accepted c rx hrx => exact noOrphan_sent_iff h hb accepted hrx
  | ignored remote res => exact iff_of_true (noOrphan_heard hb _ remote res fun _ _ hq => hq) trivial
  | resolved remote res call =>
    exact iff_of_true
      (noOrphan_heard hb _ remote res fun _ _ hq => (AList.lookup_erase_eq_some_iff.mp hq).2) trivial
  | disconnected node => exact noOrphan_disconnected_iff h hb node

end CallBook

namespace CommWorld

variable {Addr Node Stats : Type} {N : ℕ} [DecidableEq Addr] [DecidableEq Node] {codec : EventCodec}
  {range : Range} {es : List (CommEvent Addr Node Stats)} {w w' : CommWorld Addr Node Stats N}
  {e : CommEvent Addr Node Stats}

/-- The next request goes to a node with a connection, and the next disconnect is that of a
node which no call waits for. -/
def Orderly (w : CommWorld Addr Node Stats N) : CommEvent Addr Node Stats → Prop
  | .rpc _ => ∀ p ∈ w.comm.rpcRx.rx.head?, w.comm.network.node.Connected p.2.dest
  | .network _ =>
    match w.comm.network.node.events with
    | .nodeDisconnected _ node :: _ => ¬ w.book.WaitsFor node
    | _ => True
  | _ => True

def OrderlyStep (codec : EventCodec) (w : CommWorld Addr Node Stats N) (e : CommEvent Addr Node Stats)
    (w' : CommWorld Addr Node Stats N) : Prop :=
  w.Orderly e ∧ w.step codec e = some w'

theorem attended_iff (h : w.step codec e = some w') :
    w.book.Attended (w.comm.callMove codec e) ↔ w.Orderly e := by
  cases e <;> try exact Iff.rfl
  case network ord =>
    unfold WorkerCommunication.callMove Orderly
    cases hevents : w.comm.network.node.events with
    | nil => exact Iff.rfl
    | cons out events =>
      rcases out with _ | ⟨_, _, _ | _ | _ | _ | _⟩ | _ <;> exact Iff.rfl
  case rpc outputs =>
    obtain ⟨comm, hcomm, -⟩ := Option.map_eq_some_iff.mp h
    obtain ⟨⟨dest, req, rpc⟩, hrecv, -⟩ := Option.map_eq_some_iff.mp hcomm
    obtain ⟨i, c, rx, hrx, rfl, -, -⟩ := RpcClientRx.recv_cases hrecv
    have hconn : w.Orderly (.rpc outputs) ↔ w.comm.network.node.Connected c.dest := by
      simp [Orderly, hrx]
    have hsend : (w.comm.network.send codec.decode c.dest (codec.encode (some (.rpcReq req))) outputs).1 =
        (w.comm.network.node.send codec.decode c.dest (codec.encode (some (.rpcReq req))) outputs).1 := rfl
    rw [hconn, ← NetworkNode.send_ok_iff codec.decode _ _ (codec.encode (some (.rpcReq req))) outputs]
    simp only [WorkerCommunication.callMove, hrecv, hsend]
    cases (w.comm.network.node.send codec.decode c.dest (codec.encode (some (.rpcReq req))) outputs).1 <;>
      simp [CallBook.Attended]

/-- As long as the steps are orderly, every number that waits belongs to a request that was sent
and can still be answered; and the first step that is not leaves a call behind. -/
theorem waiters_attended_iff (hrun : Run (OrderlyStep codec) (.new range) es w) :
    w.book.NoOrphan ∧ ∀ e w', w.step codec e = some w' → (w'.book.NoOrphan ↔ w.Orderly e) := by
  have hinv : ∃ k, w.book.Numbered k ∧ w.book.NoOrphan := by
    apply hrun.invariant
    case h0 => exact ⟨0, .init, fun q i hq => by cases hq⟩
    case hstep =>
      rintro a e b ⟨horderly, hstep⟩ ⟨k, hnum, ha⟩
      obtain ⟨k', hm⟩ := (step_book hstep).moved hnum
      refine ⟨k', hm.numbered hnum, ?_⟩
      exact (CallBook.noOrphan_step_iff hnum hm ha).mpr ((attended_iff hstep).mpr horderly)
  obtain ⟨k, hnum, hw⟩ := hinv
  refine ⟨hw, fun e w' hstep => ?_⟩
  obtain ⟨k', hm⟩ := (step_book hstep).moved hnum
  rw [CallBook.noOrphan_step_iff hnum hm hw, attended_iff hstep]

instance (w : CommWorld Addr Node Stats N) (e : CommEvent Addr Node Stats) : Decidable (w.Orderly e) := by
  unfold Orderly
  split
  · infer_instance
  · split <;> infer_instance
  · infer_instance

/-- A node is sent a request and disconnects, and is sent another one. -/
def askLost : List (CommEvent ℕ Bool Unit) :=
  let next : CommEvent ℕ Bool Unit := .network fun _ => .asIs
  [.offer true 1 "t" .accepted "sdp" [.channelOpen 0], next, .request ⟨true, "END", []⟩, .rpc [],
    .networkTick [1] fun _ => [.iceDisconnected], next, .request ⟨true, "END", []⟩, .rpc []]

theorem waiters_attended_iff_end :
    ∃ w : CommWorld ℕ Bool Unit 1, Run (OrderlyStep endCodec) (.new ⟨0, 1⟩) (askLost.take 5) w ∧
      w.book.rpc.waits.lookup 1 = some 0 ∧ w.book.NoOrphan ∧
      ∀ e w', w.step endCodec e = some w' → (w'.book.NoOrphan ↔ w.Orderly e) := by
  have hend : ((askLost.take 5).foldlM (fun (w : CommWorld ℕ Bool Unit 1) e =>
      if w.Orderly e then w.step endCodec e else none) (.new ⟨0, 1⟩)).map
      (fun w => w.book.rpc.waits.lookup 1) = some (some 0) := by decide +kernel
  obtain ⟨w, hw, hwait⟩ := Option.map_eq_some_iff.mp hend
  have hrun : Run (OrderlyStep endCodec) (.new ⟨0, 1⟩) (askLost.take 5) w :=
    (Run.of_foldlM hw).mono fun a e b h => Option.ite_none_right_eq_some.mp h
  exact ⟨w, hrun, hwait, waiters_attended_iff hrun⟩

/-- Both calls wait: the first for a node that is gone, the second for one that was not there. -/
theorem waiters_left_behind :
    ¬ ∀ (es : List (CommEvent ℕ Bool Unit)) (w : CommWorld ℕ Bool Unit 1),
      Run (fun w e w' => w.step endCodec e = some w') (.new ⟨0, 1⟩) es w → w.book.NoOrphan := by
  intro h
  have hend : (askLost.foldlM (step endCodec) (.new ⟨0, 1⟩ : CommWorld ℕ Bool Unit 1)).map
      (fun w => ([1, 2].map w.book.rpc.waits.lookup, w.records.map fun r => (r.accepted, r.cut))) =
      some ([some 0, some 1], [(true, true), (false, false)]) := by decide +kernel
  obtain ⟨w, hw, hobs⟩ := Option.map_eq_some_iff.mp hend
  obtain ⟨hwaits, hrecords⟩ := Prod.mk.inj hobs
  obtain ⟨r, hr, haccepted, hcut⟩ := h _ w (Run.of_foldlM hw) 1 0 (by simpa using congrArg List.head? hwaits)
  have hfirst := congrArg (fun l : List (Bool × Bool) => l[0]?) hrecords
  have hr' : w.records[0]? = some r := hr
  simp [hr', haccepted, hcut] at hfirst

end CommWorld
end Dllm
