import DecentralizedInference.Spec.Communication
import DecentralizedInference.Lib.Run

/-! The calls of `request` in a run of `WorkerCommunication`, with what an observer writes down
about each: the number its request was sent under, whether `send` took it, what its destination
has answered since, and whether that destination has been reported disconnected since. -/

namespace Dllm

structure CallRecord (Node : Type) where
  call : RpcCall Node
  seq : Option UInt32 := none
  accepted : Bool := false
  cut : Bool := false
  replies : List RpcRes := []

namespace CallRecord

variable {Node : Type} [DecidableEq Node]

omit [DecidableEq Node] in
def sent (seq : UInt32) (accepted : Bool) (r : CallRecord Node) : CallRecord Node :=
  { r with seq := some seq, accepted }

def heard (remote : Node) (res : RpcRes) (r : CallRecord Node) : CallRecord Node :=
  if r.seq = some res.seq ∧ r.call.dest = remote then { r with replies := r.replies ++ [res] } else r

def cutOff (node : Node) (r : CallRecord Node) : CallRecord Node :=
  if r.seq ≠ none ∧ r.call.dest = node then { r with cut := true } else r

end CallRecord

/-- What an event is to the calls. -/
inductive CallMove (Node : Type) where
  | idle
  | asked (c : RpcCall Node)
  | abandoned (call : ℕ)
  | sent (accepted : Bool)
  | replied (remote : Node) (res : RpcRes)
  | disconnected (node : Node)

/-- The RPC client and the records of its calls, in the order of the calls. -/
structure CallBook (Node : Type) where
  rpc : RpcClientRx Node := {}
  records : List (CallRecord Node) := []

namespace CallBook

variable {Node : Type} [DecidableEq Node]

/-- The responses that a call resolves with. -/
def results (b : CallBook Node) (i : ℕ) : List RpcRes :=
  (b.rpc.resolved.filter fun p => p.1 = i).map Prod.snd

def note (b : CallBook Node) : CallMove Node → List (CallRecord Node)
  | .asked c => b.records ++ [{ call := c }]
  | .sent accepted =>
    match b.rpc.rx with
    | [] => b.records
    | (call, _) :: _ => b.records.modify call (CallRecord.sent (b.rpc.seqSeed + 1) accepted)
  | .replied remote res => b.records.map (CallRecord.heard remote res)
  | .disconnected node => b.records.map (CallRecord.cutOff node)
  | _ => b.records

omit [DecidableEq Node] in
def onRpc (b : CallBook Node) : CallMove Node → Option (RpcClientRx Node)
  | .asked c => some (b.rpc.request c)
  | .abandoned call => some (b.rpc.abandon call)
  | .sent _ => b.rpc.recv.map fun r => r.2.2
  | .replied _ res => (b.rpc.onRes res).toOption
  | _ => some b.rpc

/-- A move of the book. -/
def Step (b : CallBook Node) (m : CallMove Node) (b' : CallBook Node) : Prop :=
  b.onRpc m = some b'.rpc ∧ b'.records = b.note m

end CallBook

namespace RpcClientRx

variable {Node : Type} {r r' : RpcClientRx Node}

theorem onRes_cases {res : RpcRes} (h : r.onRes res = .ok r') :
    (r.waits.lookup res.seq = none ∧ r' = r) ∨
      ∃ call, r.waits.lookup res.seq = some call ∧
        r' = { r with waits := r.waits.erase res.seq, resolved := r.resolved ++ [(call, res)] } := by
  unfold onRes at h
  split at h
  case h_1 hnone => exact .inl ⟨hnone, (Except.ok.inj h).symm⟩
  case h_2 call hcall =>
    split at h
    · cases h
    · exact .inr ⟨call, hcall, (Except.ok.inj h).symm⟩

theorem recv_cases {dest : Node} {req : RpcReq} (h : r.recv = some (dest, req, r')) :
    ∃ call c rx, r.rx = (call, c) :: rx ∧ dest = c.dest ∧ req = ⟨r.seqSeed + 1, c.cmd, c.payload⟩ ∧
      r' = { r with seqSeed := r.seqSeed + 1, waits := r.waits.insert (r.seqSeed + 1) call, rx } := by
  unfold recv at h
  split at h
  case h_1 => cases h
  case h_2 call c rx hrx =>
    obtain ⟨rfl, rfl, rfl⟩ : c.dest = dest ∧ _ = req ∧ _ = r' := by simpa using h
    exact ⟨call, c, rx, hrx, rfl, rfl, rfl⟩

end RpcClientRx

namespace CallRecord

variable {Node : Type} [DecidableEq Node] {r : CallRecord Node}

@[simp] theorem heard_call (remote : Node) (res : RpcRes) : (r.heard remote res).call = r.call := by
  unfold heard
  split <;> rfl

@[simp] theorem heard_seq (remote : Node) (res : RpcRes) : (r.heard remote res).seq = r.seq := by
  unfold heard
  split <;> rfl

theorem heard_of_seq_ne {remote : Node} {res : RpcRes} (h : r.seq ≠ some res.seq) : r.heard remote res = r :=
  if_neg fun hr => h hr.1

theorem cutOff_of_seq {node : Node} (h : r.seq = none) : r.cutOff node = r := if_neg fun hr => hr.1 h

@[simp] theorem cutOff_call (node : Node) : (r.cutOff node).call = r.call := by
  unfold cutOff
  split <;> rfl

@[simp] theorem cutOff_seq (node : Node) : (r.cutOff node).seq = r.seq := by
  unfold cutOff
  split <;> rfl

end CallRecord

namespace CallBook

variable {Node : Type} [DecidableEq Node] {b b' : CallBook Node} {k : ℕ}

/-- The calls go through the channel in their order, and the first `k` of them have left it:
a call is sent under its own number, counted from one. Only sent calls can wait, and nothing is
noted of the others. -/
structure Numbered (b : CallBook Node) (k : ℕ) : Prop where
  le : k ≤ b.records.length
  oneshots : b.rpc.oneshots = b.records.length
  seed : b.rpc.seqSeed = .ofNat k
  rx : b.rpc.rx = ((b.records.map CallRecord.call).zipIdx.drop k).map Prod.swap
  seq : ∀ i r, b.records[i]? = some r → r.seq = if i < k then some (.ofNat (i + 1)) else none
  waits : ∀ q i, b.rpc.waits.lookup q = some i → i < k
  unsent : ∀ (i : ℕ) r, b.records[i]? = some r → r.seq = none → r.replies = [] ∧ r.cut = false

omit [DecidableEq Node] in
theorem Numbered.init : ({} : CallBook Node).Numbered 0 where
  le := Nat.le_refl _
  oneshots := rfl
  seed := rfl
  rx := rfl
  seq := fun i r hr => by simp at hr
  waits := fun q i h => by cases h
  unsent := fun i r hr => by simp at hr

omit [DecidableEq Node] in
/-- Records that change in other things than their calls and numbers, and waiters that go. -/
theorem Numbered.keep (h : b.Numbered k) (hrpc : b'.rpc.oneshots = b.rpc.oneshots ∧
    b'.rpc.seqSeed = b.rpc.seqSeed ∧ b'.rpc.rx = b.rpc.rx)
    (f : CallRecord Node → CallRecord Node) (hrecords : b'.records = b.records.map f)
    (hcall : ∀ r, (f r).call = r.call) (hseq : ∀ r, (f r).seq = r.seq) (hunsent : ∀ r, r.seq = none → f r = r)
    (hwaits : ∀ q i, b'.rpc.waits.lookup q = some i → b.rpc.waits.lookup q = some i) : b'.Numbered k := by
  obtain ⟨honeshots, hseed, hrx⟩ := hrpc
  have hcalls : b'.records.map CallRecord.call = b.records.map CallRecord.call := by
    rw [hrecords, List.map_map]
    exact List.map_congr_left fun r _ => hcall r
  have hlength : b'.records.length = b.records.length := by rw [hrecords, List.length_map]
  refine ⟨hlength ▸ h.le, ?_, hseed.trans h.seed, ?_, ?_, fun q i hq => h.waits q i (hwaits q i hq), ?_⟩
  · rw [honeshots, h.oneshots, hlength]
  · rw [hrx, h.rx, hcalls]
  · intro i r hr
    rw [hrecords, List.getElem?_map] at hr
    obtain ⟨r', hr', rfl⟩ := Option.map_eq_some_iff.mp hr
    rw [hseq]
    exact h.seq i r' hr'
  · intro i r hr hnone
    rw [hrecords, List.getElem?_map] at hr
    obtain ⟨r', hr', rfl⟩ := Option.map_eq_some_iff.mp hr
    rw [hseq] at hnone
    rw [hunsent r' hnone]
    exact h.unsent i r' hr' hnone

theorem Numbered.heard (h : b.Numbered k) (hrpc : b'.rpc.oneshots = b.rpc.oneshots ∧
    b'.rpc.seqSeed = b.rpc.seqSeed ∧ b'.rpc.rx = b.rpc.rx) {remote : Node} {res : RpcRes}
    (hrecords : b'.records = b.records.map (CallRecord.heard remote res))
    (hwaits : ∀ q i, b'.rpc.waits.lookup q = some i → b.rpc.waits.lookup q = some i) : b'.Numbered k :=
  h.keep hrpc _ hrecords (fun _ => CallRecord.heard_call ..) (fun _ => CallRecord.heard_seq ..)
    (fun _ hseq => CallRecord.heard_of_seq_ne (by simp [hseq])) hwaits

omit [DecidableEq Node] in
theorem Numbered.asked (h : b.Numbered k) (c : RpcCall Node) :
    Numbered ⟨b.rpc.request c, b.records ++ [{ call := c }]⟩ k where
  le := by simpa using Nat.le_succ_of_le h.le
  oneshots := by simp [RpcClientRx.request, h.oneshots]
  seed := h.seed
  rx := by
    simp only [RpcClientRx.request, List.map_append, List.map_cons, List.map_nil, List.zipIdx_append]
    rw [List.drop_append_of_le_length (by simpa using h.le), List.map_append, h.rx, h.oneshots]
    simp
  seq := by
    intro i r hr
    rcases List.getElem?_snoc_eq_some_iff.mp hr with hr | ⟨rfl, rfl⟩
    · exact h.seq i r hr
    · simp [Nat.not_lt.mpr h.le]
  waits := h.waits
  unsent := by
    intro i r hr hseq
    rcases List.getElem?_snoc_eq_some_iff.mp hr with hr | ⟨rfl, rfl⟩
    · exact h.unsent i r hr hseq
    · exact ⟨rfl, rfl⟩

omit [DecidableEq Node] in
/-- The call that leaves the channel next is call `k`. -/
theorem Numbered.head (h : b.Numbered k) {call : ℕ} {c : RpcCall Node} {rx : List (ℕ × RpcCall Node)}
    (hrx : b.rpc.rx = (call, c) :: rx) : call = k ∧ (b.records.map CallRecord.call)[k]? = some c ∧
      rx = ((b.records.map CallRecord.call).zipIdx.drop (k + 1)).map Prod.swap := by
  rw [h.rx] at hrx
  have hk : k < (b.records.map CallRecord.call).zipIdx.length := by
    by_contra hk
    rw [List.drop_eq_nil_of_le (Nat.le_of_not_lt hk)] at hrx
    cases hrx
  rw [List.drop_eq_getElem_cons hk, List.map_cons] at hrx
  obtain ⟨hhead, hrest⟩ := List.cons.inj hrx
  rw [List.getElem_zipIdx] at hhead
  obtain ⟨hcall, hc⟩ := Prod.mk.inj hhead
  refine ⟨by simpa using hcall.symm, ?_, hrest.symm⟩
  rw [← hc]
  exact List.getElem?_eq_getElem _

omit [DecidableEq Node] in
theorem Numbered.sent (h : b.Numbered k) (accepted : Bool) {c : RpcCall Node} {rx : List (ℕ × RpcCall Node)}
    (hrx : b.rpc.rx = (k, c) :: rx) :
    Numbered ⟨{ b.rpc with
        seqSeed := b.rpc.seqSeed + 1
        waits := b.rpc.waits.insert (b.rpc.seqSeed + 1) k
        rx },
      b.records.modify k (CallRecord.sent (b.rpc.seqSeed + 1) accepted)⟩ (k + 1) := by
  obtain ⟨-, hc, hrest⟩ := h.head hrx
  have hk : k < b.records.length := by
    simpa using (List.getElem?_eq_some_iff.mp hc).1
  have hcalls : (b.records.modify k (CallRecord.sent (b.rpc.seqSeed + 1) accepted)).map CallRecord.call =
      b.records.map CallRecord.call := by
    apply List.ext_getElem?
    intro i
    rw [List.getElem?_map, List.getElem?_map, List.getElem?_modify]
    cases b.records[i]? with
    | none => rfl
    | some r =>
      by_cases hi : k = i <;> simp [hi, CallRecord.sent]
  have hseed : b.rpc.seqSeed + 1 = .ofNat (k + 1) := by
    rw [h.seed, UInt32.ofNat_add]
    rfl
  refine ⟨by simpa using Nat.succ_le_of_lt hk, by simpa using h.oneshots, hseed, ?_, ?_, ?_, ?_⟩
  · rw [hcalls]
    exact hrest
  · intro i r hr
    rw [List.getElem?_modify] at hr
    obtain ⟨r', hr', rfl⟩ := Option.map_eq_some_iff.mp hr
    by_cases hi : k = i
    · subst hi
      simp [CallRecord.sent, hseed]
    · rw [if_neg hi, h.seq i r' hr']
      have hiff : i < k ↔ i < k + 1 := by omega
      simp [hiff]
  · intro q i hq
    by_cases hqk : q = b.rpc.seqSeed + 1
    · rw [hqk, AList.lookup_insert] at hq
      obtain rfl := Option.some.inj hq
      exact Nat.lt_succ_self _
    · rw [AList.lookup_insert_ne hqk] at hq
      exact Nat.lt_succ_of_lt (h.waits q i hq)
  · intro i r hr hseq
    by_cases hi : k = i
    · subst hi
      rw [List.getElem?_modify_eq] at hr
      obtain ⟨r', -, rfl⟩ := Option.map_eq_some_iff.mp hr
      cases hseq
    · rw [List.getElem?_modify_ne _ _ hi] at hr
      exact h.unsent i r hr hseq

/-- What a move does to a numbered book. -/
inductive Moved (b : CallBook Node) (k : ℕ) : CallMove Node → CallBook Node → ℕ → Prop
  | idle : Moved b k .idle b k
  | asked (c : RpcCall Node) : Moved b k (.asked c) ⟨b.rpc.request c, b.records ++ [{ call := c }]⟩ k
  | abandoned (call : ℕ) : Moved b k (.abandoned call) ⟨b.rpc.abandon call, b.records⟩ k
  | sent (accepted : Bool) (c : RpcCall Node) (rx : List (ℕ × RpcCall Node)) (hrx : b.rpc.rx = (k, c) :: rx) :
      Moved b k (.sent accepted)
        ⟨{ b.rpc with
            seqSeed := b.rpc.seqSeed + 1
            waits := b.rpc.waits.insert (b.rpc.seqSeed + 1) k
            rx },
          b.records.modify k (CallRecord.sent (b.rpc.seqSeed + 1) accepted)⟩ (k + 1)
  | ignored (remote : Node) (res : RpcRes) (hres : b.rpc.waits.lookup res.seq = none) :
      Moved b k (.replied remote res) ⟨b.rpc, b.records.map (CallRecord.heard remote res)⟩ k
  | resolved (remote : Node) (res : RpcRes) (call : ℕ) (hres : b.rpc.waits.lookup res.seq = some call) :
      Moved b k (.replied remote res)
        ⟨{ b.rpc with
            waits := b.rpc.waits.erase res.seq
            resolved := b.rpc.resolved ++ [(call, res)] },
          b.records.map (CallRecord.heard remote res)⟩ k
  | disconnected (node : Node) :
      Moved b k (.disconnected node) ⟨b.rpc, b.records.map (CallRecord.cutOff node)⟩ k

theorem Step.moved (h : b.Numbered k) {m : CallMove Node} (hs : b.Step m b') : ∃ k', Moved b k m b' k' := by
  obtain ⟨rpc', records'⟩ := b'
  obtain ⟨hrpc, rfl⟩ : b.onRpc m = some rpc' ∧ records' = b.note m := hs
  cases m with
  | idle =>
    obtain rfl := Option.some.inj hrpc
    exact ⟨k, .idle⟩
  | asked c =>
    obtain rfl := Option.some.inj hrpc
    exact ⟨k, .asked c⟩
  | abandoned call =>
    obtain rfl := Option.some.inj hrpc
    exact ⟨k, .abandoned call⟩
  | sent accepted =>
    obtain ⟨⟨dest, req, rpc⟩, hrecv, rfl⟩ := Option.map_eq_some_iff.mp hrpc
    obtain ⟨call, c, rx, hrx, -, -, rfl⟩ := RpcClientRx.recv_cases hrecv
    obtain ⟨rfl, -, -⟩ := h.head hrx
    have hnote : b.note (.sent accepted) =
        b.records.modify call (CallRecord.sent (b.rpc.seqSeed + 1) accepted) := by
      simp only [note, hrx]
    rw [hnote]
    exact ⟨call + 1, .sent accepted c rx hrx⟩
  | replied remote res =>
    rcases RpcClientRx.onRes_cases (Except.toOption_eq_some_iff.mp hrpc) with ⟨hres, rfl⟩ | ⟨call, hres, rfl⟩
    · exact ⟨k, .ignored remote res hres⟩
    · exact ⟨k, .resolved remote res call hres⟩
  | disconnected node =>
    obtain rfl := Option.some.inj hrpc
    exact ⟨k, .disconnected node⟩

theorem Step.length_le {m : CallMove Node} (hs : b.Step m b') : b.records.length ≤ b'.records.length := by
  rw [hs.2]
  unfold note
  split
  case h_1 => simp
  case h_2 => split <;> simp
  all_goals simp

theorem Moved.numbered {m : CallMove Node} {k' : ℕ} (hm : Moved b k m b' k') (h : b.Numbered k) :
    b'.Numbered k' := by
  cases hm with
  | idle => exact h
  | asked c => exact h.asked c
  | abandoned call =>
    exact h.keep ⟨rfl, rfl, rfl⟩ id (by simp) (fun _ => rfl) (fun _ => rfl) (fun _ _ => rfl) fun _ _ hq => hq
  | sent accepted c rx hrx => exact h.sent accepted hrx
  | ignored remote res => exact h.heard ⟨rfl, rfl, rfl⟩ rfl fun _ _ hq => hq
  | resolved remote res call =>
    exact h.heard ⟨rfl, rfl, rfl⟩ rfl fun _ _ hq => (AList.lookup_erase_eq_some_iff.mp hq).2
  | disconnected node =>
    exact h.keep ⟨rfl, rfl, rfl⟩ _ rfl (fun _ => CallRecord.cutOff_call ..) (fun _ => CallRecord.cutOff_seq ..)
      (fun _ => CallRecord.cutOff_of_seq) fun _ _ hq => hq

end CallBook

/-- A `WorkerCommunication` under observation. -/
structure CommWorld (Addr Node Stats : Type) (N : ℕ) where
  comm : WorkerCommunication Addr Node Stats N
  records : List (CallRecord Node) := []

namespace WorkerCommunication

variable {Addr Node Stats : Type} {N : ℕ} [DecidableEq Addr] [DecidableEq Node]

def callMove (codec : EventCodec) (s : WorkerCommunication Addr Node Stats N) :
    CommEvent Addr Node Stats → CallMove Node
  | .request c => .asked c
  | .abandon call => .abandoned call
  | .network _ =>
    match s.network.node.events with
    | .nodeMsg _ remote (some (.rpcRes res)) :: _ => .replied remote res
    | .nodeDisconnected _ node :: _ => .disconnected node
    | _ => .idle
  | .rpc outputs =>
    match s.rpcRx.recv with
    | none => .sent false
    | some (dest, req, _) =>
      match (s.network.send codec.decode dest (codec.encode (some (.rpcReq req))) outputs).1 with
      | .ok () => .sent true
      | .error _ => .sent false
  | _ => .idle

variable {codec : EventCodec} {s s' : WorkerCommunication Addr Node Stats N}

omit [DecidableEq Node] in
theorem onTick_rpcRx {nowMs : ℕ} {stats : Stats} {ord : ℕ → RemoteOrder Node} {order : List UInt64}
    {outputs : UInt64 → List RtcOutput} (h : s.onTick codec nowMs stats ord order outputs = .ok s') :
    s'.rpcRx = s.rpcRx := by
  unfold onTick at h
  cases hsync : s.router.createSync nowMs with
  | error p => simp [hsync, bind, Except.bind] at h
  | ok sync =>
    simp only [hsync, bind, Except.bind, pure, Except.pure, Except.ok.injEq] at h
    rw [← h]

theorem onOffer_rpcRx {sender : Node} {connId : UInt64} {ufrag : String} {sdp : SdpFate} {answer : String}
    {outputs : List RtcOutput} (h : s.onOffer codec sender connId ufrag sdp answer outputs = .ok s') :
    s'.rpcRx = s.rpcRx := by
  unfold onOffer at h
  cases hclient : s.registryClient.answer sender connId
      ((s.network.onOffer codec.decode connId ufrag sender sdp outputs).1.map fun _ => answer) with
  | error p => simp [hclient, bind, Except.bind] at h
  | ok client =>
    simp only [hclient, bind, Except.bind, pure, Except.pure, Except.ok.injEq] at h
    rw [← h]

theorem foldl_onNeighbour_rpcRx (nodes : List (Neighbour Node)) :
    (nodes.foldl (onNeighbour codec) s).rpcRx = s.rpcRx := by
  induction nodes generalizing s with
  | nil => rfl
  | cons n nodes ih =>
    rw [List.foldl_cons, ih]
    unfold onNeighbour
    split <;> rfl

omit [DecidableEq Addr] in
/-- What the branch for the network does with the RPC client is told by the event it takes. -/
theorem onNodeEvent_rpcRx {ord : ℕ → RemoteOrder Node} {e : NodeEvent Node (Option WorkerEvent)}
    (h : s.onNodeEvent ord e = .ok (some s')) :
    (∃ c remote res, e = .nodeMsg c remote (some (.rpcRes res)) ∧ s.rpcRx.onRes res = .ok s'.rpcRx) ∨
      (∀ c remote res, e ≠ .nodeMsg c remote (some (.rpcRes res))) ∧ s'.rpcRx = s.rpcRx := by
  unfold onNodeEvent at h
  split at h
  case h_6 c remote res =>
    left
    obtain ⟨rpc, hrpc, hs'⟩ := Except.map_eq_ok_iff.mp h
    obtain rfl := Option.some.inj hs'
    exact ⟨c, remote, res, rfl, hrpc⟩
  case h_2 => cases h
  all_goals
    right
    obtain rfl := Option.some.inj (Except.ok.inj h)
    exact ⟨fun c remote res => by simp, rfl⟩

end WorkerCommunication

namespace CommWorld

variable {Addr Node Stats : Type} {N : ℕ} [DecidableEq Addr] [DecidableEq Node] {codec : EventCodec}
  {w w' : CommWorld Addr Node Stats N} {e : CommEvent Addr Node Stats}

omit [DecidableEq Addr] [DecidableEq Node] in
def book (w : CommWorld Addr Node Stats N) : CallBook Node := ⟨w.comm.rpcRx, w.records⟩

def new (range : Range) : CommWorld Addr Node Stats N where
  comm := .new range

def step (codec : EventCodec) (w : CommWorld Addr Node Stats N) (e : CommEvent Addr Node Stats) :
    Option (CommWorld Addr Node Stats N) :=
  (w.comm.step codec e).map fun comm => ⟨comm, w.book.note (w.comm.callMove codec e)⟩

/-- What one step of the loop does with the calls, and nothing else moves them. -/
theorem step_book (h : w.step codec e = some w') : w.book.Step (w.comm.callMove codec e) w'.book := by
  obtain ⟨comm, hcomm, rfl⟩ := Option.map_eq_some_iff.mp h
  refine ⟨?_, rfl⟩
  show w.book.onRpc _ = some comm.rpcRx
  cases e <;> simp only [WorkerCommunication.step] at hcomm
  case request c =>
    obtain rfl := Option.some.inj hcomm
    rfl
  case abandon call =>
    obtain rfl := Option.some.inj (Option.ite_none_right_eq_some.mp hcomm).2
    rfl
  case handled i res =>
    obtain ⟨_, -, rfl⟩ := Option.map_eq_some_iff.mp hcomm
    rfl
  case written =>
    obtain rfl := Option.some.inj hcomm
    rfl
  case networkTick order outputs =>
    split at hcomm <;> cases hcomm
    rfl
  case datagram remote username outputs =>
    split at hcomm <;> cases hcomm
    rfl
  case tick nowMs stats ord order outputs =>
    exact congrArg some (WorkerCommunication.onTick_rpcRx (Except.toOption_eq_some_iff.mp hcomm)).symm
  case answer sender connId sdp outputs =>
    obtain rfl := Option.some.inj hcomm
    rfl
  case offer sender connId ufrag sdp answer outputs =>
    exact congrArg some (WorkerCommunication.onOffer_rpcRx (Except.toOption_eq_some_iff.mp hcomm)).symm
  case neighbours nodes =>
    obtain rfl := Option.some.inj hcomm
    exact congrArg some (WorkerCommunication.foldl_onNeighbour_rpcRx nodes).symm
  case network ord =>
    cases hevents : w.comm.network.node.events with
    | nil => simp [NetworkNode.recv, hevents] at hcomm
    | cons out events =>
      have hout : ∃ node, w.comm.network.node.recv = (some out, node) := by
        unfold NetworkNode.recv
        rw [hevents]
        cases out <;> exact ⟨_, rfl⟩
      obtain ⟨node, hrecv⟩ := hout
      simp only [hrecv] at hcomm
      split at hcomm
      case h_1 => cases hcomm
      case h_2 s' hs' =>
        subst hcomm
        rcases WorkerCommunication.onNodeEvent_rpcRx hs' with ⟨c, remote, res, rfl, hres⟩ | ⟨hout, hrpc⟩
        · simp only [WorkerCommunication.callMove, hevents]
          exact congrArg Except.toOption hres
        · rw [hrpc]
          simp only [WorkerCommunication.callMove, hevents]
          split
          case h_1 c remote res _ heq =>
            exact absurd (List.cons.inj heq).1 (hout c remote res)
          all_goals rfl
  case rpc outputs =>
    obtain ⟨⟨dest, req, rpc⟩, hrecv, rfl⟩ := Option.map_eq_some_iff.mp hcomm
    have hmove : ∃ accepted, w.comm.callMove codec (.rpc outputs) = .sent accepted := by
      simp only [WorkerCommunication.callMove, hrecv]
      split
      · exact ⟨true, rfl⟩
      · exact ⟨false, rfl⟩
    obtain ⟨accepted, hmove⟩ := hmove
    rw [hmove]
    show w.comm.rpcRx.recv.map _ = some rpc
    rw [hrecv]
    rfl
  case res outputs =>
    split at hcomm <;> cases hcomm
    rfl

end CommWorld
end Dllm
