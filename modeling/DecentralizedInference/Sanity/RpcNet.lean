import DecentralizedInference.Sanity.RpcCalls
import DecentralizedInference.Spec.RpcNet

/-! Where the requests between nodes are. A request has one holder at most: the queue of its node, a packet, the task
that serves it, or the oneshot. Numbers keep apart what belongs to different requests as long as a node makes fewer
than 2^32 of them. -/

namespace Dllm

variable {Node S W E : Type} {N : ℕ} [DecidableEq Node]

namespace RpcClientRx

variable {r r' : RpcClientRx Node}

/-- The calls are numbered in their order, and no caller has gone. -/
structure Counted (r : RpcClientRx Node) : Prop where
  seed : r.seqSeed.toNat + r.rx.length = r.oneshots
  rx : r.rx.map Prod.fst = List.range' r.seqSeed.toNat r.rx.length
  waits : ∀ seq call, r.waits.lookup seq = some call → seq.toNat = call + 1
  abandoned : r.abandoned = []

omit [DecidableEq Node] in
theorem Counted.init : ({} : RpcClientRx Node).Counted := ⟨rfl, rfl, fun _ _ h => (by cases h), rfl⟩

omit [DecidableEq Node] in
theorem Counted.request (h : r.Counted) (c : RpcCall Node) : (r.request c).Counted := by
  refine ⟨?_, ?_, h.waits, h.abandoned⟩
  · rw [RpcClientRx.request, List.length_append, List.length_singleton, ← h.seed, Nat.add_assoc]
  · rw [RpcClientRx.request, List.map_append, h.rx, List.length_append, List.length_singleton, List.range'_1_concat,
    h.seed]
    rfl

omit [DecidableEq Node] in
/-- A call that leaves the queue gets its own number. -/
theorem Counted.recv (h : r.Counted) (hfew : r.oneshots < 2 ^ 32) {dest : Node} {req : RpcReq}
    (hrecv : r.recv = some (dest, req, r')) : r'.Counted ∧ ∃ call c rx, r.rx = (call, c) :: rx ∧ dest = c.dest ∧
      req = ⟨r.seqSeed + 1, c.cmd, c.payload⟩ ∧ req.seq.toNat = call + 1 ∧
      r' = { r with seqSeed := r.seqSeed + 1, waits := r.waits.insert (r.seqSeed + 1) call, rx } := by
  obtain ⟨call, c, rx, hrx, rfl, rfl, rfl⟩ := recv_cases hrecv
  have hseed := h.seed
  have hnumbers := h.rx
  rw [hrx, List.length_cons] at hseed
  rw [hrx, List.length_cons, List.range'_succ, List.map_cons, List.cons.injEq] at hnumbers
  obtain ⟨rfl, hrest⟩ := hnumbers
  have hnext : (r.seqSeed + 1).toNat = r.seqSeed.toNat + 1 := by
    rw [UInt32.toNat_add, UInt32.toNat_one, Nat.mod_eq_of_lt (by omega)]
  refine ⟨⟨?_, ?_, ?_, h.abandoned⟩, _, c, rx, hrx, rfl, rfl, hnext, rfl⟩
  · simp only [hnext]
    omega
  · simp only [hnext]
    exact hrest
  · intro seq call hseq
    by_cases heq : seq = r.seqSeed + 1
    · subst heq
      rw [AList.lookup_insert, Option.some.injEq] at hseq
      rw [← hseq, hnext]
    · rw [AList.lookup_insert_ne heq] at hseq
      exact h.waits seq call hseq

omit [DecidableEq Node] in
theorem Counted.onRes (h : r.Counted) {res : RpcRes} {call : ℕ} (hwaits : r.waits.lookup res.seq = some call) :
    r.onRes res = .ok { r with waits := r.waits.erase res.seq, resolved := r.resolved ++ [(call, res)] } ∧
      Counted { r with waits := r.waits.erase res.seq, resolved := r.resolved ++ [(call, res)] } := by
  refine ⟨?_, h.seed, h.rx, fun seq call' hseq => ?_, h.abandoned⟩
  · unfold RpcClientRx.onRes
    simp [hwaits, h.abandoned]
  · by_cases heq : seq = res.seq
    · subst heq
      simp at hseq
    · rw [AList.lookup_erase_ne heq] at hseq
      exact h.waits seq call' hseq

end RpcClientRx

/-- The request that a packet belongs to, as the task that serves it has it. -/
def Packet.origin : Packet Node → Origin Node
  | .request src _ req => .peer src req.seq
  | .response _ dest res => .peer dest res.seq

def Origin.isFor (n : Node) (call : ℕ) : Origin Node → Bool
  | .peer m seq => m = n ∧ seq.toNat = call + 1
  | .virtualLayers => false

inductive Holder (Node : Type) where
  | queued (c : RpcCall Node)
  | packet (p : Packet Node)
  | task (t : RpcTask Node)
  | resolved (res : RpcRes)

namespace RpcNet

variable {s s' : RpcNet Node S W} {n : Node} {call : ℕ}

/-- What has the request of this number. -/
def holders (s : RpcNet Node S W) (n : Node) (call : ℕ) : List (Holder Node) :=
  ((s.rpc n).rx.filter fun x => x.1 = call).map (fun x => .queued x.2) ++
    (s.wire.filter fun p => p.origin.isFor n call).map .packet ++
    (s.tasks.filter fun t => t.origin.isFor n call).map .task ++
    ((s.rpc n).resolved.filter fun x => x.1 = call).map fun x => .resolved x.2

/-- The node waits for an answer to this. -/
def Waits (s : RpcNet Node S W) : Origin Node → Prop
  | .peer n seq => ∃ call, seq.toNat = call + 1 ∧ (s.rpc n).waits.lookup seq = some call
  | .virtualLayers => True

/-- The node waits for an answer to this, and nothing has the request. -/
def Free (s : RpcNet Node S W) : Origin Node → Prop
  | .peer n seq => ∃ call, seq.toNat = call + 1 ∧ (s.rpc n).waits.lookup seq = some call ∧ s.holders n call = [] ∧
      call < (s.rpc n).oneshots
  | .virtualLayers => True

structure Sound (s : RpcNet Node S W) : Prop where
  counted : ∀ n, (s.rpc n).Counted
  once : ∀ n call, (s.holders n call).length ≤ 1
  known : ∀ n call, s.holders n call ≠ [] → call < (s.rpc n).oneshots
  packets : ∀ p ∈ s.wire, s.Waits p.origin
  tasks : ∀ t ∈ s.tasks, s.Waits t.origin

theorem Sound.init (nodes : Net Node S W) : ({ nodes } : RpcNet Node S W).Sound where
  counted _ := .init
  once n call := by simp [holders]
  known n call h := by simp [holders] at h
  packets p hp := by cases hp
  tasks t ht := by cases ht

theorem mem_holders_packet {p : Packet Node} :
    .packet p ∈ s.holders n call ↔ p ∈ s.wire ∧ p.origin.isFor n call = true := by simp [holders]

theorem mem_holders_task {t : RpcTask Node} :
    .task t ∈ s.holders n call ↔ t ∈ s.tasks ∧ t.origin.isFor n call = true := by simp [holders]

theorem mem_holders_queued {c : RpcCall Node} : .queued c ∈ s.holders n call ↔ (call, c) ∈ (s.rpc n).rx := by
  simp [holders]

theorem mem_holders_resolved {res : RpcRes} : .resolved res ∈ s.holders n call ↔ (call, res) ∈ (s.rpc n).resolved := by
  simp [holders]

theorem Sound.holders_eq (h : s.Sound) {x : Holder Node} (hx : x ∈ s.holders n call) : s.holders n call = [x] := by
  have honce := h.once n call
  match hholders : s.holders n call, hx with
  | [y], hx => rw [List.mem_singleton.mp hx]
  | _ :: _ :: _, _ =>
    rw [hholders] at honce
    simp at honce

/-- Nothing but what `origin` names changes hands. -/
def ChangesOnly (s s' : RpcNet Node S W) (origin : Origin Node) : Prop :=
  ∀ n call, origin.isFor n call = false → s'.holders n call = s.holders n call

omit [DecidableEq Node] in
theorem Waits.of_rpc_eq {origin : Origin Node} (h : s.Waits origin) (hrpc : s'.rpc = s.rpc) : s'.Waits origin := by
  cases origin with
  | virtualLayers => trivial
  | peer n seq =>
    obtain ⟨call, hseq, hlookup⟩ := h
    exact ⟨call, hseq, by rw [hrpc, hlookup]⟩

theorem Free.waits {origin : Origin Node} (h : s.Free origin) : s.Waits origin := by
  cases origin with
  | virtualLayers => trivial
  | peer n seq =>
    obtain ⟨call, hseq, hlookup, -⟩ := h
    exact ⟨call, hseq, hlookup⟩

theorem Free.holders_eq_nil {origin : Origin Node} (h : s.Free origin) (hfor : origin.isFor n call = true) :
    s.holders n call = [] ∧ call < (s.rpc n).oneshots := by
  cases origin with
  | virtualLayers => cases hfor
  | peer m seq =>
    obtain ⟨call', hseq, -, hnone, hlt⟩ := h
    obtain ⟨rfl, hcall⟩ : m = n ∧ seq.toNat = call + 1 := by simpa [Origin.isFor] using hfor
    obtain rfl : call' = call := by omega
    exact ⟨hnone, hlt⟩

/-- A request that loses its holder. -/
theorem Sound.loses (h : s.Sound) {origin : Origin Node} (hrpc : s'.rpc = s.rpc) (hwaits : s.Waits origin)
    (hwire : ∀ p ∈ s'.wire, p ∈ s.wire) (htasks : ∀ t ∈ s'.tasks, t ∈ s.tasks) (hother : s.ChangesOnly s' origin)
    (hgone : ∀ n call, origin.isFor n call = true → (s'.holders n call).length + 1 = (s.holders n call).length) :
    s'.Sound ∧ s'.Free origin := by
  have hnil : ∀ n call, origin.isFor n call = true → s'.holders n call = [] := by
    intro n call hfor
    have hless := hgone n call hfor
    have honce := h.once n call
    exact List.eq_nil_of_length_eq_zero (by omega)
  refine ⟨⟨fun n => hrpc ▸ h.counted n, fun n call => ?_, fun n call hne => ?_,
    fun p hp => (h.packets p (hwire p hp)).of_rpc_eq hrpc, fun t ht => (h.tasks t (htasks t ht)).of_rpc_eq hrpc⟩, ?_⟩
  · cases hfor : origin.isFor n call with
    | true =>
      rw [hnil n call hfor]
      exact Nat.zero_le _
    | false =>
      rw [hother n call hfor]
      exact h.once n call
  · cases hfor : origin.isFor n call with
    | true => exact absurd (hnil n call hfor) hne
    | false =>
      rw [hother n call hfor] at hne
      rw [hrpc]
      exact h.known n call hne
  · cases origin with
    | virtualLayers => trivial
    | peer n seq =>
      obtain ⟨call, hseq, hlookup⟩ := hwaits
      have hfor : (Origin.peer n seq).isFor n call = true := by simp [Origin.isFor, hseq]
      refine ⟨call, hseq, by rw [hrpc, hlookup], hnil n call hfor, ?_⟩
      rw [hrpc]
      refine h.known n call fun hnone => ?_
      have hless := hgone n call hfor
      simp [hnone] at hless

theorem Sound.take (h : s.Sound) {before after : List (Packet Node)} {p : Packet Node}
    (hwire : s.wire = before ++ p :: after) :
    ({ s with wire := before ++ after } : RpcNet Node S W).Sound ∧
      ({ s with wire := before ++ after } : RpcNet Node S W).Free p.origin ∧
      s.ChangesOnly { s with wire := before ++ after } p.origin := by
  have hother : s.ChangesOnly { s with wire := before ++ after } p.origin :=
    fun n call hfor => by simp [holders, hwire, hfor]
  have hsound : ({ s with wire := before ++ after } : RpcNet Node S W).Sound ∧
      ({ s with wire := before ++ after } : RpcNet Node S W).Free p.origin := h.loses rfl (h.packets p (by simp [hwire]))
    (fun p' hp' => by rw [hwire]; exact List.mem_append.mpr ((List.mem_append.mp hp').imp_right (List.mem_cons_of_mem _)))
    (fun t ht => ht) hother fun n call hfor => by simp [holders, hwire, hfor]; omega
  exact ⟨hsound.1, hsound.2, hother⟩

theorem Sound.takeTask (h : s.Sound) {before after : List (RpcTask Node)} {t : RpcTask Node}
    (htasks : s.tasks = before ++ t :: after) :
    ({ s with tasks := before ++ after } : RpcNet Node S W).Sound ∧
      ({ s with tasks := before ++ after } : RpcNet Node S W).Free t.origin ∧
      s.ChangesOnly { s with tasks := before ++ after } t.origin := by
  have hother : s.ChangesOnly { s with tasks := before ++ after } t.origin :=
    fun n call hfor => by simp [holders, htasks, hfor]
  have hsound : ({ s with tasks := before ++ after } : RpcNet Node S W).Sound ∧
      ({ s with tasks := before ++ after } : RpcNet Node S W).Free t.origin :=
    h.loses rfl (h.tasks t (by simp [htasks])) (fun p hp => hp)
      (fun t' ht' => by rw [htasks]; exact List.mem_append.mpr ((List.mem_append.mp ht').imp_right (List.mem_cons_of_mem _)))
      hother fun n call hfor => by simp [holders, htasks, hfor]; omega
  exact ⟨hsound.1, hsound.2, hother⟩

/-- A request that nothing has gets a holder. -/
theorem Sound.gets (h : s.Sound) {origin : Origin Node} {x : Holder Node} (hfree : s.Free origin) (hrpc : s'.rpc = s.rpc)
    (hwire : ∀ p ∈ s'.wire, p ∈ s.wire ∨ p.origin = origin) (htasks : ∀ t ∈ s'.tasks, t ∈ s.tasks ∨ t.origin = origin)
    (hother : s.ChangesOnly s' origin) (hgets : ∀ n call, origin.isFor n call = true → s'.holders n call = [x]) :
    s'.Sound := by
  have hwaits := hfree.waits.of_rpc_eq hrpc
  refine ⟨fun n => hrpc ▸ h.counted n, fun n call => ?_, fun n call hne => ?_, fun p hp => ?_, fun t ht => ?_⟩
  · cases hfor : origin.isFor n call with
    | true =>
      rw [hgets n call hfor]
      exact Nat.le_refl 1
    | false =>
      rw [hother n call hfor]
      exact h.once n call
  · rw [hrpc]
    cases hfor : origin.isFor n call with
    | true => exact (hfree.holders_eq_nil hfor).2
    | false =>
      rw [hother n call hfor] at hne
      exact h.known n call hne
  · rcases hwire p hp with hp | hp
    · exact (h.packets p hp).of_rpc_eq hrpc
    · rwa [hp]
  · rcases htasks t ht with ht | ht
    · exact (h.tasks t ht).of_rpc_eq hrpc
    · rwa [ht]

theorem holders_addPacket (p : Packet Node) : s.ChangesOnly { s with wire := s.wire ++ [p] } p.origin :=
  fun n call hfor => by simp [holders, hfor]

theorem Free.holders_addPacket {p : Packet Node} (h : s.Free p.origin) (hfor : p.origin.isFor n call = true) :
    ({ s with wire := s.wire ++ [p] } : RpcNet Node S W).holders n call = [.packet p] := by
  have hnone := (h.holders_eq_nil hfor).1
  simp only [holders, List.append_eq_nil_iff] at hnone
  obtain ⟨⟨⟨hrx, hwire⟩, htasks⟩, hresolved⟩ := hnone
  simp only [holders, List.filter_append, List.map_append, hrx, hwire, htasks, hresolved]
  simp [hfor]

theorem Sound.addPacket (h : s.Sound) {p : Packet Node} (hfree : s.Free p.origin) :
    ({ s with wire := s.wire ++ [p] } : RpcNet Node S W).Sound :=
  h.gets hfree rfl (fun p' hp' => (List.mem_append.mp hp').imp_right
    fun hp' => by rw [List.mem_singleton.mp hp']) (fun t ht => .inl ht) (holders_addPacket p)
    fun _ _ hfor => hfree.holders_addPacket hfor

theorem holders_addTask (t : RpcTask Node) : s.ChangesOnly { s with tasks := s.tasks ++ [t] } t.origin :=
  fun n call hfor => by simp [holders, hfor]

theorem Free.holders_addTask {t : RpcTask Node} (h : s.Free t.origin) (hfor : t.origin.isFor n call = true) :
    ({ s with tasks := s.tasks ++ [t] } : RpcNet Node S W).holders n call = [.task t] := by
  have hnone := (h.holders_eq_nil hfor).1
  simp only [holders, List.append_eq_nil_iff] at hnone
  obtain ⟨⟨⟨hrx, hwire⟩, htasks⟩, hresolved⟩ := hnone
  simp only [holders, List.filter_append, List.map_append, hrx, hwire, htasks, hresolved]
  simp [hfor]

theorem Sound.addTask (h : s.Sound) {t : RpcTask Node} (hfree : s.Free t.origin) :
    ({ s with tasks := s.tasks ++ [t] } : RpcNet Node S W).Sound :=
  h.gets hfree rfl (fun p hp => .inl hp)
    (fun t' ht' => (List.mem_append.mp ht').imp_right fun ht' => by rw [List.mem_singleton.mp ht']) (holders_addTask t)
    fun _ _ hfor => hfree.holders_addTask hfor

/-! The RPC client of a node: a request is queued, sent and answered. -/

/-- The same with another RPC client at a node. -/
def withRpc (s : RpcNet Node S W) (n : Node) (r : RpcClientRx Node) (roots : Node → ℕ → ℕ) : RpcNet Node S W :=
  { s with rpc := Function.update s.rpc n r, roots }

theorem holders_withRpc_of_ne {m : Node} (hm : m ≠ n) (r : RpcClientRx Node) (roots : Node → ℕ → ℕ) (call : ℕ) :
    (s.withRpc n r roots).holders m call = s.holders m call := by simp [withRpc, holders, hm]

theorem Sound.withRpc (h : s.Sound) {r : RpcClientRx Node} (roots : Node → ℕ → ℕ) (hcounted : r.Counted)
    (hle : (s.rpc n).oneshots ≤ r.oneshots)
    (hwaits : ∀ seq call, (s.rpc n).waits.lookup seq = some call → s.holders n call ≠ [] → r.waits.lookup seq = some call)
    (hself : ∀ call, (s.withRpc n r roots).holders n call = s.holders n call ∨
      call < r.oneshots ∧ ((s.withRpc n r roots).holders n call).length ≤ 1) : (s.withRpc n r roots).Sound := by
  have hkeeps : ∀ origin, s.Waits origin → (∀ call, origin.isFor n call = true → s.holders n call ≠ []) →
      (s.withRpc n r roots).Waits origin := by
    intro origin hw hholds
    cases origin with
    | virtualLayers => trivial
    | peer m seq =>
      obtain ⟨call, hseq, hlookup⟩ := hw
      refine ⟨call, hseq, ?_⟩
      by_cases hm : m = n
      · subst hm
        simpa [RpcNet.withRpc] using hwaits seq call hlookup (hholds call (by simp [Origin.isFor, hseq]))
      · simpa [RpcNet.withRpc, hm] using hlookup
  refine ⟨fun m => ?_, fun m call => ?_, fun m call hne => ?_, fun p hp => hkeeps _ (h.packets p hp) fun call hfor => ?_,
    fun t ht => hkeeps _ (h.tasks t ht) fun call hfor => ?_⟩
  · by_cases hm : m = n
    · subst hm
      simpa [RpcNet.withRpc] using hcounted
    · simpa [RpcNet.withRpc, hm] using h.counted m
  · by_cases hm : m = n
    · subst hm
      rcases hself call with heq | ⟨-, hle⟩
      · rw [heq]
        exact h.once m call
      · exact hle
    · rw [holders_withRpc_of_ne hm]
      exact h.once m call
  · by_cases hm : m = n
    · subst hm
      simp only [RpcNet.withRpc, Function.update_self]
      rcases hself call with heq | ⟨hlt, -⟩
      · rw [heq] at hne
        exact Nat.lt_of_lt_of_le (h.known m call hne) hle
      · exact hlt
    · rw [holders_withRpc_of_ne hm] at hne
      simpa [RpcNet.withRpc, hm] using h.known m call hne
  · exact List.ne_nil_of_mem (mem_holders_packet.mpr ⟨hp, hfor⟩)
  · exact List.ne_nil_of_mem (mem_holders_task.mpr ⟨ht, hfor⟩)

theorem Sound.holders_fresh (h : s.Sound) (n : Node) : s.holders n (s.rpc n).oneshots = [] := by
  by_contra hne
  exact Nat.lt_irrefl _ (h.known n _ hne)

theorem holders_enqueue (c : RpcCall Node) (roots : Node → ℕ → ℕ) (hne : call ≠ (s.rpc n).oneshots) :
    (s.withRpc n ((s.rpc n).request c) roots).holders n call = s.holders n call := by
  simp [RpcNet.withRpc, holders, RpcClientRx.request, hne.symm]

theorem Sound.holders_enqueue_self (h : s.Sound) (n : Node) (c : RpcCall Node) (roots : Node → ℕ → ℕ) :
    (s.withRpc n ((s.rpc n).request c) roots).holders n (s.rpc n).oneshots = [.queued c] := by
  have hnone := h.holders_fresh n
  simp only [holders, List.append_eq_nil_iff] at hnone
  obtain ⟨⟨⟨hrx, hwire⟩, htasks⟩, hresolved⟩ := hnone
  simp only [RpcNet.withRpc, holders, Function.update_self, RpcClientRx.request, List.filter_append, List.map_append, hrx,
    hwire, htasks, hresolved]
  simp

theorem Sound.enqueue (h : s.Sound) (n : Node) (c : RpcCall Node) (roots : Node → ℕ → ℕ) :
    (s.withRpc n ((s.rpc n).request c) roots).Sound := by
  refine h.withRpc roots ((h.counted n).request c) (Nat.le_succ _) (fun _ _ hlookup _ => hlookup) fun call => ?_
  by_cases hfresh : call = (s.rpc n).oneshots
  · subst hfresh
    exact .inr ⟨Nat.lt_succ_self _, by rw [h.holders_enqueue_self]; exact Nat.le_refl 1⟩
  · exact .inl (holders_enqueue c roots hfresh)

/-- A request that leaves the queue is known under its number. -/
theorem Sound.dequeue (h : s.Sound) (hfew : (s.rpc n).oneshots < 2 ^ 32) {dest : Node} {req : RpcReq}
    {rpc : RpcClientRx Node} (hrecv : (s.rpc n).recv = some (dest, req, rpc)) :
    (s.withRpc n rpc s.roots).Sound ∧ (s.withRpc n rpc s.roots).Free (.peer n req.seq) ∧
      s.ChangesOnly (s.withRpc n rpc s.roots) (.peer n req.seq) ∧ rpc.oneshots = (s.rpc n).oneshots ∧
      ∃ call, req.seq.toNat = call + 1 ∧ s.holders n call = [.queued ⟨dest, req.cmd, req.payload⟩] := by
  obtain ⟨hcounted, call, c, rx, hrx, rfl, hreq, hseq, hrpc⟩ := (h.counted n).recv hfew hrecv
  have hqueued : s.holders n call = [.queued c] := h.holders_eq (mem_holders_queued.mpr (by simp [hrx]))
  have hother : ∀ call', call' ≠ call → (s.withRpc n rpc s.roots).holders n call' = s.holders n call' := by
    intro call' hne
    simp [RpcNet.withRpc, holders, hrpc, hrx, hne.symm]
  have hnone : (s.withRpc n rpc s.roots).holders n call = [] := by
    have honce := h.once n call
    refine List.eq_nil_of_length_eq_zero ?_
    simp only [RpcNet.withRpc, holders, hrx, Function.update_self, hrpc, List.length_append, List.length_map, decide_true,
      List.filter_cons_of_pos, List.length_cons] at honce ⊢
    omega
  have hlt : call < (s.rpc n).oneshots := h.known n call (by simp [hqueued])
  have hlookup : rpc.waits.lookup req.seq = some call := by
    rw [hrpc, hreq]
    exact AList.lookup_insert _
  refine ⟨h.withRpc s.roots hcounted (by rw [hrpc])
    (fun seq call' hwaits _ => ?_) fun call' => ?_, ?_, ?_, by rw [hrpc], call,
    hseq, by rw [hqueued, hreq]⟩
  · by_cases heq : seq = req.seq
    · subst heq
      have hcall := (h.counted n).waits _ _ hwaits
      rw [hlookup, show call = call' by omega]
    · rw [hreq] at heq
      rw [hrpc]
      exact (AList.lookup_insert_ne heq).trans hwaits
  · by_cases heq : call' = call
    · subst heq
      exact .inr ⟨by rw [hrpc]; exact hlt, by rw [hnone]; exact Nat.zero_le _⟩
    · exact .inl (hother call' heq)
  · refine ⟨call, hseq, ?_, hnone, ?_⟩
    · simpa [RpcNet.withRpc] using hlookup
    · simpa [RpcNet.withRpc, hrpc] using hlt
  · intro m call' hfor
    by_cases hm : m = n
    · subst hm
      refine hother call' fun heq => ?_
      simp [Origin.isFor, hseq, heq] at hfor
    · exact holders_withRpc_of_ne hm _ _ _

/-- A response for which nothing else has the request resolves its oneshot. -/
theorem Sound.resolve (h : s.Sound) {res : RpcRes} (hfree : s.Free (.peer n res.seq)) : ∃ call r,
    res.seq.toNat = call + 1 ∧ (s.rpc n).onRes res = .ok r ∧ r.oneshots = (s.rpc n).oneshots ∧
      (s.withRpc n r s.roots).Sound ∧
      s.ChangesOnly (s.withRpc n r s.roots) (.peer n res.seq) ∧
      (s.withRpc n r s.roots).holders n call = [.resolved res] := by
  obtain ⟨call, hseq, hlookup, hnone, hlt⟩ := hfree
  obtain ⟨honRes, hcounted⟩ := (h.counted n).onRes hlookup
  have hother : ∀ call', call' ≠ call → (s.withRpc n { s.rpc n with
      waits := (s.rpc n).waits.erase res.seq, resolved := (s.rpc n).resolved ++ [(call, res)] } s.roots).holders n call' =
      s.holders n call' := by
    intro call' hne
    simp [RpcNet.withRpc, holders, hne.symm]
  have hresolved : (s.withRpc n { s.rpc n with
      waits := (s.rpc n).waits.erase res.seq, resolved := (s.rpc n).resolved ++ [(call, res)] } s.roots).holders n call =
      [.resolved res] := by
    simp only [holders, List.append_eq_nil_iff] at hnone
    obtain ⟨⟨⟨hrx, hwire⟩, htasks⟩, hdone⟩ := hnone
    simp only [RpcNet.withRpc, holders, Function.update_self, List.filter_append, List.map_append, hrx, hwire, htasks,
      hdone]
    simp
  refine ⟨call, _, hseq, honRes, rfl, h.withRpc s.roots hcounted (Nat.le_refl _) (fun seq call' hwaits hne => ?_)
    (fun call' => ?_), fun m call' hfor => ?_, hresolved⟩
  · refine (AList.lookup_erase_ne fun heq => ?_).trans hwaits
    rw [heq, hlookup, Option.some.injEq] at hwaits
    rw [← hwaits] at hne
    exact hne hnone
  · by_cases heq : call' = call
    · subst heq
      exact .inr ⟨hlt, by rw [hresolved]; exact Nat.le_refl 1⟩
    · exact .inl (hother call' heq)
  · by_cases hm : m = n
    · subst hm
      refine hother call' fun heq => ?_
      simp [Origin.isFor, hseq, heq] at hfor
    · exact holders_withRpc_of_ne hm _ _ _

/-! The parts of calls. -/

/-- Of the requests so far only that which `origin` names changes hands, and the requests that are made are for
`root`. -/
structure Advances (s s' : RpcNet Node S W) (origin : Origin Node) (root : ℕ) : Prop where
  holders : ∀ n call, call < (s.rpc n).oneshots → origin.isFor n call = false → s'.holders n call = s.holders n call
  oneshots : ∀ n, (s.rpc n).oneshots ≤ (s'.rpc n).oneshots
  roots : ∀ n call, call < (s.rpc n).oneshots → s'.roots n call = s.roots n call
  fresh : ∀ n call, (s.rpc n).oneshots ≤ call → call < (s'.rpc n).oneshots → s'.roots n call = root

theorem ChangesOnly.advances {origin : Origin Node} (h : s.ChangesOnly s' origin)
    (honeshots : ∀ n, (s'.rpc n).oneshots = (s.rpc n).oneshots) (hroots : s'.roots = s.roots) (root : ℕ) :
    s.Advances s' origin root where
  holders n call _ hfor := h n call hfor
  oneshots n := Nat.le_of_eq (honeshots n).symm
  roots n call _ := by rw [hroots]
  fresh n call hle hlt := absurd (honeshots n ▸ hlt) (Nat.not_lt.mpr hle)

theorem Advances.trans {s'' : RpcNet Node S W} {origin : Origin Node} {root : ℕ} (h : s.Advances s' origin root)
    (h' : s'.Advances s'' origin root) : s.Advances s'' origin root where
  holders n call hlt hfor :=
    (h'.holders n call (Nat.lt_of_lt_of_le hlt (h.oneshots n)) hfor).trans (h.holders n call hlt hfor)
  oneshots n := Nat.le_trans (h.oneshots n) (h'.oneshots n)
  roots n call hlt := (h'.roots n call (Nat.lt_of_lt_of_le hlt (h.oneshots n))).trans (h.roots n call hlt)
  fresh n call hle hlt := by
    by_cases hmid : call < (s'.rpc n).oneshots
    · rw [h'.roots n call hmid]
      exact h.fresh n call hle hmid
    · exact h'.fresh n call (Nat.le_of_not_lt hmid) hlt

theorem enqueue_advances (s : RpcNet Node S W) (n : Node) (c : RpcCall Node) (origin : Origin Node) (root : ℕ) :
    s.Advances (s.withRpc n ((s.rpc n).request c)
      (Function.update s.roots n (Function.update (s.roots n) (s.rpc n).oneshots root))) origin root where
  holders m call hlt _ := by
    by_cases hm : m = n
    · subst hm
      exact holders_enqueue c _ (Nat.ne_of_lt hlt)
    · exact holders_withRpc_of_ne hm _ _ _
  oneshots m := by
    by_cases hm : m = n
    · subst hm
      simp [RpcNet.withRpc, RpcClientRx.request]
    · simp [RpcNet.withRpc, hm]
  roots m call hlt := by
    by_cases hm : m = n
    · subst hm
      simp [RpcNet.withRpc, Nat.ne_of_lt hlt]
    · simp [RpcNet.withRpc, hm]
  fresh m call hle hlt := by
    by_cases hm : m = n
    · subst hm
      simp only [RpcNet.withRpc, Function.update_self, RpcClientRx.request] at hlt ⊢
      rw [show call = (s.rpc m).oneshots by omega, Function.update_self]
    · simp [RpcNet.withRpc, hm] at hlt
      omega

variable {env : Node → ServiceEnv S W E} {router : RouteTable Node N} {rs : UInt64} {root k : ℕ} {origin : Origin Node}
  {req : ServiceReq} {t : RpcTask Node} {reply : Option RpcRes}

theorem Sound.setNode (h : s.Sound) (n : Node) (st : NodeState Node S W) : (s.setNode n st).Sound :=
  ⟨h.counted, h.once, h.known, h.packets, h.tasks⟩

theorem advances_setNode (n : Node) (st : NodeState Node S W) : s.Advances (s.setNode n st) origin root :=
  have hother : s.ChangesOnly (s.setNode n st) origin := fun _ _ _ => rfl
  hother.advances (fun _ => rfl) rfl root

theorem Sound.respond (h : s.Sound) (hfree : s.Free origin) (codec : LlmCodec) (root : ℕ) (n : Node) (res : ServiceRes) :
    (s.respond codec root n origin res).Sound ∧ s.Advances (s.respond codec root n origin res) origin root := by
  cases origin with
  | virtualLayers =>
    have hother : s.ChangesOnly (s.respond codec root n .virtualLayers res) .virtualLayers := fun _ _ _ => rfl
    exact ⟨⟨h.counted, h.once, h.known, h.packets, h.tasks⟩, hother.advances (fun _ => rfl) rfl root⟩
  | peer dest seq =>
    exact ⟨h.addPacket hfree, (holders_addPacket _).advances (fun _ => rfl) rfl root⟩

theorem Sound.ready (h : s.Sound) (hfree : s.Free origin) (root : ℕ) (n : Node) (task : Task) :
    (s.ready root n origin task).Sound ∧ s.Advances (s.ready root n origin task) origin root :=
  ⟨h.addTask hfree, (holders_addTask _).advances (fun _ => rfl) rfl root⟩

theorem Sound.ask (h : s.Sound) (hfree : s.Free origin) (root : ℕ) (n : Node) (task : Task) (c : RpcCall Node) :
    (s.ask root n origin task c).Sound ∧ s.Advances (s.ask root n origin task c) origin root ∧
      (s.ask root n origin task c).holders n (s.rpc n).oneshots = [.queued c] := by
  let t : RpcTask Node := ⟨⟨origin, task⟩, root, n, some (s.rpc n).oneshots⟩
  have htask : ({ s with tasks := s.tasks ++ [t] } : RpcNet Node S W).Sound := h.addTask hfree
  have hadvances : s.Advances { s with tasks := s.tasks ++ [t] } origin root :=
    (holders_addTask t).advances (fun _ => rfl) rfl root
  exact ⟨htask.enqueue n c _, hadvances.trans (enqueue_advances _ n c origin root), htask.holders_enqueue_self n c _⟩

/-- What the first part of a call may do to the requests. -/
theorem Sound.first (h : s.Sound) (hfree : s.Free origin) :
    (s.first env router rs root n origin req).Sound ∧
      s.Advances (s.first env router rs root n origin req) origin root := by
  unfold RpcNet.first
  rcases (env n).first router rs req (s.nodes n) with ⟨_ | _ | ⟨task, _ | ⟨dest, next⟩⟩, st⟩
  · exact ⟨h.setNode n st, advances_setNode n st⟩
  · have hrespond := (h.setNode n st).respond hfree
    exact ⟨(hrespond _ _ _ _).1, (advances_setNode n st).trans (hrespond _ _ _ _).2⟩
  · have hready := (h.setNode n st).ready hfree
    exact ⟨(hready _ _ _).1, (advances_setNode n st).trans (hready _ _ _).2⟩
  · have hask := (h.setNode n st).ask hfree
    exact ⟨(hask _ _ _ _).1, (advances_setNode n st).trans (hask _ _ _ _).2.1⟩

/-- What the rest of a call may do to the requests. -/
theorem Sound.last (h : s.Sound) (hfree : s.Free t.origin) :
    (s.last env reply t).Sound ∧ s.Advances (s.last env reply t) t.origin t.root := by
  unfold RpcNet.last
  rcases (env t.node).resume reply t.task (s.nodes t.node) with ⟨_ | res, st⟩
  · exact ⟨h.setNode _ st, advances_setNode _ st⟩
  · have hrespond := (h.setNode t.node st).respond hfree (env t.node).codec t.root t.node res
    exact ⟨hrespond.1, (advances_setNode _ st).trans hrespond.2⟩

theorem first_oneshots_le (s : RpcNet Node S W) (m : Node) :
    (s.rpc m).oneshots ≤ ((s.first env router rs root n origin req).rpc m).oneshots := by
  unfold RpcNet.first
  rcases (env n).first router rs req (s.nodes n) with ⟨_ | _ | ⟨task, _ | ⟨dest, next⟩⟩, st⟩
  · exact Nat.le_refl _
  · cases origin <;> exact Nat.le_refl _
  · exact Nat.le_refl _
  · simp only [RpcNet.ask, RpcNet.setNode]
    by_cases hm : m = n
    · subst hm
      simp [RpcClientRx.request]
    · simp [hm]

theorem last_oneshots (s : RpcNet Node S W) (m : Node) : ((s.last env reply t).rpc m).oneshots = (s.rpc m).oneshots := by
  unfold RpcNet.last
  rcases (env t.node).resume reply t.task (s.nodes t.node) with ⟨_ | res, st⟩
  · rfl
  · cases t.origin <;> rfl

end RpcNet

/-! Runs. -/

variable {env : Node → ServiceEnv S W E} {T : Node → RouteTable Node N → Prop} {s s' : RpcNet Node S W}
  {e : Option (ℕ × Node × Part Node N)}
  {es : List (Option (ℕ × Node × Part Node N))}

theorem RpcStep.oneshots_le (h : RpcStep env T s e s') (m : Node) : (s.rpc m).oneshots ≤ (s'.rpc m).oneshots := by
  cases h with
  | @call n c router htable rs => exact RpcNet.first_oneshots_le { s with calls := s.calls + 1 } m
  | @send n dest req rpc hrecv =>
    obtain ⟨call, c, rx, -, -, -, rfl⟩ := RpcClientRx.recv_cases hrecv
    by_cases hm : m = n
    · subst hm
      simp
    · simp [hm]
  | lose hwire => exact Nat.le_refl _
  | @serve before after src dest req call hwire hparse router htable rs =>
    exact RpcNet.first_oneshots_le { s with wire := before ++ after } m
  | refuse hwire hparse => exact Nat.le_refl _
  | @hear before after src dest res rpc hwire hres =>
    by_cases hm : m = dest
    · subst hm
      rcases RpcClientRx.onRes_cases hres with ⟨-, rfl⟩ | ⟨call, -, rfl⟩ <;> simp
    · simp [hm]
  | @resume before after t call res htasks hcall hres =>
    exact Nat.le_of_eq (RpcNet.last_oneshots { s with tasks := before ++ after } m).symm
  | @finish before after t htasks hcall =>
    exact Nat.le_of_eq (RpcNet.last_oneshots { s with tasks := before ++ after } m).symm

namespace RpcNet

theorem Sound.step (h : s.Sound) (hfew : ∀ n, (s.rpc n).oneshots < 2 ^ 32) (hstep : RpcStep env T s e s') : s'.Sound := by
  cases hstep with
  | @call n c router htable rs =>
    have hcalls : ({ s with calls := s.calls + 1 } : RpcNet Node S W).Sound :=
      ⟨h.counted, h.once, h.known, h.packets, h.tasks⟩
    have hfree : ({ s with calls := s.calls + 1 } : RpcNet Node S W).Free .virtualLayers := trivial
    exact (hcalls.first hfree).1
  | send hrecv =>
    obtain ⟨hsound, hfree, -⟩ := h.dequeue (hfew _) hrecv
    exact hsound.addPacket hfree
  | lose hwire => exact (h.take hwire).1
  | serve hwire hparse htable rs =>
    obtain ⟨hsound, hfree, -⟩ := h.take hwire
    exact (hsound.first hfree).1
  | refuse hwire hparse =>
    obtain ⟨hsound, hfree, -⟩ := h.take hwire
    exact hsound.addPacket hfree
  | hear hwire hres =>
    obtain ⟨hsound, hfree, -⟩ := h.take hwire
    obtain ⟨call, r, -, honRes, -, hsound', -⟩ := hsound.resolve hfree
    obtain rfl := Except.ok.inj (honRes.symm.trans hres)
    exact hsound'
  | resume htasks hcall hres =>
    obtain ⟨hsound, hfree, -⟩ := h.takeTask htasks
    exact (hsound.last hfree).1
  | finish htasks hcall =>
    obtain ⟨hsound, hfree, -⟩ := h.takeTask htasks
    exact (hsound.last hfree).1

/-- What every step keeps while the nodes make few requests is kept by a run. -/
theorem run_few {P : RpcNet Node S W → List (Option (ℕ × Node × Part Node N)) → Prop} (hrun : Run (RpcStep env T) s es s')
    (hfew : ∀ n, (s'.rpc n).oneshots < 2 ^ 32) (h0 : P s [])
    (hstep : ∀ a e b es, RpcStep env T a e b → (∀ n, (b.rpc n).oneshots < 2 ^ 32) → P a es → P b (es ++ [e])) :
    P s' es := by
  induction hrun with
  | nil => exact h0
  | snoc hrun hlast ih =>
    exact hstep _ _ _ _ hlast hfew (ih fun n => Nat.lt_of_le_of_lt (hlast.oneshots_le n) (hfew n))

theorem Sound.run (h : s.Sound) (hrun : Run (RpcStep env T) s es s') (hfew : ∀ n, (s'.rpc n).oneshots < 2 ^ 32) :
    s'.Sound :=
  run_few (P := fun s _ => s.Sound) hrun hfew h fun _ _ _ _ hstep hfew' ha =>
    ha.step (fun n => Nat.lt_of_le_of_lt (hstep.oneshots_le n) (hfew' n)) hstep

end RpcNet
end Dllm
