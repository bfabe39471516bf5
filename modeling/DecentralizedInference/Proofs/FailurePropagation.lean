import DecentralizedInference.Proofs.PartitionPlan
import DecentralizedInference.Sanity.OnChainWorld

/-! How a START or an END that fails at one node of a chain is answered by the nodes above it,
if all of them use an `OnChainService`. A node that turns a request away answers without
metadata, and the node above it panics when it reads them; a failure that comes from an RPC
error carries the metadata of the request and is passed up to the root. -/

namespace Dllm

variable {Address SecretKey PublicKey Node W : Type} {N : ℕ} [DecidableEq Node]

/-- A node turns a START away, or its request to the next node fails. -/
def World.StartFails {S : Type} (w : World Node S W N) (x : Call Node S W StartReq) : Prop :=
  x.Rejects w.startFirst ∨ x.RpcFails w.startFirst w.fate

/-- Every node from the root down to `x` answers its caller with a failure, and if the root's
request comes from `VirtualModelLayers`, its `start` gives `Err`. -/
def World.StartFailureSeen {S : Type} (w : World Node S W N) (root x : Call Node S W StartReq) : Prop :=
  (∀ c, Reaches w.startFirst w.fate root c → Reaches w.startFirst w.fate c x →
    ∃ res, (c.run w.startFirst w.startLast w.fate).1 = .returned res ∧ res.success = false) ∧
  ∀ session maxLen, root.req = VirtualModelLayers.startReq session maxLen →
    (VirtualModelLayers.start w root.fuel root.node session maxLen root.net).1 = .returned false

def World.EndFails {S : Type} (w : World Node S W N) (fate : ℕ → RpcFate) (x : Call Node S W EndReq) : Prop :=
  x.Rejects w.endFirst ∨ x.RpcFails w.endFirst fate

def World.EndFailureSeen {S : Type} (w : World Node S W N) (fate : ℕ → RpcFate)
    (root x : Call Node S W EndReq) : Prop :=
  ∀ c, Reaches w.endFirst fate root c → Reaches w.endFirst fate c x →
    ∃ res, (c.run w.endFirst w.endLast fate).1 = .returned res ∧ res.success = false

/-- Metadata that a node can read. -/
def MetadataCodec.Reads (codec : MetadataCodec Address PublicKey) (bs : List UInt8) : Prop :=
  ∃ m, codec.deserialize bs = some m

namespace OnChainWorld

variable {w : World Node (OnChainState Address PublicKey) W N}
  {acct : Node → OnChainAccount Address SecretKey PublicKey} {codec : MetadataCodec Address PublicKey}

omit [DecidableEq Node] in
theorem reads_rootMetadata (hw : OnChainWorld w acct codec) (n : Node) (checkpoint : Option Checkpoint) :
    codec.Reads ((acct n).rootMetadata checkpoint) := by
  unfold OnChainAccount.rootMetadata
  rw [hw.codec_eq]
  exact ⟨_, hw.roundTrip _⟩

omit [DecidableEq Node] in
/-- What stands for a START that got no answer is a failure that can be read. -/
theorem start_synthesized (hw : OnChainWorld w acct codec)
    {c : Call Node (OnChainState Address PublicKey) W StartReq} {ctx : Unit} {req : StartReq} {res : StartRes}
    {d : Downstream Node StartReq} {st : NodeState Node (OnChainState Address PublicKey) W}
    (h : c.Begins w.startFirst ctx (.proceed req res (some d)) st) :
    res.success = false ∧ codec.Reads res.metadata := by
  obtain ⟨route, u, hpre, -, rfl, hnext, -⟩ := World.begins_proceed h
  obtain ⟨r, hr, -⟩ := Option.map_eq_some_iff.mp hnext.symm
  refine ⟨by simp [hr], ?_⟩
  rw [hw.usage] at hpre
  rcases OnChainAccount.preStart_metadata hpre with ⟨-, hmd⟩ | ⟨-, rfl, hmd⟩
  · simp only [hmd]
    exact hw.reads_rootMetadata _ _
  · rw [hw.codec_eq] at hmd
    exact hmd

/-- A failure that can be read is answered with another one. -/
theorem startLast_failure (hw : OnChainWorld w acct codec) (n : Node) (ctx : Unit) (req : StartReq)
    {answer : StartRes} (net : Net Node (OnChainState Address PublicKey) W)
    (h : answer.success = false ∧ codec.Reads answer.metadata) :
    ∃ res, (finishAt w.startLast n ctx req answer net).1 = .returned res ∧
      res.success = false ∧ codec.Reads res.metadata := by
  obtain ⟨hfail, hmd⟩ := h
  rw [World.finishAt_startLast, hw.usage]
  have hmd' : ∃ m, (acct n).codec.deserialize answer.metadata = some m := by
    rw [hw.codec_eq]
    exact hmd
  obtain ⟨res, hres⟩ := OnChainAccount.postStart_ok_iff.mpr hmd'
  have hkeep := OnChainAccount.postStart_failure (by rw [hw.codec_eq]; exact hw.roundTrip) hfail hres
  rw [hw.codec_eq] at hkeep
  exact ⟨res, Ending.of_eq_returned_iff.mpr hres, hkeep⟩

/-- A bare failure is not answered at all. -/
theorem startLast_bare (hw : OnChainWorld w acct codec) (n : Node) (ctx : Unit) (req : StartReq)
    (net : Net Node (OnChainState Address PublicKey) W) :
    ∃ p, (finishAt w.startLast n ctx req ModelService.startFailure net).1 = .panicked p := by
  rw [World.finishAt_startLast, hw.usage]
  rcases hpost : ((acct n).service.postStart req ModelService.startFailure (net n).usage).1 with p | res
  · exact ⟨p, rfl⟩
  · obtain ⟨m, hm⟩ := OnChainAccount.postStart_ok_iff.mp ⟨res, hpost⟩
    rw [hw.codec_eq, ModelService.startFailure, hw.nil] at hm
    cases hm

theorem start_upholds (hw : OnChainWorld w acct codec) : Upholds w.startFirst w.startLast
    (fun res => res.success = false ∧ codec.Reads res.metadata) (fun _ => True) where
  begins _ _ _ _ _ _ _ h := ⟨hw.start_synthesized h, trivial⟩
  passes n ctx req _ net h := hw.startLast_failure n ctx req net h

theorem start_turnsAway (hw : OnChainWorld w acct codec) : TurnsAway w.startFirst w.startLast
    (fun res => res.success = false) ModelService.startFailure (fun _ => False) where
  failed := rfl
  reply _ _ _ _ h := (World.begins_reply h).1
  passes _ _ _ _ _ _ _ h _ := h.elim
  panics c ctx req _ _ _ net _ _ := hw.startLast_bare c.node ctx req net

/-- The root answers with a failure if an RPC below it has failed and no request above that waits for ever. -/
theorem rpc_failure_returned (hw : OnChainWorld w acct codec)
    {root c : Call Node (OnChainState Address PublicKey) W StartReq} (hc : Reaches w.startFirst w.fate root c)
    (hheard : Heard w.fate root c) (hrpc : c.RpcFails w.startFirst w.fate) :
    ∃ res, (root.run w.startFirst w.startLast w.fate).1 = .returned res ∧
      res.success = false ∧ codec.Reads res.metadata := by
  exact hw.start_upholds.above_rpcFails hc hheard trivial hrpc

omit [DecidableEq Node] in
/-- An END carries metadata that can be read, from the root on. -/
theorem end_synthesized (hw : OnChainWorld w acct codec)
    {c : Call Node (OnChainState Address PublicKey) W EndReq} {ctx : UInt64} {req : EndReq} {res : EndRes}
    {d : Downstream Node EndReq} {st : NodeState Node (OnChainState Address PublicKey) W}
    (hc : c.req.chainIndex = 0 ∨ codec.Reads c.req.metadata)
    (h : c.Begins w.endFirst ctx (.proceed req res (some d)) st) :
    (res.success = false ∧ codec.Reads res.metadata) ∧ (d.req.chainIndex = 0 ∨ codec.Reads d.req.metadata) := by
  obtain ⟨container, u, -, -, hpre, rfl, hnext, -⟩ := World.end_begins_proceed h
  obtain ⟨r, hr, rfl⟩ := Option.map_eq_some_iff.mp hnext.symm
  rw [hw.usage] at hpre
  have hreads : codec.Reads req.metadata := by
    rcases OnChainAccount.preEnd_metadata hpre with ⟨-, rfl⟩ | ⟨hidx, rfl⟩
    · exact hw.reads_rootMetadata _ _
    · exact hc.resolve_left hidx
  exact ⟨⟨by simp [hr], hreads⟩, .inr hreads⟩

theorem endLast_failure (hw : OnChainWorld w acct codec) (n : Node) (chatId : UInt64) (req : EndReq)
    {answer : EndRes} (net : Net Node (OnChainState Address PublicKey) W)
    (h : answer.success = false ∧ codec.Reads answer.metadata) :
    ∃ res, (finishAt w.endLast n chatId req answer net).1 = .returned res ∧
      res.success = false ∧ codec.Reads res.metadata := by
  obtain ⟨hfail, hmd⟩ := h
  rw [World.finishAt_endLast, hw.usage]
  have hmd' : ∃ m, (acct n).codec.deserialize answer.metadata = some m := by
    rw [hw.codec_eq]
    exact hmd
  obtain ⟨res, hres⟩ := OnChainAccount.postEnd_ok_iff.mpr (.inr hmd')
  obtain ⟨hfail', hsame⟩ := OnChainAccount.postEnd_failure hfail hres
  exact ⟨res, Ending.of_eq_returned_iff.mpr hres, hfail', hsame ▸ hmd⟩

/-- A bare failure of an END is answered by the root alone. -/
theorem endLast_bare (hw : OnChainWorld w acct codec) (n : Node) (chatId : UInt64) (req : EndReq)
    (net : Net Node (OnChainState Address PublicKey) W) :
    (req.chainIndex = 0 →
      (finishAt w.endLast n chatId req ModelService.endFailure net).1 = .returned ModelService.endFailure) ∧
    (req.chainIndex ≠ 0 → ∃ p, (finishAt w.endLast n chatId req ModelService.endFailure net).1 = .panicked p) := by
  rw [World.finishAt_endLast, hw.usage]
  refine ⟨fun hidx => ?_, fun hidx => ?_⟩
  · have hpost : ((acct n).postEnd chatId req ModelService.endFailure (net n).usage).1 =
        .ok ModelService.endFailure := by
      unfold OnChainAccount.postEnd
      rw [if_pos hidx]
    exact congrArg Ending.of hpost
  · rcases hpost : ((acct n).service.postEnd chatId req ModelService.endFailure (net n).usage).1 with p | res
    · exact ⟨p, rfl⟩
    · obtain ⟨m, hm⟩ := (OnChainAccount.postEnd_ok_iff.mp ⟨res, hpost⟩).resolve_left hidx
      rw [hw.codec_eq, ModelService.endFailure, hw.nil] at hm
      cases hm

omit [DecidableEq Node] in
/-- An END goes on with the `chain_index` that it came with. -/
theorem end_keeps_chainIndex (hw : OnChainWorld w acct codec)
    {c : Call Node (OnChainState Address PublicKey) W EndReq} {ctx : UInt64} {req : EndReq} {res : EndRes}
    {next : Option (Downstream Node EndReq)} {st : NodeState Node (OnChainState Address PublicKey) W}
    (h : c.Begins w.endFirst ctx (.proceed req res next) st) : req.chainIndex = c.req.chainIndex := by
  obtain ⟨container, u, -, -, hpre, -⟩ := World.end_begins_proceed h
  rw [hw.usage] at hpre
  rcases OnChainAccount.preEnd_metadata hpre with ⟨-, rfl⟩ | ⟨-, rfl⟩ <;> rfl

theorem end_upholds (hw : OnChainWorld w acct codec) : Upholds w.endFirst w.endLast
    (fun res => res.success = false ∧ codec.Reads res.metadata)
    (fun req => req.chainIndex = 0 ∨ codec.Reads req.metadata) where
  begins _ _ _ _ _ _ hc h := hw.end_synthesized hc h
  passes n ctx req _ net h := hw.endLast_failure n ctx req net h

theorem end_turnsAway (hw : OnChainWorld w acct codec) : TurnsAway w.endFirst w.endLast
    (fun res => res.success = false) ModelService.endFailure (fun c => c.req.chainIndex = 0) where
  failed := rfl
  reply _ _ _ _ h := World.end_begins_reply h
  passes c ctx req _ _ _ net hzero h :=
    ⟨_, (hw.endLast_bare c.node ctx req net).1 ((hw.end_keeps_chainIndex h).trans hzero), rfl⟩
  panics c ctx req _ _ _ net hne h :=
    (hw.endLast_bare c.node ctx req net).2 fun hzero => hne ((hw.end_keeps_chainIndex h).symm.trans hzero)

/-- The `chain_index` of the calls that an END with `chain_index` 0 makes is their place in the
chain, as long as that does not overflow. -/
theorem end_chainIndex (hw : OnChainWorld w acct codec) {fate : ℕ → RpcFate}
    {root c : Call Node (OnChainState Address PublicKey) W EndReq} (hfuel : root.fuel < 2 ^ 32)
    (hhop : root.hop = 0) (hidx : root.req.chainIndex = 0) (hc : Reaches w.endFirst fate root c) :
    c.req.chainIndex.toNat = c.hop ∧ c.hop + c.fuel = root.fuel := by
  refine hc.keeps (A := fun c => c.req.chainIndex.toNat = c.hop ∧ c.hop + c.fuel = root.fuel) ?_
    ⟨by simp [hidx, hhop], by omega⟩
  rintro c ctx req res d st ⟨hindex, hsum⟩ hbegin
  have hpos := hbegin.1
  have hsame := hw.end_keeps_chainIndex hbegin
  obtain ⟨container, u, -, -, -, -, hnext, -⟩ := World.end_begins_proceed hbegin
  obtain ⟨r, -, rfl⟩ := Option.map_eq_some_iff.mp hnext.symm
  have hone : (1 : UInt32).toNat = 1 := rfl
  simp only [Call.next, hsame, UInt32.toNat_add, hindex, hone]
  rw [Nat.mod_eq_of_lt (by omega)]
  omega

end OnChainWorld

/-- A start at the root that is answered with a failure is an `Err` of `VirtualModelLayers`. -/
theorem VirtualModelLayers.start_eq_err {S : Type} {w : World Node S W N} {root : Call Node S W StartReq}
    (hhop : root.hop = 0) {session : UInt64} {maxLen : UInt32}
    (hreq : root.req = VirtualModelLayers.startReq session maxLen) {res : StartRes}
    (h : (root.run w.startFirst w.startLast w.fate).1 = .returned res) (hfail : res.success = false) :
    (VirtualModelLayers.start w root.fuel root.node session maxLen root.net).1 = .returned false := by
  have hrun : root.run w.startFirst w.startLast w.fate =
      w.start root.fuel 0 root.node (VirtualModelLayers.startReq session maxLen) root.net := by
    unfold Call.run World.start
    rw [hhop, hreq]
    rfl
  rw [hrun] at h
  unfold VirtualModelLayers.start
  rcases hstart : w.start root.fuel 0 root.node (VirtualModelLayers.startReq session maxLen) root.net with
    ⟨e, net, vs⟩
  rw [hstart] at h
  obtain rfl : e = .returned res := h
  simp only [hfail]

/-- A START that fails at a node is seen as a failure all the way up just when no request above it
waits for ever, and that node is the root, or its request to the next node has failed, or the
request of the node above it ends with an error although it was served; an END also when the
root is the node above. -/
theorem failures_reach_root_iff {w : World Node (OnChainState Address PublicKey) W N}
    {acct : Node → OnChainAccount Address SecretKey PublicKey} {codec : MetadataCodec Address PublicKey}
    (hw : OnChainWorld w acct codec) :
    (∀ root x, root.hop = 0 → Reaches w.startFirst w.fate root x → w.StartFails x →
      (w.StartFailureSeen root x ↔ Heard w.fate root x ∧
        (x.Rejects w.startFirst → x.hop = 0 ∨ w.fate (x.hop - 1) = .errorServed))) ∧
    ∀ fate root x, root.hop = 0 → root.req.chainIndex = 0 → root.fuel < 2 ^ 32 →
      Reaches w.endFirst fate root x → w.EndFails fate x →
      (w.EndFailureSeen fate root x ↔ Heard fate root x ∧
        (x.Rejects w.endFirst → x.hop ≤ 1 ∨ fate (x.hop - 1) = .errorServed)) := by
  refine ⟨fun root x hhop hpath hfail => ?_, fun fate root x hhop hidx hfuel hpath hfail => ?_⟩
  · have hiff := failure_seen_iff hw.start_upholds (fun res h => h.1) hw.start_turnsAway (fun c _ h => h.elim)
      trivial hpath hfail
    have hzero : x.hop = 0 ↔ x = root := by
      constructor
      · intro hx
        exact (hpath.eq_of_hop (by omega)).symm
      · rintro rfl
        exact hhop
    rw [hzero]
    refine ⟨fun hseen => ?_, fun ⟨hheard, hcond⟩ => ?_⟩
    · obtain ⟨hheard, hcond⟩ := hiff.mp hseen.1
      exact ⟨hheard, fun hrejects => by simpa using hcond hrejects⟩
    · have hseen := hiff.mpr ⟨hheard, fun hrejects => by simpa using hcond hrejects⟩
      refine ⟨hseen, fun session maxLen hreq => ?_⟩
      obtain ⟨res, hres, hfailed⟩ := hseen root .refl hpath
      exact VirtualModelLayers.start_eq_err hhop hreq hres hfailed
  · -- only the root passes a bare failure on
    have hroot : ∀ c, Reaches w.endFirst fate root c → c.req.chainIndex = 0 → c = root := by
      intro c hc hzero
      have hindex := (hw.end_chainIndex hfuel hhop hidx hc).1
      rw [hzero] at hindex
      have hc0 : c.hop = 0 := hindex.symm
      exact (Reaches.eq_of_hop hc (by omega)).symm
    have hiff := failure_seen_iff hw.end_upholds (fun res h => h.1) hw.end_turnsAway hroot (.inl hidx) hpath hfail
    have hone := Reaches.hop_le_succ_iff hpath
    rw [hhop, Nat.zero_add] at hone
    rw [hone]
    refine ⟨fun hseen => ⟨(hiff.mp hseen).1, fun hrejects => ?_⟩, fun ⟨hheard, hcond⟩ => ?_⟩
    · rcases (hiff.mp hseen).2 hrejects with hx | ⟨hsends, -⟩ | hlost
      · exact .inl (.inl hx)
      · exact .inl (.inr hsends)
      · exact .inr hlost
    · refine hiff.mpr ⟨hheard, fun hrejects => ?_⟩
      rcases hcond hrejects with (hx | hsends) | hlost
      · exact .inl hx
      · exact .inr (.inl ⟨hsends, hidx⟩)
      · exact .inr (.inr hlost)

/-- The call of the root's `VirtualModelLayers` for chat 7. -/
def byteStart : Call Bool (OnChainState UInt8 UInt8) LayerCaches StartReq :=
  ⟨2, 0, false, VirtualModelLayers.startReq 7 10, byteNet⟩

/-- The second node has no route for the layer it is asked for and says so without metadata:
the root panics, and its caller gets no answer. -/
theorem turned_away_start_panics_root :
    ∃ x, Reaches (byteWorld ⟨1, 2⟩ fun _ => .answered).startFirst (fun _ => .answered) byteStart x ∧
      (byteWorld ⟨1, 2⟩ fun _ => .answered).StartFails x ∧
      (x.run (byteWorld ⟨1, 2⟩ fun _ => .answered).startFirst (byteWorld ⟨1, 2⟩ fun _ => .answered).startLast
        fun _ => .answered).1 = .returned ⟨false, []⟩ ∧
      (VirtualModelLayers.start (byteWorld ⟨1, 2⟩ fun _ => .answered) 2 false 7 10 byteNet).1 =
        .panicked .unwrapOnError ∧
      ¬(byteWorld ⟨1, 2⟩ fun _ => .answered).StartFailureSeen byteStart x := by
  have hbegin : byteStart.Begins (byteWorld ⟨1, 2⟩ fun _ => .answered).startFirst () (.proceed _ _ (some _)) _ :=
    ⟨by decide, rfl⟩
  have hsends : Sends (byteWorld ⟨1, 2⟩ fun _ => .answered).startFirst (fun _ => .answered) byteStart _ :=
    .request hbegin rfl
  have hpanic : (VirtualModelLayers.start (byteWorld ⟨1, 2⟩ fun _ => .answered) 2 false 7 10 byteNet).1 =
      .panicked .unwrapOnError := rfl
  refine ⟨_, .single hsends, .inl ⟨(), _, _, by decide, rfl⟩, rfl, hpanic, fun hseen => ?_⟩
  have herr : (VirtualModelLayers.start (byteWorld ⟨1, 2⟩ fun _ => .answered) 2 false 7 10 byteNet).1 =
      .returned false := hseen.2 7 10 rfl
  rw [hpanic] at herr
  cases herr

/-- The START to the second node ends with an RPC error: the root's `start` gives `Err`. And the END
of a chat that the root does not know is answered with a failure. -/
theorem failures_reach_root_iff_rpc_error :
    (byteWorld ⟨2, 3⟩ fun _ => .errorUnserved).StartFailureSeen byteStart byteStart ∧
      (byteWorld ⟨2, 3⟩ fun _ => .errorUnserved).EndFailureSeen (fun _ => .answered)
        ⟨2, 0, false, ⟨7, [], 0⟩, byteNet⟩ ⟨2, 0, false, ⟨7, [], 0⟩, byteNet⟩ := by
  have h := failures_reach_root_iff (byteWorld_onChain ⟨2, 3⟩ fun _ => .errorUnserved)
  have hrpc : byteStart.RpcFails (byteWorld ⟨2, 3⟩ fun _ => .errorUnserved).startFirst fun _ => .errorUnserved :=
    ⟨⟨(), _, _, _, _, by decide, rfl⟩, rfl⟩
  refine ⟨?_, ?_⟩
  · exact (h.1 byteStart byteStart rfl .refl (.inr hrpc)).mpr ⟨.refl _ _, fun _ => .inl rfl⟩
  · exact (h.2 _ ⟨2, 0, false, ⟨7, [], 0⟩, byteNet⟩ ⟨2, 0, false, ⟨7, [], 0⟩, byteNet⟩ rfl rfl (by decide) .refl
      (.inl ⟨0, _, _, by decide, rfl⟩)).mpr ⟨.refl _ _, fun _ => .inl (Nat.zero_le 1)⟩

end Dllm
