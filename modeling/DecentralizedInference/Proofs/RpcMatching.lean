import DecentralizedInference.Sanity.RpcCalls

/-! Who answers a call. `on_res` finds the waiting call by the number in the response and does
not ask which node has sent it, where `on_answer` of the network compares the two. So a call
resolves with the first response of the node that was asked as long as no other node sends
one with the number of a call that waits, and only as long. -/

namespace Dllm

namespace CallRecord

variable {Node : Type} [DecidableEq Node] {r : CallRecord Node} {remote : Node} {res : RpcRes}

theorem heard_of_dest_ne (h : r.call.dest ≠ remote) : r.heard remote res = r := if_neg fun hr => h hr.2

theorem heard_replies (hseq : r.seq = some res.seq) (hdest : r.call.dest = remote) :
    (r.heard remote res).replies = r.replies ++ [res] := by
  unfold heard
  rw [if_pos ⟨hseq, hdest⟩]

/-- Later replies do not change what the first one is. -/
theorem heard_take (remote : Node) (h : r.seq = some res.seq → r.replies ≠ []) :
    (r.heard remote res).replies.take 1 = r.replies.take 1 ∧ ((r.heard remote res).replies = [] ↔ r.replies = []) := by
  unfold heard
  split
  case isTrue hr =>
    obtain ⟨a, l, hl⟩ := List.exists_cons_of_ne_nil (h hr.1)
    simp [hl]
  case isFalse => simp

theorem cutOff_replies (node : Node) : (r.cutOff node).replies = r.replies := by
  unfold cutOff
  split <;> rfl

end CallRecord

namespace CallBook

variable {Node : Type} [DecidableEq Node] {b b' : CallBook Node} {k k' : ℕ} {m : CallMove Node}

/-- The responses to a call that the node it was sent to has given since. -/
def replies (b : CallBook Node) (i : ℕ) : List RpcRes := b.records[i]?.elim [] CallRecord.replies

/-- Every call resolves with the first response of its destination, once that has come, and
with nothing else. -/
def Matched (b : CallBook Node) : Prop := ∀ i, b.results i = (b.replies i).take 1

/-- A response to a call that waits comes from the node that was asked. -/
def Honest (b : CallBook Node) : CallMove Node → Prop
  | .replied remote res => ∀ i ∈ b.rpc.waits.lookup res.seq, ∀ r ∈ b.records[i]?, r.call.dest = remote
  | _ => True

instance (b : CallBook Node) (m : CallMove Node) : Decidable (b.Honest m) :=
  match m with
  | .replied remote res =>
    inferInstanceAs (Decidable (∀ i ∈ b.rpc.waits.lookup res.seq, ∀ r ∈ b.records[i]?, r.call.dest = remote))
  | .idle | .asked _ | .abandoned _ | .sent _ | .disconnected _ => inferInstanceAs (Decidable True)

/-- A response from a node that was not asked under its number leaves the waiters alone. -/
def Undisturbed (b b' : CallBook Node) : CallMove Node → Prop
  | .replied remote res => (∀ r ∈ b.records, r.seq = some res.seq → r.call.dest ≠ remote) →
      b'.rpc.waits = b.rpc.waits
  | _ => True

/-- A number waits for the call that was sent under it until the first response. -/
structure Sound (b : CallBook Node) (k : ℕ) : Prop where
  numbered : b.Numbered k
  matched : b.Matched
  waits : ∀ q i, b.rpc.waits.lookup q = some i ↔
    ∃ r : CallRecord Node, b.records[i]? = some r ∧ r.seq = some q ∧ r.replies = []

omit [DecidableEq Node] in
theorem Sound.init : ({} : CallBook Node).Sound 0 where
  numbered := .init
  matched := fun i => rfl
  waits := fun q i => by simp [AList.lookup_empty]

omit [DecidableEq Node] in
/-- A record that changes in other things than its number and the replies. -/
theorem Sound.keep (h : b.Sound k) (hnum : b'.Numbered k') (hresolved : b'.rpc.resolved = b.rpc.resolved)
    (hwaits : b'.rpc.waits = b.rpc.waits) (f : CallRecord Node → CallRecord Node)
    (hrecords : b'.records = b.records.map f) (hf : ∀ r, (f r).seq = r.seq ∧ (f r).replies = r.replies) :
    b'.Sound k' := by
  have hget : ∀ i, b'.records[i]? = b.records[i]?.map f := fun i => by rw [hrecords, List.getElem?_map]
  refine ⟨hnum, fun i => ?_, fun q i => ?_⟩
  · have hresults : b'.results i = b.results i := by simp [results, hresolved]
    have hreplies : b'.replies i = b.replies i := by
      unfold replies
      rw [hget]
      cases b.records[i]? with
      | none => rfl
      | some r => exact (hf r).2
    rw [hresults, hreplies, h.matched]
  · rw [hwaits, h.waits, hget]
    cases b.records[i]? with
    | none => simp
    | some r => simp [hf r]

omit [DecidableEq Node] in
theorem Sound.asked (h : b.Sound k) (c : RpcCall Node) :
    Sound ⟨b.rpc.request c, b.records ++ [{ call := c }]⟩ k := by
  refine ⟨h.numbered.asked c, fun i => ?_, fun q i => ?_⟩
  · refine (h.matched i).trans (congrArg _ ?_)
    unfold replies
    rw [List.getElem?_append]
    split
    case isTrue => rfl
    case isFalse hi =>
      rw [List.getElem?_eq_none (Nat.le_of_not_lt hi)]
      cases i - b.records.length <;> rfl
  · refine (h.waits q i).trans ?_
    refine ⟨fun ⟨r, hr, hseq, hreplies⟩ => ?_, fun ⟨r, hr, hseq, hreplies⟩ => ?_⟩
    · exact ⟨r, List.getElem?_snoc_eq_some_iff.mpr (.inl hr), hseq, hreplies⟩
    · rcases List.getElem?_snoc_eq_some_iff.mp hr with hr | ⟨rfl, rfl⟩
      · exact ⟨r, hr, hseq, hreplies⟩
      · cases hseq

omit [DecidableEq Node] in
/-- Fewer calls than numbers: no two calls are sent under one number. -/
theorem Numbered.seq_inj (h : b.Numbered k) (hlen : b.records.length < 2 ^ 32) {i j : ℕ} {r s : CallRecord Node}
    {q : UInt32} (hr : b.records[i]? = some r) (hs : b.records[j]? = some s) (hrq : r.seq = some q)
    (hsq : s.seq = some q) : i = j := by
  rw [h.seq i r hr] at hrq
  rw [h.seq j s hs] at hsq
  have hi := (List.getElem?_eq_some_iff.mp hr).1
  have hj := (List.getElem?_eq_some_iff.mp hs).1
  simp only [Option.ite_none_right_eq_some, Option.some.injEq] at hrq hsq
  have heq := congrArg UInt32.toNat (hrq.2.trans hsq.2.symm)
  rw [UInt32.toNat_ofNat_of_lt' (by show _ < 2 ^ 32; omega), UInt32.toNat_ofNat_of_lt' (by show _ < 2 ^ 32; omega)] at heq
  omega

omit [DecidableEq Node] in
theorem Sound.sent (h : b.Sound k) (accepted : Bool) {c : RpcCall Node} {rx : List (ℕ × RpcCall Node)}
    (hrx : b.rpc.rx = (k, c) :: rx) (hlen : b.records.length < 2 ^ 32) :
    Sound ⟨{ b.rpc with
        seqSeed := b.rpc.seqSeed + 1
        waits := b.rpc.waits.insert (b.rpc.seqSeed + 1) k
        rx },
      b.records.modify k (CallRecord.sent (b.rpc.seqSeed + 1) accepted)⟩ (k + 1) := by
  have hnum := h.numbered.sent accepted hrx
  have hk : k < b.records.length := Nat.lt_of_succ_le (by simpa using hnum.le)
  have hat : b.records[k]? = some b.records[k] := List.getElem?_eq_getElem hk
  have hseqk : b.records[k].seq = none := by simpa using h.numbered.seq k _ hat
  have hreplies : b.records[k].replies = [] := (h.numbered.unsent k _ hat hseqk).1
  have hself : (b.records.modify k (CallRecord.sent (b.rpc.seqSeed + 1) accepted))[k]? =
      some (b.records[k].sent (b.rpc.seqSeed + 1) accepted) := by
    rw [List.getElem?_modify_eq, hat]
    rfl
  refine ⟨hnum, fun i => ?_, fun q i => ?_⟩
  · refine (h.matched i).trans (congrArg _ ?_)
    unfold replies
    rw [List.getElem?_modify]
    cases b.records[i]? with
    | none => rfl
    | some r =>
      by_cases hi : k = i <;> simp [hi, CallRecord.sent]
  · by_cases hq : q = b.rpc.seqSeed + 1
    · subst hq
      rw [AList.lookup_insert]
      refine ⟨fun hi => ?_, fun hr => ?_⟩
      · obtain rfl := Option.some.inj hi
        exact ⟨_, hself, rfl, hreplies⟩
      · obtain ⟨r, hr, hseq, -⟩ := hr
        exact congrArg some (hnum.seq_inj (by simpa using hlen) hself hr rfl hseq)
    · rw [AList.lookup_insert_ne hq, h.waits]
      by_cases hi : k = i
      · subst hi
        simp [hself, hat, hseqk, CallRecord.sent, Ne.symm hq]
      · rw [List.getElem?_modify_ne _ _ hi]

/-- A response that nothing waits for is no first one. -/
theorem Sound.ignored (h : b.Sound k) (remote : Node) (res : RpcRes) (hres : b.rpc.waits.lookup res.seq = none)
    (hnum : Numbered ⟨b.rpc, b.records.map (CallRecord.heard remote res)⟩ k) :
    Sound ⟨b.rpc, b.records.map (CallRecord.heard remote res)⟩ k := by
  have hlate : ∀ (i : ℕ) r, b.records[i]? = some r → r.seq = some res.seq → r.replies ≠ [] := by
    intro i r hr hseq hnil
    have hwait := (h.waits res.seq i).mpr ⟨r, hr, hseq, hnil⟩
    rw [hres] at hwait
    cases hwait
  refine ⟨hnum, fun i => ?_, fun q i => ?_⟩
  · refine (h.matched i).trans ?_
    unfold replies
    rw [List.getElem?_map]
    cases hr : b.records[i]? with
    | none => rfl
    | some r => exact (CallRecord.heard_take remote (hlate i r hr)).1.symm
  · refine (h.waits q i).trans ?_
    rw [List.getElem?_map]
    cases hr : b.records[i]? with
    | none => simp
    | some r => simp [(CallRecord.heard_take remote (hlate i r hr)).2]

/-- A response that comes from the node that was asked. -/
theorem Sound.resolved (h : b.Sound k) (remote : Node) (res : RpcRes) {call : ℕ} {r : CallRecord Node}
    (hres : b.rpc.waits.lookup res.seq = some call) (hr : b.records[call]? = some r)
    (hdest : r.call.dest = remote) (hlen : b.records.length < 2 ^ 32)
    (hnum : Numbered ⟨{ b.rpc with
        waits := b.rpc.waits.erase res.seq
        resolved := b.rpc.resolved ++ [(call, res)] },
      b.records.map (CallRecord.heard remote res)⟩ k) :
    Sound ⟨{ b.rpc with
        waits := b.rpc.waits.erase res.seq
        resolved := b.rpc.resolved ++ [(call, res)] },
      b.records.map (CallRecord.heard remote res)⟩ k := by
  obtain ⟨r', hr', hseq, hnil⟩ := (h.waits res.seq call).mp hres
  obtain rfl := Option.some.inj (hr.symm.trans hr')
  have hother : ∀ (i : ℕ) s, b.records[i]? = some s → i ≠ call → s.heard remote res = s := by
    intro i s hs hi
    exact CallRecord.heard_of_seq_ne fun hsq => hi (h.numbered.seq_inj hlen hs hr hsq hseq)
  refine ⟨hnum, fun i => ?_, fun q i => ?_⟩
  · have hresults : ∀ l : List (ℕ × RpcRes), ((l ++ [(call, res)]).filter fun p => p.1 = i).map Prod.snd =
        (l.filter fun p => p.1 = i).map Prod.snd ++ if call = i then [res] else [] := by
      intro l
      rw [List.filter_append, List.map_append]
      by_cases hi : call = i <;> simp [hi]
    refine (hresults _).trans ?_
    have hold := h.matched i
    unfold results replies at hold
    rw [hold]
    unfold replies
    rw [List.getElem?_map]
    by_cases hi : call = i
    · subst hi
      simp [hr, hnil, CallRecord.heard_replies hseq hdest]
    · rw [if_neg hi, List.append_nil]
      cases hs : b.records[i]? with
      | none => rfl
      | some s => simp [hother i s hs (Ne.symm hi)]
  · rw [AList.lookup_erase_eq_some_iff, h.waits, List.getElem?_map]
    by_cases hi : i = call
    · subst hi
      simp [hr, hseq, hnil, CallRecord.heard_replies hseq hdest, eq_comm]
    · cases hs : b.records[i]? with
      | none => simp
      | some s =>
        have hne : s.seq ≠ some res.seq := fun hsq => hi (h.numbered.seq_inj hlen hs hr hsq hseq)
        simp only [Option.map_some, hother i s hs hi, Option.some.injEq, exists_eq_left']
        refine ⟨?_, fun ⟨hsq, hsnil⟩ => ?_⟩
        · exact fun hq => hq.2
        · exact ⟨fun hq => hne (hq ▸ hsq), hsq, hsnil⟩

theorem Sound.step (h : b.Sound k) (hm : Moved b k m b' k') (hhonest : b.Honest m)
    (hlen : b.records.length < 2 ^ 32) : b'.Sound k' := by
  have hnum := hm.numbered h.numbered
  cases hm with
  | idle => exact h
  | asked c => exact h.asked c
  | abandoned call => exact h.keep hnum rfl rfl id (List.map_id _).symm fun _ => ⟨rfl, rfl⟩
  | sent accepted c rx hrx => exact h.sent accepted hrx hlen
  | ignored remote res hres => exact h.ignored remote res hres hnum
  | resolved remote res call hres =>
    obtain ⟨r, hr, -, -⟩ := (h.waits _ _).mp hres
    exact h.resolved remote res hres hr (hhonest call hres r hr) hlen hnum
  | disconnected node =>
    exact h.keep hnum rfl rfl _ rfl fun r => ⟨CallRecord.cutOff_seq node, CallRecord.cutOff_replies node⟩

/-- A response of another node that a call resolves with is not the first of its destination. -/
theorem Sound.honest (h : b.Sound k) (hm : Moved b k m b' k') (hmatched : b'.Matched) : b.Honest m := by
  cases hm with
  | resolved remote res call hres =>
    intro i hi r hr
    obtain rfl := Option.some.inj (hres.symm.trans hi)
    obtain ⟨r', hr', -, hnil⟩ := (h.waits _ _).mp hres
    obtain rfl := Option.some.inj (hr.symm.trans hr')
    by_contra hdest
    have hcall := hmatched call
    have hnone : replies ⟨b.rpc, b.records.map (CallRecord.heard remote res)⟩ call = [] := by
      unfold replies
      rw [List.getElem?_map, hr]
      simpa [CallRecord.heard_of_dest_ne hdest] using hnil
    have hsome : results ⟨{ b.rpc with
        waits := b.rpc.waits.erase res.seq
        resolved := b.rpc.resolved ++ [(call, res)] }, b.records⟩ call ≠ [] := by
      simp [results]
    exact hsome (hcall.trans (congrArg (List.take 1) hnone))
  | ignored remote res hres =>
    intro i hi
    rw [hres] at hi
    cases hi
  | _ => trivial

theorem Sound.undisturbed (h : b.Sound k) (hm : Moved b k m b' k') (hhonest : b.Honest m) :
    b.Undisturbed b' m := by
  cases hm with
  | resolved remote res call hres =>
    intro hother
    obtain ⟨r, hr, hseq, -⟩ := (h.waits _ _).mp hres
    exact absurd (hhonest call hres r hr) (hother r (List.mem_of_getElem? hr) hseq)
  | ignored remote res hres => exact fun _ => rfl
  | _ => trivial

end CallBook

namespace CommWorld

variable {Addr Node Stats : Type} {N : ℕ} [DecidableEq Addr] [DecidableEq Node] {codec : EventCodec}
  {range : Range} {es : List (CommEvent Addr Node Stats)} {w : CommWorld Addr Node Stats N}

def HonestStep (codec : EventCodec) (w : CommWorld Addr Node Stats N) (e : CommEvent Addr Node Stats)
    (w' : CommWorld Addr Node Stats N) : Prop :=
  w.book.Honest (w.comm.callMove codec e) ∧ w.step codec e = some w'

theorem sound_of_run (hrun : Run (HonestStep codec) (.new range) es w) (hcalls : w.records.length < 2 ^ 32) :
    ∃ k, w.book.Sound k := by
  induction hrun with
  | nil => exact ⟨0, .init⟩
  | snoc _ hs ih =>
    obtain ⟨hhonest, hstep⟩ := hs
    have hbook := step_book hstep
    have hlen := Nat.lt_of_le_of_lt hbook.length_le hcalls
    obtain ⟨k, hk⟩ := ih hlen
    obtain ⟨k', hm⟩ := hbook.moved hk.numbered
    exact ⟨k', hk.step hm hhonest hlen⟩

/-- As long as no node answers a call that another one was asked for, every call resolves with
the first response of its destination and no other, and other nodes do not reach the waiters;
and the first step where a node does breaks this. -/
theorem calls_matched_iff (hrun : Run (HonestStep codec) (.new range) es w) (hcalls : w.records.length < 2 ^ 32) :
    w.book.Matched ∧ ∀ e w', w.step codec e = some w' →
      (w'.book.Matched ∧ w.book.Undisturbed w'.book (w.comm.callMove codec e) ↔
        w.book.Honest (w.comm.callMove codec e)) := by
  obtain ⟨k, hk⟩ := sound_of_run hrun hcalls
  refine ⟨hk.matched, fun e w' hstep => ?_⟩
  obtain ⟨k', hm⟩ := (step_book hstep).moved hk.numbered
  refine ⟨?_, ?_⟩
  · exact fun h => hk.honest hm h.1
  · exact fun hhonest => ⟨(hk.step hm hhonest hcalls).matched, hk.undisturbed hm hhonest⟩

/-- `END` requests and the failures that answer them on the wire, under the numbers that take
one byte. -/
def endCodec : EventCodec where
  encode
    | some (.rpcReq req) =>
      if req = ⟨req.seq, "END", []⟩ ∧ 0 < req.seq ∧ req.seq < 128 then
        [0x1a, 7, 8, req.seq.toUInt8, 0x12, 3, 69, 78, 68]
      else []
    | some (.rpcRes res) =>
      if res = ⟨res.seq, false, []⟩ ∧ 0 < res.seq ∧ res.seq < 128 then [0x22, 2, 8, res.seq.toUInt8] else []
    | _ => []
  decode
    | [0x22, 2, 8, seq] => if 0 < seq ∧ seq < 128 then some (some (.rpcRes ⟨seq.toUInt32, false, []⟩)) else none
    | _ => none

/-- Two nodes connect, `true` is sent a request, and a node answers it. -/
def askTrue (ufrag : String) : List (CommEvent ℕ Bool Unit) :=
  let next : CommEvent ℕ Bool Unit := .network fun _ => .asIs
  [.offer true 1 "t" .accepted "sdp" [.channelOpen 0], next,
    .offer false 2 "f" .accepted "sdp" [.channelOpen 0], next,
    .request ⟨true, "END", []⟩, .rpc [],
    .datagram 5 (some ufrag) [.channelData (ConnectionChunk.chunk 0 0 1 [0x22, 2, 8, 1]).serialize], next]

theorem calls_matched_iff_end :
    ∃ w : CommWorld ℕ Bool Unit 1, Run (HonestStep endCodec) (.new ⟨0, 1⟩) (askTrue "t") w ∧
      w.book.results 0 = [⟨1, false, []⟩] ∧ w.book.Matched ∧ ∀ e w', w.step endCodec e = some w' →
        (w'.book.Matched ∧ w.book.Undisturbed w'.book (w.comm.callMove endCodec e) ↔
          w.book.Honest (w.comm.callMove endCodec e)) := by
  have hend : ((askTrue "t").foldlM (fun (w : CommWorld ℕ Bool Unit 1) e =>
      if w.book.Honest (w.comm.callMove endCodec e) then w.step endCodec e else none) (.new ⟨0, 1⟩)).map
      (fun w => (w.records.length, w.book.results 0)) = some (1, [⟨1, false, []⟩]) := by decide +kernel
  obtain ⟨w, hw, hobs⟩ := Option.map_eq_some_iff.mp hend
  obtain ⟨hlen, hresults⟩ : w.records.length = 1 ∧ w.book.results 0 = [⟨1, false, []⟩] := by simpa using hobs
  have hrun : Run (HonestStep endCodec) (.new ⟨0, 1⟩) (askTrue "t") w :=
    (Run.of_foldlM hw).mono fun a e b h => Option.ite_none_right_eq_some.mp h
  exact ⟨w, hrun, hresults, calls_matched_iff hrun (by omega)⟩

/-- The response of the node that was not asked resolves the call. -/
theorem calls_answered_by_others :
    ¬ ∀ (es : List (CommEvent ℕ Bool Unit)) (w : CommWorld ℕ Bool Unit 1),
      Run (fun w e w' => w.step endCodec e = some w') (.new ⟨0, 1⟩) es w → w.records.length < 2 ^ 32 →
        w.book.Matched := by
  intro h
  have hend : ((askTrue "f").foldlM (step endCodec) (.new ⟨0, 1⟩ : CommWorld ℕ Bool Unit 1)).map
      (fun w => (w.records.length, w.book.results 0, w.book.replies 0)) =
      some (1, [⟨1, false, []⟩], []) := by decide +kernel
  obtain ⟨w, hw, hobs⟩ := Option.map_eq_some_iff.mp hend
  obtain ⟨hlen, hresults, hreplies⟩ : w.records.length = 1 ∧ w.book.results 0 = [⟨1, false, []⟩] ∧
      w.book.replies 0 = [] := by simpa using hobs
  have hmatched := h _ w (Run.of_foldlM hw) (by omega) 0
  rw [hresults, hreplies] at hmatched
  cases hmatched

end CommWorld
end Dllm
