import DecentralizedInference.Proofs.SessionCreation

/-! The session that a root creates, compared with the containers that its START has left along
the chain. `post_start` counts the layers of a node from the one at which the chain enters it
to the end of its range, and one more: at the last node of every chain that is one too many. -/

namespace Dllm

variable {Address SecretKey PublicKey Node W : Type} {N : ℕ}

/-- How many layers a hop computes. -/
def Hop.layerCount (h : Hop Node) : ℕ := (h.localRange.map fun r => r.stop - r.start).getD 0

/-- The vectors of a session describe the chain: an address and an entry for each node below
the root, each entry the layers of that node's container, together what the root does not
do itself, and nowhere does the count underflow. -/
structure DescribesSplit {S : Type} (acct : Node → OnChainAccount Address SecretKey PublicKey) (N : ℕ)
    (addresses : List Address) (layers : List UInt64) (root : Visit Node S W StartReq StartRes)
    (below : List (Visit Node S W StartReq StartRes)) : Prop where
  lengths : addresses.length = layers.length
  hops : layers.length = below.length
  entries : layers.map UInt64.toNat = (below.map fun v => v.hop.layerCount).reverse
  sum : (layers.map UInt64.toNat).sum = N - root.hop.layerCount
  noUnderflow : ∀ v ∈ below, v.req.fromLayer ≤ (acct v.node).layers.stop

/-- The last node of a chain computes up to the last layer. -/
theorem Plan.last_hop {ranges : ℕ → Node → Range} {k : ℕ} {n : Node} {s : UInt64} {f : ℕ}
    {hs : List (Hop Node)} (h : Plan ranges N k n s f hs) :
    ∃ k' h', hs.getLast? = some h' ∧ (ranges k' h'.node).stop = N ∧ h'.fromLayer < N ∧
      h'.localRange = some ⟨h'.fromLayer, N⟩ := by
  induction h with
  | @last k n s f chat hstart hf hstop => exact ⟨k, _, rfl, hstop, hf, rfl⟩
  | handOver hstart hf hstop hrest ih =>
    obtain ⟨k', h', hlast, hrest'⟩ := ih
    exact ⟨k', h', by rw [List.getLast?_cons, hlast]; rfl, hrest'⟩
  | relay hnot hf hrest ih =>
    obtain ⟨k', h', hlast, hrest'⟩ := ih
    exact ⟨k', h', by rw [List.getLast?_cons, hlast]; rfl, hrest'⟩

theorem Plan.head_fromLayer {ranges : ℕ → Node → Range} {k : ℕ} {n : Node} {s : UInt64} {f : ℕ}
    {h : Hop Node} {hs : List (Hop Node)} (hplan : Plan ranges N k n s f (h :: hs)) : h.fromLayer = f := by
  cases hplan <;> rfl

/-- A plan has one hop just when its first node has all the layers that are left. -/
theorem Plan.singleton_iff {ranges : ℕ → Node → Range} {k : ℕ} {n : Node} {s : UInt64} {f : ℕ}
    {hs : List (Hop Node)} (h : Plan ranges N k n s f hs) :
    hs.tail = [] ↔ (ranges k n).start ≤ f ∧ (ranges k n).stop = N := by
  have hne : ∀ {k n s f hs}, Plan ranges N k n s f hs → hs ≠ [] := by
    intro k n s f hs h
    cases h <;> simp
  cases h with
  | last hstart hf hstop => simp [hstart, hstop]
  | handOver hstart hf hstop hrest =>
    refine iff_of_false (hne hrest) ?_
    omega
  | relay hnot hf hrest =>
    refine iff_of_false (hne hrest) ?_
    rintro ⟨hstart, hstop⟩
    have hcontains : (ranges k n).contains f = true := by simp [hstart, hstop, hf]
    rw [hnot] at hcontains
    cases hcontains

/-- The count of a node whose range ends with the model is not that of its layers. -/
theorem count_ne {n f : ℕ} (h : f ≤ n) :
    (UInt64.ofNat (wrapAdd 32 (wrapSub 32 n f) 1)).toNat ≠ n - f := by
  rw [wrapSub_of_le h]
  unfold wrapAdd
  have hlt : (n - f + 1) % 2 ^ 32 < 2 ^ 64 := lt_of_lt_of_le (Nat.mod_lt _ (by decide)) (by decide)
  rw [UInt64.toNat_ofNat_of_lt' hlt]
  omega

section Success

variable {S : Type} [DecidableEq Node] {w : World Node S W N}

/-- A chain whose root has started works. -/
theorem World.works_of_success {c : Call Node S W StartReq} {e : Ending StartRes} {net : Net Node S W}
    {vs : List (Visit Node S W StartReq StartRes)} (h : Runs w.startFirst w.startLast w.fate c e net vs)
    {res : StartRes} (he : e = .returned res) (hs : res.success = true) : w.Works c := by
  -- an answer is no success unless what it is made from is one
  have hpost : ∀ {n ctx req answer} {net net' : Net Node S W} {e : Ending StartRes} {res : StartRes},
      finishAt w.startLast n ctx req answer net = (e, net') → e = .returned res → res.success = true →
      answer.success = true := by
    intro n ctx req answer net net' e res hlast he hs
    rw [World.finishAt_startLast, Prod.mk.injEq] at hlast
    have hok := Ending.of_eq_returned_iff.mp (hlast.1.trans he)
    exact (w.usage n).postStart_success req answer (net n).usage res _ (Prod.ext hok rfl) hs
  have hsynth : ∀ {c : Call Node S W StartReq} {ctx req res d st},
      c.Begins w.startFirst ctx (.proceed req res (some d)) st → res.success = false := by
    intro c ctx req res d st hbegin
    obtain ⟨route, u, -, -, rfl, hnext, -⟩ := World.begins_proceed hbegin
    obtain ⟨r, hr, -⟩ := Option.map_eq_some_iff.mp hnext.symm
    simp [hr]
  induction h generalizing res with
  | outOfFuel => cases he
  | panics => cases he
  | hangs => cases he
  | replies hbegin =>
    cases he
    rw [(World.begins_reply hbegin).1] at hs
    cases hs
  | ends hbegin => exact World.works_last hbegin
  | errorUnserved hbegin _ hlast =>
    cases (hsynth hbegin).symm.trans (hpost hlast he hs)
  | errorServed hbegin _ _ hlast =>
    cases (hsynth hbegin).symm.trans (hpost hlast he hs)
  | silentUnserved => cases he
  | silentServed => cases he
  | answered hbegin hfate hrest hlast ih =>
    have hsuccess := hpost hlast he hs
    exact World.works_next hbegin hfate (congrArg Prod.fst hrest.run_eq) hsuccess (ih rfl hsuccess)

end Success

namespace OnChainWorld

variable [DecidableEq Node] {w : World Node (OnChainState Address PublicKey) W N}
  {acct : Node → OnChainAccount Address SecretKey PublicKey} {codec : MetadataCodec Address PublicKey}

/-- The session that the root of a successful START has created: addresses and counts are those
of the nodes below, from the last one up. -/
theorem created_session (hw : OnChainWorld w acct codec) {fuel : ℕ} {n : Node} {req : StartReq}
    {net net' : Net Node (OnChainState Address PublicKey) W} {res : StartRes}
    {vs : List (Visit Node _ W StartReq StartRes)} (hidx : req.chainIndex = 0) (hfuel : fuel < 2 ^ 32)
    (h : w.start fuel 0 n req net = (.returned res, net', vs)) (hs : res.success = true) :
    (net' n).created = (net n).created ++ [.createSession req.chatId req.maxTokens.toUInt64
      (vs.tail.map fun v => (acct v.node).address).reverse (vs.tail.map (layerEntry acct)).reverse] := by
  let root : Call Node (OnChainState Address PublicKey) W StartReq := ⟨fuel, 0, n, req, net⟩
  have hrun : Runs w.startFirst w.startLast w.fate root (.returned res) net' vs := runs_of_serve h
  have hworks := World.works_of_success hrun rfl hs
  have hplaced : root.Placed := ⟨by simp [root, hidx], by simpa [root] using hfuel⟩
  obtain ⟨-, ⟨-, hno⟩ | ⟨ctx, req', res', next, st, answer, m, hbegin, hm, hcreated, hnext⟩⟩ :=
    hw.root_runs hplaced hidx hrun
  · obtain ⟨ctx, req', res', next, st, hbegin, -⟩ := hworks root .refl
    exact absurd rfl (hno ctx req' res' next st hbegin res)
  obtain ⟨-, haddresses, hlayers⟩ :=
    hw.root_answer_works hplaced hidx (fun c hc _ => hworks.no_rpcFails hc) hbegin hm hnext
  rw [← haddresses, ← hlayers]
  exact hcreated

/-- If every node's account counts with the range of its table, the session of a successful
START describes the chain if and only if the root has all the layers itself. -/
theorem session_describes_split_iff (hw : OnChainWorld w acct codec)
    (hranges : ∀ k n, (w.router k n).localLayers = (acct n).layers) {fuel : ℕ} {n : Node} {req : StartReq}
    {net net' : Net Node (OnChainState Address PublicKey) W} {res : StartRes}
    {vs : List (Visit Node _ W StartReq StartRes)} (hidx : req.chainIndex = 0) (hlayer : req.fromLayer = 0)
    (hfuel : fuel < 2 ^ 32) (h : w.start fuel 0 n req net = (.returned res, net', vs)) (hs : res.success = true) :
    ∃ addresses layers v below, vs = v :: below ∧ (net' n).created = (net n).created ++
        [.createSession req.chatId req.maxTokens.toUInt64 addresses layers] ∧
      (DescribesSplit acct N addresses layers v below ↔ (acct n).layers = ⟨0, N⟩) := by
  have hcreated := hw.created_session hidx hfuel h hs
  have hplan := World.start_plan h hs
  obtain ⟨k', h', hlast, hstop, hf, hlocal⟩ := hplan.last_hop
  have htail := hplan.singleton_iff
  have hranges' : ∀ k n, w.ranges k n = (acct n).layers := hranges
  rw [hranges'] at htail hstop
  cases vs with
  | nil => cases hlast
  | cons v below =>
    refine ⟨_, _, v, below, rfl, hcreated, ?_⟩
    have hroot : below = [] ↔ (acct n).layers = ⟨0, N⟩ := by
      rw [List.map_cons, List.tail_cons, List.map_eq_nil_iff, hlayer] at htail
      rw [htail]
      refine ⟨fun ⟨hstart, hstop⟩ => ?_, fun hall => ?_⟩
      · rw [← Nat.le_zero.mp hstart, ← hstop]
      · rw [hall]
        exact ⟨le_rfl, rfl⟩
    rw [← hroot]
    constructor
    · intro hsplit
      by_contra hne
      -- the last node below the root, where the count is one too many
      have hentries := hsplit.entries
      rw [List.tail_cons, List.map_reverse, List.reverse_inj, List.map_map, List.map_inj_left] at hentries
      have hmem : h' ∈ below.map Visit.hop := by
        rw [List.map_cons, List.getLast?_cons_of_ne_nil (by simpa using hne)] at hlast
        exact List.mem_of_getLast? hlast
      obtain ⟨u, hu, rfl⟩ := List.mem_map.mp hmem
      have hentry := hentries u hu
      have hnode : (acct u.node).layers.stop = N := hstop
      have hfrom : u.req.fromLayer < N := hf
      simp only [Function.comp_apply, layerEntry, hnode, Hop.layerCount, hlocal, Option.map_some,
        Option.getD_some] at hentry
      exact count_ne hfrom.le hentry
    · rintro rfl
      have hcount : v.hop.layerCount = N := by
        have hv : v.hop = h' := by simpa using hlast
        have hzero : h'.fromLayer = 0 := by
          rw [← hv, hplan.head_fromLayer, hlayer]
        rw [hv, Hop.layerCount, hlocal, hzero]
        rfl
      exact ⟨rfl, rfl, rfl, by simp [hcount], by simp⟩

end OnChainWorld

/-- The second node computes one layer of three, and the session says two. -/
theorem session_counts_one_too_many :
    ∃ net' md v u, (byteWorld ⟨2, 3⟩ fun _ => .answered).start 2 0 false byteStart.req byteNet =
        (.returned ⟨true, md⟩, net', [v, u]) ∧ u.hop.localRange = some ⟨2, 3⟩ ∧
      (net' false).created = [.createSession 7 10 [20] [2]] ∧
      ¬DescribesSplit (byteAccount ⟨2, 3⟩) 3 [20] [2] v [u] := by
  refine ⟨_, _, _, _, rfl, rfl, rfl, fun hsplit => ?_⟩
  have hentries := hsplit.entries
  revert hentries
  decide

theorem session_describes_split_iff_pair :
    ∃ net' md v u addresses layers, (byteWorld ⟨2, 3⟩ fun _ => .answered).start 2 0 false byteStart.req byteNet =
        (.returned ⟨true, md⟩, net', [v, u]) ∧
      (net' false).created = [.createSession 7 10 addresses layers] ∧
      ¬DescribesSplit (byteAccount ⟨2, 3⟩) 3 addresses layers v [u] := by
  have h : (byteWorld ⟨2, 3⟩ fun _ => .answered).start 2 0 false byteStart.req byteNet =
    (.returned ⟨true, _⟩, _, [_, _]) := rfl
  have hranges : ∀ k n, ((byteWorld ⟨2, 3⟩ fun _ => .answered).router k n).localLayers =
      (byteAccount ⟨2, 3⟩ n).layers := by
    intro k n
    cases n <;> rfl
  obtain ⟨addresses, layers, v, below, hvs, hcreated, hiff⟩ :=
    (byteWorld_onChain ⟨2, 3⟩ fun _ => .answered).session_describes_split_iff hranges rfl rfl (by decide) h rfl
  obtain ⟨rfl, rfl⟩ := List.cons.inj hvs
  exact ⟨_, _, _, _, addresses, layers, h, hcreated, fun hsplit => by cases hiff.mp hsplit⟩

end Dllm
