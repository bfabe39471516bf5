import DecentralizedInference.Sanity.ChatBooks

/-! What the workers of a chain claim. A worker counts the forwards of a chat that it has
accepted, under the id of the chat, and claims the count with the checkpoint it has stored,
which carries the count of the root. The two agree if the chain comes to the worker once.
If it comes twice, each forward is counted twice, the END that returns first claims all of
it, and the other one claims nothing. -/

namespace Dllm

variable {Address SecretKey PublicKey : Type}

namespace Books

/-- The books of a node that has accepted the checkpoint `k` times. -/
def worked (cp : Checkpoint) (k : ℕ) (b : Books) : Books :=
  { b with
    earned := b.earned + .ofNat k
    checkpoint := if k = 0 then b.checkpoint else some cp }

/-- The books of a root that has created the checkpoint. -/
def paid (cp : Checkpoint) (b : Books) : Books := { b with spent := b.spent + 1, checkpoint := some cp }

/-- The books of a node that has claimed what it has earned. -/
def settled (signature : List UInt8) (b : Books) : Books :=
  { b with
    earned := 0
    claims := b.claims ++ [(b.earned, signature)] }

@[simp] theorem worked_zero (cp : Checkpoint) (b : Books) : b.worked cp 0 = b := by
  simp [worked]

theorem worked_worked (cp : Checkpoint) (i j : ℕ) (b : Books) : (b.worked cp i).worked cp j = b.worked cp (i + j) := by
  unfold worked
  ext1
  · simp only [UInt64.add_assoc, UInt64.ofNat_add]
  · rfl
  · by_cases hi : i = 0
    · simp [hi]
    · simp [hi]
  · rfl

/-- The first of several claims is for all that was earned, the others are for nothing. -/
theorem claims_settled (signature : List UInt8) (k : ℕ) (b : Books) :
    ((settled signature)^[k + 1] b).claims =
      b.claims ++ (b.earned, signature) :: List.replicate k (0, signature) ∧
    ((settled signature)^[k + 1] b).earned = 0 := by
  induction k with
  | zero => exact ⟨rfl, rfl⟩
  | succ k ih =>
    obtain ⟨hclaims, hearned⟩ := ih
    rw [Function.iterate_succ_apply']
    refine ⟨?_, ?_⟩
    · simp only [settled, hclaims, hearned, List.replicate_succ', List.append_assoc, List.cons_append]
    · rfl

theorem checkpoint_settled (signature : List UInt8) (k : ℕ) (b : Books) :
    ((settled signature)^[k] b).checkpoint = b.checkpoint := by
  induction k with
  | zero => rfl
  | succ k ih =>
    rw [Function.iterate_succ_apply']
    exact ih

end Books

namespace OnChainAccount

variable {a : OnChainAccount Address SecretKey PublicKey} {s s' : OnChainState Address PublicKey} {chat : UInt64}

theorem preForward_root {req req' : ForwardReq} (hidx : req.chainIndex = 0)
    (h : a.preForward chat req s = (.ok (some req'), s')) :
    req' = { req with metadata := a.rootMetadata (some (a.checkpoint ((s.books chat).spent + 1))) } ∧
      s'.books chat = (s.books chat).paid (a.checkpoint ((s.books chat).spent + 1)) := by
  have hget : OnChainStorage.get (OnChainStorage.increase s.spending chat 1) chat = (s.books chat).spent + 1 := by
    rw [OnChainStorage.get_increase, if_pos rfl]
    rfl
  simp only [preForward, if_pos hidx, createCheckpoint, signCheckpoint, hget, Prod.mk.injEq, Except.ok.injEq,
    Option.some.injEq] at h
  obtain ⟨rfl, rfl⟩ := h
  refine ⟨rfl, ?_⟩
  simp [OnChainState.books, Books.paid, OnChainStorage.get_increase, checkpoint]

theorem preForward_worked {req req' : ForwardReq} (hidx : req.chainIndex ≠ 0)
    (h : a.preForward chat req s = (.ok (some req'), s')) {m : OnChainServiceMetadata Address PublicKey} {cp : Checkpoint}
    (hm : a.codec.deserialize req.metadata = some m) (hcp : m.checkpoint = some cp) :
    req' = req ∧ s'.books chat = (s.books chat).worked cp 1 := by
  rcases preForward_worker hidx h with ⟨m', cp', pk, hm', hcp', -, -, hreq, rfl⟩ | ⟨hno, -⟩
  · obtain rfl : m = m' := Option.some.inj (hm.symm.trans hm')
    obtain rfl : cp = cp' := Option.some.inj (hcp.symm.trans hcp')
    refine ⟨by simpa using hreq, ?_⟩
    simp [OnChainState.books, Books.worked, OnChainStorage.get_increase]
  · exact absurd rfl (hno req')

/-- The end of a chat at a node changes nothing but what its root has spent. -/
theorem preEnd_books {req req' : EndReq} (h : a.preEnd chat req s = (.ok (some req'), s')) :
    req'.chainIndex = req.chainIndex ∧ s'.books chat = { s.books chat with spent := (s'.books chat).spent } := by
  unfold preEnd at h
  split at h
  · cases h
    exact ⟨rfl, rfl⟩
  · cases h
    exact ⟨rfl, rfl⟩

theorem preEnd_worker {req : EndReq} (hidx : req.chainIndex ≠ 0) : a.preEnd chat req s = (.ok (some req), s) := by
  unfold preEnd
  rw [if_neg hidx]

theorem postEnd_root {req : EndReq} (hidx : req.chainIndex = 0) (res : EndRes) :
    a.postEnd chat req res s = (.ok res, s) := by
  unfold postEnd
  rw [if_pos hidx]

theorem postEnd_settled {req : EndReq} {res res' : EndRes} (hidx : req.chainIndex ≠ 0) {cp : Checkpoint}
    (hcp : (s.books chat).checkpoint = some cp) (h : (a.postEnd chat req res s).1 = .ok res') :
    (a.postEnd chat req res s).2.books chat = (s.books chat).settled cp.signature := by
  have hget : s.checkpoints.getClone chat = some cp := hcp
  unfold postEnd at h ⊢
  rw [if_neg hidx] at h ⊢
  split at h
  case h_1 => cases h
  case h_2 m hm =>
    simp only [hget, submit]
    simp [OnChainState.books, Books.settled, OnChainStorage.finish, OnChainStorage.get, Submission.claim]

end OnChainAccount

variable {Node W E : Type} {N : ℕ} [DecidableEq Node]

theorem books_update (net : Net Node (OnChainState Address PublicKey) W) (n x : Node)
    (st : NodeState Node (OnChainState Address PublicKey) W) (chat : UInt64) :
    (Function.update net n st x).usage.books chat =
      if x = n then st.usage.books chat else (net x).usage.books chat := by
  by_cases hx : x = n
  · rw [hx, Function.update_self, if_pos rfl]
  · rw [Function.update_of_ne hx, if_neg hx]

theorem books_update_of_eq {net : Net Node (OnChainState Address PublicKey) W} {n : Node}
    {st : NodeState Node (OnChainState Address PublicKey) W} {chat : UInt64}
    (h : st.usage.books chat = (net n).usage.books chat) (x : Node) :
    (Function.update net n st x).usage.books chat = (net x).usage.books chat := by
  rw [books_update]
  split
  case isTrue hx => rw [hx, h]
  case isFalse => rfl

theorem owned_update {S : Type} {ids : List UInt64} {chat : UInt64} {net : Net Node S W} {n : Node}
    {st : NodeState Node S W} (h : ∀ m, (net m).Owned ids chat)
    (hst : ∀ t c, st.sessions.getClone t = some c → (net n).sessions.getClone t = some c) (m : Node) :
    (Function.update net n st m).Owned ids chat := by
  by_cases hm : m = n
  · rw [hm, Function.update_self]
    exact fun t c hc => h n t c (hst t c hc)
  · rw [Function.update_of_ne hm]
    exact h m

theorem owned_removed {S : Type} {ids : List UInt64} {chat s : UInt64} {net : Net Node S W} {n : Node}
    {st : NodeState Node S W} (h : ∀ m, (net m).Owned ids chat)
    (hst : ∀ t, st.sessions.getClone t = if t = s then none else (net n).sessions.getClone t) (m : Node) :
    (Function.update net n st m).Owned ids chat := by
  refine owned_update h ?_ m
  intro t c hc
  rw [hst] at hc
  split at hc
  · cases hc
  · exact hc

theorem count_node (n x : Node) (ns : List Node) : (n :: ns).count x = (if x = n then 1 else 0) + ns.count x := by
  rw [List.count_cons, Nat.add_comm]
  by_cases hx : x = n
  · simp [hx]
  · simp [hx, Ne.symm hx]

/-- No node has a session of the chat, and none has noted anything for it. -/
structure NewChat (chat : UInt64) (net : Net Node (OnChainState Address PublicKey) W) : Prop where
  sessions : ∀ n t c, (net n).sessions.getClone t = some c → c.chatId ≠ chat
  books : ∀ n, (net n).usage.books chat = ⟨0, 0, none, []⟩

/-- Every claim for the chat carries the number of its forwards, and a signature of the root
for that number. -/
def ClaimsSigned (acct : Node → OnChainAccount Address SecretKey PublicKey) (root : Node) (chat : UInt64) (k : ℕ)
    (net : Net Node (OnChainState Address PublicKey) W) : Prop :=
  ∀ n address tokenCount signature, .claimTokens address chat tokenCount signature ∈ (net n).usage.submitted →
    tokenCount.toNat = k ∧
      signature = (acct root).ed25519.sign (acct root).secretKey (checkpointBytes tokenCount)

namespace OnChainWorld

variable {w : World Node (OnChainState Address PublicKey) W N}
  {acct : Node → OnChainAccount Address SecretKey PublicKey} {codec : MetadataCodec Address PublicKey}
  {buf : TensorBuf E} {layers : Node → LayersForward W E} {ids : List UInt64} {chat : UInt64} {hop : ℕ} {n : Node}
  {net net' : Net Node (OnChainState Address PublicKey) W} {es : List (Node × Part Node N)}

/-! FORWARD. -/

/-- The first part of a forward at a hop that is not the root. -/
theorem forward_first_worked (hw : OnChainWorld w acct codec) {req req' : ForwardReq}
    {st : NodeState Node (OnChainState Address PublicKey) W} (hidx : req.chainIndex ≠ 0)
    {md : OnChainServiceMetadata Address PublicKey} {cp : Checkpoint} (hmd : codec.deserialize req.metadata = some md)
    (hcp : md.checkpoint = some cp) (hpre : (acct n).preForward chat req (net n).usage = (.ok (some req'), st.usage)) :
    req' = req ∧ ∀ x, (Function.update net n st x).usage.books chat =
      ((net x).usage.books chat).worked cp (if x = n then 1 else 0) := by
  rw [← hw.codec_eq n] at hmd
  obtain ⟨rfl, hbooks⟩ := OnChainAccount.preForward_worked hidx hpre hmd hcp
  refine ⟨rfl, fun x => ?_⟩
  rw [books_update]
  by_cases hx : x = n
  · rw [if_pos hx, if_pos hx, hx, hbooks]
  · rw [if_neg hx, if_neg hx, Books.worked_zero]

/-- A forward that succeeds is accepted once by each hop of the rest of a chain. -/
theorem forward_worked (hw : OnChainWorld w acct codec) {hs : List (Hop Node)} {req : ForwardReq} {res : ForwardRes}
    {vs : List (Visit Node (OnChainState Address PublicKey) W ForwardReq ForwardRes)}
    (hlinked : Linked chat n req.session hs)
    (h : Served (w.forwardFirst buf layers) w.forwardLast (w.Other buf layers ids chat) hop n req net es res net' vs)
    (hsuccess : res.success = true) (hids : ∀ g ∈ hs, g.session ∈ ids) (hplace : InPlace net hs)
    (howned : ∀ m, (net m).Owned ids chat) {i : ℕ} (hidx : req.chainIndex.toNat = i) (hpos : i ≠ 0)
    (hlen : i + hs.length ≤ 2 ^ 32) {md : OnChainServiceMetadata Address PublicKey} {cp : Checkpoint}
    (hmd : codec.deserialize req.metadata = some md) (hcp : md.checkpoint = some cp) :
    ∀ x, (net' x).usage.books chat = ((net x).usage.books chat).worked cp ((hs.map Hop.node).count x) := by
  induction hs generalizing hop n req net net' es vs i with
  | nil => cases hlinked
  | cons g hs ih =>
    have hne := ne_zero_of_toNat hidx hpos
    cases World.forward_hop hlinked h hsuccess hids hplace with
    | last hnode hv hbefore hpre hsessions hmeanwhile =>
      obtain ⟨howned₀, hbooks₀⟩ := hw.run_books hbefore howned
      rw [hw.usage] at hpre
      obtain ⟨-, hworked⟩ := hw.forward_first_worked hne hmd hcp hpre
      have howned₁ := owned_update howned₀ (n := n) fun t c hc => hsessions ▸ hc
      intro x
      rw [(hw.run_books hmeanwhile howned₁).2 x, hworked x, hbooks₀ x, List.map_singleton, hnode, count_node,
        List.count_nil, Nat.add_zero]
    | @next _ _ _ _ _ _ fwd _ _ _ _ _ dest hnode hv hbefore hpre hsessions hlinked' hplace' hrest hmeta hindex hmeanwhile =>
      obtain ⟨howned₀, hbooks₀⟩ := hw.run_books hbefore howned
      rw [hw.usage] at hpre
      obtain ⟨rfl, hworked⟩ := hw.forward_first_worked hne hmd hcp hpre
      have howned₁ := owned_update howned₀ (n := n) fun t c hc => hsessions ▸ hc
      have hids' : ∀ g ∈ hs, g.session ∈ ids := fun g hg => hids g (List.mem_cons_of_mem _ hg)
      rw [List.length_cons] at hlen
      have hidx' : fwd.chainIndex.toNat = i + 1 := by
        rw [hindex]
        exact toNat_succ hidx (by have := hlinked'.length_pos; omega)
      have hrested := ih hlinked' hrest hids' hplace' howned₁ hidx' (Nat.succ_ne_zero i) (by omega)
        (by rw [hmeta]; exact hmd)
      have hvs := World.forward_ids hlinked' hrest hsuccess hids' hplace'
      have howned₂ := (World.forward_parts w buf layers).owned hrest hvs howned₁
      intro x
      rw [(hw.run_books hmeanwhile howned₂).2 x, hrested x, hworked x, hbooks₀ x, Books.worked_worked, List.map_cons,
        hnode, count_node]

/-- What the first part of a forward does at the root. -/
theorem forward_first_paid {req req' : ForwardReq} {st : NodeState Node (OnChainState Address PublicKey) W}
    (hidx : req.chainIndex = 0) (hpre : (acct n).preForward chat req (net n).usage = (.ok (some req'), st.usage))
    {cp : Checkpoint} (hcp : cp = (acct n).checkpoint (((net n).usage.books chat).spent + 1)) :
    req' = { req with metadata := (acct n).rootMetadata (some cp) } ∧
      ∀ x, (Function.update net n st x).usage.books chat =
        if x = n then ((net x).usage.books chat).paid cp else (net x).usage.books chat := by
  obtain ⟨hreq, hpaid⟩ := OnChainAccount.preForward_root hidx hpre
  rw [← hcp] at hreq hpaid
  refine ⟨hreq, fun x => ?_⟩
  rw [books_update, hpaid]
  by_cases hx : x = n
  · rw [if_pos hx, if_pos hx, hx]
  · rw [if_neg hx, if_neg hx]

/-- The root of a forward that succeeds has created the checkpoint of its next token, and
every other hop has accepted it. -/
theorem forward_paid (hw : OnChainWorld w acct codec) {hs : List (Hop Node)} {req : ForwardReq} {res : ForwardRes}
    {vs : List (Visit Node (OnChainState Address PublicKey) W ForwardReq ForwardRes)}
    (hlinked : Linked chat n req.session hs)
    (h : Served (w.forwardFirst buf layers) w.forwardLast (w.Other buf layers ids chat) hop n req net es res net' vs)
    (hsuccess : res.success = true) (hids : ∀ g ∈ hs, g.session ∈ ids) (hplace : InPlace net hs)
    (howned : ∀ m, (net m).Owned ids chat) (hidx : req.chainIndex = 0) (hlen : hs.length ≤ 2 ^ 32) {cp : Checkpoint}
    (hcp : cp = (acct n).checkpoint (((net n).usage.books chat).spent + 1)) :
    ∀ x, (net' x).usage.books chat =
      (if x = n then ((net x).usage.books chat).paid cp else (net x).usage.books chat).worked cp
        ((hs.tail.map Hop.node).count x) := by
  cases World.forward_hop hlinked h hsuccess hids hplace with
  | last hnode hv hbefore hpre hsessions hmeanwhile =>
    obtain ⟨howned₀, hbooks₀⟩ := hw.run_books hbefore howned
    rw [hw.usage] at hpre
    obtain ⟨-, hpaid⟩ := forward_first_paid hidx hpre (hbooks₀ n ▸ hcp)
    have howned₁ := owned_update howned₀ (n := n) fun t c hc => hsessions ▸ hc
    intro x
    rw [(hw.run_books hmeanwhile howned₁).2 x, hpaid, hbooks₀ x, List.tail_cons, List.map_nil, List.count_nil,
      Books.worked_zero]
  | @next _ _ _ net₀ net₁ _ fwd st _ hs _ _ dest hnode hv hbefore hpre hsessions hlinked' hplace' hrest hmeta hindex
      hmeanwhile =>
    obtain ⟨howned₀, hbooks₀⟩ := hw.run_books hbefore howned
    rw [hw.usage] at hpre
    obtain ⟨rfl, hpaid⟩ := forward_first_paid hidx hpre (hbooks₀ n ▸ hcp)
    have howned₁ := owned_update howned₀ (n := n) fun t c hc => hsessions ▸ hc
    have hids' : ∀ g ∈ hs, g.session ∈ ids := fun g hg => hids g (List.mem_cons_of_mem _ hg)
    rw [List.length_cons] at hlen
    have hidx' : fwd.chainIndex.toNat = 1 := by
      rw [hindex, hidx]
      rfl
    have hmd : codec.deserialize fwd.metadata = some ⟨[], (acct n).address, (acct n).publicKey, [], some cp⟩ := by
      rw [hmeta]
      unfold OnChainAccount.rootMetadata
      rw [hw.codec_eq n]
      exact hw.roundTrip _
    have hrested := hw.forward_worked hlinked' hrest hsuccess hids' hplace' howned₁ hidx' Nat.one_ne_zero (by omega)
      hmd rfl
    have hvs := World.forward_ids hlinked' hrest hsuccess hids' hplace'
    have howned₂ := (World.forward_parts w buf layers).owned hrest hvs howned₁
    intro x
    rw [(hw.run_books hmeanwhile howned₂).2 x, hrested x, hpaid, hbooks₀ x, List.tail_cons]

/-- What has been noted for a chat after `j` forwards: the workers have counted each of
them as often as the chain comes to them, and nothing has been claimed. -/
structure Counted (acct : Node → OnChainAccount Address SecretKey PublicKey) (root : Node) (workers : List Node)
    (chat : UInt64) (j : ℕ) (net : Net Node (OnChainState Address PublicKey) W) : Prop where
  earned : ∀ x, ((net x).usage.books chat).earned = .ofNat (j * workers.count x)
  spent : ((net root).usage.books chat).spent = .ofNat j
  checkpoint : j ≠ 0 → ∀ x ∈ workers, ((net x).usage.books chat).checkpoint = some ((acct root).checkpoint (.ofNat j))
  claims : ∀ x, ((net x).usage.books chat).claims = []

theorem Counted.succ {root : Node} {workers : List Node} {j : ℕ} (h : Counted acct root workers chat j net)
    {cp : Checkpoint} (hcp : cp = (acct root).checkpoint (((net root).usage.books chat).spent + 1))
    (hbooks : ∀ x, (net' x).usage.books chat =
      (if x = root then ((net x).usage.books chat).paid cp else (net x).usage.books chat).worked cp (workers.count x)) :
    Counted acct root workers chat (j + 1) net' := by
  have hnext : ((net root).usage.books chat).spent + 1 = .ofNat (j + 1) := by
    rw [h.spent, UInt64.ofNat_add]
    rfl
  rw [hnext] at hcp
  have hpaid : ∀ x, (if x = root then ((net x).usage.books chat).paid cp else (net x).usage.books chat).earned =
      .ofNat (j * workers.count x) := by
    intro x
    rw [← h.earned x]
    split <;> rfl
  constructor
  · intro x
    rw [hbooks x, Nat.succ_mul, UInt64.ofNat_add, ← hpaid x]
    rfl
  · rw [hbooks root, if_pos rfl]
    exact hnext
  · intro _ x hx
    have hpos : workers.count x ≠ 0 := by
      have := List.count_pos_iff.mpr hx
      omega
    rw [hbooks x, hcp]
    simp [Books.worked, hpos]
  · intro x
    rw [hbooks x, ← h.claims x]
    unfold Books.worked
    split <;> rfl

/-- Forwards that all succeed are counted. -/
theorem forwards_counted (hw : OnChainWorld w acct codec) {root : Node} {s : UInt64} {hs : List (Hop Node)}
    (hlinked : Linked chat root s hs) (hids : ∀ g ∈ hs, g.session ∈ ids) (hplace : InPlace net hs)
    (howned : ∀ m, (net m).Owned ids chat) (hlen : hs.length ≤ 2 ^ 32)
    (hcounted : Counted acct root (hs.tail.map Hop.node) chat 0 net)
    {rounds : List (List (Visit Node (OnChainState Address PublicKey) W ForwardReq ForwardRes))}
    (h : w.Forwards buf layers (w.Other buf layers ids chat) root s net es net' rounds) :
    Counted acct root (hs.tail.map Hop.node) chat rounds.length net' ∧ InPlace net' hs ∧ ∀ m, (net' m).Owned ids chat := by
  induction h with
  | none => exact ⟨hcounted, hplace, howned⟩
  | @more es es' net₁ net₂ rounds step seqLen indexPos embedding res vs hbefore hserved hsuccess ih =>
    obtain ⟨hcounted₁, hplace₁, howned₁⟩ := ih
    have hbooks := hw.forward_paid hlinked hserved hsuccess hids hplace₁ howned₁ rfl hlen rfl
    have hvs := World.forward_ids hlinked hserved hsuccess hids hplace₁
    rw [List.length_append, List.length_singleton]
    refine ⟨hcounted₁.succ rfl hbooks, ?_, (World.forward_parts w buf layers).owned hserved hvs howned₁⟩
    exact hplace₁.of_sessions_eq fun g hg => World.forward_sessions hserved (hids g hg) g.node

/-! END. -/

omit [DecidableEq Node] in
theorem passesEnd (hw : OnChainWorld w acct codec) (m : Node) : (w.usage m).PassesEnd :=
  hw.usage m ▸ (acct m).service_passesEnd

/-- The first part of an end at a hop that is not the root. -/
theorem end_first_kept {req req' : EndReq} {st : NodeState Node (OnChainState Address PublicKey) W}
    (hidx : req.chainIndex ≠ 0) (hpre : (acct n).preEnd chat req (net n).usage = (.ok (some req'), st.usage)) :
    req' = req ∧ ∀ x, (Function.update net n st x).usage.books chat = (net x).usage.books chat := by
  rw [OnChainAccount.preEnd_worker hidx] at hpre
  simp only [Prod.mk.injEq, Except.ok.injEq, Option.some.injEq] at hpre
  obtain ⟨rfl, husage⟩ := hpre
  exact ⟨rfl, books_update_of_eq (by rw [← husage])⟩

/-- What it does at the root. -/
theorem end_first_spent {req req' : EndReq} {st : NodeState Node (OnChainState Address PublicKey) W}
    (hidx : req.chainIndex = 0) (hpre : (acct n).preEnd chat req (net n).usage = (.ok (some req'), st.usage)) :
    req'.chainIndex = 0 ∧ ∀ x, ∃ spent, (Function.update net n st x).usage.books chat =
      { (net x).usage.books chat with spent := spent } := by
  obtain ⟨hindex, hbooks⟩ := OnChainAccount.preEnd_books hpre
  refine ⟨hindex.trans hidx, fun x => ?_⟩
  rw [books_update]
  by_cases hx : x = n
  · rw [if_pos hx, hx]
    exact ⟨_, hbooks⟩
  · rw [if_neg hx]
    exact ⟨_, rfl⟩

theorem end_last_root (hw : OnChainWorld w acct codec) {req : EndReq} {answer res : EndRes} (hidx : req.chainIndex = 0)
    (hlast : finishAt w.endLast n chat req answer net = (.returned res, net')) (x : Node) :
    (net' x).usage.books chat = (net x).usage.books chat := by
  rw [World.finishAt_endLast, hw.usage] at hlast
  obtain ⟨-, rfl⟩ := Prod.mk.inj hlast
  have hpost : (acct n).service.postEnd chat req answer (net n).usage = (.ok answer, (net n).usage) :=
    OnChainAccount.postEnd_root hidx answer
  exact books_update_of_eq (by rw [hpost]) x

/-- The second part claims what the node has earned. -/
theorem end_last_settled (hw : OnChainWorld w acct codec) {req : EndReq} {answer res : EndRes}
    (hidx : req.chainIndex ≠ 0) {cp : Checkpoint} (hcp : ((net n).usage.books chat).checkpoint = some cp)
    (hlast : finishAt w.endLast n chat req answer net = (.returned res, net')) :
    ∀ x, (net' x).usage.books chat =
      (Books.settled cp.signature)^[if x = n then 1 else 0] ((net x).usage.books chat) := by
  rw [World.finishAt_endLast, hw.usage] at hlast
  obtain ⟨hres, rfl⟩ := Prod.mk.inj hlast
  have hsettled := OnChainAccount.postEnd_settled hidx hcp (Ending.of_eq_returned_iff.mp hres)
  intro x
  rw [books_update]
  split
  case isTrue hx =>
    rw [hx]
    exact hsettled
  case isFalse => rfl

/-- An end that returns claims once for each hop of the rest of a chain. -/
theorem end_settled (hw : OnChainWorld w acct codec) {hs : List (Hop Node)} {req : EndReq} {res : EndRes}
    {vs : List (Visit Node (OnChainState Address PublicKey) W EndReq EndRes)} (hlinked : Linked chat n req.session hs)
    (h : Served w.endFirst w.endLast (w.Other buf layers ids chat) hop n req net es res net' vs)
    (hids : ∀ g ∈ hs, g.session ∈ ids) (hnodup : (hs.map Hop.session).Nodup) (hplace : InPlace net hs)
    (howned : ∀ m, (net m).Owned ids chat) {i : ℕ} (hidx : req.chainIndex.toNat = i) (hpos : i ≠ 0)
    (hlen : i + hs.length ≤ 2 ^ 32) {cp : Checkpoint}
    (hcp : ∀ x ∈ hs.map Hop.node, ((net x).usage.books chat).checkpoint = some cp) :
    ∀ x, (net' x).usage.books chat =
      (Books.settled cp.signature)^[(hs.map Hop.node).count x] ((net x).usage.books chat) := by
  induction hs generalizing hop n req net net' es vs res i with
  | nil => cases hlinked
  | cons g hs ih =>
    have hne := ne_zero_of_toNat hidx hpos
    have hhere : n = g.node → ((net n).usage.books chat).checkpoint = some cp := by
      rintro rfl
      exact hcp _ List.mem_cons_self
    cases World.end_hop hw.passesEnd hlinked h hids hnodup hplace with
    | last hnode hv hbefore hpre hsessions hmeanwhile hlast =>
      obtain ⟨howned₀, hbooks₀⟩ := hw.run_books hbefore howned
      rw [hw.usage] at hpre
      obtain ⟨rfl, hkept⟩ := end_first_kept hne hpre
      have hbooks₁ := (hw.run_books hmeanwhile (owned_removed howned₀ hsessions)).2
      have hcp₁ := hhere hnode.symm
      rw [← hbooks₀ n, ← hkept n, ← hbooks₁ n] at hcp₁
      intro x
      rw [hw.end_last_settled hne hcp₁ hlast x, hbooks₁ x, hkept x, hbooks₀ x, List.map_singleton, hnode, count_node,
        List.count_nil, Nat.add_zero]
    | @next _ _ _ net₀ net₁ net₂ _ _ st _ _ _ _ dest s hnode hv hbefore hpre hsessions hlinked' hplace' hrest hmeanwhile
        hlast =>
      obtain ⟨howned₀, hbooks₀⟩ := hw.run_books hbefore howned
      rw [hw.usage] at hpre
      obtain ⟨rfl, hkept⟩ := end_first_kept hne hpre
      have howned₁ := owned_removed howned₀ hsessions
      have hids' : ∀ g ∈ hs, g.session ∈ ids := fun g hg => hids g (List.mem_cons_of_mem _ hg)
      rw [List.length_cons] at hlen
      have hidx' := toNat_succ hidx (by have := hlinked'.length_pos; omega)
      have hcp' : ∀ x ∈ hs.map Hop.node, ((Function.update net₀ n st x).usage.books chat).checkpoint = some cp := by
        intro x hx
        rw [hkept x, hbooks₀ x]
        exact hcp x (List.mem_cons_of_mem _ hx)
      have hrested := ih hlinked' hrest hids' hnodup.of_cons hplace' howned₁ hidx' (Nat.succ_ne_zero i) (by omega) hcp'
      have hvs := World.end_ids hw.passesEnd hlinked' hrest hids' hnodup.of_cons hplace'
      have hbooks₂ := (hw.run_books hmeanwhile ((World.end_parts w buf layers).owned hrest hvs howned₁)).2
      have hcp₂ : ((net₂ n).usage.books chat).checkpoint = some cp := by
        rw [hbooks₂ n, hrested n, Books.checkpoint_settled, hkept n, hbooks₀ n]
        exact hhere hnode.symm
      intro x
      rw [hw.end_last_settled hne hcp₂ hlast x, hbooks₂ x, hrested x, hkept x, hbooks₀ x, List.map_cons, hnode,
        count_node, Function.iterate_add_apply]

/-- The end of the root leaves the claims to the others. -/
theorem end_claims (hw : OnChainWorld w acct codec) {hs : List (Hop Node)} {req : EndReq} {res : EndRes}
    {vs : List (Visit Node (OnChainState Address PublicKey) W EndReq EndRes)} (hlinked : Linked chat n req.session hs)
    (h : Served w.endFirst w.endLast (w.Other buf layers ids chat) hop n req net es res net' vs)
    (hids : ∀ g ∈ hs, g.session ∈ ids) (hnodup : (hs.map Hop.session).Nodup) (hplace : InPlace net hs)
    (howned : ∀ m, (net m).Owned ids chat) (hidx : req.chainIndex = 0) (hlen : hs.length ≤ 2 ^ 32) {cp : Checkpoint}
    (hcp : ∀ x ∈ hs.tail.map Hop.node, ((net x).usage.books chat).checkpoint = some cp) :
    ∀ x, ∃ spent, (net' x).usage.books chat = (Books.settled cp.signature)^[(hs.tail.map Hop.node).count x]
      { (net x).usage.books chat with spent := spent } := by
  cases World.end_hop hw.passesEnd hlinked h hids hnodup hplace with
  | last hnode hv hbefore hpre hsessions hmeanwhile hlast =>
    obtain ⟨howned₀, hbooks₀⟩ := hw.run_books hbefore howned
    rw [hw.usage] at hpre
    obtain ⟨hidx', hspent⟩ := end_first_spent hidx hpre
    have hbooks₁ := (hw.run_books hmeanwhile (owned_removed howned₀ hsessions)).2
    intro x
    obtain ⟨spent, hspent⟩ := hspent x
    refine ⟨spent, ?_⟩
    rw [hw.end_last_root hidx' hlast x, hbooks₁ x, hspent, hbooks₀ x]
    rfl
  | @next _ _ _ net₀ net₁ net₂ req' _ st _ hs _ _ dest s hnode hv hbefore hpre hsessions hlinked' hplace' hrest
      hmeanwhile hlast =>
    obtain ⟨howned₀, hbooks₀⟩ := hw.run_books hbefore howned
    rw [hw.usage] at hpre
    obtain ⟨hidx', hspent⟩ := end_first_spent hidx hpre
    have howned₁ := owned_removed howned₀ hsessions
    have hids' : ∀ g ∈ hs, g.session ∈ ids := fun g hg => hids g (List.mem_cons_of_mem _ hg)
    rw [List.length_cons] at hlen
    have hone : (req'.chainIndex + 1).toNat = 1 := by
      rw [hidx']
      rfl
    have hcp' : ∀ x ∈ hs.map Hop.node, ((Function.update net₀ n st x).usage.books chat).checkpoint = some cp := by
      intro x hx
      obtain ⟨spent, hspent⟩ := hspent x
      rw [hspent, hbooks₀ x]
      exact hcp x hx
    have hrested := hw.end_settled hlinked' hrest hids' hnodup.of_cons hplace' howned₁ hone Nat.one_ne_zero (by omega) hcp'
    have hvs := World.end_ids hw.passesEnd hlinked' hrest hids' hnodup.of_cons hplace'
    have hbooks₂ := (hw.run_books hmeanwhile ((World.end_parts w buf layers).owned hrest hvs howned₁)).2
    intro x
    obtain ⟨spent, hspent⟩ := hspent x
    refine ⟨spent, ?_⟩
    rw [hw.end_last_root hidx' hlast x, hbooks₂ x, hrested x, hspent, hbooks₀ x, List.tail_cons]

/-- A start notes nothing. -/
theorem start_books (hw : OnChainWorld w acct codec) {req : StartReq} {res : StartRes}
    {vs : List (Visit Node (OnChainState Address PublicKey) W StartReq StartRes)}
    (h : Served w.startFirst w.startLast (w.Other buf layers (chatIds vs) chat) hop n req net es res net' vs)
    (howned : ∀ m, (net m).Owned (chatIds vs) chat) (x : Node) :
    (net' x).usage.books chat = (net x).usage.books chat := by
  refine (h.keeps (I := fun a => (∀ m, (a m).Owned (chatIds vs) chat) ∧
    ∀ m, (a m).usage.books chat = (net m).usage.books chat) ⟨howned, fun _ => rfl⟩ ?_ ?_ ?_).2 x
  · rintro a e b hab ⟨ha, hbooks⟩
    refine ⟨?_, fun m => (hw.other_books hab ha m).trans (hbooks m)⟩
    obtain ⟨hforeign, rfl⟩ := hab
    exact World.does_owned (.inl hforeign) ha
  · rintro v hv hop ctx a hbegin ⟨ha, hbooks⟩
    obtain ⟨part, hsession, hdoes⟩ := (World.start_parts w buf layers).first _ _ _ _ _ _ hbegin
    have hafter : (w.startFirst hop v.node v.req (a v.node)).2 = v.after := congrArg Prod.snd hbegin
    have husage : v.after.usage = ((acct v.node).preStart v.req (a v.node).usage).2 := by
      rw [← hafter]
      unfold World.startFirst
      rw [hw.usage]
      exact ModelService.startBegin_usage ..
    refine ⟨?_, fun m => ?_⟩
    · rw [hdoes]
      refine World.does_owned (.inr ?_) ha
      intro t ht
      rw [hsession] at ht
      exact Option.some.inj ht ▸ List.mem_map_of_mem hv
    · rw [← hbooks m]
      exact books_update_of_eq (by rw [husage, OnChainAccount.preStart_books]) m
  · rintro v hv ctx req res next answer a res' b hprogress hend ⟨ha, hbooks⟩
    rw [World.finishAt_startLast, hw.usage] at hend
    obtain ⟨-, rfl⟩ := Prod.mk.inj hend
    have hpost : ((acct v.node).service.postStart req answer (a v.node).usage).2.books chat =
        (a v.node).usage.books chat := OnChainAccount.postStart_books req answer
    refine ⟨?_, fun m => ?_⟩
    · exact owned_update ha fun t c hc => hc
    · rw [← hbooks m]
      exact books_update_of_eq hpost m

omit [DecidableEq Node] in
theorem mem_claims {st : NodeState Node (OnChainState Address PublicKey) W} {tokenCount : UInt64}
    {signature : List UInt8} : (tokenCount, signature) ∈ (st.usage.books chat).claims ↔
      ∃ address, .claimTokens address chat tokenCount signature ∈ st.usage.submitted := by
  unfold OnChainState.books
  rw [List.mem_filterMap]
  refine ⟨fun ⟨t, ht, hclaim⟩ => ?_, fun ⟨address, ht⟩ => ?_⟩
  · cases t with
    | createSession => cases hclaim
    | claimTokens address chatId count sig =>
      simp only [Submission.claim] at hclaim
      split at hclaim
      case isTrue heq =>
        cases hclaim
        exact ⟨address, heq ▸ ht⟩
      case isFalse => cases hclaim
  · exact ⟨_, ht, by simp [Submission.claim]⟩

/-- What a node has claimed at the end of a chat, from how often the chain comes to it. -/
theorem chat_claims (hw : OnChainWorld w acct codec) {root : Node} {session : UInt64} {maxLen : UInt32}
    {starts : List (Visit Node (OnChainState Address PublicKey) W StartReq StartRes)}
    {rounds : List (List (Visit Node (OnChainState Address PublicKey) W ForwardReq ForwardRes))}
    (h : w.Chat buf layers root session maxLen starts net es net' rounds) (hnodup : (chatIds starts).Nodup)
    (hnew : NewChat session net) (hlen : starts.length ≤ 2 ^ 32) (hrounds : rounds ≠ []) (x : Node) :
    ((net' x).usage.books session).claims =
      match (starts.tail.map fun v => v.node).count x with
      | 0 => []
      | m + 1 => (.ofNat (rounds.length * (m + 1)), ((acct root).checkpoint (.ofNat rounds.length)).signature) ::
          List.replicate m (0, ((acct root).checkpoint (.ofNat rounds.length)).signature) := by
  obtain @⟨es, es₁, es₂, net₁, net₂, net₃, res, res', rounds, ends, hstart, hsuccess, hforwards, hend⟩ := h
  have hlinked : Linked session root session (starts.map Visit.hop) := World.start_linked hstart hsuccess
  have hplace := World.start_inPlace hstart hnodup
  have hids : ∀ g ∈ starts.map Visit.hop, g.session ∈ chatIds starts := fun g hg => World.hop_session_mem hg
  have hsessions := World.map_hop_session starts
  have hworkers : (starts.map Visit.hop).tail.map Hop.node = starts.tail.map fun v => v.node := by
    rw [← List.map_tail, List.map_map]
    rfl
  have howned : ∀ m, (net m).Owned (chatIds starts) session := fun m t c hc hchat => absurd hchat (hnew.sessions m t c hc)
  have howned₁ := (World.start_parts w buf layers).owned hstart (fun v hv => List.mem_map_of_mem hv) howned
  have hlen' : (starts.map Visit.hop).length ≤ 2 ^ 32 := by rwa [List.length_map]
  have hcounted : Counted acct root ((starts.map Visit.hop).tail.map Hop.node) session 0 net₁ := by
    have hbooks : ∀ x, (net₁ x).usage.books session = ⟨0, 0, none, []⟩ :=
      fun x => (hw.start_books hstart howned x).trans (hnew.books x)
    exact ⟨fun x => by rw [hbooks, Nat.zero_mul]; rfl, by rw [hbooks]; rfl, fun hne => absurd rfl hne,
      fun x => by rw [hbooks]⟩
  obtain ⟨hcounted₂, hplace₂, howned₂⟩ := hw.forwards_counted hlinked hids hplace howned₁ hlen' hcounted hforwards
  have hcp := hcounted₂.checkpoint (mt List.length_eq_zero_iff.mp hrounds)
  obtain ⟨spent, hclaims⟩ := hw.end_claims hlinked hend hids (hsessions ▸ hnodup) hplace₂ howned₂ rfl hlen' hcp x
  rw [hclaims, hworkers]
  have hearned := hcounted₂.earned x
  rw [hworkers] at hearned
  cases hcount : (starts.tail.map fun v => v.node).count x with
  | zero => exact hcounted₂.claims x
  | succ m =>
    rw [hcount] at hearned
    rw [(Books.claims_settled _ m _).1]
    simp only [hcounted₂.claims x, hearned, List.nil_append]

/-- In a chat of at least one forward, the claims are what was signed if and only if the
chain comes to no worker twice; and the counts have 64 bits. -/
theorem claims_what_was_signed_iff (hw : OnChainWorld w acct codec) {root : Node} {session : UInt64} {maxLen : UInt32}
    {starts : List (Visit Node (OnChainState Address PublicKey) W StartReq StartRes)}
    {rounds : List (List (Visit Node (OnChainState Address PublicKey) W ForwardReq ForwardRes))}
    (h : w.Chat buf layers root session maxLen starts net es net' rounds) (hnodup : (chatIds starts).Nodup)
    (hnew : NewChat session net) (hlen : starts.length ≤ 2 ^ 32) (hrounds : rounds ≠ []) :
    ClaimsSigned acct root session rounds.length net' ↔
      (starts.tail.map fun v => v.node).Nodup ∧ (rounds.length < 2 ^ 64 ∨ starts.tail = []) := by
  have hclaims := hw.chat_claims h hnodup hnew hlen hrounds
  have hpos : rounds.length ≠ 0 := mt List.length_eq_zero_iff.mp hrounds
  constructor
  · intro hsigned
    have hclaimed : ∀ x t sig, (t, sig) ∈ ((net' x).usage.books session).claims → t.toNat = rounds.length := by
      intro x t sig hmem
      obtain ⟨address, hmem⟩ := mem_claims.mp hmem
      exact (hsigned x address t sig hmem).1
    have hworkers : (starts.tail.map fun v => v.node).Nodup := by
      rw [List.nodup_iff_count_le_one]
      intro x
      by_contra htwice
      obtain ⟨m, hm⟩ : ∃ m, (starts.tail.map fun v => v.node).count x = m + 2 :=
        ⟨(starts.tail.map fun v => v.node).count x - 2, by omega⟩
      -- the END that returns last claims nothing
      have hzero := hclaimed x 0 ((acct root).checkpoint (.ofNat rounds.length)).signature (by
        rw [hclaims x, hm]
        simp [List.replicate_succ])
      exact hpos hzero.symm
    refine ⟨hworkers, ?_⟩
    cases htail : starts.tail with
    | nil => exact .inr rfl
    | cons v vs =>
      left
      have hone : (starts.tail.map fun v => v.node).count v.node = 1 :=
        List.count_eq_one_of_mem hworkers (by simp [htail])
      have hcount := hclaimed v.node (.ofNat rounds.length) ((acct root).checkpoint (.ofNat rounds.length)).signature (by
        rw [hclaims, hone]
        simp)
      rw [← hcount]
      exact UInt64.toNat_lt _
  · rintro ⟨hworkers, hbound⟩ x address t sig hmem
    have hmem' : (t, sig) ∈ ((net' x).usage.books session).claims := mem_claims.mpr ⟨address, hmem⟩
    have hle := List.nodup_iff_count_le_one.mp hworkers x
    rw [hclaims x] at hmem'
    split at hmem'
    case h_1 => cases hmem'
    case h_2 m hm =>
      obtain rfl : m = 0 := by omega
      obtain ⟨rfl, rfl⟩ : t = .ofNat rounds.length ∧ sig = ((acct root).checkpoint (.ofNat rounds.length)).signature := by
        simpa using hmem'
      have hlt : rounds.length < 2 ^ 64 := by
        refine hbound.resolve_right ?_
        intro htail
        rw [htail] at hm
        cases hm
      refine ⟨?_, rfl⟩
      rw [UInt64.toNat_ofNat']
      exact Nat.mod_eq_of_lt hlt

end OnChainWorld

/-- A chat of one forward that is served alone. -/
theorem World.Chat.alone {S : Type} {w : World Node S W N} {buf : TensorBuf E} {layers : Node → LayersForward W E}
    (fuel : ℕ) {root : Node} {session : UInt64} {maxLen step seqLen indexPos : UInt32} {embedding : List UInt8}
    {net : Net Node S W} {s : Ending StartRes × Net Node S W × List (Visit Node S W StartReq StartRes)}
    {f : Ending ForwardRes × Net Node S W × List (Visit Node S W ForwardReq ForwardRes)}
    {e : Ending EndRes × Net Node S W × List (Visit Node S W EndReq EndRes)} {sres : StartRes} {fres : ForwardRes}
    {eres : EndRes}
    (hs : serve w.startFirst w.startLast (fun _ => .answered) fuel 0 root (VirtualModelLayers.startReq session maxLen)
      net = s) (hsres : s.1 = .returned sres) (hssuccess : sres.success = true)
    (hf : serve (w.forwardFirst buf layers) w.forwardLast (fun _ => .answered) fuel 0 root
      (VirtualModelLayers.forwardReq session step embedding seqLen indexPos) s.2.1 = f)
    (hfres : f.1 = .returned fres) (hfsuccess : fres.success = true)
    (he : serve w.endFirst w.endLast (fun _ => .answered) fuel 0 root (VirtualModelLayers.endReq session) f.2.1 = e)
    (heres : e.1 = .returned eres) : w.Chat buf layers root session maxLen s.2.2 net [] e.2.1 [f.2.2] :=
  .completed (served_alone_iff.mpr ⟨fuel, hs.trans (Prod.ext hsres rfl)⟩) hssuccess
    (.more .none (served_alone_iff.mpr ⟨fuel, hf.trans (Prod.ext hfres rfl)⟩) hfsuccess)
    (served_alone_iff.mpr ⟨fuel, he.trans (Prod.ext heres rfl)⟩)

/-- Layers that give back their input, for any nodes. -/
def idleLayers {Node : Type} : Node → LayersForward LayerCaches (List UInt8) :=
  fun _ => cacheForward fun x _ cache => (some x.1, cache)

/-- The calls of a chat of one forward from the root to the other node. -/
def byteStarted :=
  serve (byteWorld ⟨2, 3⟩ fun _ => .answered).startFirst (byteWorld ⟨2, 3⟩ fun _ => .answered).startLast
    (fun _ => .answered) 2 0 false (VirtualModelLayers.startReq 7 10) byteNet

def byteForwarded :=
  serve ((byteWorld ⟨2, 3⟩ fun _ => .answered).forwardFirst .raw idleLayers)
    (byteWorld ⟨2, 3⟩ fun _ => .answered).forwardLast (fun _ => .answered) 2 0 false
    (VirtualModelLayers.forwardReq 7 0 [1] 1 0) byteStarted.2.1

def byteEnded :=
  serve (byteWorld ⟨2, 3⟩ fun _ => .answered).endFirst (byteWorld ⟨2, 3⟩ fun _ => .answered).endLast
    (fun _ => .answered) 2 0 false (VirtualModelLayers.endReq 7) byteForwarded.2.1

theorem claims_what_was_signed_iff_pair : ∃ starts net' rounds,
    (byteWorld ⟨2, 3⟩ fun _ => .answered).Chat .raw idleLayers false 7 10 starts byteNet [] net' rounds ∧
      rounds.length = 1 ∧ (net' true).usage.submitted.length = 1 ∧
      ClaimsSigned (byteAccount ⟨2, 3⟩) false 7 1 net' := by
  have hs : byteStarted.1 = .returned ⟨true, byteCodec.serialize ⟨[20], 10, 1, [2], none⟩⟩ := by decide +kernel
  have hf : byteForwarded.1 = .returned ⟨true, [1], (byteAccount ⟨2, 3⟩ false).rootMetadata
      (some ((byteAccount ⟨2, 3⟩ false).checkpoint 1))⟩ := by decide +kernel
  have he : byteEnded.1 = .returned ⟨true, (byteAccount ⟨2, 3⟩ false).rootMetadata none⟩ := by decide +kernel
  have hchat : (byteWorld ⟨2, 3⟩ fun _ => .answered).Chat .raw idleLayers false 7 10 byteStarted.2.2 byteNet []
      byteEnded.2.1 [byteForwarded.2.2] := .alone 2 rfl hs rfl rfl hf rfl rfl he
  have hnew : NewChat 7 byteNet := ⟨by rintro n t c ⟨⟩, fun n => rfl⟩
  refine ⟨_, _, _, hchat, rfl, by decide +kernel, ?_⟩
  exact ((byteWorld_onChain ⟨2, 3⟩ _).claims_what_was_signed_iff hchat (by decide +kernel) hnew (by decide +kernel)
    (by simp)).mpr ⟨by decide +kernel, .inl (by decide)⟩

/-- Three nodes with a layer each. The root has the first one and knows the relay alone, which
has the last one and knows the node with the one in between. -/
inductive RelayNode where
  | root
  | relay
  | middle
deriving DecidableEq

def relayAccount (n : RelayNode) : OnChainAccount UInt8 UInt8 UInt8 where
  ed25519 := byteKeys
  codec := byteCodec
  address := match n with | .root => 10 | .relay => 20 | .middle => 30
  secretKey := match n with | .root => 1 | .relay => 2 | .middle => 3
  layers := match n with | .root => ⟨0, 1⟩ | .relay => ⟨2, 3⟩ | .middle => ⟨1, 2⟩
  accepts _ := true

def relayWorld : World RelayNode (OnChainState UInt8 UInt8) LayerCaches 3 where
  usage n := (relayAccount n).service
  worker _ := blockSessions
  router _ n :=
    let neighbour := match n with | .root => .relay | .relay => .middle | .middle => .relay
    ⟨fun l => ⟨∅, if (relayAccount n).layers.contains l.val then none else some (neighbour, ⟨50, 0⟩)⟩,
      (relayAccount n).layers⟩
  rand hop := .ofNat (hop + 100)
  fate _ := .answered

def relayNet : Net RelayNode (OnChainState UInt8 UInt8) LayerCaches :=
  fun _ => ⟨.new, .new, ⟨.new, .new, .new, .new, [], []⟩⟩

def relayStarted :=
  serve relayWorld.startFirst relayWorld.startLast (fun _ => .answered) 4 0 .root (VirtualModelLayers.startReq 7 10)
    relayNet

def relayForwarded :=
  serve (relayWorld.forwardFirst .raw idleLayers) relayWorld.forwardLast (fun _ => .answered) 4 0 .root
    (VirtualModelLayers.forwardReq 7 0 [1] 1 0) relayStarted.2.1

def relayEnded :=
  serve relayWorld.endFirst relayWorld.endLast (fun _ => .answered) 4 0 .root (VirtualModelLayers.endReq 7)
    relayForwarded.2.1

/-- The root asks the relay for the middle layer, which passes this on and is asked for the
last layer by the node in between. After one forward it claims two tokens, and then none. -/
theorem relay_claims_twice : ∃ starts net' rounds,
    relayWorld.Chat .raw idleLayers .root 7 10 starts relayNet [] net' rounds ∧
      starts.map (fun v => v.node) = [.root, .relay, .middle, .relay] ∧ (chatIds starts).Nodup ∧ NewChat 7 relayNet ∧
      rounds.length = 1 ∧
      (net' .relay).usage.submitted = [.claimTokens 10 7 2 (byteKeys.sign 1 (checkpointBytes 1)),
        .claimTokens 10 7 0 (byteKeys.sign 1 (checkpointBytes 1))] ∧
      ¬ClaimsSigned relayAccount .root 7 1 net' := by
  have hs : relayStarted.1 = .returned ⟨true, byteCodec.serialize ⟨[20, 30, 20], 10, 1, [2, 2, 3], none⟩⟩ := by
    decide +kernel
  have hf : relayForwarded.1 = .returned ⟨true, [1], (relayAccount .root).rootMetadata
      (some ((relayAccount .root).checkpoint 1))⟩ := by decide +kernel
  have he : relayEnded.1 = .returned ⟨true, (relayAccount .root).rootMetadata none⟩ := by decide +kernel
  have hchat : relayWorld.Chat .raw idleLayers .root 7 10 relayStarted.2.2 relayNet [] relayEnded.2.1
      [relayForwarded.2.2] := .alone 4 rfl hs rfl rfl hf rfl rfl he
  have hnew : NewChat 7 relayNet := ⟨by rintro n t c ⟨⟩, fun n => rfl⟩
  have hclaims : (relayEnded.2.1 .relay).usage.submitted =
      [.claimTokens 10 7 2 (byteKeys.sign 1 (checkpointBytes 1)),
        .claimTokens 10 7 0 (byteKeys.sign 1 (checkpointBytes 1))] := by decide +kernel
  refine ⟨_, _, _, hchat, by decide +kernel, by decide +kernel, hnew, rfl, hclaims, fun hsigned => ?_⟩
  have htwo := (hsigned .relay 10 2 (byteKeys.sign 1 (checkpointBytes 1)) (by simp [hclaims])).1
  revert htwo
  decide

end Dllm
