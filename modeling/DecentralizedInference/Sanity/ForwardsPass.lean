import DecentralizedInference.Sanity.ChatBooks

/-! Forwards that no `OnChainService` refuses. START registers the key of the root for the
chat at every worker of the chain, and the checkpoint that the root puts into a forward is
signed with this key. -/

namespace Dllm

variable {Address SecretKey PublicKey Node W E : Type} {N : ℕ}

/-- The accounts have one signature scheme, whose own keys and signatures are in order. -/
structure SharedScheme (acct : Node → OnChainAccount Address SecretKey PublicKey)
    (scheme : Ed25519 SecretKey PublicKey) : Prop where
  eq : ∀ n, (acct n).ed25519 = scheme
  parses : ∀ k, scheme.parses (scheme.publicKey k) = true
  length : ∀ k message, (scheme.sign k message).length = 64
  verifies : ∀ k message, scheme.verifyStrict (scheme.publicKey k) message (scheme.sign k message) = true

namespace OnChainAccount

variable {a : OnChainAccount Address SecretKey PublicKey} {s : OnChainState Address PublicKey} {chat : UInt64}

/-! START alone registers a key, that of its metadata for its chat. -/

theorem preStart_registers {req : StartReq} (hidx : req.chainIndex ≠ 0) {m : OnChainServiceMetadata Address PublicKey}
    (hm : a.codec.deserialize req.metadata = some m) :
    (a.preStart req s).2.rootPks = s.rootPks.insert req.chatId m.rootPk := by
  unfold preStart
  simp only [if_neg hidx, hm]

theorem preStart_rootPks_of_ne {req : StartReq} (hchat : req.chatId ≠ chat) :
    (a.preStart req s).2.rootPks.getClone chat = s.rootPks.getClone chat := by
  unfold preStart
  split
  · rfl
  · split
    · rfl
    · rw [SharedHashMap.getClone_insert, if_neg hchat.symm]

theorem preStart_root {req : StartReq} (hidx : req.chainIndex = 0) :
    a.preStart req s = (.ok (some { req with metadata := a.rootMetadata none }), s) := by
  unfold preStart
  rw [if_pos hidx]

theorem postStart_rootPks (req : StartReq) (res : StartRes) : (a.postStart req res s).2.rootPks = s.rootPks := by
  unfold postStart
  split
  · rfl
  · split
    · rcases ha : a.accepts s.submitted.length <;> simp [submit, ha]
    · rfl

theorem preForward_rootPks (req : ForwardReq) : (a.preForward chat req s).2.rootPks = s.rootPks := by
  by_cases hidx : req.chainIndex = 0
  · simp only [preForward, if_pos hidx, createCheckpoint, signCheckpoint]
  · rcases h : a.preForward chat req s with ⟨r, s'⟩
    rcases preForward_worker hidx h with ⟨m, cp, pk, -, -, -, -, -, rfl⟩ | ⟨-, rfl⟩
    · rfl
    · rfl

theorem preEnd_rootPks (req : EndReq) : (a.preEnd chat req s).2.rootPks = s.rootPks := by
  unfold preEnd
  split <;> rfl

theorem postEnd_rootPks (req : EndReq) (res : EndRes) : (a.postEnd chat req res s).2.rootPks = s.rootPks := by
  unfold postEnd
  split
  · rfl
  · split
    · rfl
    · simp only
      split <;> rfl

/-- A forward with a checkpoint of the root passes at a worker that has the root's key. -/
theorem preForward_of_registered {scheme : Ed25519 SecretKey PublicKey} (hscheme : a.ed25519 = scheme)
    {key : PublicKey} (hparses : scheme.parses key = true) {req : ForwardReq} (hidx : req.chainIndex ≠ 0)
    {m : OnChainServiceMetadata Address PublicKey} (hm : a.codec.deserialize req.metadata = some m) {cp : Checkpoint}
    (hcp : m.checkpoint = some cp) (hkey : s.rootPks.getClone chat = some key) (hlength : cp.signature.length = 64)
    (hverifies : scheme.verifyStrict key (checkpointBytes cp.tokenCount) cp.signature = true) :
    ∃ s', a.preForward chat req s = (.ok (some req), s') := by
  have hverified : a.verifyCheckpoint chat cp s = .ok true := by
    simp [verifyCheckpoint, hkey, hscheme, hparses, hlength, hverifies]
  exact ⟨_, preForward_of_verified hidx hm hcp hverified⟩

/-- The root lets its own forwards pass, with a checkpoint that it has signed. -/
theorem preForward_own (a : OnChainAccount Address SecretKey PublicKey) (chat : UInt64) {req : ForwardReq}
    (hidx : req.chainIndex = 0) (s : OnChainState Address PublicKey) : ∃ tokenCount s', a.preForward chat req s =
      (.ok (some { req with metadata := a.rootMetadata (some (a.checkpoint tokenCount)) }), s') := by
  simp only [preForward, if_pos hidx, createCheckpoint, signCheckpoint]
  exact ⟨_, _, rfl⟩

end OnChainAccount

/-- A part of another chat registers no key for this one. -/
theorem Part.Foreign.rootPks_eq {a : OnChainAccount Address SecretKey PublicKey} {worker : LayerSessions W}
    {buf : TensorBuf E} {forward : LayersForward W E} {part : Part Node N} {ids : List UInt64} {chat : UInt64}
    (hpart : part.Foreign ids chat) (st : NodeState Node (OnChainState Address PublicKey) W) :
    (part.run a.service.toWorkerUsageService worker buf forward st).usage.rootPks.getClone chat =
      st.usage.rootPks.getClone chat := by
  cases part with
  | startBegin router rs req =>
    simp only [Part.run, ModelService.startBegin_usage]
    exact OnChainAccount.preStart_rootPks_of_ne hpart.2
  | startEnd req res =>
    have hkept : (a.postStart req res st.usage).2.rootPks = _ := OnChainAccount.postStart_rootPks req res
    exact congrArg (fun m => m.getClone chat) hkept
  | forwardBegin req =>
    simp only [Part.run, ModelService.forwardBegin_usage]
    cases st.sessions.getClone req.session with
    | none => rfl
    | some c =>
      have hkept : (a.preForward c.chatId req st.usage).2.rootPks = _ := OnChainAccount.preForward_rootPks req
      exact congrArg (fun m => m.getClone chat) hkept
  | forwardEnd chatId req res => rfl
  | endBegin req =>
    simp only [Part.run, ModelService.endBegin_usage]
    cases st.sessions.getClone req.session with
    | none => rfl
    | some c =>
      have hkept : (a.preEnd c.chatId req st.usage).2.rootPks = _ := OnChainAccount.preEnd_rootPks req
      exact congrArg (fun m => m.getClone chat) hkept
  | endEnd chatId req res =>
    have hkept : (a.postEnd chatId req res st.usage).2.rootPks = _ := OnChainAccount.postEnd_rootPks req res
    exact congrArg (fun m => m.getClone chat) hkept

variable [DecidableEq Node]

omit [DecidableEq Node] in
/-- The container that the first node of a chain in place has for its session. -/
theorem Linked.stored {S : Type} {chat : UInt64} {n : Node} {t : UInt64} {g : Hop Node} {hs : List (Hop Node)}
    {net : Net Node S W} (h : Linked chat n t (g :: hs)) (hplace : InPlace net (g :: hs))
    {container : SessionContainer Node} (hcontainer : (net n).sessions.getClone t = some container) :
    container.chatId = chat ∧
      (container.remote = none ∧ hs = [] ∨ ∃ d s', container.remote = some (d, s') ∧ Linked chat d s' hs) := by
  have hstored := hplace g List.mem_cons_self
  cases h with
  | last =>
    rw [hcontainer] at hstored
    cases hstored
    exact ⟨rfl, .inl ⟨rfl, rfl⟩⟩
  | next hrest =>
    rw [hcontainer] at hstored
    cases hstored
    exact ⟨rfl, .inr ⟨_, _, rfl, hrest⟩⟩

/-- These nodes have this key for the chat. -/
def Registered (chat : UInt64) (key : PublicKey) (P : Node → Prop)
    (net : Net Node (OnChainState Address PublicKey) W) : Prop :=
  ∀ x, P x → (net x).usage.rootPks.getClone chat = some key

omit [DecidableEq Node] in
theorem Registered.of_rootPks_eq {chat : UInt64} {key : PublicKey} {P : Node → Prop}
    {net net' : Net Node (OnChainState Address PublicKey) W} (h : Registered chat key P net)
    (heq : ∀ x, (net' x).usage.rootPks.getClone chat = (net x).usage.rootPks.getClone chat) :
    Registered chat key P net' := fun x hx => (heq x).trans (h x hx)

theorem rootPks_update {chat : UInt64} {net : Net Node (OnChainState Address PublicKey) W} {n : Node}
    {st : NodeState Node (OnChainState Address PublicKey) W}
    (h : st.usage.rootPks.getClone chat = (net n).usage.rootPks.getClone chat) (x : Node) :
    (Function.update net n st x).usage.rootPks.getClone chat = (net x).usage.rootPks.getClone chat := by
  by_cases hx : x = n
  · rw [hx, Function.update_self, h]
  · rw [Function.update_of_ne hx]

namespace OnChainWorld

variable {w : World Node (OnChainState Address PublicKey) W N}
  {acct : Node → OnChainAccount Address SecretKey PublicKey} {codec : MetadataCodec Address PublicKey}
  {buf : TensorBuf E} {layers : Node → LayersForward W E} {ids : List UInt64} {chat : UInt64} {hop : ℕ} {n : Node}
  {net net' : Net Node (OnChainState Address PublicKey) W} {es : List (Node × Part Node N)} {key : PublicKey}
  {P : Node → Prop}

theorem run_rootPks (hw : OnChainWorld w acct codec) (h : Run (w.Other buf layers ids chat) net es net') (x : Node) :
    (net' x).usage.rootPks.getClone chat = (net x).usage.rootPks.getClone chat := by
  refine h.invariant (P := fun a => (a x).usage.rootPks.getClone chat = (net x).usage.rootPks.getClone chat) rfl ?_
  rintro a ⟨m, part⟩ b ⟨hforeign, rfl⟩ ha
  rw [← ha]
  unfold World.does
  by_cases hx : x = m
  · subst hx
    rw [Function.update_self, hw.usage]
    exact hforeign.rootPks_eq _
  · rw [Function.update_of_ne hx]

theorem finishAt_startLast_rootPks (hw : OnChainWorld w acct codec) {ctx : Unit} {req : StartReq} {answer : StartRes}
    {e : Ending StartRes} (h : finishAt w.startLast n ctx req answer net = (e, net')) (x : Node) :
    (net' x).usage.rootPks.getClone chat = (net x).usage.rootPks.getClone chat := by
  rw [World.finishAt_startLast, hw.usage] at h
  obtain ⟨-, rfl⟩ := Prod.mk.inj h
  have hkept : ((acct n).postStart req answer (net n).usage).2.rootPks = _ := OnChainAccount.postStart_rootPks req answer
  exact rootPks_update (congrArg (fun m => m.getClone chat) hkept) x

/-- The first part of a START at a worker registers the key of its metadata, and keeps it where it is. -/
theorem startFirst_registers (hw : OnChainWorld w acct codec) {req : StartReq} {ctx : Unit}
    {progress : Progress Node StartReq StartRes} {st : NodeState Node (OnChainState Address PublicKey) W}
    (hfirst : w.startFirst hop n req (net n) = (.ok (ctx, progress), st)) (hchat : req.chatId = chat)
    (hidx : req.chainIndex ≠ 0) {m : OnChainServiceMetadata Address PublicKey}
    (hm : codec.deserialize req.metadata = some m) (hkept : Registered chat m.rootPk P net) :
    Registered chat m.rootPk (fun x => P x ∨ x = n) (Function.update net n st) := by
  have husage : st.usage.rootPks = (net n).usage.rootPks.insert chat m.rootPk := by
    have hafter : (w.startFirst hop n req (net n)).2.usage = st.usage := congrArg (fun r => r.2.usage) hfirst
    rw [← hafter, ← hchat, ← OnChainAccount.preStart_registers (a := acct n) hidx (by rw [hw.codec_eq, hm])]
    unfold World.startFirst
    rw [hw.usage]
    exact congrArg OnChainState.rootPks (ModelService.startBegin_usage ..)
  intro x hx
  by_cases hn : x = n
  · rw [hn, Function.update_self, husage, SharedHashMap.getClone_insert, if_pos rfl]
  · rw [Function.update_of_ne hn]
    exact hkept x (hx.resolve_right hn)

/-- A START that is passed on by a worker registers the key of its metadata at all nodes it comes to. -/
theorem start_registers (hw : OnChainWorld w acct codec) {req : StartReq} {res : StartRes}
    {vs : List (Visit Node (OnChainState Address PublicKey) W StartReq StartRes)}
    (h : Served w.startFirst w.startLast (w.Other buf layers ids chat) hop n req net es res net' vs)
    (hchat : req.chatId = chat) {i : ℕ} (hidx : req.chainIndex.toNat = i) (hpos : i ≠ 0) (hlen : i + vs.length ≤ 2 ^ 32)
    {m : OnChainServiceMetadata Address PublicKey} (hm : codec.deserialize req.metadata = some m)
    (hkept : Registered chat m.rootPk P net) :
    Registered chat m.rootPk (fun x => P x ∨ x ∈ vs.map Visit.node) net' := by
  induction h generalizing i P with
  | replies hbefore hfirst =>
    have hkept₀ := hkept.of_rootPks_eq (hw.run_rootPks hbefore)
    have hhere := hw.startFirst_registers hfirst hchat (ne_zero_of_toNat hidx hpos) hm hkept₀
    simpa using hhere
  | ends hbefore hfirst hmeanwhile hlast =>
    have hkept₀ := hkept.of_rootPks_eq (hw.run_rootPks hbefore)
    have hhere := hw.startFirst_registers hfirst hchat (ne_zero_of_toNat hidx hpos) hm hkept₀
    have hkept₁ := hhere.of_rootPks_eq (hw.run_rootPks hmeanwhile)
    simpa using hkept₁.of_rootPks_eq (hw.finishAt_startLast_rootPks hlast)
  | @answered hop n req req' net net₀ net₁ net₂ net' es es₁ es₂ ctx res answer res' d st vs hbefore hfirst hrest
      hmeanwhile hlast ih =>
    have hne := ne_zero_of_toNat hidx hpos
    have hkept₀ := hkept.of_rootPks_eq (hw.run_rootPks hbefore)
    have hhere := hw.startFirst_registers hfirst hchat hne hm hkept₀
    obtain ⟨route, u, hpre, -, -, hnext, -⟩ :=
      World.begins_proceed (c := ⟨1, hop, n, req, net₀⟩) ⟨Nat.one_ne_zero, hfirst⟩
    obtain ⟨r, hr, rfl⟩ := Option.map_eq_some_iff.mp hnext.symm
    obtain rfl : req = req' := by
      rw [hw.usage] at hpre
      rcases OnChainAccount.preStart_metadata hpre with ⟨hzero, -⟩ | ⟨-, hsame, -⟩
      · exact absurd hzero hne
      · exact hsame.symm
    rw [List.length_cons] at hlen
    have hrested := ih hchat (toNat_succ hidx (by have := hrest.length_pos; omega)) (Nat.succ_ne_zero i) (by omega) hm hhere
    have hkept₂ := (hrested.of_rootPks_eq (hw.run_rootPks hmeanwhile)).of_rootPks_eq (hw.finishAt_startLast_rootPks hlast)
    intro x hx
    refine hkept₂ x ?_
    rcases hx with hx | hx
    · exact .inl (.inl hx)
    · rcases List.mem_cons.mp hx with rfl | hx
      · exact .inl (.inr rfl)
      · exact .inr hx

/-- A START of a root registers the root's key at all workers of its chain. -/
theorem start_registers_root (hw : OnChainWorld w acct codec) {req : StartReq} {res : StartRes}
    {vs : List (Visit Node (OnChainState Address PublicKey) W StartReq StartRes)}
    (h : Served w.startFirst w.startLast (w.Other buf layers ids chat) hop n req net es res net' vs)
    (hchat : req.chatId = chat) (hidx : req.chainIndex = 0) (hlen : vs.length ≤ 2 ^ 32) :
    Registered chat (acct n).publicKey (fun x => x ∈ vs.tail.map Visit.node) net' := by
  cases h with
  | replies => exact fun x hx => absurd hx List.not_mem_nil
  | ends => exact fun x hx => absurd hx List.not_mem_nil
  | @answered _ _ _ req' _ net₀ net₁ net₂ _ es es₁ es₂ ctx res answer _ d st vs hbefore hfirst hrest hmeanwhile hlast =>
    obtain ⟨route, u, hpre, -, -, hnext, -⟩ :=
      World.begins_proceed (c := ⟨1, hop, n, req, net₀⟩) ⟨Nat.one_ne_zero, hfirst⟩
    obtain ⟨r, hr, rfl⟩ := Option.map_eq_some_iff.mp hnext.symm
    rw [hw.usage] at hpre
    have hroot : (acct n).service.preStart req (net₀ n).usage = _ := OnChainAccount.preStart_root hidx
    obtain ⟨rfl, rfl⟩ : { req with metadata := (acct n).rootMetadata none } = req' ∧ (net₀ n).usage = u := by
      simpa [hroot] using hpre
    have hm : codec.deserialize ((acct n).rootMetadata none) = some ⟨[], (acct n).address, (acct n).publicKey, [], none⟩ := by
      unfold OnChainAccount.rootMetadata
      rw [hw.codec_eq n]
      exact hw.roundTrip _
    have hone : (req.chainIndex + 1).toNat = 1 := by rw [hidx]; rfl
    have hnone : Registered chat (acct n).publicKey (fun _ => False) (Function.update net₀ n st) := fun x hx => hx.elim
    rw [List.length_cons] at hlen
    have hrested := hw.start_registers hrest hchat hone Nat.one_ne_zero (by omega) hm hnone
    have hkept := (hrested.of_rootPks_eq (hw.run_rootPks hmeanwhile)).of_rootPks_eq (hw.finishAt_startLast_rootPks hlast)
    exact fun x hx => hkept x (.inr hx)

/-- A forward changes no keys. -/
theorem forwardFirst_rootPks (hw : OnChainWorld w acct codec) {req : ForwardReq} {r : Except Panic _}
    {st : NodeState Node (OnChainState Address PublicKey) W} (h : w.forwardFirst buf layers hop n req (net n) = (r, st))
    (x : Node) :
    (Function.update net n st x).usage.rootPks.getClone chat = (net x).usage.rootPks.getClone chat := by
  refine rootPks_update ?_ x
  have hafter : (w.forwardFirst buf layers hop n req (net n)).2.usage = st.usage := congrArg (fun r => r.2.usage) h
  rw [← hafter]
  unfold World.forwardFirst
  rw [hw.usage, ModelService.forwardBegin_usage]
  cases (net n).sessions.getClone req.session with
  | none => rfl
  | some c =>
    have hkept : ((acct n).preForward c.chatId req (net n).usage).2.rootPks = _ := OnChainAccount.preForward_rootPks req
    exact congrArg (fun m => m.getClone chat) hkept

theorem forward_rootPks (hw : OnChainWorld w acct codec) {req : ForwardReq} {res : ForwardRes}
    {vs : List (Visit Node (OnChainState Address PublicKey) W ForwardReq ForwardRes)}
    (h : Served (w.forwardFirst buf layers) w.forwardLast (w.Other buf layers ids chat) hop n req net es res net' vs)
    (x : Node) : (net' x).usage.rootPks.getClone chat = (net x).usage.rootPks.getClone chat := by
  refine h.keeps (I := fun a => (a x).usage.rootPks.getClone chat = (net x).usage.rootPks.getClone chat) rfl ?_ ?_ ?_
  · intro a e b hab ha
    rw [hw.run_rootPks (.cons hab .nil), ha]
  · intro v hv hop ctx a hbegin ha
    rw [hw.forwardFirst_rootPks hbegin, ha]
  · intro v hv ctx req res next answer a res' b hprogress hend ha
    rw [World.finishAt_forwardLast] at hend
    obtain ⟨-, rfl⟩ := Prod.mk.inj hend
    exact ha

/-- A forward that goes on along a chain, and the call that it makes. -/
theorem forward_goes_on (hw : OnChainWorld w acct codec) {hs : List (Hop Node)}
    {c : Call Node (OnChainState Address PublicKey) W ForwardReq} (hlinked : Linked chat c.node c.req.session hs)
    (hplace : InPlace c.net hs) {ctx : UInt64} {req : ForwardReq} {res : ForwardRes} {d : Downstream Node ForwardReq}
    {st : NodeState Node (OnChainState Address PublicKey) W}
    (hbegin : c.Begins (w.forwardFirst buf layers) ctx (.proceed req res (some d)) st) :
    (∃ u, (acct c.node).preForward chat c.req (c.net c.node).usage = (.ok (some req), u)) ∧
      d.req.metadata = req.metadata ∧ d.req.chainIndex = req.chainIndex + 1 ∧
      ∃ g hs', hs = g :: hs' ∧ Linked chat d.dest d.req.session hs' ∧ InPlace (c.next st d).net hs' := by
  obtain ⟨container, u, layers', embedding, hcontainer, rfl, hpre, hnext, rfl⟩ :=
    ModelService.forwardBegin_proceed hbegin.2
  obtain ⟨⟨dest, s'⟩, hsome, rfl⟩ := Option.map_eq_some_iff.mp hnext.symm
  cases hs with
  | nil => cases hlinked
  | cons g hs =>
    obtain ⟨rfl, hstored⟩ := hlinked.stored hplace hcontainer
    rw [hw.usage] at hpre
    refine ⟨⟨u, hpre⟩, rfl, rfl, g, hs, rfl, ?_, hplace.tail.update fun _ _ => rfl⟩
    rcases hstored with ⟨hnone, -⟩ | ⟨d', s'', hremote, hlinked'⟩
    · rw [hnone] at hsome
      cases hsome
    · rw [hsome] at hremote
      cases hremote
      exact hlinked'

/-- No worker of a chain that has a key refuses a forward with a checkpoint that the key verifies. -/
theorem unrefused_worker (hw : OnChainWorld w acct codec) {scheme : Ed25519 SecretKey PublicKey}
    (hscheme : ∀ n, (acct n).ed25519 = scheme) (hparses : scheme.parses key = true) {hs : List (Hop Node)}
    {m : OnChainServiceMetadata Address PublicKey} {cp : Checkpoint} (hcp : m.checkpoint = some cp)
    (hlength : cp.signature.length = 64)
    (hverifies : scheme.verifyStrict key (checkpointBytes cp.tokenCount) cp.signature = true)
    {c : Call Node (OnChainState Address PublicKey) W ForwardReq} (hlinked : Linked chat c.node c.req.session hs)
    (hplace : InPlace c.net hs) (hkeys : Registered chat key (fun x => x ∈ hs.map Hop.node) c.net) {i : ℕ}
    (hidx : c.req.chainIndex.toNat = i) (hpos : i ≠ 0) (hlen : i + hs.length ≤ 2 ^ 32)
    (hm : codec.deserialize c.req.metadata = some m) : w.Unrefused buf layers c := by
  induction hs generalizing c i with
  | nil => cases hlinked
  | cons g hs ih =>
    have hne := ne_zero_of_toNat hidx hpos
    have hkey : (c.net c.node).usage.rootPks.getClone chat = some key := by
      rw [← hlinked.head.1]
      exact hkeys g.node (by simp)
    obtain ⟨u, hpre⟩ := OnChainAccount.preForward_of_registered (hscheme c.node) hparses hne
      (by rw [hw.codec_eq, hm]) hcp hkey hlength hverifies
    intro x hx
    rcases hx.cases_head with rfl | ⟨y, hsends, hrest⟩
    · intro container hcontainer
      obtain ⟨rfl, -⟩ := hlinked.stored hplace hcontainer
      rw [hw.usage]
      exact ⟨_, _, hpre⟩
    · obtain @⟨ctx, req, res, d, st, hbegin, -⟩ := hsends
      obtain ⟨⟨u', hpre'⟩, hmeta, hindex, g', hs', hcons, hlinked', hplace'⟩ := hw.forward_goes_on hlinked hplace hbegin
      cases hcons
      obtain rfl : c.req = req := by
        have hsame := hpre.symm.trans hpre'
        simpa using congrArg Prod.fst hsame
      have hkept : Registered chat key (fun x => x ∈ (g :: hs).map Hop.node) (c.next st d).net :=
        hkeys.of_rootPks_eq (hw.forwardFirst_rootPks hbegin.2)
      rw [List.length_cons] at hlen
      have hsucc : d.req.chainIndex.toNat = i + 1 := by
        rw [hindex]
        exact toNat_succ hidx (by have := hlinked'.length_pos; omega)
      exact ih hlinked' hplace' (fun x hx => hkept x (List.mem_cons_of_mem _ hx)) hsucc (Nat.succ_ne_zero i) (by omega)
        (hmeta ▸ hm) x hrest

/-- No node of a chain whose workers have the root's key refuses a forward of the root. -/
theorem unrefused (hw : OnChainWorld w acct codec) {scheme : Ed25519 SecretKey PublicKey}
    (hscheme : SharedScheme acct scheme) {hs : List (Hop Node)}
    {c : Call Node (OnChainState Address PublicKey) W ForwardReq} (hlinked : Linked chat c.node c.req.session hs)
    (hplace : InPlace c.net hs)
    (hkeys : Registered chat (acct c.node).publicKey (fun x => x ∈ hs.tail.map Hop.node) c.net)
    (hidx : c.req.chainIndex = 0) (hlen : hs.length ≤ 2 ^ 32) : w.Unrefused buf layers c := by
  obtain ⟨tokenCount, u, hpre⟩ := (acct c.node).preForward_own chat hidx (c.net c.node).usage
  intro x hx
  rcases hx.cases_head with rfl | ⟨y, hsends, hrest⟩
  · intro container hcontainer
    obtain ⟨_, _, hown⟩ := (acct c.node).preForward_own container.chatId hidx (c.net c.node).usage
    rw [hw.usage]
    exact ⟨_, _, hown⟩
  · obtain @⟨ctx, req, res, d, st, hbegin, -⟩ := hsends
    obtain ⟨⟨u', hpre'⟩, hmeta, hindex, g, hs, rfl, hlinked', hplace'⟩ := hw.forward_goes_on hlinked hplace hbegin
    obtain rfl : { c.req with metadata := (acct c.node).rootMetadata (some ((acct c.node).checkpoint tokenCount)) } = req := by
      have hsame := hpre.symm.trans hpre'
      simpa using congrArg Prod.fst hsame
    have hkept : Registered chat (acct c.node).publicKey (fun x => x ∈ hs.map Hop.node) (c.next st d).net :=
      hkeys.of_rootPks_eq (hw.forwardFirst_rootPks hbegin.2)
    have hm : codec.deserialize d.req.metadata =
        some ⟨[], (acct c.node).address, (acct c.node).publicKey, [], some ((acct c.node).checkpoint tokenCount)⟩ := by
      rw [hmeta, OnChainAccount.rootMetadata, hw.codec_eq]
      exact hw.roundTrip _
    have hkey : (acct c.node).publicKey = scheme.publicKey (acct c.node).secretKey := by
      rw [← hscheme.eq c.node]
      rfl
    have hsigned : ((acct c.node).checkpoint tokenCount).signature =
        scheme.sign (acct c.node).secretKey (checkpointBytes tokenCount) := by
      rw [← hscheme.eq c.node]
      rfl
    have hone : d.req.chainIndex.toNat = 1 := by
      rw [hindex, hidx]
      rfl
    rw [List.length_cons] at hlen
    have hparses : scheme.parses (acct c.node).publicKey = true := by
      rw [hkey]
      exact hscheme.parses _
    refine hw.unrefused_worker hscheme.eq hparses rfl ?_ ?_ hlinked' hplace' hkept hone Nat.one_ne_zero (by omega) hm x hrest
    · rw [hsigned]
      exact hscheme.length _ _
    · rw [hkey, hsigned]
      exact hscheme.verifies _ _

end OnChainWorld

end Dllm
