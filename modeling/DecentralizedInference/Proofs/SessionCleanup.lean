import DecentralizedInference.Proofs.PartitionPlan
import DecentralizedInference.Sanity.ChatRun

/-! A chat that is over has left nothing behind. Its session ids are new, so its calls and
those of other chats never meet in a map; each END finds the container that the START has
stored, removes it and the cache that may belong to it, and goes on along the chain. -/

namespace Dllm

variable {Node S K E : Type} {N : ℕ}

/-- What a node has for a session: the container and the cache. -/
def NodeState.entry (st : NodeState Node S (SharedHashMap UInt64 K)) (t : UInt64) :
    Option (SessionContainer Node) × Option K :=
  (st.sessions.getClone t, st.layers.getClone t)

/-- What the nodes have for all sessions but these. -/
def outside (ids : List UInt64) (net : Net Node S (SharedHashMap UInt64 K)) (n : Node) (t : UInt64) :
    Option (SessionContainer Node) × Option K :=
  if t ∈ ids then (none, none) else (net n).entry t

/-- Nodes whose layers workers keep a cache for every session, and whose usage services let
every end pass. -/
structure CacheWorld (w : World Node S (SharedHashMap UInt64 K) N)
    (layers : Node → LayersForward (SharedHashMap UInt64 K) E) (new : Node → K)
    (model : Node → E × UInt32 → UInt32 → K → Option E × K) : Prop where
  worker : ∀ n, w.worker n = cacheSessions (new n)
  layers : ∀ n, layers n = cacheForward (model n)
  passesEnd : ∀ n, (w.usage n).PassesEnd

/-- A start for which no local range is stored makes no cache. -/
theorem ModelService.startBegin_cache {W : Type} {usage : LawfulUsageService S} {worker : LayerSessions W}
    {router : RouteTable Node N} {rs : UInt64} {req : StartReq} {st : NodeState Node S W}
    (hlocal : ((startBegin usage.toWorkerUsageService worker router rs req st).2.sessions.getClone req.session).bind
      (fun c => c.localRange) = none) :
    (startBegin usage.toWorkerUsageService worker router rs req st).2.layers = st.layers := by
  have hbegin := startBegin_beginning usage worker router rs req st
  rcases hres : startBegin usage.toWorkerUsageService worker router rs req st with ⟨r, st'⟩
  rw [hres] at hbegin hlocal
  cases hbegin with
  | layersFailed req' u route hpre hroute hsome =>
    simp only [SharedHashMap.getClone_insert, if_true, Option.bind_some, RoutePath.container] at hlocal
    simp [hlocal] at hsome
  | proceeds req' u route =>
    simp only [SharedHashMap.getClone_insert, if_true, Option.bind_some, RoutePath.container] at hlocal
    simp [hlocal]
  | _ => rfl

/-- An end removes the container, and the cache if there can be one. -/
theorem ModelService.endBegin_clears {usage : LawfulUsageService S} (hend : usage.PassesEnd) {new : K} {req : EndReq}
    {st : NodeState Node S (SharedHashMap UInt64 K)} {c : SessionContainer Node}
    (hc : st.sessions.getClone req.session = some c)
    (hcache : c.localRange = none → st.layers.getClone req.session = none) :
    (endBegin usage.toWorkerUsageService (cacheSessions new) req st).2.entry req.session = (none, none) := by
  obtain ⟨md, u, hpre⟩ := hend c.chatId req st.usage
  unfold endBegin
  simp only [hc, hpre, NodeState.entry, SharedHashMap.getClone_remove, if_true]
  cases hlocal : c.localRange with
  | none => simp [hcache hlocal]
  | some r => simp [cacheSessions]

namespace CacheWorld

variable [DecidableEq Node] {w : World Node S (SharedHashMap UInt64 K) N} {buf : TensorBuf E}
  {layers : Node → LayersForward (SharedHashMap UInt64 K) E} {new : Node → K}
  {model : Node → E × UInt32 → UInt32 → K → Option E × K} {ids : List UInt64} {chat : UInt64} {hop : ℕ} {n : Node}
  {net net' : Net Node S (SharedHashMap UInt64 K)} {es : List (Node × Part Node N)}

theorem local_entry (hw : CacheWorld w layers new model) : w.Local buf layers NodeState.entry := by
  intro e net m t h
  exact Prod.ext (World.does_sessions_of_ne h net)
    (World.does_caches_of_ne hw.worker hw.layers hw.passesEnd h net)

/-- A call of the chat changes nothing outside of it. -/
theorem viewed_outside {Req Res Ctx : Type}
    {first : ℕ → Node → Req → NodeState Node S (SharedHashMap UInt64 K) →
      Outcome (NodeState Node S (SharedHashMap UInt64 K)) (Ctx × Progress Node Req Res)}
    {last : Node → Ctx → Req → Res → NodeState Node S (SharedHashMap UInt64 K) →
      Outcome (NodeState Node S (SharedHashMap UInt64 K)) Res}
    {session : Req → UInt64} {req : Req} {res : Res} {vs : List (Visit Node S (SharedHashMap UInt64 K) Req Res)}
    (hw : CacheWorld w layers new model) (hparts : w.HasParts buf layers first last session)
    (h : Served first last (w.Other buf layers ids chat) hop n req net es res net' vs)
    (hids : ∀ v ∈ vs, session v.req ∈ ids) :
    Run (Viewed (outside ids) (w.Other buf layers ids chat)) (outside ids net) es (outside ids net') := by
  refine hparts.viewed h ?_
  intro v hv part a hsession
  funext m t
  unfold outside
  split
  case isTrue => rfl
  case isFalse ht =>
    apply hw.local_entry
    intro _ hpart
    rw [hsession t hpart] at ht
    exact ht (hids v hv)

/-- A start makes caches where it has local layers only. -/
theorem start_caches (hw : CacheWorld w layers new model) {req : StartReq} {res : StartRes}
    {vs : List (Visit Node S (SharedHashMap UInt64 K) StartReq StartRes)}
    (h : Served w.startFirst w.startLast (w.Other buf layers (chatIds vs) chat) hop n req net es res net' vs)
    (hnodup : (chatIds vs).Nodup) (hnew : ∀ m, ∀ t ∈ chatIds vs, (net m).entry t = (none, none)) :
    ∀ v ∈ vs, v.hop.localRange = none → (net' v.node).layers.getClone v.req.session = none := by
  intro v hv hlocal
  obtain ⟨hop', ctx, st, hfirst, hfound, hleft⟩ := (World.start_parts w buf layers).visit hw.local_entry h
    (fun v hv => List.mem_map_of_mem hv) (World.nodup_keys_of_chatIds hnodup) v hv
  rw [hnew v.node _ (List.mem_map_of_mem hv)] at hfound
  have hcache : st.layers.getClone v.req.session = none := congrArg Prod.snd hfound
  have hkept : (net' v.node).layers.getClone v.req.session = v.after.layers.getClone v.req.session :=
    congrArg Prod.snd hleft
  rw [hkept]
  have hafter : (ModelService.startBegin (w.usage v.node).toWorkerUsageService (w.worker v.node) (w.router hop' v.node)
      (w.rand hop') v.req st).2 = v.after := congrArg Prod.snd hfirst
  rw [← hafter, ModelService.startBegin_cache, hcache]
  rw [hafter]
  exact hlocal

/-- A forward makes no cache. -/
theorem forward_caches (hw : CacheWorld w layers new model) {req : ForwardReq} {res : ForwardRes}
    {vs : List (Visit Node S (SharedHashMap UInt64 K) ForwardReq ForwardRes)}
    (h : Served (w.forwardFirst buf layers) w.forwardLast (w.Other buf layers ids chat) hop n req net es res net' vs)
    {m : Node} {t : UInt64} (ht : t ∈ ids) (hnone : (net m).layers.getClone t = none) :
    (net' m).layers.getClone t = none := by
  refine h.keeps (I := fun a => (a m).layers.getClone t = none) hnone ?_ ?_ ?_
  · intro a e b hab ha
    have hentry : (b m).entry t = (a m).entry t := hw.local_entry.other hab ht
    exact (congrArg Prod.snd hentry).trans ha
  · intro v hv hop ctx a hbegin ha
    by_cases hnode : m = v.node
    · subst hnode
      have hcaches : (w.forwardFirst buf layers hop v.node v.req (a v.node)).2.layers.getClone t = none := by
        unfold World.forwardFirst
        rw [hw.layers]
        exact (ModelService.forwardBegin_caches buf (model v.node) v.req (a v.node) t).2 ha
      rw [hbegin] at hcaches
      rw [Function.update_self, hcaches]
    · rw [Function.update_of_ne hnode, ha]
  · intro v hv ctx req res next answer a res' b hprogress hend ha
    rw [World.finishAt_forwardLast] at hend
    obtain ⟨-, rfl⟩ := Prod.mk.inj hend
    exact ha

/-- What forwards along a chain leave as it was, and what they have worked with. -/
structure Followed (w : World Node S (SharedHashMap UInt64 K) N) (buf : TensorBuf E)
    (layers : Node → LayersForward (SharedHashMap UInt64 K) E) (ids : List UInt64) (chat : UInt64) (hs : List (Hop Node))
    (net : Net Node S (SharedHashMap UInt64 K)) (es : List (Node × Part Node N))
    (net' : Net Node S (SharedHashMap UInt64 K))
    (rounds : List (List (Visit Node S (SharedHashMap UInt64 K) ForwardReq ForwardRes))) : Prop where
  sessions : ∀ m, ∀ t ∈ ids, (net' m).sessions.getClone t = (net m).sessions.getClone t
  caches : ∀ m, ∀ t ∈ ids, (net m).layers.getClone t = none → (net' m).layers.getClone t = none
  rounds : ∀ vs ∈ rounds, vs.map Visit.place = hs.map Hop.place
  outside : Run (Viewed (outside ids) (w.Other buf layers ids chat)) (outside ids net) es (outside ids net')

theorem forwards_followed (hw : CacheWorld w layers new model) {root : Node} {session c : UInt64} {hs : List (Hop Node)}
    (hlinked : Linked c root session hs) (hids : ∀ g ∈ hs, g.session ∈ ids) (hplace : InPlace net hs)
    {rounds : List (List (Visit Node S (SharedHashMap UInt64 K) ForwardReq ForwardRes))}
    (h : w.Forwards buf layers (w.Other buf layers ids chat) root session net es net' rounds) :
    Followed w buf layers ids chat hs net es net' rounds := by
  induction h with
  | none => exact ⟨fun _ _ _ => rfl, fun _ _ _ => id, by simp, .nil⟩
  | @more es es' net₁ net₂ rounds step seqLen indexPos embedding res vs hbefore hserved hsuccess ih =>
    have hplace₁ : InPlace net₁ hs := hplace.of_sessions_eq fun g hg => ih.sessions _ _ (hids g hg)
    have hround := World.forward_follows hlinked hserved hsuccess hids hplace₁
    have hvs := World.forward_ids hlinked hserved hsuccess hids hplace₁
    refine ⟨?_, ?_, ?_, ?_⟩
    · intro m t ht
      rw [World.forward_sessions hserved ht, ih.sessions m t ht]
    · intro m t ht hnone
      exact hw.forward_caches hserved ht (ih.caches m t ht hnone)
    · intro vs' hvs'
      rcases List.mem_append.mp hvs' with hold | hlast
      · exact ih.rounds vs' hold
      · rw [List.mem_singleton.mp hlast]
        exact hround
    · exact ih.outside.append (hw.viewed_outside (World.forward_parts w buf layers) hserved hvs)

/-- An end removes what the chain has stored. -/
theorem end_clears (hw : CacheWorld w layers new model) {c : UInt64} {hs : List (Hop Node)} {req : EndReq} {res : EndRes}
    {vs : List (Visit Node S (SharedHashMap UInt64 K) EndReq EndRes)} (hlinked : Linked c n req.session hs)
    (h : Served w.endFirst w.endLast (w.Other buf layers ids chat) hop n req net es res net' vs)
    (hids : ∀ g ∈ hs, g.session ∈ ids) (hnodup : (hs.map Hop.session).Nodup) (hplace : InPlace net hs)
    (hcaches : ∀ g ∈ hs, g.localRange = none → (net g.node).layers.getClone g.session = none) :
    ∀ g ∈ hs, (net' g.node).entry g.session = (none, none) := by
  have hkeys := World.end_follows hw.passesEnd hlinked h hids hnodup hplace
  have hkeysNodup : (vs.map fun v => (v.node, v.req.session)).Nodup := by
    rw [hkeys]
    apply List.Nodup.of_map Prod.snd
    rwa [List.map_map]
  have hvs := World.end_ids hw.passesEnd hlinked h hids hnodup hplace
  intro g hg
  obtain ⟨v, hv, heq⟩ := exists_mem_of_map_eq hkeys.symm g hg
  obtain ⟨hnode, hsess⟩ := Prod.mk.inj heq
  obtain ⟨hop', ctx, st, hfirst, hfound, hleft⟩ := (World.end_parts w buf layers).visit hw.local_entry h hvs
    hkeysNodup v hv
  rw [hnode, hsess] at hfound hleft
  rw [hleft]
  obtain ⟨r, next, hstored⟩ := hlinked.container g hg
  have hcontainer : st.sessions.getClone v.req.session = some ⟨c, r, next⟩ := by
    rw [hsess, ← hstored, ← hplace g hg]
    exact congrArg Prod.fst hfound
  have hcache : r = none → st.layers.getClone v.req.session = none := by
    intro hr
    have hnone := hcaches g hg (by simp [Hop.localRange, hstored, hr])
    rw [hsess, ← hnone]
    exact congrArg Prod.snd hfound
  have hafter : (ModelService.endBegin (w.usage v.node).toWorkerUsageService (w.worker v.node) v.req st).2 = v.after :=
    congrArg Prod.snd hfirst
  rw [← hafter, hw.worker, ← hsess]
  exact ModelService.endBegin_clears (hw.passesEnd v.node) hcontainer hcache

/-- After a chat with new session ids, however it was interleaved with others, no node has
anything left for its sessions; of everything else, the other chats have made what there
is; and every forward has worked with the containers of the start. -/
theorem completed_chat_leaves_nothing (hw : CacheWorld w layers new model) {root : Node} {session : UInt64}
    {maxLen : UInt32} {starts : List (Visit Node S (SharedHashMap UInt64 K) StartReq StartRes)}
    {rounds : List (List (Visit Node S (SharedHashMap UInt64 K) ForwardReq ForwardRes))}
    (h : w.Chat buf layers root session maxLen starts net es net' rounds) (hnodup : (chatIds starts).Nodup)
    (hnew : ∀ m, ∀ t ∈ chatIds starts, (net m).entry t = (none, none)) :
    (∀ m, ∀ t ∈ chatIds starts, (net' m).entry t = (none, none)) ∧
      Run (Viewed (outside (chatIds starts)) (w.Other buf layers (chatIds starts) session))
        (outside (chatIds starts) net) es (outside (chatIds starts) net') ∧
      ∀ vs ∈ rounds, vs.map Visit.place = starts.map fun v => v.hop.place := by
  obtain @⟨es, es₁, es₂, net₁, net₂, net₃, res, res', rounds, ends, hstart, hsuccess, hforwards, hend⟩ := h
  have hlinked : Linked session root session (starts.map Visit.hop) := World.start_linked hstart hsuccess
  have hplace := World.start_inPlace hstart hnodup
  have hids : ∀ g ∈ starts.map Visit.hop, g.session ∈ chatIds starts := fun g hg => World.hop_session_mem hg
  have hsessions := World.map_hop_session starts
  have hfollowed := hw.forwards_followed hlinked hids hplace hforwards
  have hplace₂ : InPlace net₂ (starts.map Visit.hop) :=
    hplace.of_sessions_eq fun g hg => hfollowed.sessions _ _ (hids g hg)
  have hcaches : ∀ g ∈ starts.map Visit.hop, g.localRange = none → (net₂ g.node).layers.getClone g.session = none := by
    intro g hg hlocal
    obtain ⟨v, hv, rfl⟩ := List.mem_map.mp hg
    exact hfollowed.caches _ _ (List.mem_map_of_mem hv) (hw.start_caches hstart hnodup hnew v hv hlocal)
  have hkeys := World.end_follows hw.passesEnd hlinked hend hids (hsessions ▸ hnodup) hplace₂
  refine ⟨?_, ?_, ?_⟩
  · intro m t ht
    by_cases hhop : ∃ g ∈ starts.map Visit.hop, (g.node, g.session) = (m, t)
    · obtain ⟨g, hg, heq⟩ := hhop
      obtain ⟨rfl, rfl⟩ := Prod.mk.inj heq
      exact hw.end_clears hlinked hend hids (hsessions ▸ hnodup) hplace₂ hcaches g hg
    · -- no call of the chat has been there
      have hstarted : (net₁ m).entry t = (none, none) := by
        rw [← hnew m t ht]
        apply (World.start_parts w buf layers).frame hw.local_entry hstart ht
        intro v hv heq
        exact hhop ⟨v.hop, List.mem_map_of_mem hv, heq⟩
      have hforwarded : (net₂ m).entry t = (none, none) :=
        Prod.ext ((hfollowed.sessions m t ht).trans (congrArg Prod.fst hstarted))
          (hfollowed.caches m t ht (congrArg Prod.snd hstarted))
      rw [← hforwarded]
      apply (World.end_parts w buf layers).frame hw.local_entry hend ht
      intro v hv heq
      obtain ⟨g, hg, hkey⟩ := exists_mem_of_map_eq hkeys v hv
      exact hhop ⟨g, hg, hkey.trans heq⟩
  · have hends := World.end_ids hw.passesEnd hlinked hend hids (hsessions ▸ hnodup) hplace₂
    have h₁ := hw.viewed_outside (World.start_parts w buf layers) hstart fun v hv => List.mem_map_of_mem hv
    have h₂ := hw.viewed_outside (World.end_parts w buf layers) hend hends
    exact (h₁.append hfollowed.outside).append h₂
  · intro vs hvs
    rw [hfollowed.rounds vs hvs, List.map_map]
    rfl

end CacheWorld

/-- Layers that give back their input. -/
def echoLayers : Bool → LayersForward LayerCaches (List UInt8) := fun _ => cacheForward fun x _ cache => (some x.1, cache)

theorem pairWorld_caches (r : Range) :
    CacheWorld (pairWorld r) echoLayers (fun _ => ()) fun _ x _ cache => (some x.1, cache) :=
  ⟨fun _ => rfl, fun _ => rfl, fun _ => passthrough_passesEnd⟩

/-- A chat over two nodes, during which the second one starts a session of another chat. -/
theorem completed_chat_leaves_nothing_pair : ∃ starts es net' rounds,
    (pairWorld ⟨2, 3⟩).Chat .raw echoLayers false 7 10 starts emptyNet es net' rounds ∧
      chatIds starts = [7, 100] ∧ rounds.length = 1 ∧ ((net' true).sessions.getClone 8).isSome = true ∧
      ∀ m, ∀ t ∈ chatIds starts, (net' m).entry t = (none, none) := by
  let w := pairWorld ⟨2, 3⟩
  let foreign : Bool × Part Bool 3 := (true, .startBegin (.new ⟨2, 3⟩) 500 ⟨8, 8, 2, [], 1, 10⟩)
  let s := serve w.startFirst w.startLast (fun _ => .answered) 2 0 false (VirtualModelLayers.startReq 7 10) emptyNet
  let f := serve (w.forwardFirst .raw echoLayers) w.forwardLast (fun _ => .answered) 2 0 false
    (VirtualModelLayers.forwardReq 7 0 [1] 1 0) (w.does .raw echoLayers foreign s.2.1)
  let e := serve w.endFirst w.endLast (fun _ => .answered) 2 0 false (VirtualModelLayers.endReq 7) f.2.1
  have hforeign : Run (w.Other .raw echoLayers (chatIds s.2.2) 7) s.2.1 [foreign] (w.does .raw echoLayers foreign s.2.1) :=
    .cons ⟨by decide, rfl⟩ .nil
  have hstart : Served w.startFirst w.startLast (w.Other .raw echoLayers (chatIds s.2.2) 7) 0 false
      (VirtualModelLayers.startReq 7 10) emptyNet [] ⟨true, []⟩ s.2.1 s.2.2 := served_alone_iff.mpr ⟨2, rfl⟩
  have hforward : Served (w.forwardFirst .raw echoLayers) w.forwardLast (w.Other .raw echoLayers (chatIds s.2.2) 7) 0 false
      (VirtualModelLayers.forwardReq 7 0 [1] 1 0) s.2.1 [foreign] ⟨true, [1], []⟩ f.2.1 f.2.2 :=
    .after hforeign (served_alone_iff.mpr ⟨2, rfl⟩)
  have hend : Served w.endFirst w.endLast (w.Other .raw echoLayers (chatIds s.2.2) 7) 0 false
      (VirtualModelLayers.endReq 7) f.2.1 [] ⟨true, []⟩ e.2.1 e.2.2 := served_alone_iff.mpr ⟨2, rfl⟩
  have hchat : w.Chat .raw echoLayers false 7 10 s.2.2 emptyNet _ e.2.1 _ :=
    .completed hstart rfl (.more .none hforward rfl) hend
  refine ⟨_, _, _, _, hchat, rfl, rfl, rfl, ?_⟩
  exact ((pairWorld_caches ⟨2, 3⟩).completed_chat_leaves_nothing hchat (by decide) fun _ _ _ => rfl).1

end Dllm
