import DecentralizedInference.Sanity.ChainCalls
import DecentralizedInference.Spec.ChatRun

/-! Calls that are served while other chats go on: they agree with the calls of a network
that serves nothing else, and what the parts of a call do to a network, all of the call
does. Then the chain of a chat, from its start to its end. -/

namespace Dllm

/-- Of two lists that look the same, each has the members of the other. -/
theorem exists_mem_of_map_eq {α β γ : Type} {f : α → γ} {g : β → γ} {as : List α} {bs : List β}
    (h : as.map f = bs.map g) : ∀ a ∈ as, ∃ b ∈ bs, g b = f a := by
  intro a ha
  have hmem : f a ∈ bs.map g := by
    rw [← h]
    exact List.mem_map_of_mem ha
  exact List.mem_map.mp hmem

variable {Node S W Req Res Ctx ε : Type} [DecidableEq Node]

section Rules

variable {first : ℕ → Node → Req → NodeState Node S W → Outcome (NodeState Node S W) (Ctx × Progress Node Req Res)}
  {last : Node → Ctx → Req → Res → NodeState Node S W → Outcome (NodeState Node S W) Res}
  {other : Net Node S W → ε → Net Node S W → Prop}

/-- A call waits for others before it begins. -/
theorem Served.after {hop : ℕ} {n : Node} {req : Req} {net net₀ net' : Net Node S W} {es es' : List ε} {res : Res}
    {vs : List (Visit Node S W Req Res)} (hbefore : Run other net es net₀)
    (h : Served first last other hop n req net₀ es' res net' vs) :
    Served first last other hop n req net (es ++ es') res net' vs := by
  cases h with
  | replies hrun hfirst => exact .replies (hbefore.append hrun) hfirst
  | ends hrun hfirst hmeanwhile hlast =>
    rw [← List.append_assoc]
    exact .ends (hbefore.append hrun) hfirst hmeanwhile hlast
  | answered hrun hfirst hrest hmeanwhile hlast =>
    rw [List.append_assoc, ← List.append_assoc, ← List.append_assoc]
    exact .answered (hbefore.append hrun) hfirst hrest hmeanwhile hlast

theorem Served.length_pos {hop : ℕ} {n : Node} {req : Req} {net net' : Net Node S W} {es : List ε} {res : Res}
    {vs : List (Visit Node S W Req Res)} (h : Served first last other hop n req net es res net' vs) : 0 < vs.length := by
  cases h with
  | replies => exact Nat.one_pos
  | ends => exact Nat.one_pos
  | answered => exact Nat.succ_pos _

/-- A call whose requests are all answered is served. -/
theorem Runs.served {c : Call Node S W Req} {e : Ending Res} {net : Net Node S W} {vs : List (Visit Node S W Req Res)}
    (h : Runs first last (fun _ => .answered) c e net vs) {res : Res} (he : e = .returned res) :
    Served first last other c.hop c.node c.req c.net [] res net vs := by
  induction h generalizing res with
  | outOfFuel => cases he
  | panics => cases he
  | replies hbegin =>
    cases he
    exact .replies .nil hbegin.2
  | ends hbegin hlast =>
    subst he
    exact .ends .nil hbegin.2 .nil hlast
  | errorUnserved _ hfate => cases hfate
  | errorServed _ hfate => cases hfate
  | silentUnserved _ hfate => cases hfate
  | silentServed _ hfate => cases hfate
  | answered hbegin hfate hrest hlast ih =>
    subst he
    exact .answered .nil hbegin.2 (ih rfl) .nil hlast
  | hangs => cases he

theorem Served.exists_serve {hop : ℕ} {n : Node} {req : Req} {net net' : Net Node S W} {es : List ε} {res : Res}
    {vs : List (Visit Node S W Req Res)} (h : Served first last other hop n req net es res net' vs) (hes : es = []) :
    ∃ fuel, serve first last (fun _ => .answered) fuel hop n req net = (.returned res, net', vs) := by
  induction h with
  | replies hbefore hfirst =>
    subst hes
    obtain rfl := hbefore.eq_of_nil
    exact ⟨1, by rw [serve, hfirst]⟩
  | ends hbefore hfirst hmeanwhile hlast =>
    obtain ⟨rfl, rfl⟩ := List.append_eq_nil_iff.mp hes
    obtain rfl := hbefore.eq_of_nil
    obtain rfl := hmeanwhile.eq_of_nil
    refine ⟨1, ?_⟩
    rw [serve, hfirst]
    simp only [hlast]
  | answered hbefore hfirst hrest hmeanwhile hlast ih =>
    obtain ⟨hes', rfl⟩ := List.append_eq_nil_iff.mp hes
    obtain ⟨rfl, rfl⟩ := List.append_eq_nil_iff.mp hes'
    obtain rfl := hbefore.eq_of_nil
    obtain rfl := hmeanwhile.eq_of_nil
    obtain ⟨fuel, hserve⟩ := ih rfl
    refine ⟨fuel + 1, ?_⟩
    rw [serve, hfirst]
    simp only [hserve, hlast]

/-- With no events of others, a call is served as `serve` has it. -/
theorem served_alone_iff {hop : ℕ} {n : Node} {req : Req} {net net' : Net Node S W} {res : Res}
    {vs : List (Visit Node S W Req Res)} : Served first last other hop n req net [] res net' vs ↔
      ∃ fuel, serve first last (fun _ => .answered) fuel hop n req net = (.returned res, net', vs) := by
  refine ⟨fun h => ?_, fun ⟨fuel, h⟩ => ?_⟩
  · exact h.exists_serve rfl
  · exact (runs_of_serve h).served rfl

/-- What the steps of others and the parts of a call do to the network, all of it does. -/
theorem Served.rel {R : Net Node S W → List ε → Net Node S W → Prop} {hop : ℕ} {n : Node} {req : Req}
    {net net' : Net Node S W} {es : List ε} {res : Res} {vs : List (Visit Node S W Req Res)}
    (h : Served first last other hop n req net es res net' vs) (hnil : ∀ a, R a [] a)
    (happend : ∀ a es b es' c, R a es b → R b es' c → R a (es ++ es') c)
    (hother : ∀ a e b, other a e b → R a [e] b)
    (hfirst : ∀ v ∈ vs, ∀ hop ctx a, first hop v.node v.req (a v.node) = (.ok (ctx, v.progress), v.after) →
      R a [] (Function.update a v.node v.after))
    (hlast : ∀ v ∈ vs, ∀ ctx req res next answer a res' b, v.progress = .proceed req res next →
      finishAt last v.node ctx req answer a = (.returned res', b) → R a [] b) : R net es net' := by
  induction h with
  | @replies hop n req net net₀ es ctx res st hbefore hbegin =>
    have h₁ := hbefore.rel hnil happend hother
    have h₂ := hfirst _ List.mem_cons_self _ _ _ hbegin
    simpa using happend _ _ _ _ _ h₁ h₂
  | @ends hop n req req' net net₀ net₁ net' es es' ctx res res' st hbefore hbegin hmeanwhile hend =>
    have h₁ := hbefore.rel hnil happend hother
    have h₂ := hfirst _ List.mem_cons_self _ _ _ hbegin
    have h₃ := hmeanwhile.rel hnil happend hother
    have h₄ := hlast _ List.mem_cons_self _ _ _ _ _ _ _ _ rfl hend
    simpa using happend _ _ _ _ _ (happend _ _ _ _ _ h₁ h₂) (happend _ _ _ _ _ h₃ h₄)
  | @answered hop n req req' net net₀ net₁ net₂ net' es es₁ es₂ ctx res answer res' d st vs hbefore hbegin hrest
      hmeanwhile hend ih =>
    have h₁ := hbefore.rel hnil happend hother
    have h₂ := hfirst _ List.mem_cons_self _ _ _ hbegin
    have h₃ := ih (fun v hv => hfirst v (List.mem_cons_of_mem _ hv)) fun v hv => hlast v (List.mem_cons_of_mem _ hv)
    have h₄ := hmeanwhile.rel hnil happend hother
    have h₅ := hlast _ List.mem_cons_self _ _ _ _ _ _ _ _ rfl hend
    have h := happend _ _ _ _ _ (happend _ _ _ _ _ h₁ h₂) (happend _ _ _ _ _ h₃ (happend _ _ _ _ _ h₄ h₅))
    simpa using h

/-- What the steps of others and the parts of a call keep, all of it keeps. -/
theorem Served.keeps {I : Net Node S W → Prop} {hop : ℕ} {n : Node} {req : Req} {net net' : Net Node S W}
    {es : List ε} {res : Res} {vs : List (Visit Node S W Req Res)}
    (h : Served first last other hop n req net es res net' vs) (hI : I net)
    (hother : ∀ a e b, other a e b → I a → I b)
    (hfirst : ∀ v ∈ vs, ∀ hop ctx a, first hop v.node v.req (a v.node) = (.ok (ctx, v.progress), v.after) →
      I a → I (Function.update a v.node v.after))
    (hlast : ∀ v ∈ vs, ∀ ctx req res next answer a res' b, v.progress = .proceed req res next →
      finishAt last v.node ctx req answer a = (.returned res', b) → I a → I b) : I net' :=
  h.rel (R := fun a _ b => I a → I b) (fun _ => id) (fun _ _ _ _ _ h₁ h₂ => h₂ ∘ h₁) hother hfirst hlast hI

/-- Where the parts of a call change nothing that can be seen, one sees the steps of others. -/
theorem Served.viewed {τ : Type} {view : Net Node S W → τ} {hop : ℕ} {n : Node} {req : Req} {net net' : Net Node S W}
    {es : List ε} {res : Res} {vs : List (Visit Node S W Req Res)}
    (h : Served first last other hop n req net es res net' vs)
    (hfirst : ∀ v ∈ vs, ∀ hop ctx a, first hop v.node v.req (a v.node) = (.ok (ctx, v.progress), v.after) →
      view (Function.update a v.node v.after) = view a)
    (hlast : ∀ v ∈ vs, ∀ ctx req res next answer a res' b, v.progress = .proceed req res next →
      finishAt last v.node ctx req answer a = (.returned res', b) → view b = view a) :
    Run (Viewed view other) (view net) es (view net') := by
  refine h.rel (R := fun a es b => Run (Viewed view other) (view a) es (view b)) (fun _ => .nil)
    (fun _ _ _ _ _ h₁ h₂ => h₁.append h₂) ?_ ?_ ?_
  · intro a e b hab
    exact .cons ⟨a, b, hab, rfl, rfl⟩ .nil
  · intro v hv hop ctx a hbegin
    rw [hfirst v hv hop ctx a hbegin]
    exact .nil
  · intro v hv ctx req res next answer a res' b hprogress hend
    rw [hlast v hv ctx req res next answer a res' b hprogress hend]
    exact .nil

end Rules

/-- The usage service lets every end pass. -/
def LawfulUsageService.PassesEnd (u : LawfulUsageService S) : Prop :=
  ∀ chatId req s, ∃ md s', u.preEnd chatId req s = (.ok (some { req with metadata := md }), s')

theorem passthrough_passesEnd : (passthroughUsageService S).PassesEnd := fun _ req s => ⟨req.metadata, s, rfl⟩

variable {K E : Type} {N : ℕ}

/-! What the parts of calls do to a node. -/

namespace ModelService

variable {usage : LawfulUsageService S}

omit [DecidableEq Node] in
theorem startBegin_sessions_of_ne {worker : LayerSessions W} (router : RouteTable Node N) (rs : UInt64)
    {req : StartReq} {t : UInt64} (ht : req.session ≠ t) (st : NodeState Node S W) :
    (startBegin usage.toWorkerUsageService worker router rs req st).2.sessions.getClone t = st.sessions.getClone t := by
  have hbegin := startBegin_beginning usage worker router rs req st
  rcases hres : startBegin usage.toWorkerUsageService worker router rs req st with ⟨r, st'⟩
  rw [hres] at hbegin
  cases hbegin with
  | layersFailed => simp [ht.symm]
  | proceeds => simp [ht.symm]
  | _ => rfl

omit [DecidableEq Node] in
theorem startBegin_caches_of_ne {new : K} (router : RouteTable Node N) (rs : UInt64) {req : StartReq} {t : UInt64}
    (ht : req.session ≠ t) (st : NodeState Node S (SharedHashMap UInt64 K)) :
    (startBegin usage.toWorkerUsageService (cacheSessions new) router rs req st).2.layers.getClone t =
      st.layers.getClone t := by
  have hbegin := startBegin_beginning usage (cacheSessions new) router rs req st
  rcases hres : startBegin usage.toWorkerUsageService (cacheSessions new) router rs req st with ⟨r, st'⟩
  rw [hres] at hbegin
  cases hbegin with
  | layersFailed => simp [cacheSessions, ht.symm]
  | proceeds =>
    simp only
    split
    · simp [cacheSessions, ht.symm]
    · rfl
  | _ => rfl

omit [DecidableEq Node] in
/-- A forward that goes on had a container, and the next request is that of the container. -/
theorem forwardBegin_proceed {buf : TensorBuf E} {forward : LayersForward W E} {req req' : ForwardReq}
    {st st' : NodeState Node S W} {ctx : UInt64} {res : ForwardRes} {next : Option (Downstream Node ForwardReq)}
    (h : forwardBegin usage.toWorkerUsageService buf forward req st = (.ok (ctx, .proceed req' res next), st')) :
    ∃ container u layers embedding, st.sessions.getClone req.session = some container ∧ container.chatId = ctx ∧
      usage.preForward ctx req st.usage = (.ok (some req'), u) ∧
      next = container.remote.map (fun d => ⟨d.1, ⟨d.2, req'.step, embedding, req'.indexPos, req'.seqLen,
        req'.metadata, req'.chainIndex + 1⟩⟩) ∧ st' = ⟨st.sessions, layers, u⟩ := by
  unfold forwardBegin at h
  split at h
  case h_1 => cases h
  case h_2 container hcontainer =>
    split at h
    case h_1 => cases h
    case h_2 => cases h
    case h_3 req₁ u hpre =>
      split at h
      case h_1 => cases h
      case h_2 embedding layers hlocal =>
        simp only at h
        split at h
        case h_1 hremote =>
          cases h
          exact ⟨container, u, layers, embedding, hcontainer, rfl, hpre, by rw [hremote]; rfl, rfl⟩
        case h_2 dest remoteSession hremote =>
          cases h
          exact ⟨container, u, layers, embedding, hcontainer, rfl, hpre, by rw [hremote]; rfl, rfl⟩

omit [DecidableEq Node] in
theorem forwardBegin_reply {buf : TensorBuf E} {forward : LayersForward W E} {req : ForwardReq}
    {st st' : NodeState Node S W} {ctx : UInt64} {res : ForwardRes}
    (h : forwardBegin usage.toWorkerUsageService buf forward req st = (.ok (ctx, .reply res), st')) :
    res = forwardFailure := by
  unfold forwardBegin at h
  split at h
  · cases h
    rfl
  · split at h
    · cases h
    · cases h
      rfl
    · split at h
      · cases h
      · simp only at h
        split at h
        · cases h
        · cases h

omit [DecidableEq Node] in
/-- No forward changes what a node has stored for its sessions. -/
theorem forwardBegin_sessions (buf : TensorBuf E) (forward : LayersForward W E) (req : ForwardReq)
    (st : NodeState Node S W) :
    (forwardBegin usage.toWorkerUsageService buf forward req st).2.sessions = st.sessions := by
  unfold forwardBegin
  split
  · rfl
  · split
    · rfl
    · rfl
    · split
      · rfl
      · simp only
        split
        · rfl
        · rfl

/-- The layers of a forward leave the caches of all sessions in place, and touch only the
one of their own. -/
theorem cacheForward_caches (model : E × UInt32 → UInt32 → K → Option E × K) (session : UInt64) (step : UInt32)
    (x : E × UInt32) (indexPos : UInt32) (caches : SharedHashMap UInt64 K) (t : UInt64) :
    (session ≠ t → (cacheForward model session step x indexPos caches).2.getClone t = caches.getClone t) ∧
      (caches.getClone t = none → (cacheForward model session step x indexPos caches).2.getClone t = none) := by
  unfold cacheForward
  cases hcache : caches.getClone session with
  | none => exact ⟨fun _ => rfl, id⟩
  | some cache =>
    simp only [SharedHashMap.getClone_insert]
    refine ⟨fun ht => ?_, fun hnone => ?_⟩
    · rw [if_neg ht.symm]
    · have ht : t ≠ session := by
        rintro rfl
        rw [hnone] at hcache
        cases hcache
      rw [if_neg ht, hnone]

omit [DecidableEq Node] in
theorem forwardBegin_caches (buf : TensorBuf E) (model : E × UInt32 → UInt32 → K → Option E × K) (req : ForwardReq)
    (st : NodeState Node S (SharedHashMap UInt64 K)) (t : UInt64) :
    (req.session ≠ t → (forwardBegin usage.toWorkerUsageService buf (cacheForward model) req st).2.layers.getClone t =
      st.layers.getClone t) ∧
    (st.layers.getClone t = none →
      (forwardBegin usage.toWorkerUsageService buf (cacheForward model) req st).2.layers.getClone t = none) := by
  unfold forwardBegin
  split
  · exact ⟨fun _ => rfl, id⟩
  case h_2 container hcontainer =>
    split
    · exact ⟨fun _ => rfl, id⟩
    · exact ⟨fun _ => rfl, id⟩
    case h_3 req' u hpre =>
      have hsession : req'.session = req.session := by rw [usage.preForward_keeps _ _ _ _ _ hpre]
      have hlocal : ∀ r layers, forwardLocal buf (cacheForward model) container.localRange req' st.layers = (r, layers) →
          (req.session ≠ t → layers.getClone t = st.layers.getClone t) ∧
            (st.layers.getClone t = none → layers.getClone t = none) := by
        intro r layers hr
        unfold forwardLocal at hr
        split at hr
        · cases hr
          exact ⟨fun _ => rfl, id⟩
        · split at hr
          · cases hr
            exact ⟨fun _ => rfl, id⟩
          case h_2 x _ =>
            have hcaches := cacheForward_caches model req'.session req'.step (x, req'.seqLen) req'.indexPos st.layers t
            split at hr
            case h_1 _ hmodel =>
              cases hr
              rwa [hmodel, hsession] at hcaches
            case h_2 _ _ _ hmodel =>
              cases hr
              rwa [hmodel, hsession] at hcaches
      split
      case h_1 p layers hr => exact hlocal _ _ hr
      case h_2 embedding layers hr =>
        simp only
        split
        · exact hlocal _ _ hr
        · exact hlocal _ _ hr

omit [DecidableEq Node] in
/-- An end removes its own session. -/
theorem endBegin_sessions {worker : LayerSessions W} (req : EndReq) (st : NodeState Node S W) (t : UInt64) :
    (endBegin usage.toWorkerUsageService worker req st).2.sessions.getClone t =
      if t = req.session then none else st.sessions.getClone t := by
  have hremove : (st.sessions.remove req.session).getClone t =
      if t = req.session then none else st.sessions.getClone t := st.sessions.getClone_remove req.session t
  unfold endBegin
  split
  case h_1 hnone =>
    simp only
    split
    case isTrue ht => rw [ht, hnone]
    case isFalse => rfl
  · simp only
    split
    · exact hremove
    · exact hremove
    · exact hremove

omit [DecidableEq Node] in
theorem endBegin_caches_of_ne (hend : usage.PassesEnd) {new : K} {req : EndReq} {t : UInt64} (ht : req.session ≠ t)
    (st : NodeState Node S (SharedHashMap UInt64 K)) :
    (endBegin usage.toWorkerUsageService (cacheSessions new) req st).2.layers.getClone t = st.layers.getClone t := by
  unfold endBegin
  split
  · rfl
  case h_2 container hcontainer =>
    obtain ⟨md, u, hpre⟩ := hend container.chatId req st.usage
    simp only [hpre]
    split
    · simp [cacheSessions, ht.symm]
    · rfl

end ModelService

namespace Part

variable {usage : LawfulUsageService S} {part : Part Node N} {t : UInt64}

omit [DecidableEq Node] in
theorem run_sessions_of_ne {worker : LayerSessions W} {buf : TensorBuf E} {forward : LayersForward W E}
    (ht : part.session ≠ some t) (st : NodeState Node S W) :
    (part.run usage.toWorkerUsageService worker buf forward st).sessions.getClone t = st.sessions.getClone t := by
  cases part with
  | startBegin router rs req => exact ModelService.startBegin_sessions_of_ne router rs (by simpa [session] using ht) st
  | forwardBegin req => exact congrArg (fun m => m.getClone t) (ModelService.forwardBegin_sessions buf forward req st)
  | endBegin req =>
    have hne : t ≠ req.session := by
      rintro rfl
      exact ht rfl
    exact (ModelService.endBegin_sessions req st t).trans (if_neg hne)
  | _ => rfl

omit [DecidableEq Node] in
theorem run_caches_of_ne (hend : usage.PassesEnd) {new : K} {buf : TensorBuf E}
    {model : E × UInt32 → UInt32 → K → Option E × K} (ht : part.session ≠ some t)
    (st : NodeState Node S (SharedHashMap UInt64 K)) :
    (part.run usage.toWorkerUsageService (cacheSessions new) buf (cacheForward model) st).layers.getClone t =
      st.layers.getClone t := by
  cases part with
  | startBegin router rs req => exact ModelService.startBegin_caches_of_ne router rs (by simpa [session] using ht) st
  | forwardBegin req => exact (ModelService.forwardBegin_caches buf model req st t).1 (by simpa [session] using ht)
  | endBegin req => exact ModelService.endBegin_caches_of_ne hend (by simpa [session] using ht) st
  | _ => rfl

omit [DecidableEq Node] in
theorem Foreign.session_ne {ids : List UInt64} {chat : UInt64} (h : part.Foreign ids chat) (ht : t ∈ ids) :
    part.session ≠ some t := by
  intro hsession
  cases part with
  | startBegin router rs req =>
    obtain rfl : req.session = t := Option.some.inj hsession
    exact h.1 ht
  | forwardBegin req =>
    obtain rfl : req.session = t := Option.some.inj hsession
    exact h ht
  | endBegin req =>
    obtain rfl : req.session = t := Option.some.inj hsession
    exact h ht
  | _ => cases hsession

end Part

namespace World

variable {w : World Node S W N} {buf : TensorBuf E} {layers : Node → LayersForward W E}

theorem does_sessions_of_ne {e : Node × Part Node N} {n : Node} {t : UInt64} (h : e.1 = n → e.2.session ≠ some t)
    (net : Net Node S W) : (w.does buf layers e net n).sessions.getClone t = (net n).sessions.getClone t := by
  unfold does
  by_cases hn : e.1 = n
  · subst hn
    rw [Function.update_self]
    exact Part.run_sessions_of_ne (h rfl) _
  · rw [Function.update_of_ne (Ne.symm hn)]

theorem does_caches_of_ne {w : World Node S (SharedHashMap UInt64 K) N}
    {layers : Node → LayersForward (SharedHashMap UInt64 K) E} {new : Node → K}
    {model : Node → E × UInt32 → UInt32 → K → Option E × K} (hworker : ∀ n, w.worker n = cacheSessions (new n))
    (hlayers : ∀ n, layers n = cacheForward (model n)) (hend : ∀ n, (w.usage n).PassesEnd)
    {e : Node × Part Node N} {n : Node} {t : UInt64} (h : e.1 = n → e.2.session ≠ some t)
    (net : Net Node S (SharedHashMap UInt64 K)) :
    (w.does buf layers e net n).layers.getClone t = (net n).layers.getClone t := by
  unfold does
  by_cases hn : e.1 = n
  · subst hn
    rw [Function.update_self, hworker, hlayers]
    exact Part.run_caches_of_ne (hend e.1) (h rfl) _
  · rw [Function.update_of_ne (Ne.symm hn)]

/-! The parts of a chat's own calls. -/

/-- A call runs parts at its node: one for its session, and one after the answer. -/
structure HasParts (w : World Node S W N) (buf : TensorBuf E) (layers : Node → LayersForward W E)
    (first : ℕ → Node → Req → NodeState Node S W → Outcome (NodeState Node S W) (Ctx × Progress Node Req Res))
    (last : Node → Ctx → Req → Res → NodeState Node S W → Outcome (NodeState Node S W) Res)
    (session : Req → UInt64) : Prop where
  first : ∀ hop n req (net : Net Node S W) r st, first hop n req (net n) = (r, st) →
    ∃ part, part.session = some (session req) ∧ Function.update net n st = w.does buf layers (n, part) net
  last : ∀ n ctx req answer net e net', finishAt last n ctx req answer net = (e, net') →
    ∃ part, part.session = none ∧ net' = w.does buf layers (n, part) net

theorem start_parts (w : World Node S W N) (buf : TensorBuf E) (layers : Node → LayersForward W E) :
    w.HasParts buf layers w.startFirst w.startLast StartReq.session := by
  refine ⟨fun hop n req net r st h => ?_, fun n ctx req answer net e net' h => ?_⟩
  · unfold startFirst at h
    obtain ⟨-, rfl⟩ := Prod.mk.inj h
    exact ⟨.startBegin (w.router hop n) (w.rand hop) req, rfl, rfl⟩
  · rw [finishAt_startLast] at h
    obtain ⟨-, rfl⟩ := Prod.mk.inj h
    exact ⟨.startEnd req answer, rfl, rfl⟩

theorem finishAt_forwardLast (w : World Node S W N) (n : Node) (chatId : UInt64) (req : ForwardReq) (res : ForwardRes)
    (net : Net Node S W) : finishAt w.forwardLast n chatId req res net = (.returned res, net) := by
  simp [finishAt, forwardLast, ModelService.forwardEnd, (w.usage n).postForward_eq]

theorem forward_parts (w : World Node S W N) (buf : TensorBuf E) (layers : Node → LayersForward W E) :
    w.HasParts buf layers (w.forwardFirst buf layers) w.forwardLast ForwardReq.session := by
  refine ⟨fun hop n req net r st h => ?_, fun n ctx req answer net e net' h => ?_⟩
  · obtain rfl : (w.forwardFirst buf layers hop n req (net n)).2 = st := congrArg Prod.snd h
    exact ⟨.forwardBegin req, rfl, rfl⟩
  · rw [finishAt_forwardLast] at h
    obtain ⟨-, rfl⟩ := Prod.mk.inj h
    refine ⟨.forwardEnd ctx req answer, rfl, ?_⟩
    simp [does, Part.run, ModelService.forwardEnd, (w.usage n).postForward_eq]

/-- If a node has the session of a forward, its usage service lets the forward pass. -/
def LetsPass (w : World Node S W N) (c : Call Node S W ForwardReq) : Prop :=
  ∀ container, (c.net c.node).sessions.getClone c.req.session = some container →
    ∃ req u, (w.usage c.node).preForward container.chatId c.req (c.net c.node).usage = (.ok (some req), u)

/-- No usage service refuses a forward at a node that it comes to when no RPC fails. -/
def Unrefused (w : World Node S W N) (buf : TensorBuf E) (layers : Node → LayersForward W E)
    (c : Call Node S W ForwardReq) : Prop :=
  ∀ x, Reaches (w.forwardFirst buf layers) (fun _ => .answered) c x → w.LetsPass x

theorem Unrefused.letsPass {w : World Node S W N} {buf : TensorBuf E} {layers : Node → LayersForward W E}
    {c : Call Node S W ForwardReq} (h : w.Unrefused buf layers c) : w.LetsPass c := h c .refl

theorem Unrefused.next {w : World Node S W N} {buf : TensorBuf E} {layers : Node → LayersForward W E}
    {c : Call Node S W ForwardReq} (h : w.Unrefused buf layers c) {ctx : UInt64} {req : ForwardReq} {res : ForwardRes}
    {d : Downstream Node ForwardReq} {st : NodeState Node S W}
    (hbegin : c.Begins (w.forwardFirst buf layers) ctx (.proceed req res (some d)) st) :
    w.Unrefused buf layers (c.next st d) :=
  fun x hx => h x (.head (.request hbegin rfl) hx)

theorem end_parts (w : World Node S W N) (buf : TensorBuf E) (layers : Node → LayersForward W E) :
    w.HasParts buf layers w.endFirst w.endLast EndReq.session := by
  refine ⟨fun hop n req net r st h => ?_, fun n ctx req answer net e net' h => ?_⟩
  · obtain rfl : (w.endFirst hop n req (net n)).2 = st := congrArg Prod.snd h
    exact ⟨.endBegin req, rfl, rfl⟩
  · rw [finishAt_endLast] at h
    obtain ⟨-, rfl⟩ := Prod.mk.inj h
    exact ⟨.endEnd ctx req answer, rfl, rfl⟩

section Parts

variable {first : ℕ → Node → Req → NodeState Node S W → Outcome (NodeState Node S W) (Ctx × Progress Node Req Res)}
  {last : Node → Ctx → Req → Res → NodeState Node S W → Outcome (NodeState Node S W) Res}
  {session : Req → UInt64} {ids : List UInt64} {chat : UInt64} {hop : ℕ} {n : Node} {req : Req}
  {net net' : Net Node S W} {es : List (Node × Part Node N)} {res : Res} {vs : List (Visit Node S W Req Res)}

/-- An observation that no part at a node of the call changes stays as it is, if others keep
it too. -/
theorem HasParts.keeps {α : Type} {f : Net Node S W → α} (hparts : w.HasParts buf layers first last session)
    (h : Served first last (w.Other buf layers ids chat) hop n req net es res net' vs)
    (hother : ∀ a e b, w.Other buf layers ids chat a e b → f b = f a)
    (hown : ∀ v ∈ vs, ∀ (part : Part Node N) a, (∀ t, part.session = some t → t = session v.req) →
      f (w.does buf layers (v.node, part) a) = f a) : f net' = f net := by
  refine h.keeps (I := fun a => f a = f net) rfl ?_ ?_ ?_
  · intro a e b hab ha
    rw [hother a e b hab, ha]
  · intro v hv hop ctx a hbegin ha
    obtain ⟨part, hsession, hdoes⟩ := hparts.first _ _ _ _ _ _ hbegin
    rw [hdoes, hown v hv part a (fun t ht => (Option.some.inj (hsession.symm.trans ht)).symm), ha]
  · intro v hv ctx req res next answer a res' b hprogress hend ha
    obtain ⟨part, hsession, rfl⟩ := hparts.last _ _ _ _ _ _ _ hend
    rw [hown v hv part a (fun t ht => by rw [hsession] at ht; cases ht), ha]

/-- Of what no part at a node of the call changes, one sees the changes of others alone. -/
theorem HasParts.viewed {τ : Type} {view : Net Node S W → τ} (hparts : w.HasParts buf layers first last session)
    (h : Served first last (w.Other buf layers ids chat) hop n req net es res net' vs)
    (hown : ∀ v ∈ vs, ∀ (part : Part Node N) a, (∀ t, part.session = some t → t = session v.req) →
      view (w.does buf layers (v.node, part) a) = view a) :
    Run (Viewed view (w.Other buf layers ids chat)) (view net) es (view net') := by
  refine h.viewed ?_ ?_
  · intro v hv hop ctx a hbegin
    obtain ⟨part, hsession, hdoes⟩ := hparts.first _ _ _ _ _ _ hbegin
    rw [hdoes]
    exact hown v hv part a fun t ht => (Option.some.inj (hsession.symm.trans ht)).symm
  · intro v hv ctx req res next answer a res' b hprogress hend
    obtain ⟨part, hsession, rfl⟩ := hparts.last _ _ _ _ _ _ _ hend
    exact hown v hv part a fun t ht => by rw [hsession] at ht; cases ht

/-- An observation of a node and a session that other nodes and other sessions leave alone. -/
def Local (w : World Node S W N) (buf : TensorBuf E) (layers : Node → LayersForward W E) {α : Type}
    (f : NodeState Node S W → UInt64 → α) : Prop :=
  ∀ (e : Node × Part Node N) (net : Net Node S W) (m : Node) (t : UInt64), (e.1 = m → e.2.session ≠ some t) →
    f (w.does buf layers e net m) t = f (net m) t

theorem local_sessions : w.Local buf layers fun st t => st.sessions.getClone t :=
  fun _ net _ _ h => does_sessions_of_ne h net

section Observe

variable {α : Type} {f : NodeState Node S W → UInt64 → α} {m : Node} {t : UInt64}

theorem Local.other (hf : w.Local buf layers f) {a b : Net Node S W} {e : Node × Part Node N}
    (h : w.Other buf layers ids chat a e b) (ht : t ∈ ids) : f (b m) t = f (a m) t := by
  obtain ⟨hforeign, rfl⟩ := h
  exact hf e a m t fun _ => hforeign.session_ne ht

theorem Local.run (hf : w.Local buf layers f) {a b : Net Node S W} (h : Run (w.Other buf layers ids chat) a es b)
    (ht : t ∈ ids) : f (b m) t = f (a m) t :=
  h.invariant (P := fun x => f (x m) t = f (a m) t) rfl fun _ _ _ hstep hx => (hf.other hstep ht).trans hx

/-- A call leaves the sessions of its chat alone that are not those of its visits. -/
theorem HasParts.frame (hparts : w.HasParts buf layers first last session) (hf : w.Local buf layers f)
    (h : Served first last (w.Other buf layers ids chat) hop n req net es res net' vs) (ht : t ∈ ids)
    (hvs : ∀ v ∈ vs, (v.node, session v.req) ≠ (m, t)) : f (net' m) t = f (net m) t := by
  refine hparts.keeps (f := fun a => f (a m) t) h (fun a e b hab => hf.other hab ht) ?_
  intro v hv part a hsession
  apply hf
  intro hnode hpart
  exact hvs v hv (by rw [hsession t hpart, ← hnode])

/-- In a call that meets no session twice, each visit finds what was there at the beginning,
and what it leaves is there at the end. -/
theorem HasParts.visit (hparts : w.HasParts buf layers first last session) (hf : w.Local buf layers f)
    (h : Served first last (w.Other buf layers ids chat) hop n req net es res net' vs)
    (hids : ∀ v ∈ vs, session v.req ∈ ids) (hnodup : (vs.map fun v => (v.node, session v.req)).Nodup) :
    ∀ v ∈ vs, ∃ hop ctx st, first hop v.node v.req st = (.ok (ctx, v.progress), v.after) ∧
      f st (session v.req) = f (net v.node) (session v.req) ∧
      f (net' v.node) (session v.req) = f v.after (session v.req) := by
  induction h with
  | @replies hop n req net net₀ es ctx res st hbefore hfirst =>
    intro v hv
    obtain rfl := List.mem_singleton.mp hv
    have hsession := hids _ List.mem_cons_self
    exact ⟨hop, ctx, net₀ n, hfirst, hf.run hbefore hsession, by rw [Function.update_self]⟩
  | @ends hop n req req' net net₀ net₁ net' es es' ctx res res' st hbefore hfirst hmeanwhile hlast =>
    intro v hv
    obtain rfl := List.mem_singleton.mp hv
    have hsession := hids _ List.mem_cons_self
    obtain ⟨part, hpart, rfl⟩ := hparts.last _ _ _ _ _ _ _ hlast
    refine ⟨hop, ctx, net₀ n, hfirst, hf.run hbefore hsession, ?_⟩
    rw [hf _ _ _ _ (by simp [hpart]), hf.run hmeanwhile hsession, Function.update_self]
  | @answered hop n req req' net net₀ net₁ net₂ net' es es₁ es₂ ctx res answer res' d st vs hbefore hfirst hrest
      hmeanwhile hlast ih =>
    obtain ⟨hnot, hnodup'⟩ := List.nodup_cons.mp hnodup
    have hids' : ∀ v ∈ vs, session v.req ∈ ids := fun v hv => hids v (List.mem_cons_of_mem _ hv)
    obtain ⟨part, hpart, rfl⟩ := hparts.last _ _ _ _ _ _ _ hlast
    intro v hv
    rcases List.mem_cons.mp hv with rfl | hmem
    · have hsession := hids _ List.mem_cons_self
      have hframe := hparts.frame hf hrest (m := n) hsession fun u hu heq => hnot (List.mem_map.mpr ⟨u, hu, heq⟩)
      refine ⟨hop, ctx, net₀ n, hfirst, hf.run hbefore hsession, ?_⟩
      rw [hf _ _ _ _ (by simp [hpart]), hf.run hmeanwhile hsession, hframe, Function.update_self]
    · obtain ⟨hop', ctx', st', hfirst', hfound, hleft⟩ := ih hids' hnodup' v hmem
      refine ⟨hop', ctx', st', hfirst', ?_, ?_⟩
      · -- the first part of the call is one for another session
        obtain ⟨part', hpart', hdoes⟩ := hparts.first _ _ _ _ _ _ hfirst
        rw [hfound, hdoes, hf _ _ _ _ ?_, hf.run hbefore (hids' v hmem)]
        intro hnode heq
        rw [hpart'] at heq
        exact hnot (List.mem_map.mpr ⟨v, hmem, Prod.ext hnode.symm (Option.some.inj heq).symm⟩)
      · rw [hf _ _ _ _ (by simp [hpart]), hf.run hmeanwhile (hids' v hmem), hleft]

end Observe

end Parts

end World

/-! The chain of a chat. -/

/-- The hops of a chain: each has stored, for the chat, where the next one is. -/
inductive Linked (chat : UInt64) : Node → UInt64 → List (Hop Node) → Prop
  | last {n : Node} {s : UInt64} {f : ℕ} {r : Option Range} : Linked chat n s [⟨n, s, f, some ⟨chat, r, none⟩⟩]
  | next {n d : Node} {s s' : UInt64} {f : ℕ} {r : Option Range} {hs : List (Hop Node)} (hrest : Linked chat d s' hs) :
      Linked chat n s (⟨n, s, f, some ⟨chat, r, some (d, s')⟩⟩ :: hs)

omit [DecidableEq Node] in
theorem Linked.container {chat : UInt64} {n : Node} {s : UInt64} {hs : List (Hop Node)} (h : Linked chat n s hs) :
    ∀ g ∈ hs, ∃ r next, g.container = some ⟨chat, r, next⟩ := by
  induction h with
  | last =>
    intro g hg
    obtain rfl := List.mem_singleton.mp hg
    exact ⟨_, _, rfl⟩
  | next hrest ih =>
    intro g hg
    rcases List.mem_cons.mp hg with rfl | hg
    · exact ⟨_, _, rfl⟩
    · exact ih g hg

omit [DecidableEq Node] in
theorem Linked.length_pos {chat : UInt64} {n : Node} {s : UInt64} {hs : List (Hop Node)} (h : Linked chat n s hs) :
    0 < hs.length := by
  cases h with
  | last => exact Nat.one_pos
  | next => exact Nat.succ_pos _

omit [DecidableEq Node] in
theorem Linked.head {chat : UInt64} {n : Node} {s : UInt64} {g : Hop Node} {hs : List (Hop Node)}
    (h : Linked chat n s (g :: hs)) : g.node = n ∧ g.session = s ∧ ∃ container, g.container = some container ∧
      (container.remote = none ∧ hs = [] ∨ ∃ d s', container.remote = some (d, s') ∧ Linked chat d s' hs) := by
  cases h with
  | last => exact ⟨rfl, rfl, _, rfl, .inl ⟨rfl, rfl⟩⟩
  | next hrest => exact ⟨rfl, rfl, _, rfl, .inr ⟨_, _, rfl, hrest⟩⟩

/-- A node, a session of it and the container of that session. -/
def Hop.place (h : Hop Node) : Node × UInt64 × Option (SessionContainer Node) := (h.node, h.session, h.container)

/-- What a forward has worked with: it leaves the container where it has found it. -/
def Visit.place (v : Visit Node S W ForwardReq ForwardRes) : Node × UInt64 × Option (SessionContainer Node) :=
  (v.node, v.req.session, v.after.sessions.getClone v.req.session)

/-- The containers of the hops are stored at their nodes. -/
def InPlace (net : Net Node S W) (hs : List (Hop Node)) : Prop :=
  ∀ h ∈ hs, (net h.node).sessions.getClone h.session = h.container

omit [DecidableEq Node] in
theorem InPlace.of_sessions_eq {net net' : Net Node S W} {hs : List (Hop Node)} (h : InPlace net hs)
    (heq : ∀ g ∈ hs, (net' g.node).sessions.getClone g.session = (net g.node).sessions.getClone g.session) :
    InPlace net' hs := fun g hg => (heq g hg).trans (h g hg)

theorem InPlace.update {net : Net Node S W} {hs : List (Hop Node)} (h : InPlace net hs) {n : Node}
    {st : NodeState Node S W}
    (hst : ∀ g ∈ hs, st.sessions.getClone g.session = (net n).sessions.getClone g.session) :
    InPlace (Function.update net n st) hs := by
  apply h.of_sessions_eq
  intro g hg
  by_cases hn : g.node = n
  · rw [hn, Function.update_self, hst g hg]
  · rw [Function.update_of_ne hn]

omit [DecidableEq Node] in
theorem InPlace.tail {net : Net Node S W} {h : Hop Node} {hs : List (Hop Node)} (hplace : InPlace net (h :: hs)) :
    InPlace net hs := fun g hg => hplace g (List.mem_cons_of_mem _ hg)

theorem InPlace.removed {net : Net Node S W} {hs : List (Hop Node)} (h : InPlace net hs) {n : Node}
    {st : NodeState Node S W} {s : UInt64}
    (hst : ∀ t, st.sessions.getClone t = if t = s then none else (net n).sessions.getClone t)
    (hnot : s ∉ hs.map Hop.session) : InPlace (Function.update net n st) hs := by
  apply h.update
  intro g hg
  rw [hst, if_neg]
  rintro rfl
  exact hnot (List.mem_map_of_mem hg)

namespace World

variable {w : World Node S W N} {buf : TensorBuf E} {layers : Node → LayersForward W E} {ids : List UInt64}
  {chat : UInt64} {hop : ℕ} {n : Node} {net net' : Net Node S W} {es : List (Node × Part Node N)}

omit [DecidableEq Node] in
/-- The sessions of the hops of a chat are its ids. -/
theorem map_hop_session (starts : List (Visit Node S W StartReq StartRes)) :
    (starts.map Visit.hop).map Hop.session = chatIds starts := by
  rw [List.map_map]
  rfl

omit [DecidableEq Node] in
theorem hop_session_mem {starts : List (Visit Node S W StartReq StartRes)} {g : Hop Node}
    (hg : g ∈ starts.map Visit.hop) : g.session ∈ chatIds starts := by
  rw [← map_hop_session]
  exact List.mem_map_of_mem hg

/-- A start that succeeds, whatever others do in the meantime, has linked its chain. -/
theorem start_linked {other : Net Node S W → ε → Net Node S W → Prop} {es : List ε} {req : StartReq} {res : StartRes}
    {vs : List (Visit Node S W StartReq StartRes)}
    (h : Served w.startFirst w.startLast other hop n req net es res net' vs) (hs : res.success = true) :
    Linked req.chatId n req.session (vs.map Visit.hop) := by
  induction h with
  | @replies hop n req net net₀ es ctx res st hbefore hfirst =>
    obtain ⟨rfl, -⟩ := begins_reply (c := ⟨1, hop, n, req, net₀⟩) ⟨Nat.one_ne_zero, hfirst⟩
    cases hs
  | @ends hop n req req' net net₀ net₁ net' es es' ctx res res' st hbefore hfirst hmeanwhile hlast =>
    obtain ⟨route, u, -, -, -, hnext, rfl⟩ := begins_proceed (c := ⟨1, hop, n, req, net₀⟩) ⟨Nat.one_ne_zero, hfirst⟩
    have hnone : route.remote = none := Option.map_eq_none_iff.mp hnext.symm
    simp only [List.map_singleton, Visit.hop, SharedHashMap.getClone_insert, if_true, RoutePath.container, hnone]
    exact .last
  | @answered hop n req req' net net₀ net₁ net₂ net' es es₁ es₂ ctx res answer res' d st vs hbefore hfirst hrest
      hmeanwhile hlast ih =>
    obtain ⟨route, u, -, -, -, hnext, rfl⟩ := begins_proceed (c := ⟨1, hop, n, req, net₀⟩) ⟨Nat.one_ne_zero, hfirst⟩
    obtain ⟨r, hr, rfl⟩ := Option.map_eq_some_iff.mp hnext.symm
    have hlinked := ih ((finishAt_startEnd hlast).1 hs)
    simp only [List.map_cons, Visit.hop, SharedHashMap.getClone_insert, if_true, RoutePath.container, hr,
      Option.map_some]
    exact .next hlinked

omit [DecidableEq Node] in
theorem nodup_keys_of_chatIds {vs : List (Visit Node S W StartReq StartRes)} (h : (chatIds vs).Nodup) :
    (vs.map fun v => (v.node, v.req.session)).Nodup := by
  apply List.Nodup.of_map Prod.snd
  rwa [List.map_map]

theorem start_inPlace {req : StartReq} {res : StartRes} {vs : List (Visit Node S W StartReq StartRes)}
    (h : Served w.startFirst w.startLast (w.Other buf layers (chatIds vs) chat) hop n req net es res net' vs)
    (hnodup : (chatIds vs).Nodup) : InPlace net' (vs.map Visit.hop) := by
  intro g hg
  obtain ⟨v, hv, rfl⟩ := List.mem_map.mp hg
  obtain ⟨-, -, -, -, -, hleft⟩ := (start_parts w buf layers).visit local_sessions h
    (fun v hv => List.mem_map_of_mem hv) (nodup_keys_of_chatIds hnodup) v hv
  exact hleft

/-- A forward leaves the containers of its chat as they are. -/
theorem forward_sessions {req : ForwardReq} {res : ForwardRes} {vs : List (Visit Node S W ForwardReq ForwardRes)}
    (h : Served (w.forwardFirst buf layers) w.forwardLast (w.Other buf layers ids chat) hop n req net es res net' vs)
    {t : UInt64} (ht : t ∈ ids) (m : Node) : (net' m).sessions.getClone t = (net m).sessions.getClone t := by
  refine h.keeps (I := fun a => (a m).sessions.getClone t = (net m).sessions.getClone t) rfl ?_ ?_ ?_
  · intro a e b hab ha
    exact (local_sessions.other hab ht).trans ha
  · intro v hv hop ctx a hbegin ha
    have hsessions : (w.forwardFirst buf layers hop v.node v.req (a v.node)).2.sessions = (a v.node).sessions :=
      ModelService.forwardBegin_sessions buf (layers v.node) v.req (a v.node)
    rw [hbegin] at hsessions
    rw [← ha]
    by_cases hnode : m = v.node
    · rw [hnode, Function.update_self, hsessions]
    · rw [Function.update_of_ne hnode]
  · intro v hv ctx req res next answer a res' b hprogress hend ha
    rw [finishAt_forwardLast] at hend
    obtain ⟨-, rfl⟩ := Prod.mk.inj hend
    exact ha

/-- A hop of a chain in a forward that succeeds. After what others do, its usage service
accepts the request, and it answers, or passes the request on as its container says. -/
inductive ForwardHop (w : World Node S W N) (buf : TensorBuf E) (layers : Node → LayersForward W E)
    (other : Net Node S W → ε → Net Node S W → Prop) (c : UInt64) (hop : ℕ) (n : Node) (req : ForwardReq)
    (net net' : Net Node S W) (res : ForwardRes) :
    List (Hop Node) → List (Visit Node S W ForwardReq ForwardRes) → Prop
  | last {es es' : List ε} {net₀ : Net Node S W} {req' : ForwardReq} {st : NodeState Node S W} {g : Hop Node}
      {v : Visit Node S W ForwardReq ForwardRes} (hnode : g.node = n) (hv : v.place = g.place)
      (hbefore : Run other net es net₀)
      (hpre : (w.usage n).preForward c req (net₀ n).usage = (.ok (some req'), st.usage))
      (hsessions : st.sessions = (net₀ n).sessions) (hmeanwhile : Run other (Function.update net₀ n st) es' net') :
      ForwardHop w buf layers other c hop n req net net' res [g] [v]
  | next {es es₁ es₂ : List ε} {net₀ net₁ : Net Node S W} {req' fwd : ForwardReq} {st : NodeState Node S W}
      {g : Hop Node} {hs : List (Hop Node)} {v : Visit Node S W ForwardReq ForwardRes}
      {vs : List (Visit Node S W ForwardReq ForwardRes)} {dest : Node} (hnode : g.node = n) (hv : v.place = g.place)
      (hbefore : Run other net es net₀)
      (hpre : (w.usage n).preForward c req (net₀ n).usage = (.ok (some req'), st.usage))
      (hsessions : st.sessions = (net₀ n).sessions) (hlinked : Linked c dest fwd.session hs)
      (hplace : InPlace (Function.update net₀ n st) hs)
      (hrest : Served (w.forwardFirst buf layers) w.forwardLast other (hop + 1) dest fwd (Function.update net₀ n st) es₁
        res net₁ vs) (hmeta : fwd.metadata = req'.metadata) (hindex : fwd.chainIndex = req'.chainIndex + 1)
      (hmeanwhile : Run other net₁ es₂ net') :
      ForwardHop w buf layers other c hop n req net net' res (g :: hs) (v :: vs)

theorem forward_hop {c : UInt64} {hs : List (Hop Node)} {req : ForwardReq} {res : ForwardRes}
    {vs : List (Visit Node S W ForwardReq ForwardRes)} (hlinked : Linked c n req.session hs)
    (h : Served (w.forwardFirst buf layers) w.forwardLast (w.Other buf layers ids chat) hop n req net es res net' vs)
    (hsuccess : res.success = true) (hids : ∀ g ∈ hs, g.session ∈ ids) (hplace : InPlace net hs) :
    w.ForwardHop buf layers (w.Other buf layers ids chat) c hop n req net net' res hs vs := by
  cases h with
  | replies hbefore hfirst =>
    obtain rfl := ModelService.forwardBegin_reply hfirst
    cases hsuccess
  | @ends _ _ _ req' _ net₀ net₁ _ es es' ctx res _ st hbefore hfirst hmeanwhile hlast =>
    have hplace₀ : InPlace net₀ hs := hplace.of_sessions_eq fun g hg => local_sessions.run hbefore (hids g hg)
    obtain ⟨container, u, l, embedding, hcontainer, rfl, hpre, hnext, hst⟩ := ModelService.forwardBegin_proceed hfirst
    obtain ⟨hsessions, rfl⟩ : st.sessions = (net₀ n).sessions ∧ st.usage = u := by simp [hst]
    rw [finishAt_forwardLast] at hlast
    obtain ⟨-, rfl⟩ := Prod.mk.inj hlast
    cases hlinked with
    | last =>
      have hhere := hplace₀ _ List.mem_cons_self
      obtain rfl := Option.some.inj (hcontainer.symm.trans hhere)
      exact .last rfl (by simpa [Visit.place, Hop.place, hsessions] using hhere) hbefore hpre hsessions hmeanwhile
    | next =>
      obtain rfl := Option.some.inj (hcontainer.symm.trans (hplace₀ _ List.mem_cons_self))
      cases hnext
  | @answered _ _ _ req' _ net₀ net₁ net₂ _ es es₁ es₂ ctx res₀ answer _ d st vs hbefore hfirst hrest hmeanwhile hlast =>
    have hplace₀ : InPlace net₀ hs := hplace.of_sessions_eq fun g hg => local_sessions.run hbefore (hids g hg)
    obtain ⟨container, u, l, embedding, hcontainer, rfl, hpre, hnext, hst⟩ := ModelService.forwardBegin_proceed hfirst
    obtain ⟨hsessions, rfl⟩ : st.sessions = (net₀ n).sessions ∧ st.usage = u := by simp [hst]
    rw [finishAt_forwardLast] at hlast
    obtain ⟨rfl, rfl⟩ : answer = res ∧ net₂ = net' := by simpa using hlast
    cases hlinked with
    | last =>
      obtain rfl := Option.some.inj (hcontainer.symm.trans (hplace₀ _ List.mem_cons_self))
      cases hnext
    | next hlinked' =>
      have hhere := hplace₀ _ List.mem_cons_self
      obtain rfl := Option.some.inj (hcontainer.symm.trans hhere)
      cases hnext
      exact .next rfl (by simpa [Visit.place, Hop.place, hsessions] using hhere) hbefore hpre hsessions hlinked'
        (hplace₀.tail.update fun g hg => by rw [hsessions]) hrest rfl rfl hmeanwhile

/-- A forward that succeeds goes along the chain and works with its containers. -/
theorem forward_follows {c : UInt64} {hs : List (Hop Node)} {req : ForwardReq} {res : ForwardRes}
    {vs : List (Visit Node S W ForwardReq ForwardRes)} (hlinked : Linked c n req.session hs)
    (h : Served (w.forwardFirst buf layers) w.forwardLast (w.Other buf layers ids chat) hop n req net es res net' vs)
    (hsuccess : res.success = true) (hids : ∀ g ∈ hs, g.session ∈ ids) (hplace : InPlace net hs) :
    vs.map Visit.place = hs.map Hop.place := by
  induction hs generalizing hop n req net net' es vs with
  | nil => cases hlinked
  | cons g hs ih =>
    cases forward_hop hlinked h hsuccess hids hplace with
    | last hnode hv => rw [List.map_singleton, List.map_singleton, hv]
    | next hnode hv hbefore hpre hsessions hlinked' hplace' hrest =>
      have htail := ih hlinked' hrest (fun g hg => hids g (List.mem_cons_of_mem _ hg)) hplace'
      rw [List.map_cons, List.map_cons, hv, htail]

theorem forward_ids {c : UInt64} {hs : List (Hop Node)} {req : ForwardReq} {res : ForwardRes}
    {vs : List (Visit Node S W ForwardReq ForwardRes)} (hlinked : Linked c n req.session hs)
    (h : Served (w.forwardFirst buf layers) w.forwardLast (w.Other buf layers ids chat) hop n req net es res net' vs)
    (hsuccess : res.success = true) (hids : ∀ g ∈ hs, g.session ∈ ids) (hplace : InPlace net hs) :
    ∀ v ∈ vs, v.req.session ∈ ids := by
  intro v hv
  obtain ⟨g, hg, heq⟩ := exists_mem_of_map_eq (forward_follows hlinked h hsuccess hids hplace) v hv
  have hsame : g.session = v.req.session := congrArg (fun p => p.2.1) heq
  exact hsame ▸ hids g hg

omit [DecidableEq Node] in
theorem endBegin_ne_reply {usage : LawfulUsageService S} (hend : usage.PassesEnd) {worker : LayerSessions W}
    {req : EndReq} {st st' : NodeState Node S W} {container : SessionContainer Node} {ctx : UInt64} {res : EndRes}
    (hc : st.sessions.getClone req.session = some container) :
    ModelService.endBegin usage.toWorkerUsageService worker req st ≠ (.ok (ctx, .reply res), st') := by
  obtain ⟨md, u, hpre⟩ := hend container.chatId req st.usage
  unfold ModelService.endBegin
  simp only [hc, hpre]
  intro heq
  cases heq

/-- A hop of a chain in an end that returns. After what others do, it removes its session,
and once the rest of the chain has answered, it does the second part. -/
inductive EndHop (w : World Node S W N) (other : Net Node S W → ε → Net Node S W → Prop) (c : UInt64) (hop : ℕ)
    (n : Node) (req : EndReq) (net net' : Net Node S W) (res : EndRes) :
    List (Hop Node) → List (Visit Node S W EndReq EndRes) → Prop
  | last {es es' : List ε} {net₀ net₁ : Net Node S W} {req' : EndReq} {answer : EndRes} {st : NodeState Node S W}
      {g : Hop Node} {v : Visit Node S W EndReq EndRes} (hnode : g.node = n)
      (hv : (v.node, v.req.session) = (g.node, g.session)) (hbefore : Run other net es net₀)
      (hpre : (w.usage n).preEnd c req (net₀ n).usage = (.ok (some req'), st.usage))
      (hsessions : ∀ t, st.sessions.getClone t = if t = req.session then none else (net₀ n).sessions.getClone t)
      (hmeanwhile : Run other (Function.update net₀ n st) es' net₁)
      (hlast : finishAt w.endLast n c req' answer net₁ = (.returned res, net')) :
      EndHop w other c hop n req net net' res [g] [v]
  | next {es es₁ es₂ : List ε} {net₀ net₁ net₂ : Net Node S W} {req' : EndReq} {answer : EndRes}
      {st : NodeState Node S W} {g : Hop Node} {hs : List (Hop Node)} {v : Visit Node S W EndReq EndRes}
      {vs : List (Visit Node S W EndReq EndRes)} {dest : Node} {s : UInt64} (hnode : g.node = n)
      (hv : (v.node, v.req.session) = (g.node, g.session)) (hbefore : Run other net es net₀)
      (hpre : (w.usage n).preEnd c req (net₀ n).usage = (.ok (some req'), st.usage))
      (hsessions : ∀ t, st.sessions.getClone t = if t = req.session then none else (net₀ n).sessions.getClone t)
      (hlinked : Linked c dest s hs) (hplace : InPlace (Function.update net₀ n st) hs)
      (hrest : Served w.endFirst w.endLast other (hop + 1) dest ⟨s, req'.metadata, req'.chainIndex + 1⟩
        (Function.update net₀ n st) es₁ answer net₁ vs) (hmeanwhile : Run other net₁ es₂ net₂)
      (hlast : finishAt w.endLast n c req' answer net₂ = (.returned res, net')) :
      EndHop w other c hop n req net net' res (g :: hs) (v :: vs)

omit [DecidableEq Node] in
/-- An end that goes on has found a container and taken it away. -/
theorem end_begins_passed {c : Call Node S W EndReq} {ctx : UInt64} {req : EndReq} {res : EndRes}
    {next : Option (Downstream Node EndReq)} {st : NodeState Node S W}
    (h : c.Begins w.endFirst ctx (.proceed req res next) st) :
    ∃ container, (c.net c.node).sessions.getClone c.req.session = some container ∧ container.chatId = ctx ∧
      (w.usage c.node).preEnd ctx c.req (c.net c.node).usage = (.ok (some req), st.usage) ∧
      next = container.remote.map (fun d => ⟨d.1, ⟨d.2, req.metadata, req.chainIndex + 1⟩⟩) ∧
      ∀ t, st.sessions.getClone t = if t = c.req.session then none else (c.net c.node).sessions.getClone t := by
  obtain ⟨container, u, hcontainer, hchat, hpre, -, hnext, hst⟩ := end_begins_proceed h
  subst hst
  exact ⟨container, hcontainer, hchat, hpre, hnext, fun t => by simp⟩

theorem end_hop (hend : ∀ m, (w.usage m).PassesEnd) {c : UInt64} {hs : List (Hop Node)} {req : EndReq} {res : EndRes}
    {vs : List (Visit Node S W EndReq EndRes)} (hlinked : Linked c n req.session hs)
    (h : Served w.endFirst w.endLast (w.Other buf layers ids chat) hop n req net es res net' vs)
    (hids : ∀ g ∈ hs, g.session ∈ ids) (hnodup : (hs.map Hop.session).Nodup) (hplace : InPlace net hs) :
    w.EndHop (w.Other buf layers ids chat) c hop n req net net' res hs vs := by
  cases h with
  | @replies _ _ _ _ net₀ _ ctx _ st hbefore hfirst =>
    have hplace₀ : InPlace net₀ hs := hplace.of_sessions_eq fun g hg => local_sessions.run hbefore (hids g hg)
    cases hlinked with
    | last => exact absurd hfirst (endBegin_ne_reply (hend n) (hplace₀ _ List.mem_cons_self))
    | next => exact absurd hfirst (endBegin_ne_reply (hend n) (hplace₀ _ List.mem_cons_self))
  | @ends _ _ _ req' _ net₀ net₁ _ es es' ctx res _ st hbefore hfirst hmeanwhile hlast =>
    have hplace₀ : InPlace net₀ hs := hplace.of_sessions_eq fun g hg => local_sessions.run hbefore (hids g hg)
    obtain ⟨container, hcontainer, rfl, hpre, hnext, hsessions⟩ :=
      end_begins_passed (c := ⟨1, hop, n, req, net₀⟩) ⟨Nat.one_ne_zero, hfirst⟩
    cases hlinked with
    | last =>
      obtain rfl := Option.some.inj (hcontainer.symm.trans (hplace₀ _ List.mem_cons_self))
      exact .last rfl rfl hbefore hpre hsessions hmeanwhile hlast
    | next =>
      obtain rfl := Option.some.inj (hcontainer.symm.trans (hplace₀ _ List.mem_cons_self))
      cases hnext
  | @answered _ _ _ req' _ net₀ net₁ net₂ _ es es₁ es₂ ctx res₀ answer _ d st vs hbefore hfirst hrest hmeanwhile hlast =>
    have hplace₀ : InPlace net₀ hs := hplace.of_sessions_eq fun g hg => local_sessions.run hbefore (hids g hg)
    obtain ⟨container, hcontainer, rfl, hpre, hnext, hsessions⟩ :=
      end_begins_passed (c := ⟨1, hop, n, req, net₀⟩) ⟨Nat.one_ne_zero, hfirst⟩
    cases hlinked with
    | last =>
      obtain rfl := Option.some.inj (hcontainer.symm.trans (hplace₀ _ List.mem_cons_self))
      cases hnext
    | next hlinked' =>
      obtain rfl := Option.some.inj (hcontainer.symm.trans (hplace₀ _ List.mem_cons_self))
      cases hnext
      rw [List.map_cons, List.nodup_cons] at hnodup
      -- the container that is removed is that of another session
      have hplace₁ := hplace₀.tail.removed hsessions hnodup.1
      exact .next rfl rfl hbefore hpre hsessions hlinked' hplace₁ hrest hmeanwhile hlast

/-- An end goes along the chain. -/
theorem end_follows (hend : ∀ m, (w.usage m).PassesEnd) {c : UInt64} {hs : List (Hop Node)} {req : EndReq}
    {res : EndRes} {vs : List (Visit Node S W EndReq EndRes)} (hlinked : Linked c n req.session hs)
    (h : Served w.endFirst w.endLast (w.Other buf layers ids chat) hop n req net es res net' vs)
    (hids : ∀ g ∈ hs, g.session ∈ ids) (hnodup : (hs.map Hop.session).Nodup) (hplace : InPlace net hs) :
    vs.map (fun v => (v.node, v.req.session)) = hs.map fun g => (g.node, g.session) := by
  induction hs generalizing hop n req net net' es vs res with
  | nil => cases hlinked
  | cons g hs ih =>
    cases end_hop hend hlinked h hids hnodup hplace with
    | last hnode hv => rw [List.map_singleton, List.map_singleton, hv]
    | next hnode hv hbefore hpre hsessions hlinked' hplace' hrest =>
      have htail := ih hlinked' hrest (fun g hg => hids g (List.mem_cons_of_mem _ hg)) hnodup.of_cons hplace'
      rw [List.map_cons, List.map_cons, hv, htail]

theorem end_ids (hend : ∀ m, (w.usage m).PassesEnd) {c : UInt64} {hs : List (Hop Node)} {req : EndReq}
    {res : EndRes} {vs : List (Visit Node S W EndReq EndRes)} (hlinked : Linked c n req.session hs)
    (h : Served w.endFirst w.endLast (w.Other buf layers ids chat) hop n req net es res net' vs)
    (hids : ∀ g ∈ hs, g.session ∈ ids) (hnodup : (hs.map Hop.session).Nodup) (hplace : InPlace net hs) :
    ∀ v ∈ vs, v.req.session ∈ ids := by
  intro v hv
  obtain ⟨g, hg, heq⟩ := exists_mem_of_map_eq (end_follows hend hlinked h hids hnodup hplace) v hv
  exact (Prod.mk.inj heq).2 ▸ hids g hg

end World

end Dllm
