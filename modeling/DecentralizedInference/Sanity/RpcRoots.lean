import DecentralizedInference.Sanity.RpcNet

/-! What belongs to one call of `VirtualModelLayers`: the requests that are made for it, and their tasks. A step at none
of them leaves all of them as they are. -/

namespace Dllm

variable {Node S W E : Type} {N : ℕ} [DecidableEq Node]

/-- What a part of a call makes of the network. -/
def Does (env : Node → ServiceEnv S W E) (net : Net Node S W) (e : Node × Part Node N) (net' : Net Node S W) : Prop :=
  net' = Function.update net e.1 (e.2.run (env e.1).usage (env e.1).worker (env e.1).buf (env e.1).forward (net e.1))

omit [DecidableEq Node] in
theorem ServiceEnv.first_part (env : ServiceEnv S W E) (router : RouteTable Node N) (rs : UInt64) (req : ServiceReq)
    (st : NodeState Node S W) :
    (env.first router rs req st).2 = (req.part router rs).run env.usage env.worker env.buf env.forward st := by
  cases req <;> rfl

omit [DecidableEq Node] in
theorem ServiceEnv.resume_part (env : ServiceEnv S W E) (reply : Option RpcRes) (task : Task) (st : NodeState Node S W) :
    (env.resume reply task st).2 =
      (env.lastPart reply task : Part Node N).run env.usage env.worker env.buf env.forward st := by
  cases task <;> rfl

namespace RpcNet

variable {s s' : RpcNet Node S W} {n : Node} {root k : ℕ} {origin : Origin Node} {env : Node → ServiceEnv S W E}
  {router : RouteTable Node N} {rs : UInt64} {req : ServiceReq} {t : RpcTask Node} {reply : Option RpcRes}

/-- A step at a call that has been made for `k`, and what it adds. -/
structure Adds (s s' : RpcNet Node S W) (origin : Origin Node) (k : ℕ) : Prop where
  tasks : ∃ ts, s'.tasks = s.tasks ++ ts ∧ ∀ t ∈ ts, t.root = k ∧ t.origin = origin
  returned : ∃ rs, s'.returned = s.returned ++ rs ∧ ∀ x ∈ rs, x.1 = k
  calls : s'.calls = s.calls

omit [DecidableEq Node] in
theorem Adds.refl (s : RpcNet Node S W) (origin : Origin Node) (k : ℕ) : s.Adds s origin k :=
  ⟨⟨[], by simp⟩, ⟨[], by simp⟩, rfl⟩

theorem respond_adds (codec : LlmCodec) (n : Node) (res : ServiceRes) (st : NodeState Node S W) :
    s.Adds ((s.setNode n st).respond codec root n origin res) origin root := by
  cases origin with
  | peer dest seq => exact ⟨⟨[], by simp [respond, setNode]⟩, ⟨[], by simp [respond, setNode]⟩, rfl⟩
  | virtualLayers => exact ⟨⟨[], by simp [respond, setNode]⟩, ⟨[(root, res)], by simp [respond, setNode]⟩, rfl⟩

theorem first_adds (s : RpcNet Node S W) : s.Adds (s.first env router rs root n origin req) origin root := by
  unfold RpcNet.first
  rcases (env n).first router rs req (s.nodes n) with ⟨_ | _ | ⟨task, _ | ⟨dest, next⟩⟩, st⟩
  · exact ⟨⟨[], by simp [setNode]⟩, ⟨[], by simp [setNode]⟩, rfl⟩
  · exact respond_adds _ _ _ _
  · exact ⟨⟨_, rfl, by simp⟩, ⟨[], by simp [ready, setNode]⟩, rfl⟩
  · exact ⟨⟨_, rfl, by simp⟩, ⟨[], by simp [ask, setNode]⟩, rfl⟩

theorem last_adds (s : RpcNet Node S W) : s.Adds (s.last env reply t) t.origin t.root := by
  unfold RpcNet.last
  rcases (env t.node).resume reply t.task (s.nodes t.node) with ⟨_ | res, st⟩
  · exact ⟨⟨[], by simp [setNode]⟩, ⟨[], by simp [setNode]⟩, rfl⟩
  · exact respond_adds _ _ _ _

theorem first_does (s : RpcNet Node S W) :
    Does env s.nodes (n, req.part router rs) (s.first env router rs root n origin req).nodes := by
  have hpart := (env n).first_part router rs req (s.nodes n)
  unfold RpcNet.first
  rcases hfirst : (env n).first router rs req (s.nodes n) with ⟨_ | _ | ⟨task, _ | ⟨dest, next⟩⟩, st⟩ <;>
    rw [hfirst] at hpart <;>
    subst hpart
  · rfl
  · cases origin <;> rfl
  · rfl
  · rfl

theorem last_does (s : RpcNet Node S W) :
    Does (N := N) env s.nodes (t.node, (env t.node).lastPart reply t.task) (s.last env reply t).nodes := by
  have hpart := (env t.node).resume_part (N := N) reply t.task (s.nodes t.node)
  unfold RpcNet.last
  rcases hlast : (env t.node).resume reply t.task (s.nodes t.node) with ⟨_ | res, st⟩ <;>
    rw [hlast] at hpart <;> subst hpart
  · rfl
  · simp only [setNode, respond]
    cases t.origin <;> rfl

/-- What is made for a call has been made after it, and a task is made for what its request is made for. -/
structure Rooted (s : RpcNet Node S W) : Prop where
  roots : ∀ n call, call < (s.rpc n).oneshots → s.roots n call < s.calls
  tasks : ∀ t ∈ s.tasks, t.root < s.calls
  returned : ∀ x ∈ s.returned, x.1 < s.calls
  origins : ∀ t ∈ s.tasks, ∀ n call, t.origin.isFor n call = true → s.roots n call = t.root

theorem Rooted.init (nodes : Net Node S W) : ({ nodes } : RpcNet Node S W).Rooted where
  roots n call h := by cases h
  tasks t ht := by cases ht
  returned x hx := by cases hx
  origins t ht := by cases ht

theorem Rooted.of_advances (h : s.Rooted) (hsound : s.Sound) (hadv : s.Advances s' origin k) (hadds : s.Adds s' origin k)
    (hk : k < s.calls) (horigin : ∀ n call, origin.isFor n call = true → s.roots n call = k ∧ call < (s.rpc n).oneshots) :
    s'.Rooted := by
  obtain ⟨⟨ts, htasks, hts⟩, ⟨rs, hreturned, hrs⟩, hcalls⟩ := hadds
  refine ⟨fun n call hlt => ?_, fun t ht => ?_, fun x hx => ?_, fun t ht n call hfor => ?_⟩
  · rw [hcalls]
    by_cases hold : call < (s.rpc n).oneshots
    · rw [hadv.roots n call hold]
      exact h.roots n call hold
    · rw [hadv.fresh n call (Nat.le_of_not_lt hold) hlt]
      exact hk
  · rw [hcalls]
    rcases List.mem_append.mp (htasks ▸ ht) with ht | ht
    · exact h.tasks t ht
    · rw [(hts t ht).1]
      exact hk
  · rw [hcalls]
    rcases List.mem_append.mp (hreturned ▸ hx) with hx | hx
    · exact h.returned x hx
    · rw [hrs x hx]
      exact hk
  · rcases List.mem_append.mp (htasks ▸ ht) with ht | ht
    · have hlt := hsound.known n call (List.ne_nil_of_mem (mem_holders_task.mpr ⟨ht, hfor⟩))
      rw [hadv.roots n call hlt]
      exact h.origins t ht n call hfor
    · obtain ⟨hroot, rfl⟩ := hts t ht
      obtain ⟨hof, hlt⟩ := horigin n call hfor
      rw [hadv.roots n call hlt, hof, hroot]

/-- The request is one of those that are made for `root`. -/
def IsOf (s : RpcNet Node S W) (root : ℕ) (origin : Origin Node) : Prop :=
  ∃ n call, origin.isFor n call = true ∧ call < (s.rpc n).oneshots ∧ s.roots n call = root

/-- Nothing that is made for `root` changes. -/
structure Apart (root : ℕ) (s s' : RpcNet Node S W) : Prop where
  holders : ∀ n call, call < (s.rpc n).oneshots → s.roots n call = root → s'.holders n call = s.holders n call
  oneshots : ∀ n, (s.rpc n).oneshots ≤ (s'.rpc n).oneshots
  roots : ∀ n call, call < (s.rpc n).oneshots → s'.roots n call = s.roots n call
  fresh : ∀ n call, (s.rpc n).oneshots ≤ call → call < (s'.rpc n).oneshots → s'.roots n call ≠ root
  tasks : (s'.tasks.filter fun t => t.root = root) = s.tasks.filter fun t => t.root = root
  returned : (s'.returned.filter fun x => x.1 = root) = s.returned.filter fun x => x.1 = root
  calls : s.calls ≤ s'.calls

theorem Advances.apart (h : s.Advances s' origin k) (hadds : s.Adds s' origin k) (hk : k ≠ root)
    (hof : ¬ s.IsOf root origin) :
    s.Apart root s' := by
  obtain ⟨⟨ts, htasks, hts⟩, ⟨rs, hreturned, hrs⟩, hcalls⟩ := hadds
  refine ⟨fun n call hlt hroot => h.holders n call hlt ?_, h.oneshots, h.roots, fun n call hle hlt => ?_, ?_, ?_,
    hcalls.ge⟩
  · by_contra hfor
    exact hof ⟨n, call, by simpa using hfor, hlt, hroot⟩
  · rw [h.fresh n call hle hlt]
    exact hk
  · have hnone : (ts.filter fun t => t.root = root) = [] :=
      List.filter_eq_nil_iff.mpr fun t ht => by simp [(hts t ht).1, hk]
    rw [htasks, List.filter_append, hnone, List.append_nil]
  · have hnone : (rs.filter fun x => x.1 = root) = [] := List.filter_eq_nil_iff.mpr fun x hx => by simp [hrs x hx, hk]
    rw [hreturned, List.filter_append, hnone, List.append_nil]

theorem ChangesOnly.apart (h : s.ChangesOnly s' origin) (honeshots : ∀ n, (s'.rpc n).oneshots = (s.rpc n).oneshots)
    (hroots : s'.roots = s.roots) (htasks : s'.tasks = s.tasks) (hreturned : s'.returned = s.returned)
    (hcalls : s'.calls = s.calls) (hof : ¬ s.IsOf root origin) : s.Apart root s' :=
  (h.advances honeshots hroots (root + 1)).apart ⟨⟨[], by simp [htasks]⟩, ⟨[], by simp [hreturned]⟩, hcalls⟩
    (Nat.succ_ne_self root) hof

theorem Apart.trans {s'' : RpcNet Node S W} (h : s.Apart root s') (h' : s'.Apart root s'') : s.Apart root s'' where
  holders n call hlt hroot :=
    (h'.holders n call (Nat.lt_of_lt_of_le hlt (h.oneshots n)) ((h.roots n call hlt).trans hroot)).trans
      (h.holders n call hlt hroot)
  oneshots n := Nat.le_trans (h.oneshots n) (h'.oneshots n)
  roots n call hlt := (h'.roots n call (Nat.lt_of_lt_of_le hlt (h.oneshots n))).trans (h.roots n call hlt)
  fresh n call hle hlt := by
    by_cases hmid : call < (s'.rpc n).oneshots
    · rw [h'.roots n call hmid]
      exact h.fresh n call hle hmid
    · exact h'.fresh n call (Nat.le_of_not_lt hmid) hlt
  tasks := h'.tasks.trans h.tasks
  returned := h'.returned.trans h.returned
  calls := Nat.le_trans h.calls h'.calls

omit [DecidableEq Node] in
/-- What waits for an answer is known by its number. -/
theorem rootOf_eq {seq : UInt32} {call : ℕ} (hlookup : (s.rpc n).waits.lookup seq = some call) :
    s.rootOf n seq = s.roots n call := by
  simp [rootOf, hlookup]

/-- A request is made for one call. -/
theorem Free.isOf_iff {seq : UInt32} (hfree : s.Free (.peer n seq)) :
    s.IsOf root (.peer n seq) ↔ s.rootOf n seq = root := by
  obtain ⟨call, hseq, hlookup, -, hlt⟩ := hfree
  rw [rootOf_eq hlookup]
  refine ⟨fun ⟨m, call', hfor, _, hroot⟩ => ?_, fun hroot => ⟨n, call, by simp [Origin.isFor, hseq], hlt, hroot⟩⟩
  obtain ⟨rfl, hcall⟩ : n = m ∧ seq.toNat = call' + 1 := by simpa [Origin.isFor] using hfor
  rwa [show call = call' by omega]

theorem Rooted.last (h : s.Rooted) (hsound : s.Sound) {before after : List (RpcTask Node)}
    (htasks : s.tasks = before ++ t :: after) :
    (({ s with tasks := before ++ after } : RpcNet Node S W).last env reply t).Rooted := by
  obtain ⟨hsound', hfree, -⟩ := hsound.takeTask htasks
  have hmem : ∀ t' ∈ before ++ after, t' ∈ s.tasks := fun t' ht' => by
    rw [htasks]
    exact List.mem_append.mpr ((List.mem_append.mp ht').imp_right (List.mem_cons_of_mem _))
  have hrooted : ({ s with tasks := before ++ after } : RpcNet Node S W).Rooted :=
    ⟨h.roots, fun t' ht' => h.tasks t' (hmem t' ht'), h.returned, fun t' ht' => h.origins t' (hmem t' ht')⟩
  have ht : t ∈ s.tasks := by simp [htasks]
  exact hrooted.of_advances hsound' (hsound'.last hfree).2 (last_adds _) (h.tasks t ht) fun n call hfor =>
    ⟨h.origins t ht n call hfor, (hfree.holders_eq_nil hfor).2⟩

/-! What is made for other calls. -/

theorem not_isOf_virtualLayers : ¬ s.IsOf root .virtualLayers := fun ⟨_, _, hfor, _⟩ => by cases hfor

theorem Sound.first_apart (h : s.Sound) (hfree : s.Free origin) (hk : k ≠ root) (hof : ¬ s.IsOf root origin) :
    s.Apart root (s.first env router rs k n origin req) :=
  (h.first hfree).2.apart (first_adds s) hk hof

theorem Sound.call_apart (h : s.Sound) (hlt : root < s.calls) :
    s.Apart root
      (({ s with calls := s.calls + 1 } : RpcNet Node S W).first env router rs s.calls n .virtualLayers req) := by
  have hcalls : ({ s with calls := s.calls + 1 } : RpcNet Node S W).Sound :=
    ⟨h.counted, h.once, h.known, h.packets, h.tasks⟩
  have happart : s.Apart root { s with calls := s.calls + 1 } :=
    ⟨fun _ _ _ _ => rfl, fun _ => Nat.le_refl _, fun _ _ _ => rfl, fun _ _ hle hlt => absurd hlt (Nat.not_lt.mpr hle), rfl,
      rfl, Nat.le_succ _⟩
  exact happart.trans (hcalls.first_apart trivial (Nat.ne_of_gt hlt) not_isOf_virtualLayers)

theorem Sound.take_apart (h : s.Sound) {before after : List (Packet Node)} {p : Packet Node}
    (hwire : s.wire = before ++ p :: after) (hof : ¬ s.IsOf root p.origin) :
    s.Apart root { s with wire := before ++ after } :=
  (h.take hwire).2.2.apart (fun _ => rfl) rfl rfl rfl rfl hof

theorem addPacket_apart (p : Packet Node) (hof : ¬ s.IsOf root p.origin) : s.Apart root { s with wire := s.wire ++ [p] } :=
  (holders_addPacket p).apart (fun _ => rfl) rfl rfl rfl rfl hof

theorem Sound.send_apart (h : s.Sound) (hfew : (s.rpc n).oneshots < 2 ^ 32) {dest : Node} {req : RpcReq}
    {rpc : RpcClientRx Node} (hrecv : (s.rpc n).recv = some (dest, req, rpc)) (hof : ¬ s.IsOf root (.peer n req.seq)) :
    s.Apart root { s with rpc := Function.update s.rpc n rpc, wire := s.wire ++ [.request n dest req] } := by
  obtain ⟨-, -, hother, honeshots, -⟩ := h.dequeue hfew hrecv
  have hsame : ∀ m, ((s.withRpc n rpc s.roots).rpc m).oneshots = (s.rpc m).oneshots := by
    intro m
    by_cases hm : m = n
    · subst hm
      simpa [RpcNet.withRpc] using honeshots
    · simp [RpcNet.withRpc, hm]
  refine (hother.apart hsame rfl rfl rfl rfl hof).trans (addPacket_apart _ fun hof' => hof ?_)
  obtain ⟨m, call, hfor, hlt, hroot⟩ := hof'
  exact ⟨m, call, hfor, hsame m ▸ hlt, hroot⟩

theorem Sound.hear_apart (h : s.Sound) {before after : List (Packet Node)} {src dest : Node} {res : RpcRes}
    {rpc : RpcClientRx Node} (hwire : s.wire = before ++ .response src dest res :: after)
    (hres : (s.rpc dest).onRes res = .ok rpc) (hof : ¬ s.IsOf root (.peer dest res.seq)) :
    s.Apart root { s with rpc := Function.update s.rpc dest rpc, wire := before ++ after } := by
  obtain ⟨hsound, hfree, -⟩ := h.take hwire
  obtain ⟨call, r, -, honRes, honeshots, -, hother, -⟩ := hsound.resolve hfree
  obtain rfl := Except.ok.inj (honRes.symm.trans hres)
  refine (h.take_apart hwire hof).trans (hother.apart (fun m => ?_) rfl rfl rfl rfl hof)
  by_cases hm : m = dest
  · subst hm
    simpa [RpcNet.withRpc] using honeshots
  · simp [RpcNet.withRpc, hm]

theorem Rooted.not_isOf (h : s.Rooted) (ht : t ∈ s.tasks) (hroot : t.root ≠ root) : ¬ s.IsOf root t.origin :=
  fun ⟨n, call, hfor, _, hof⟩ => hroot ((h.origins t ht n call hfor).symm.trans hof)

theorem Sound.last_apart (h : s.Sound) (hrooted : s.Rooted) {before after : List (RpcTask Node)}
    (htasks : s.tasks = before ++ t :: after) (hroot : t.root ≠ root) :
    s.Apart root (({ s with tasks := before ++ after } : RpcNet Node S W).last env reply t) := by
  obtain ⟨hsound, hfree, hother⟩ := h.takeTask htasks
  have hof := hrooted.not_isOf (by simp [htasks]) hroot
  have happart : s.Apart root { s with tasks := before ++ after } := by
    refine ⟨fun n call hlt hroot' => hother n call ?_, fun _ => Nat.le_refl _, fun _ _ _ => rfl,
      fun _ _ hle hlt => absurd hlt (Nat.not_lt.mpr hle), by simp [htasks, hroot], rfl, Nat.le_refl _⟩
    by_contra hfor
    exact hof ⟨n, call, by simpa using hfor, hlt, hroot'⟩
  exact happart.trans ((hsound.last hfree).2.apart (last_adds _) hroot hof)

end RpcNet

/-! Every step keeps what is made for what. -/

variable {env : Node → ServiceEnv S W E} {T : Node → RouteTable Node N → Prop} {s s' : RpcNet Node S W}
  {e : Option (ℕ × Node × Part Node N)}
  {es : List (Option (ℕ × Node × Part Node N))}

theorem RpcNet.Rooted.of_eq (h : s.Rooted) (honeshots : ∀ n, (s'.rpc n).oneshots = (s.rpc n).oneshots)
    (hroots : s'.roots = s.roots) (htasks : ∀ t ∈ s'.tasks, t ∈ s.tasks) (hreturned : s'.returned = s.returned)
    (hcalls : s.calls ≤ s'.calls) : s'.Rooted where
  roots n call hlt := by
    rw [hroots]
    exact Nat.lt_of_lt_of_le (h.roots n call (honeshots n ▸ hlt)) hcalls
  tasks t ht := Nat.lt_of_lt_of_le (h.tasks t (htasks t ht)) hcalls
  returned x hx := Nat.lt_of_lt_of_le (h.returned x (hreturned ▸ hx)) hcalls
  origins t ht n call hfor := by
    rw [hroots]
    exact h.origins t (htasks t ht) n call hfor

theorem RpcNet.Rooted.step (h : s.Rooted) (hsound : s.Sound) (hfew : ∀ n, (s.rpc n).oneshots < 2 ^ 32)
    (hstep : RpcStep env T s e s') : s'.Rooted := by
  cases hstep with
  | @call n c router htable rs =>
    have hcalls : ({ s with calls := s.calls + 1 } : RpcNet Node S W).Sound :=
      ⟨hsound.counted, hsound.once, hsound.known, hsound.packets, hsound.tasks⟩
    have hrooted : ({ s with calls := s.calls + 1 } : RpcNet Node S W).Rooted :=
      h.of_eq (fun _ => rfl) rfl (fun _ ht => ht) rfl (Nat.le_succ _)
    have hfree : ({ s with calls := s.calls + 1 } : RpcNet Node S W).Free .virtualLayers := trivial
    exact hrooted.of_advances hcalls (hcalls.first hfree).2 (RpcNet.first_adds _) (Nat.lt_succ_self _)
      fun _ _ hfor => by cases hfor
  | @send n dest req rpc hrecv =>
    obtain ⟨-, -, -, honeshots, -⟩ := hsound.dequeue (hfew n) hrecv
    refine h.of_eq (fun m => ?_) rfl (fun _ ht => ht) rfl (Nat.le_refl _)
    by_cases hm : m = n
    · subst hm
      simpa using honeshots
    · simp [hm]
  | lose hwire => exact h.of_eq (fun _ => rfl) rfl (fun _ ht => ht) rfl (Nat.le_refl _)
  | @serve before after src dest req call hwire hparse router htable rs =>
    obtain ⟨hsound', hfree, -⟩ := hsound.take hwire
    have hrooted : ({ s with wire := before ++ after } : RpcNet Node S W).Rooted :=
      h.of_eq (fun _ => rfl) rfl (fun _ ht => ht) rfl (Nat.le_refl _)
    obtain ⟨number, hseq, hlookup, -, hlt⟩ := id hfree
    have hroot : s.rootOf src req.seq = s.roots src number := RpcNet.rootOf_eq hlookup
    refine hrooted.of_advances hsound' (hsound'.first hfree).2 (RpcNet.first_adds _) ?_ fun m call' hfor => ?_
    · rw [hroot]
      exact h.roots src number hlt
    · obtain ⟨rfl, hcall⟩ : src = m ∧ req.seq.toNat = call' + 1 := by simpa [Packet.origin, Origin.isFor] using hfor
      obtain rfl : number = call' := by omega
      exact ⟨hroot.symm, hlt⟩
  | refuse hwire hparse => exact h.of_eq (fun _ => rfl) rfl (fun _ ht => ht) rfl (Nat.le_refl _)
  | @hear before after src dest res rpc hwire hres =>
    obtain ⟨hsound', hfree, -⟩ := hsound.take hwire
    obtain ⟨call, r, -, honRes, honeshots, -⟩ := hsound'.resolve hfree
    obtain rfl := Except.ok.inj (honRes.symm.trans hres)
    refine h.of_eq (fun m => ?_) rfl (fun _ ht => ht) rfl (Nat.le_refl _)
    by_cases hm : m = dest
    · subst hm
      simpa using honeshots
    · simp [hm]
  | resume htasks hcall hres => exact h.last hsound htasks
  | finish htasks hcall => exact h.last hsound htasks

end Dllm
