import Mathlib.Logic.Relation
import DecentralizedInference.Sanity.ModelChain

/-! The calls of a chain: which call makes which, and what an answer has on its way up. -/

namespace Dllm

variable {Node S W Req Res Ctx : Type} [DecidableEq Node]
  {first : ℕ → Node → Req → NodeState Node S W →
    Outcome (NodeState Node S W) (Ctx × Progress Node Req Res)}
  {last : Node → Ctx → Req → Res → NodeState Node S W → Outcome (NodeState Node S W) Res}
  {fate : ℕ → RpcFate}

/-- A call has been made, by way of others, by another one. -/
abbrev Reaches (first : ℕ → Node → Req → NodeState Node S W →
      Outcome (NodeState Node S W) (Ctx × Progress Node Req Res)) (fate : ℕ → RpcFate) :
    Call Node S W Req → Call Node S W Req → Prop :=
  Relation.ReflTransGen (Sends first fate)

theorem Sends.hop {c c' : Call Node S W Req} (h : Sends first fate c c') : c'.hop = c.hop + 1 := by
  cases h
  rfl

theorem Sends.unique {c x y : Call Node S W Req} (hx : Sends first fate c x) (hy : Sends first fate c y) :
    x = y := by
  obtain ⟨hbegin, -⟩ := hx
  obtain ⟨hbegin', -⟩ := hy
  obtain ⟨-, hprogress, rfl⟩ := hbegin.unique hbegin'
  cases hprogress
  rfl

theorem Reaches.hop_le {c x : Call Node S W Req} (h : Reaches first fate c x) : c.hop ≤ x.hop := by
  induction h with
  | refl => exact le_rfl
  | tail _ hsends ih => exact ih.trans (hsends.hop ▸ Nat.le_succ _)

/-- A call is reached by no later one. -/
theorem Reaches.eq_of_hop {c x : Call Node S W Req} (h : Reaches first fate c x) (hhop : x.hop ≤ c.hop) :
    c = x := by
  rcases h.cases_head with rfl | ⟨y, hsends, hrest⟩
  · rfl
  · have hle := Reaches.hop_le hrest
    rw [hsends.hop] at hle
    omega

/-- What the first parts keep, all calls that are reached have. -/
theorem Reaches.keeps {A : Call Node S W Req → Prop}
    (hnext : ∀ (c : Call Node S W Req) ctx req res d st, A c →
      c.Begins first ctx (.proceed req res (some d)) st → A (c.next st d))
    {c x : Call Node S W Req} (h : Reaches first fate c x) (hA : A c) : A x := by
  induction h with
  | refl => exact hA
  | tail _ hsends ih =>
    obtain ⟨hbegin, -⟩ := hsends
    exact hnext _ _ _ _ _ _ ih hbegin

/-- A call that is at most one hop below another one is that one, or is made by it. -/
theorem Reaches.hop_le_succ_iff {c x : Call Node S W Req} (h : Reaches first fate c x) :
    x.hop ≤ c.hop + 1 ↔ x = c ∨ Sends first fate c x := by
  constructor
  · intro hx
    rcases h.cases_tail with rfl | ⟨p, hp, hsends⟩
    · exact .inl rfl
    · have hstep := hsends.hop
      obtain rfl := Reaches.eq_of_hop hp (by omega)
      exact .inr hsends
  · rintro (rfl | hsends)
    · exact Nat.le_succ _
    · exact hsends.hop.le

/-- A path goes through every hop between its ends. -/
theorem Reaches.exists_sends {c x : Call Node S W Req} (h : Reaches first fate c x) {i : ℕ} (hle : c.hop ≤ i)
    (hlt : i < x.hop) : ∃ y z, Reaches first fate c y ∧ Sends first fate y z ∧ Reaches first fate z x ∧ y.hop = i := by
  induction h using Relation.ReflTransGen.head_induction_on with
  | refl => omega
  | @head c c' hsends hrest ih =>
    by_cases hi : c.hop = i
    · exact ⟨c, c', .refl, hsends, hrest, hi⟩
    · obtain ⟨y, z, hy, hyz, hz, hhop⟩ := ih (by rw [hsends.hop]; omega)
      exact ⟨y, z, .head hsends hy, hyz, hz, hhop⟩

/-! Answers on their way up. -/

/-- Every request between two calls gets a response, or an error in its place. -/
def Heard (fate : ℕ → RpcFate) (c x : Call Node S W Req) : Prop :=
  ∀ i, c.hop ≤ i → i < x.hop → fate i ≠ .silentServed

omit [DecidableEq Node] in
theorem Heard.of_hop_le {c c' x : Call Node S W Req} (h : Heard fate c x) (hle : c.hop ≤ c'.hop) : Heard fate c' x :=
  fun i hi => h i (hle.trans hi)

omit [DecidableEq Node] in
theorem Heard.refl (fate : ℕ → RpcFate) (c : Call Node S W Req) : Heard fate c c :=
  fun _ hle hlt => absurd hlt (Nat.not_lt.mpr hle)

/-- A request that gets a response is heard of, and so are those below it. -/
theorem Heard.head {c c' x : Call Node S W Req} (hsends : Sends first fate c c') (hfate : fate c.hop ≠ .silentServed)
    (h : Heard fate c' x) : Heard fate c x := by
  intro i hle hlt
  by_cases hi : i = c.hop
  · rwa [hi]
  · refine h i ?_ hlt
    rw [hsends.hop]
    omega

/-- A call that waits for ever for the next one, which has been served, does not end. -/
theorem run_of_silentServed {c c' : Call Node S W Req} (h : Sends first fate c c') (hfate : fate c.hop = .silentServed) :
    (c.run first last fate).1 = .pending := by
  obtain @⟨ctx, req, res, d, st, hbegin, -⟩ := h
  have hsub : Runs first last fate (c.next st d) _ _ _ := Call.runs _
  exact congrArg Prod.fst (Runs.silentServed hbegin hfate hsub).run_eq

/-- The requests on the way to a failure that is seen by all calls above it have been heard of. -/
theorem heard_of_returned {root x : Call Node S W Req} (hpath : Reaches first fate root x)
    (hseen : ∀ c, Reaches first fate root c → Reaches first fate c x →
      ∃ res, (c.run first last fate).1 = .returned res) : Heard fate root x := by
  intro i hle hlt hsilent
  obtain ⟨y, z, hy, hsends, hz, rfl⟩ := hpath.exists_sends hle hlt
  obtain ⟨res, hres⟩ := hseen y hy (.head hsends hz)
  rw [run_of_silentServed hsends hsilent] at hres
  cases hres

/-- The answer of a call, from the answer of the call that it has made. -/
theorem run_of_answered {c : Call Node S W Req} {ctx : Ctx} {req : Req} {res answer : Res}
    {d : Downstream Node Req} {st : NodeState Node S W}
    (hbegin : c.Begins first ctx (.proceed req res (some d)) st) (hfate : fate c.hop = .answered)
    (hanswer : ((c.next st d).run first last fate).1 = .returned answer) :
    (c.run first last fate).1 =
      (finishAt last c.node ctx req answer ((c.next st d).run first last fate).2.1).1 := by
  have hsub : Runs first last fate (c.next st d) _ _ _ := Call.runs _
  rw [hanswer] at hsub
  have hrun := (Runs.answered hbegin hfate hsub (Prod.mk.eta).symm).run_eq
  exact congrArg Prod.fst hrun

/-- What stands for a failed request is good, the second parts answer a good answer with a
good one, and the requests that are passed on are as they should be. -/
structure Upholds (first : ℕ → Node → Req → NodeState Node S W →
      Outcome (NodeState Node S W) (Ctx × Progress Node Req Res))
    (last : Node → Ctx → Req → Res → NodeState Node S W → Outcome (NodeState Node S W) Res)
    (Good : Res → Prop) (Ok : Req → Prop) : Prop where
  begins : ∀ (c : Call Node S W Req) ctx req res d st, Ok c.req →
    c.Begins first ctx (.proceed req res (some d)) st → Good res ∧ Ok d.req
  passes : ∀ n ctx req answer (net : Net Node S W), Good answer →
    ∃ res, (finishAt last n ctx req answer net).1 = .returned res ∧ Good res

namespace Upholds

variable {Good : Res → Prop} {Ok : Req → Prop} (hup : Upholds first last Good Ok)

include hup

theorem ok {c x : Call Node S W Req} (h : Reaches first fate c x) (hc : Ok c.req) : Ok x.req :=
  h.keeps (A := fun c => Ok c.req) (fun c ctx req res d st hA hb => (hup.begins c ctx req res d st hA hb).2) hc

/-- A call whose request to the next node fails answers what stands for the failure. -/
theorem returns_of_rpcFails {c : Call Node S W Req} (hc : Ok c.req) (h : c.RpcFails first fate) :
    ∃ res, (c.run first last fate).1 = .returned res ∧ Good res := by
  obtain ⟨⟨ctx, req, res, d, st, hbegin⟩, hfate⟩ := h
  obtain ⟨hgood, -⟩ := hup.begins _ _ _ _ _ _ hc hbegin
  cases hf : fate c.hop with
  | errorUnserved =>
    have hrun : Runs first last fate c _ _ _ := .errorUnserved hbegin hf rfl
    rw [hrun.run_eq]
    exact hup.passes _ _ _ _ _ hgood
  | errorServed =>
    have hsub : Runs first last fate (c.next st d) _ _ _ := Call.runs _
    rw [(Runs.errorServed hbegin hf hsub rfl).run_eq]
    exact hup.passes _ _ _ _ _ hgood
  | _ => simp [hf, RpcFate.isError] at hfate

/-- A good answer has good answers above it. -/
theorem upstream {c x : Call Node S W Req} (hpath : Reaches first fate c x) (hheard : Heard fate c x) (hc : Ok c.req)
    (hx : ∃ res, (x.run first last fate).1 = .returned res ∧ Good res) :
    ∃ res, (c.run first last fate).1 = .returned res ∧ Good res := by
  induction hpath using Relation.ReflTransGen.head_induction_on with
  | refl => exact hx
  | @head c c' hsends hrest ih =>
    have hle := hsends.hop
    have hlast := Reaches.hop_le hrest
    have hloud := hheard c.hop (Nat.le_refl _) (by omega)
    obtain @⟨ctx, req, res, d, st, hbegin, hfate⟩ := hsends
    obtain ⟨-, hok⟩ := hup.begins _ _ _ _ _ _ hc hbegin
    obtain ⟨answer, hanswer, hgood⟩ := ih (hheard.of_hop_le (by omega)) hok
    cases hf : fate c.hop with
    | errorServed => exact hup.returns_of_rpcFails hc ⟨⟨ctx, req, res, d, st, hbegin⟩, by simp [hf, RpcFate.isError]⟩
    | answered =>
      rw [run_of_answered hbegin hf hanswer]
      exact hup.passes _ _ _ _ _ hgood
    | silentServed => exact absurd hf hloud
    | _ => simp [hf, RpcFate.served] at hfate

/-- Whatever is above a request that failed has a good answer. -/
theorem above_rpcFails {c x : Call Node S W Req} (hpath : Reaches first fate c x) (hheard : Heard fate c x) (hc : Ok c.req)
    (h : x.RpcFails first fate) : ∃ res, (c.run first last fate).1 = .returned res ∧ Good res :=
  hup.upstream hpath hheard hc (hup.returns_of_rpcFails (hup.ok hpath hc) h)

end Upholds

/-- The calls that turn a request away answer `bare`. A call above passes this on as a failure
or panics at it. -/
structure TurnsAway (first : ℕ → Node → Req → NodeState Node S W →
      Outcome (NodeState Node S W) (Ctx × Progress Node Req Res))
    (last : Node → Ctx → Req → Res → NodeState Node S W → Outcome (NodeState Node S W) Res)
    (Failed : Res → Prop) (bare : Res) (Passes : Call Node S W Req → Prop) : Prop where
  failed : Failed bare
  reply : ∀ (c : Call Node S W Req) ctx res st, c.Begins first ctx (.reply res) st → res = bare
  passes : ∀ (c : Call Node S W Req) ctx req res d st (net : Net Node S W), Passes c →
    c.Begins first ctx (.proceed req res (some d)) st →
    ∃ res, (finishAt last c.node ctx req bare net).1 = .returned res ∧ Failed res
  panics : ∀ (c : Call Node S W Req) ctx req res d st (net : Net Node S W), ¬Passes c →
    c.Begins first ctx (.proceed req res (some d)) st →
    ∃ p, (finishAt last c.node ctx req bare net).1 = .panicked p

theorem TurnsAway.run_of_rejects {Failed : Res → Prop} {bare : Res} {Passes : Call Node S W Req → Prop}
    (haway : TurnsAway first last Failed bare Passes) {c : Call Node S W Req} (h : c.Rejects first) :
    (c.run first last fate).1 = .returned bare := by
  obtain ⟨ctx, res, st, hbegin⟩ := h
  rw [(Runs.replies hbegin).run_eq, haway.reply _ _ _ _ hbegin]

/-- A failure is seen by all calls above it if each of them hears of its request, unless it is a
bare answer that reaches a call which panics. -/
theorem failure_seen_iff {Good Failed : Res → Prop} {Ok : Req → Prop} {bare : Res}
    {Passes : Call Node S W Req → Prop} (hup : Upholds first last Good Ok) (hgood : ∀ res, Good res → Failed res)
    (haway : TurnsAway first last Failed bare Passes) {root x : Call Node S W Req}
    (hroot : ∀ c, Reaches first fate root c → Passes c → c = root) (hok : Ok root.req)
    (hpath : Reaches first fate root x) (hfail : x.Rejects first ∨ x.RpcFails first fate) :
    (∀ c, Reaches first fate root c → Reaches first fate c x →
        ∃ res, (c.run first last fate).1 = .returned res ∧ Failed res) ↔
      Heard fate root x ∧
        (x.Rejects first → x = root ∨ (Sends first fate root x ∧ Passes root) ∨ fate (x.hop - 1) = .errorServed) := by
  have habove : ∀ y c, Reaches first fate root c → Reaches first fate c y → Heard fate c y → y.RpcFails first fate →
      ∃ res, (c.run first last fate).1 = .returned res ∧ Failed res := by
    intro y c hc hcy hheard hrpc
    obtain ⟨res, hres, hres'⟩ := hup.above_rpcFails hcy hheard (hup.ok hc hok) hrpc
    exact ⟨res, hres, hgood res hres'⟩
  refine ⟨fun hseen => ⟨?_, fun hrejects => ?_⟩, fun ⟨hheard, hcond⟩ c hc hcx => ?_⟩
  · have hreturned : ∀ c, Reaches first fate root c → Reaches first fate c x →
        ∃ res, (c.run first last fate).1 = .returned res := fun c hc hcx => (hseen c hc hcx).imp fun _ h => h.1
    exact heard_of_returned hpath hreturned
  · rcases hpath.cases_tail with rfl | ⟨p, hp, hsends⟩
    · exact .inl rfl
    obtain @⟨ctx, req, res, d, st, hbegin, hfate⟩ := hsends
    by_cases hpass : Passes p
    · obtain rfl := hroot p hp hpass
      exact .inr (.inl ⟨.request hbegin hfate, hpass⟩)
    · refine .inr (.inr ?_)
      have hhop : (p.next st d).hop - 1 = p.hop := Nat.add_sub_cancel _ _
      rw [hhop]
      cases hf : fate p.hop with
      | errorServed => rfl
      | silentServed =>
        obtain ⟨res', hres', -⟩ := hseen p hp (.single (.request hbegin hfate))
        rw [run_of_silentServed (.request hbegin hfate) hf] at hres'
        cases hres'
      | errorUnserved => simp [hf, RpcFate.served] at hfate
      | silentUnserved => simp [hf, RpcFate.served] at hfate
      | answered =>
        obtain ⟨res', hres', -⟩ := hseen p hp (.single (.request hbegin hfate))
        obtain ⟨e, he⟩ := haway.panics p ctx req res d st ((p.next st d).run first last fate).2.1 hpass hbegin
        rw [run_of_answered hbegin hf (haway.run_of_rejects hrejects), he] at hres'
        cases hres'
  · rcases hfail with hrejects | hrpc
    swap
    · exact habove x c hc hcx (hheard.of_hop_le (Reaches.hop_le hc)) hrpc
    rcases hcx.cases_tail with rfl | ⟨p, hcp, hsends⟩
    · exact ⟨bare, haway.run_of_rejects hrejects, haway.failed⟩
    have hp : Reaches first fate root p := hc.trans hcp
    have hle := Reaches.hop_le hp
    have hstep := hsends.hop
    obtain @⟨ctx, req, res, d, st, hbegin, hfate⟩ := hsends
    cases hf : fate p.hop with
    | errorUnserved => simp [hf, RpcFate.served] at hfate
    | silentUnserved => simp [hf, RpcFate.served] at hfate
    | silentServed => exact absurd hf (hheard p.hop hle (by omega))
    | errorServed =>
      have hheard' : Heard fate c p := fun i hi hlt => hheard i ((Reaches.hop_le hc).trans hi) (by omega)
      exact habove p c hc hcp hheard' ⟨⟨ctx, req, res, d, st, hbegin⟩, by simp [hf, RpcFate.isError]⟩
    | answered =>
      rcases hcond hrejects with hx | ⟨hsends', hpass⟩ | hlost
      · -- the root is reached by nothing
        rw [hx] at hstep
        omega
      · -- the caller is the root, which passes the answer on
        have hroot' := hsends'.hop
        obtain rfl := hp.eq_of_hop (by omega)
        obtain rfl := Reaches.eq_of_hop hcp (Reaches.hop_le hc)
        rw [run_of_answered hbegin hf (haway.run_of_rejects hrejects)]
        exact haway.passes c ctx req res d st _ hpass hbegin
      · rw [hstep, Nat.add_sub_cancel, hf] at hlost
        cases hlost

/-! The calls of an END. -/

namespace World

variable {N : ℕ} {w : World Node S W N}

omit [DecidableEq Node] in
/-- An end that is answered at once has failed. -/
theorem end_begins_reply {c : Call Node S W EndReq} {ctx : UInt64} {res : EndRes} {st : NodeState Node S W}
    (h : c.Begins w.endFirst ctx (.reply res) st) : res = ModelService.endFailure := by
  have hfirst := h.2
  unfold endFirst ModelService.endBegin at hfirst
  split at hfirst
  · cases hfirst
    rfl
  · simp only at hfirst
    split at hfirst
    · cases hfirst
    · cases hfirst
      rfl
    · cases hfirst

omit [DecidableEq Node] in
/-- An end that goes on had a container, and the next request is that of the container. -/
theorem end_begins_proceed {c : Call Node S W EndReq} {ctx : UInt64} {req : EndReq} {res : EndRes}
    {next : Option (Downstream Node EndReq)} {st : NodeState Node S W}
    (h : c.Begins w.endFirst ctx (.proceed req res next) st) :
    ∃ container u, (c.net c.node).sessions.getClone c.req.session = some container ∧
      container.chatId = ctx ∧
      (w.usage c.node).preEnd ctx c.req (c.net c.node).usage = (.ok (some req), u) ∧
      res = ⟨container.remote.isNone, req.metadata⟩ ∧
      next = container.remote.map (fun d => ⟨d.1, ⟨d.2, req.metadata, req.chainIndex + 1⟩⟩) ∧
      st = ⟨(c.net c.node).sessions.remove c.req.session,
        if container.localRange.isSome then (w.worker c.node).finish req.session (c.net c.node).layers
          else (c.net c.node).layers, u⟩ := by
  have hfirst := h.2
  unfold endFirst ModelService.endBegin at hfirst
  split at hfirst
  case h_1 => cases hfirst
  case h_2 container hcontainer =>
    simp only at hfirst
    split at hfirst
    case h_1 => cases hfirst
    case h_2 => cases hfirst
    case h_3 req' u hpre =>
      cases hfirst
      refine ⟨container, u, hcontainer, rfl, hpre, rfl, rfl, ?_⟩
      cases container.localRange <;> rfl

theorem finishAt_endLast (w : World Node S W N) (n : Node) (chatId : UInt64) (req : EndReq) (answer : EndRes)
    (net : Net Node S W) : finishAt w.endLast n chatId req answer net =
      (.of ((w.usage n).postEnd chatId req answer (net n).usage).1,
        Function.update net n
          { net n with usage := ((w.usage n).postEnd chatId req answer (net n).usage).2 }) := by
  unfold finishAt endLast ModelService.endEnd
  rcases (w.usage n).postEnd chatId req answer (net n).usage with ⟨p | res, u⟩ <;> rfl

end World

end Dllm
