import DecentralizedInference.Proofs.ChatBudget
import DecentralizedInference.Proofs.PayerRole
import DecentralizedInference.Spec.VirtualLayers

/-! What a chat spends. A part of a model that costs something when the layers are called, and
nothing otherwise, costs no more in a chat than it has calls; such a cost is what the root of a
chain signs for. So the budget of a chat is that of its calls. -/

namespace Dllm

namespace ChatParts

variable {σ E : Type}

/-- A cost that grows by one at most with a call of the layers, and with nothing else. -/
structure Prices (m : ChatParts σ E) (μ : σ → ℕ) : Prop where
  start : ∀ maxLen p, μ (m.start maxLen p).2 ≤ μ p
  pre : ∀ input p, μ (m.pre input p).2 ≤ μ p
  forward : ∀ step x indexPos p, μ (m.forward step x indexPos p).2 ≤ μ p + 1
  sample : ∀ penalized y p, μ (m.sample penalized y p).2 ≤ μ p
  emit : ∀ token p, μ (m.emit token p).2 ≤ μ p
  decodeRest : ∀ p, μ (m.decodeRest p).2 ≤ μ p
  finish : ∀ p, μ (m.finish p) ≤ μ p

/-- A chat that began with cost `c` owes its calls at most. -/
def Paid (μ : σ → ℕ) (c : ℕ) (s : ChatState σ) : Prop := μ s.parts ≤ c + s.forwards.length

variable {m : ChatParts σ E} {μ : σ → ℕ} {c : ℕ} {s : ChatState σ}

theorem infer_paid (hm : m.Prices μ) (input : List UInt32) (step indexPos : UInt32) (penalized : List UInt32)
    (hs : Paid μ c s) : Paid μ c (m.infer input step indexPos penalized s).2 := by
  have hp := hm.pre input s.parts
  unfold infer
  rcases hpre : m.pre input s.parts with ⟨_ | x, p⟩ <;> rw [hpre] at hp
  · exact Nat.le_trans hp hs
  · have hf := hm.forward step x indexPos p
    have hpaid : μ p + 1 ≤ c + (s.forwards ++ [(step, indexPos)]).length := by
      rw [List.length_append, List.length_singleton]
      exact Nat.succ_le_succ (Nat.le_trans hp hs)
    rcases hforward : m.forward step x indexPos p with ⟨_ | y, q⟩ <;> rw [hforward] at hf <;> simp only [hforward]
    · exact Nat.le_trans hf hpaid
    · exact Nat.le_trans (hm.sample penalized y q) (Nat.le_trans hf hpaid)

theorem Inferred.paid {s' : ChatState σ} (hm : m.Prices μ) (hs : Paid μ c s) (h : m.Inferred s s') :
    Paid μ c s' := by
  obtain ⟨input, step, indexPos, penalized, t, rfl, hforwards, -, hparts⟩ := h
  have hinfer := infer_paid hm input step indexPos penalized hs
  unfold Paid
  rw [hforwards]
  rcases hparts with hsame | ⟨next, hemit⟩
  · rw [hsame]
    exact hinfer
  · rw [hemit]
    exact Nat.le_trans (hm.emit next _) hinfer

theorem close_paid (hm : m.Prices μ) (undecodable : ChatEnd) (hs : Paid μ c s) :
    Paid μ c (m.close undecodable s).2 := by
  have hrest := Nat.le_trans (hm.decodeRest s.parts) hs
  unfold close
  split <;> rename_i hresult <;> rw [hresult] at hrest
  · exact hrest
  · exact Nat.le_trans (hm.finish _) hrest

theorem afterLoop_paid (hm : m.Prices μ) (undecodable : ChatEnd) {t : LoopTurn (ChatState σ)}
    (ht : Paid μ c t.state) :
    Paid μ c (match t with
      | .leave s => (ChatEnd.err, s)
      | .brk s => m.close undecodable s
      | .next s => m.close undecodable s).2 := by
  cases t with
  | leave s => exact ht
  | brk s => exact close_paid hm undecodable ht
  | next s => exact close_paid hm undecodable ht

theorem llamaChat_paid (hm : m.Prices μ) (maxLen : UInt32) (prompt : String) (parts : σ) :
    Paid μ (μ parts) (m.llamaChat maxLen prompt parts).2 := by
  have hstart := hm.start maxLen parts
  unfold llamaChat
  cases m.encode prompt with
  | none => exact Nat.le_refl _
  | some tokens =>
    rcases hok : m.start maxLen parts with ⟨_ | _, p⟩ <;> rw [hok] at hstart
    · exact hstart
    · have hp : Paid μ (μ parts) { parts := p, tokens } := hstart
      exact afterLoop_paid hm _ (forEach_invariant
        (fun index _ hs => (m.llamaTurn_inferred index _).paid hm hs) _ hp)

theorem phi3Answer_paid (hm : m.Prices μ) (maxLen promptLen : UInt32) (hs : Paid μ c s) :
    Paid μ c (m.phi3Answer maxLen promptLen s).2 := by
  have hemit := Nat.le_trans (hm.emit s.nextToken s.parts) hs
  unfold phi3Answer
  rcases hresult : m.emit s.nextToken s.parts with ⟨_ | _ | _, parts⟩ <;> rw [hresult] at hemit <;>
    simp only [hresult]
  · exact hemit
  · exact hemit
  · cases m.eos with
    | none => exact hemit
    | some eos =>
      have hp : Paid μ c { s with tokens := [s.nextToken], parts, loopBound := some (maxLen, promptLen) } := hemit
      exact afterLoop_paid hm _ (forEach_invariant
        (fun index _ hs => (m.phi3Turn_inferred eos promptLen index _).paid hm hs) _ hp)

theorem phi3Chat_paid (hm : m.Prices μ) (maxLen : UInt32) (prompt : String) (parts : σ) :
    Paid μ (μ parts) (m.phi3Chat maxLen prompt parts).2 := by
  have hstart := hm.start maxLen parts
  unfold phi3Chat
  cases m.encode prompt with
  | none => exact Nat.le_refl _
  | some tokens =>
    rcases hok : m.start maxLen parts with ⟨_ | _, p⟩ <;> rw [hok] at hstart
    · exact hstart
    · have hp : Paid μ (μ parts) { parts := p } := hstart
      have hloop := forEach_invariant (P := Paid μ (μ parts))
        (fun token _ hs => (m.promptTurn_inferred token _).paid hm hs) tokens.zipIdx hp
      simp only
      cases hturn : forEach m.promptTurn tokens.zipIdx { parts := p } <;> rw [hturn] at hloop
      case leave s => exact hloop
      all_goals exact phi3Answer_paid hm _ _ hloop

end ChatParts

variable {Address SecretKey PublicKey Node W E : Type} {N : ℕ}

namespace OnChainAccount

variable {a : OnChainAccount Address SecretKey PublicKey} {s : OnChainState Address PublicKey}

theorem preStart_signed (req : StartReq) : (a.preStart req s).2.signed = s.signed :=
  congrArg Payments.signed (preStart_payments req)

theorem postStart_signed (req : StartReq) (res : StartRes) : (a.postStart req res s).2.signed = s.signed := by
  unfold postStart
  split
  · rfl
  · split
    · cases hok : a.accepts s.submitted.length <;> simp [submit, hok]
    · rfl

/-- The one hook that signs. -/
theorem preForward_signed (chatId : UInt64) (req : ForwardReq) :
    (a.preForward chatId req s).2.signed.length ≤ s.signed.length + 1 := by
  by_cases hidx : req.chainIndex = 0
  · unfold preForward
    rw [if_pos hidx]
    exact Nat.le_of_eq List.length_append
  · have hsame : (a.preForward chatId req s).2.signed = s.signed :=
      congrArg Payments.signed (preForward_payments hidx)
    rw [hsame]
    exact Nat.le_succ _

theorem preEnd_signed (chatId : UInt64) (req : EndReq) : (a.preEnd chatId req s).2.signed = s.signed := by
  unfold preEnd
  split <;> rfl

theorem postEnd_signed (chatId : UInt64) (req : EndReq) (res : EndRes) :
    (a.postEnd chatId req res s).2.signed = s.signed :=
  congrArg Payments.signed (postEnd_payments chatId req res)

end OnChainAccount

/-- What a call may sign for. -/
def ServiceReq.tokens : ServiceReq → ℕ
  | .forward _ => 1
  | _ => 0

def NodeState.signatures (st : NodeState Node (OnChainState Address PublicKey) W) : ℕ := st.usage.signed.length

namespace ServiceEnv

variable {a : OnChainAccount Address SecretKey PublicKey} {env : ServiceEnv (OnChainState Address PublicKey) W E}
  {st : NodeState Node (OnChainState Address PublicKey) W}

theorem stage_signatures {Req Res : Type} {answer : Res → ServiceRes} {task : Req → Res → Task}
    {call : Req → ServiceReq}
    {finish : Req → Res → NodeState Node (OnChainState Address PublicKey) W →
      Outcome (NodeState Node (OnChainState Address PublicKey) W) Res}
    (hfinish : ∀ req res st, (finish req res st).2.signatures = st.signatures)
    (progress : Progress Node Req Res) (st : NodeState Node (OnChainState Address PublicKey) W) :
    (stage answer task call finish progress st).2.signatures = st.signatures := by
  rcases progress with res | ⟨req, res, _ | next⟩
  · rfl
  · exact hfinish req res st
  · rfl

theorem startEnd_signatures (req : StartReq) (res : StartRes)
    (st : NodeState Node (OnChainState Address PublicKey) W) :
    (ModelService.startEnd a.service.toWorkerUsageService req res st).2.signatures = st.signatures :=
  congrArg List.length (OnChainAccount.postStart_signed req res)

theorem endEnd_signatures (chatId : UInt64) (req : EndReq) (res : EndRes)
    (st : NodeState Node (OnChainState Address PublicKey) W) :
    (ModelService.endEnd a.service.toWorkerUsageService chatId req res st).2.signatures = st.signatures :=
  congrArg List.length (OnChainAccount.postEnd_signed chatId req res)

theorem serve_signatures (husage : env.usage = a.service.toWorkerUsageService) (router : RouteTable Node N)
    (rs : UInt64) (req : ServiceReq) (st : NodeState Node (OnChainState Address PublicKey) W) :
    (env.serve router rs req st).2.signatures ≤ st.signatures + req.tokens := by
  cases req with
  | start req =>
    have hbegin : (ModelService.startBegin a.service.toWorkerUsageService env.worker router rs req st).2.signatures =
        st.signatures := by
      unfold NodeState.signatures
      rw [ModelService.startBegin_usage]
      exact congrArg List.length (OnChainAccount.preStart_signed req)
    simp only [serve, husage]
    rcases hb : ModelService.startBegin a.service.toWorkerUsageService env.worker router rs req st with
      ⟨_ | progress, st'⟩ <;> rw [hb] at hbegin
    · exact Nat.le_of_eq hbegin
    · exact Nat.le_of_eq ((stage_signatures startEnd_signatures progress st').trans hbegin)
  | forward req =>
    have hbegin : (ModelService.forwardBegin a.service.toWorkerUsageService env.buf env.forward req st).2.signatures ≤
        st.signatures + 1 := by
      unfold NodeState.signatures
      rw [ModelService.forwardBegin_usage]
      split
      · exact Nat.le_succ _
      · exact OnChainAccount.preForward_signed _ req
    simp only [serve, husage]
    rcases hb : ModelService.forwardBegin a.service.toWorkerUsageService env.buf env.forward req st with
      ⟨_ | ⟨chatId, progress⟩, st'⟩ <;> rw [hb] at hbegin
    · exact hbegin
    · exact Nat.le_trans (Nat.le_of_eq (stage_signatures (fun _ _ _ => rfl) progress st')) hbegin
  | finish req =>
    have hbegin : (ModelService.endBegin a.service.toWorkerUsageService env.worker req st).2.signatures =
        st.signatures := by
      unfold NodeState.signatures
      rw [ModelService.endBegin_usage]
      split
      · rfl
      · exact congrArg List.length (OnChainAccount.preEnd_signed _ req)
    simp only [serve, husage]
    rcases hb : ModelService.endBegin a.service.toWorkerUsageService env.worker req st with
      ⟨_ | ⟨chatId, progress⟩, st'⟩ <;> rw [hb] at hbegin
    · exact Nat.le_of_eq hbegin
    · exact Nat.le_of_eq ((stage_signatures (endEnd_signatures chatId) progress st').trans hbegin)

theorem resume_signatures (husage : env.usage = a.service.toWorkerUsageService) (reply : Option RpcRes) (task : Task)
    (st : NodeState Node (OnChainState Address PublicKey) W) :
    (env.resume reply task st).2.signatures = st.signatures := by
  cases task with
  | start req failed =>
    simp only [resume, husage]
    exact startEnd_signatures req _ st
  | forward chatId req failed =>
    simp only [resume, husage]
    rfl
  | finish chatId req failed =>
    simp only [resume, husage]
    exact endEnd_signatures chatId req _ st

/-- A call signs for what it may, if nobody else signs while it waits. -/
theorem run_signatures (husage : env.usage = a.service.toWorkerUsageService) (router : RouteTable Node N)
    (rs : UInt64) (req : ServiceReq) {meanwhile : NodeState Node (OnChainState Address PublicKey) W → _}
    (hmeanwhile : ∀ st, (meanwhile st).signatures = st.signatures) (wait : RpcWait)
    (st : NodeState Node (OnChainState Address PublicKey) W) :
    (env.run router rs req meanwhile wait st).2.signatures ≤ st.signatures + req.tokens := by
  have hserve := serve_signatures husage router rs req st
  unfold run
  rcases hs : env.serve router rs req st with ⟨_ | _ | ⟨task, dest, next⟩, st'⟩ <;> rw [hs] at hserve
  · exact hserve
  · exact hserve
  · cases wait with
    | never =>
      simp only
      rw [hmeanwhile]
      exact hserve
    | ends reply =>
      simp only
      rw [resume_signatures husage, hmeanwhile]
      exact hserve

end ServiceEnv

namespace VirtualLayers

variable {a : OnChainAccount Address SecretKey PublicKey}
  {v : VirtualLayers Node (OnChainState Address PublicKey) W E N}

/-- The other tasks of the node do not sign during a chat. Those of its peers do not, as long as none
of them takes the node for its root. -/
structure Alone (v : VirtualLayers Node (OnChainState Address PublicKey) W E N) : Prop where
  before : ∀ k st, ((v.setting k).before st).signatures = st.signatures
  meanwhile : ∀ k st, ((v.setting k).meanwhile st).signatures = st.signatures

theorem call_signatures (husage : v.modelService.usage = a.service.toWorkerUsageService) (hv : v.Alone)
    (c : VirtualCall) (s : VirtualState Node (OnChainState Address PublicKey) W) :
    (v.call c s).2.node.signatures ≤ s.node.signatures + c.req.tokens := by
  have hrun := ServiceEnv.run_signatures husage (v.setting s.calls).router (v.setting s.calls).remoteSession c.req
    (hv.meanwhile s.calls) (v.setting s.calls).wait ((v.setting s.calls).before s.node)
  rw [hv.before] at hrun
  simp only [call]
  split <;> rename_i hres <;> rw [hres] at hrun <;> exact hrun

theorem start_signatures (husage : v.modelService.usage = a.service.toWorkerUsageService) (hv : v.Alone)
    (session : UInt64) (maxLen : UInt32) (s : VirtualState Node (OnChainState Address PublicKey) W) :
    (v.start session maxLen s).2.node.signatures ≤ s.node.signatures := by
  have hcall := call_signatures husage hv (.start session maxLen) s
  unfold start
  split <;> rename_i hres <;> rw [hres] at hcall <;> exact hcall

theorem forward_signatures (husage : v.modelService.usage = a.service.toWorkerUsageService) (hv : v.Alone)
    (session : UInt64) (step : UInt32) (x : E × UInt32) (indexPos : UInt32)
    (s : VirtualState Node (OnChainState Address PublicKey) W) :
    (v.forward session step x indexPos s).2.node.signatures ≤ s.node.signatures + 1 := by
  have hcall := call_signatures husage hv (.forward session step (v.modelService.buf.toVec x.1) x.2 indexPos) s
  unfold forward
  simp only
  split <;> rename_i hres <;> rw [hres] at hcall
  · split <;> exact hcall
  · exact hcall

end VirtualLayers

/-- Over `VirtualModelLayers`, what a chat costs is what its root signs. -/
theorem ChatParts.overVirtual_prices {σ : Type} (m : ChatParts σ (E × UInt32))
    {a : OnChainAccount Address SecretKey PublicKey} {v : VirtualLayers Node (OnChainState Address PublicKey) W E N}
    (husage : v.modelService.usage = a.service.toWorkerUsageService) (hv : v.Alone) (session : UInt64) :
    (m.overVirtual v session).Prices fun s => s.2.node.signatures where
  start maxLen s := VirtualLayers.start_signatures husage hv session maxLen s.2
  pre _ _ := Nat.le_refl _
  forward step x indexPos s := VirtualLayers.forward_signatures husage hv session step x indexPos s.2
  sample _ _ _ := Nat.le_refl _
  emit _ _ := Nat.le_refl _
  decodeRest _ := Nat.le_refl _
  finish s := VirtualLayers.call_signatures husage hv (.finish session) s.2

/-- So the budget of a chat is one for its root, except where a prompt overruns it. -/
theorem ChatParts.overVirtual_signs {σ : Type} (m : ChatParts σ (E × UInt32))
    {a : OnChainAccount Address SecretKey PublicKey} {v : VirtualLayers Node (OnChainState Address PublicKey) W E N}
    (husage : v.modelService.usage = a.service.toWorkerUsageService) (hv : v.Alone) (session : UInt64)
    (maxLen : UInt32) (prompt : String) (s : σ × VirtualState Node (OnChainState Address PublicKey) W) :
    ((m.overVirtual v session).llamaChat maxLen prompt s).2.parts.2.node.signatures ≤
        s.2.node.signatures + maxLen.toNat ∧
      (¬ (m.overVirtual v session).Overruns maxLen prompt s →
        ((m.overVirtual v session).phi3Chat maxLen prompt s).2.parts.2.node.signatures ≤
          s.2.node.signatures + maxLen.toNat) := by
  have hprices := m.overVirtual_prices husage hv session
  refine ⟨?_, fun hfits => ?_⟩
  · have hwithin := (m.overVirtual v session).llamaChat_within maxLen prompt s
    exact Nat.le_trans (llamaChat_paid hprices maxLen prompt s) (Nat.add_le_add_left hwithin.forwards _)
  · have hwithin := ((m.overVirtual v session).phi3Chat_within_iff maxLen prompt s).mpr hfits
    exact Nat.le_trans (phi3Chat_paid hprices maxLen prompt s) (Nat.add_le_add_left hwithin.forwards _)

/-- The chats of one model stay within the budget that they begin with, and those of the other do as
long as their prompt does not overrun it. -/
theorem ChatParts.chats_within_iff {σ E : Type} (m : ChatParts σ E) (maxLen : UInt32) (prompt : String) (parts : σ) :
    (m.llamaChat maxLen prompt parts).2.Within maxLen ∧
      ((m.phi3Chat maxLen prompt parts).2.Within maxLen ↔ ¬ m.Overruns maxLen prompt parts) :=
  ⟨m.llamaChat_within maxLen prompt parts, m.phi3Chat_within_iff maxLen prompt parts⟩

/-- A model for which every prompt is of two tokens and every answer is over at once. -/
def tersePhi3 : ChatParts Unit (List UInt8 × UInt32) where
  encode _ := some [1, 2]
  start _ s := (true, s)
  pre input s := (some ([], .ofNat input.length), s)
  forward _ x _ s := (some x, s)
  sample _ _ s := (some 0, s)
  emit _ s := (.sent, s)
  decodeRest s := (.sent, s)
  finish s := s
  eos := some [0]

/-- The node of one layer, undisturbed. -/
def soloLayers : VirtualLayers Bool (OnChainState Unit Unit) Unit (List UInt8) 1 where
  modelService := soloEnv
  setting _ := ⟨id, soloTable, 100, id, .ends none⟩

def fedPrompt : ChatState (Unit × VirtualState Bool (OnChainState Unit Unit) Unit) :=
  (forEach (tersePhi3.overVirtual soloLayers 7).promptTurn [1, 2].zipIdx
    { parts := ((tersePhi3.overVirtual soloLayers 7).start 1 ((), ⟨soloService.node, 0⟩)).2 }).state

/-- A chat of one token whose prompt has two: the root creates a session for one token and signs for
three, and the bound of the answer is one less two. -/
theorem ChatParts.longPrompt_overspends :
    let chat := (tersePhi3.overVirtual soloLayers 7).phi3Chat 1 "hi" ((), ⟨soloService.node, 0⟩)
    chat.2.forwards = [(0, 0), (0, 1), (1, 2)] ∧ chat.2.loopBound = some (1, 2) ∧
      chat.2.parts.2.node.usage.signed = [1, 2, 3] ∧
      chat.2.parts.2.node.usage.submitted = [.createSession 7 1 [] []] ∧ ¬ chat.2.Within 1 := by
  have henc : (tersePhi3.overVirtual soloLayers 7).encode "hi" = some [1, 2] := rfl
  have hloop : forEach (tersePhi3.overVirtual soloLayers 7).promptTurn [1, 2].zipIdx
      { parts := ((tersePhi3.overVirtual soloLayers 7).start 1 ((), ⟨soloService.node, 0⟩)).2 } = .next fedPrompt := rfl
  have hprompt := phi3Chat_of_next _ henc rfl hloop
  have hanswer : (tersePhi3.overVirtual soloLayers 7).phi3Answer 1 2 fedPrompt = _ :=
    phi3Answer_of_brk _ rfl rfl (by decide) rfl
  intro chat
  have hchat : chat = _ := hprompt.trans hanswer
  have hforwards : chat.2.forwards = [(0, 0), (0, 1), (1, 2)] := by
    rw [hchat]
    rfl
  refine ⟨hforwards, ?_, ?_, ?_, ?_⟩
  · rw [hchat]
    rfl
  · rw [hchat]
    rfl
  · rw [hchat]
    rfl
  · intro hwithin
    have hle := hwithin.forwards
    rw [hforwards] at hle
    exact absurd hle (by decide)

end Dllm
