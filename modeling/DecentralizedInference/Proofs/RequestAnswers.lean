import DecentralizedInference.Lib.Run
import DecentralizedInference.Proofs.PayerRole
import DecentralizedInference.Sanity.OnChainWorld

/-! Which requests of a peer are answered. `on_req` unwraps what it decodes, the hooks of an
`OnChainService` unwrap the metadata that peers send, checking a checkpoint copies the
signature into 64 bytes, and the route table is indexed by the layer in the request. Where one
of these fails, the task ends without an answer; a command that is not known, a session that
is not there and a checkpoint that does not verify are answered. A call that waits for the next
node is answered only if the wait ends. -/

namespace Dllm

variable {Address SecretKey PublicKey Node W E : Type} {N : ℕ}

namespace OnChainAccount

variable {a : OnChainAccount Address SecretKey PublicKey} {s : OnChainState Address PublicKey}

end OnChainAccount

namespace ServiceEnv

variable {S Req Res : Type} {env : ServiceEnv S W E} {router : RouteTable Node N} {remoteSession : UInt64}
  {call : ServiceReq} {meanwhile : NodeState Node S W → NodeState Node S W} {wait : RpcWait}
  {st st' : NodeState Node S W}

end ServiceEnv

section

variable (a : OnChainAccount Address SecretKey PublicKey) (worker : LayerSessions W)
  (forward : LayersForward W E) (buf : TensorBuf E) (codec : LlmCodec) (router : RouteTable Node N)
  (remoteSession : UInt64) (meanwhile : NodeState Node (OnChainState Address PublicKey) W →
    NodeState Node (OnChainState Address PublicKey) W) (wait : RpcWait)
  (st : NodeState Node (OnChainState Address PublicKey) W)

end

namespace Service

variable {S : Type} [DecidableEq Node] {env : ServiceEnv S W E} {router : RouteTable Node N} {remoteSession : UInt64}
  {meanwhile : NodeState Node S W → NodeState Node S W}

/-- What `on_req` returns is sent to the peer that has asked, at once or by the task that waits
for the next node. -/
theorem onReq_sends {s : Service Node S W} {req : RpcReq} {reply : Option RpcRes} {res : RpcRes} {st : NodeState Node S W}
    (sender : Node) (h : env.onReq router remoteSession req meanwhile (.ends reply) s.node = (.returned res, st)) :
    (s.onReq env router remoteSession sender req).outbox = s.outbox ++ [.response sender res] ∨
      ∃ w ∈ (s.onReq env router remoteSession sender req).waiting, w.origin = .peer sender req.seq ∧
        ∀ t : Service Node S W, t.node = meanwhile (s.onReq env router remoteSession sender req).node →
          (t.resume env w reply).outbox = t.outbox ++ [.response sender res] := by
  unfold ServiceEnv.onReq at h
  unfold Service.onReq
  rcases hparse : env.codec.parse req with p | _ | call
  · simp [hparse] at h
  · simp only [hparse] at h ⊢
    obtain ⟨hres, -⟩ := Prod.mk.inj h
    obtain rfl := Ending.returned.inj hres
    exact .inl rfl
  · simp only [hparse, ServiceEnv.run] at h ⊢
    unfold Service.call
    rcases hserve : env.serve router remoteSession call s.node with ⟨p | res' | ⟨task, dest, next⟩, node⟩
    · simp [hserve, Ending.map] at h
    · simp only [hserve, Ending.map] at h ⊢
      obtain ⟨hres, -⟩ := Prod.mk.inj h
      obtain rfl := Ending.returned.inj hres
      exact .inl rfl
    · simp only [hserve] at h ⊢
      refine .inr ⟨⟨.peer sender req.seq, task⟩, by simp, rfl, fun t ht => ?_⟩
      unfold Service.resume
      rw [ht]
      rcases hresume : env.resume reply task (meanwhile node) with ⟨p | res', node'⟩
      · simp [hresume, Ending.of, Ending.map] at h
      · simp only [hresume, Ending.of, Ending.map] at h ⊢
        obtain ⟨hres, -⟩ := Prod.mk.inj h
        obtain rfl := Ending.returned.inj hres
        rfl

end Service

end Dllm
