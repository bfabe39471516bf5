import DecentralizedInference.Spec.Communication

/-! An offer that cannot be accepted. `on_offer` leaves a node that has the connection id as it
was, but otherwise registers the ICE user name before it looks into the offer, and takes it
back on no path; and the answer that the loop makes of either error is unwrapped. -/

namespace Dllm

variable {Addr Node Stats : Type} {N : ℕ} [DecidableEq Addr] [DecidableEq Node] {codec : EventCodec}
  {connId : UInt64} {ufrag : String} {sender : Node} {sdp : SdpFate} {answer : String}
  {outputs : List RtcOutput}

namespace UdpNode

variable {Msg : Type} {decode : List UInt8 → Option Msg} {s s' : UdpNode Addr Node Msg}

theorem onOffer_alreadyHas (h : s.node.conns.lookup connId ≠ none) :
    s.onOffer decode connId ufrag sender sdp outputs = (.error .alreadyHas, s) :=
  if_pos (Option.isSome_iff_ne_none.mpr h)

/-- The user name of the new connection stays. -/
theorem onOffer_sdpError (h : s.node.conns.lookup connId = none) (hsdp : sdp ≠ .accepted) :
    s.onOffer decode connId ufrag sender sdp outputs =
      (.error .sdpError, { s with sharedUdp := s.sharedUdp.addUfrag ufrag connId }) := by
  have hnode : s.node.onOffer decode connId sender sdp outputs = (.error .sdpError, s.node) := by
    unfold NetworkNode.onOffer
    rw [h]
    exact if_pos hsdp
  unfold onOffer
  rw [h, if_neg (by simp)]
  simp only [hnode, after, List.drop_length]
  rfl

theorem onOffer_accepted (decode : List UInt8 → Option Msg) (ufrag : String) (sender : Node)
    (outputs : List RtcOutput) (h : s.node.conns.lookup connId = none) :
    (s.onOffer decode connId ufrag sender .accepted outputs).1 = .ok () := by
  unfold onOffer NetworkNode.onOffer
  simp [h]

/-- Whatever goes wrong, the connections, the index of nodes and the events stay. -/
theorem onOffer_error_node {e : IncomingError}
    (h : s.onOffer decode connId ufrag sender sdp outputs = (.error e, s')) : s'.node = s.node := by
  by_cases hfresh : s.node.conns.lookup connId = none
  · by_cases hsdp : sdp = .accepted
    · rw [hsdp] at h
      have hok := onOffer_accepted decode ufrag sender outputs hfresh
      rw [h] at hok
      cases hok
    · rw [onOffer_sdpError hfresh hsdp] at h
      rw [← (Prod.mk.inj h).2]
  · rw [onOffer_alreadyHas hfresh] at h
    rw [← (Prod.mk.inj h).2]

end UdpNode

namespace WorkerCommunication

variable {s : WorkerCommunication Addr Node Stats N}

/-- The loop goes on after the offer, and an error leaves the network and its port as they
were. -/
structure HarmlessOffer (codec : EventCodec) (s : WorkerCommunication Addr Node Stats N) (sender : Node)
    (connId : UInt64) (ufrag : String) (sdp : SdpFate) (answer : String) (outputs : List RtcOutput) : Prop where
  noPanic : ∃ s', s.onOffer codec sender connId ufrag sdp answer outputs = .ok s'
  unchanged : ∀ e network, s.network.onOffer codec.decode connId ufrag sender sdp outputs = (.error e, network) →
    network = s.network

/-- The answer to an error ends the loop. -/
theorem onOffer_ok_iff : (∃ s', s.onOffer codec sender connId ufrag sdp answer outputs = .ok s') ↔
    (s.network.onOffer codec.decode connId ufrag sender sdp outputs).1 = .ok () := by
  unfold onOffer
  cases hr : (s.network.onOffer codec.decode connId ufrag sender sdp outputs).1 with
  | error e => simp [hr, RegistryClient.answer, Except.map, bind, Except.bind]
  | ok u => simp [hr, RegistryClient.answer, Except.map, bind, Except.bind, pure, Except.pure]

/-- An offer is harmless exactly when it is accepted: both errors of `on_offer` end the loop,
and one of them leaves the user name of a connection that there is not. -/
theorem harmlessOffer_iff : HarmlessOffer codec s sender connId ufrag sdp answer outputs ↔
    s.network.node.conns.lookup connId = none ∧ sdp = .accepted := by
  refine ⟨fun h => ?_, fun hgood => ?_⟩
  · have hok := onOffer_ok_iff.mp h.noPanic
    by_cases hfresh : s.network.node.conns.lookup connId = none
    · by_contra hsdp
      rw [UdpNode.onOffer_sdpError hfresh fun h => hsdp ⟨hfresh, h⟩] at hok
      cases hok
    · rw [UdpNode.onOffer_alreadyHas hfresh] at hok
      cases hok
  · obtain ⟨hfresh, rfl⟩ := hgood
    have hok := UdpNode.onOffer_accepted codec.decode ufrag sender outputs hfresh
    refine ⟨onOffer_ok_iff.mpr hok, fun e network herror => ?_⟩
    rw [herror] at hok
    cases hok

/-- A text that is no offer: the loop panics, and the user name is registered. -/
theorem malformedOffer_harms : ¬ ∀ (s : WorkerCommunication ℕ Bool Unit 1) (sender : Bool) (connId : UInt64)
    (ufrag : String) (sdp : SdpFate) (answer : String) (outputs : List RtcOutput),
    HarmlessOffer ⟨fun _ => [], fun _ => none⟩ s sender connId ufrag sdp answer outputs := by
  intro h
  have hoffer := h (.new ⟨0, 1⟩) true 1 "u" .malformed "" []
  have hport := hoffer.unchanged .sdpError _ rfl
  have hufrag := congrArg (fun n : UdpNode ℕ Bool (Option WorkerEvent) => n.sharedUdp.taskUfrags.lookup "u") hport
  revert hufrag
  decide

end WorkerCommunication
end Dllm
