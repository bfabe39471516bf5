import DecentralizedInference.Spec.NetworkNode

/-! The two indexes of a `NetworkNode`. `recv` drops both entries of a disconnect, that of
the connection and that of the node, without asking whether the node's entry is that of
the connection. As long as the connection is the only live one of its node, the indexes
agree; the first disconnect of one of two connections makes the node unreachable. -/

namespace Dllm

namespace RemoteConn

variable {Node : Type} {conn : RemoteConn Node}

@[simp] theorem popOutgoingBuffer_remote : conn.popOutgoingBuffer.remote = conn.remote := by
  unfold popOutgoingBuffer
  split <;> rfl

@[simp] theorem sendData_remote (buf : List UInt8) : (conn.sendData buf).remote = conn.remote := by
  unfold sendData
  split
  · rfl
  · simp

@[simp] theorem onAnswer_remote (answer : SdpFate) : (conn.onAnswer answer).2.remote = conn.remote := by
  cases answer <;> rfl

@[simp] theorem onOutput_remote (o : RtcOutput) : (conn.onOutput o).2.remote = conn.remote := by
  cases o with
  | channelData data => simp [onOutput]
  | channelClose =>
    simp only [onOutput]
    split <;> rfl
  | _ => rfl

end RemoteConn

namespace NetworkNode

variable {Node Msg : Type} [DecidableEq Node] {decode : List UInt8 → Option Msg}
  {s s' : NetworkNode Node Msg}

omit [DecidableEq Node] in
@[simp] theorem popConn_remote (connId : UInt64) (outputs : List RtcOutput) (conn : RemoteConn Node) :
    (popConn decode connId outputs conn).1.remote = conn.remote := by
  induction outputs generalizing conn with
  | nil => rfl
  | cons o outputs ih =>
    unfold popConn
    rw [ih, RemoteConn.onOutput_remote]

/-- Steps that leave the connections, where they lead to and the index of nodes alone, and
queue events at most. -/
structure Quiet (s s' : NetworkNode Node Msg) : Prop where
  remote : ∀ c, (s'.conns.lookup c).map RemoteConn.remote = (s.conns.lookup c).map RemoteConn.remote
  nodes : s'.nodes = s.nodes
  events : s.events <+: s'.events

omit [DecidableEq Node] in
theorem Quiet.refl (s : NetworkNode Node Msg) : Quiet s s := ⟨fun _ => rfl, rfl, List.prefix_refl _⟩

omit [DecidableEq Node] in
theorem Quiet.trans {s'' : NetworkNode Node Msg} (h : Quiet s s') (h' : Quiet s' s'') : Quiet s s'' :=
  ⟨fun c => (h'.remote c).trans (h.remote c), h'.nodes.trans h.nodes, h.events.trans h'.events⟩

omit [DecidableEq Node] in
/-- A connection is replaced by one to the same node. -/
theorem quiet_insert {c : UInt64} {conn conn' : RemoteConn Node} (hc : s.conns.lookup c = some conn)
    (hremote : conn'.remote = conn.remote) (events : List (NodeEvent Node Msg)) :
    Quiet s { s with conns := s.conns.insert c conn', events := s.events ++ events } := by
  refine ⟨fun d => ?_, rfl, List.prefix_append _ _⟩
  by_cases hd : d = c
  · subst hd
    simp [AList.lookup_insert, hc, hremote]
  · simp [AList.lookup_insert_ne hd]

omit [DecidableEq Node] in
theorem quiet_touch {act : RemoteConn Node → RemoteConn Node} (hact : ∀ conn, (act conn).remote = conn.remote)
    (c : UInt64) (outputs : List RtcOutput) (s : NetworkNode Node Msg) :
    Quiet s (s.touch decode act c outputs) := by
  unfold touch
  split
  case h_1 => exact Quiet.refl s
  case h_2 conn hc => exact quiet_insert hc (by simp [hact]) _

omit [DecidableEq Node] in
theorem quiet_touchAll {act : RemoteConn Node → RemoteConn Node}
    (hact : ∀ conn, (act conn).remote = conn.remote) (order : List UInt64)
    (outputs : UInt64 → List RtcOutput) (s : NetworkNode Node Msg) :
    Quiet s (s.touchAll decode act order outputs) := by
  unfold touchAll
  induction order generalizing s with
  | nil => exact Quiet.refl s
  | cons c order ih => exact (quiet_touch hact c (outputs c) s).trans (ih _)

/-- A new connection to `n`, which is then the node's. -/
structure Opens (s s' : NetworkNode Node Msg) (c : UInt64) (n : Node) : Prop where
  fresh : s.conns.lookup c = none
  conns : ∃ conn, conn.remote = n ∧ s'.conns = s.conns.insert c conn
  nodes : s'.nodes = s.nodes.insert n c
  events : s.events <+: s'.events

/-- The first event of the queue is taken, and if it is a disconnect, the entries it names
are dropped. -/
inductive Takes (s s' : NetworkNode Node Msg) : Prop
  | disconnected (c : UInt64) (n : Node) (hevents : s.events = .nodeDisconnected c n :: s'.events)
      (hconns : s'.conns = s.conns.erase c) (hnodes : s'.nodes = s.nodes.erase n)
  | other (out : NodeEvent Node Msg) (hout : ∀ c n, out ≠ .nodeDisconnected c n)
      (hevents : s.events = out :: s'.events) (hconns : s'.conns = s.conns) (hnodes : s'.nodes = s.nodes)

/-- What a step does to the indexes. -/
inductive Moves (s s' : NetworkNode Node Msg) : NodeCall Node → Prop
  | quiet (call : NodeCall Node) (hcall : call ≠ .recv) (h : Quiet s s') : Moves s s' call
  | opens (call : NodeCall Node) (hcall : call ≠ .recv) (c : UInt64) (n : Node) (h : Opens s s' c n) :
      Moves s s' call
  | takes (h : Takes s s') : Moves s s' .recv

theorem Step.moves {call : NodeCall Node} (h : Step decode s call s') : Moves s s' call := by
  cases h with
  | connect dest connId outputs hfresh =>
    unfold NetworkNode.connect
    split
    case isTrue => exact .quiet _ (by simp) (Quiet.refl s)
    case isFalse =>
      exact .opens _ (by simp) connId dest
        ⟨hfresh, ⟨_, by simp [RemoteConn.createOffer], rfl⟩, rfl, List.prefix_append _ _⟩
  | onOffer connId sender sdp outputs =>
    unfold NetworkNode.onOffer
    split
    case isTrue => exact .quiet _ (by simp) (Quiet.refl s)
    case isFalse hnone =>
      split
      case isTrue => exact .quiet _ (by simp) (Quiet.refl s)
      case isFalse =>
        have hfresh : s.conns.lookup connId = none := by simpa using hnone
        exact .opens _ (by simp) connId sender
          ⟨hfresh, ⟨_, by simp, rfl⟩, rfl, List.prefix_append _ _⟩
  | onAnswer connId sender sdp outputs =>
    refine .quiet _ (by simp) ?_
    unfold NetworkNode.onAnswer
    split
    case h_1 => exact Quiet.refl s
    case h_2 conn hc =>
      split
      case isFalse => exact Quiet.refl s
      case isTrue =>
        have hremote : (conn.onAnswer sdp).2.remote = conn.remote := RemoteConn.onAnswer_remote sdp
        split
        case h_1 conn' hans =>
          rw [hans] at hremote
          simpa using quiet_insert hc hremote []
        case h_2 conn' hans =>
          rw [hans] at hremote
          exact quiet_insert hc (by simpa using hremote) _
  | send dest buf outputs =>
    refine .quiet _ (by simp) ?_
    unfold NetworkNode.send
    split
    case h_1 => exact Quiet.refl s
    case h_2 =>
      split
      case isTrue => exact Quiet.refl s
      case isFalse => exact quiet_touch (fun conn => by simp) _ outputs s
  | broadcast buf order outputs horder =>
    exact .quiet _ (by simp) (quiet_touchAll (fun conn => by simp) order outputs s)
  | shutdown order outputs horder =>
    have hact : ∀ conn : RemoteConn Node, conn.shutdown.remote = conn.remote := fun conn => rfl
    exact .quiet _ (by simp) (quiet_touchAll hact order outputs s)
  | tick order outputs horder hidle =>
    have hact : ∀ conn : RemoteConn Node, (id conn).remote = conn.remote := fun conn => rfl
    exact .quiet _ (by simp) (quiet_touchAll hact order outputs s)
  | datagram connId outputs hidle =>
    have hact : ∀ conn : RemoteConn Node, (id conn).remote = conn.remote := fun conn => rfl
    exact .quiet _ (by simp) (quiet_touch hact connId outputs s)
  | recv hevents =>
    refine .takes ?_
    unfold NetworkNode.recv
    split
    case h_1 hnil => exact absurd hnil hevents
    case h_2 c n events hev => exact .disconnected c n hev rfl rfl
    case h_3 out events hout hev => exact .other out hout hev rfl rfl

/-- A disconnect of the connection waits in the queue. -/
def Reported (s : NetworkNode Node Msg) (c : UInt64) : Prop := ∃ n, .nodeDisconnected c n ∈ s.events

/-- The entry of a node is a connection to it, and the node of a connection that is not
reported as disconnected has an entry. -/
structure Agrees (s : NetworkNode Node Msg) : Prop where
  entries : ∀ n c, s.nodes.lookup n = some c → ∃ conn, s.conns.lookup c = some conn ∧ conn.remote = n
  reachable : ∀ c conn, s.conns.lookup c = some conn → ¬ s.Reported c →
    s.nodes.lookup conn.remote ≠ none

/-- The disconnect that `recv` takes next is that of the only connection to its node that is
not reported as disconnected, and no other node's entry is this connection. -/
def Unshared (s : NetworkNode Node Msg) : NodeCall Node → Prop
  | .recv => ∀ c n rest, s.events = .nodeDisconnected c n :: rest →
      (∀ d conn, d ≠ c → s.conns.lookup d = some conn → conn.remote = n → s.Reported d) ∧
        ∀ m, s.nodes.lookup m = some c → m = n
  | _ => True

def UnsharedStep (decode : List UInt8 → Option Msg) (s : NetworkNode Node Msg) (call : NodeCall Node)
    (s' : NetworkNode Node Msg) : Prop :=
  Step decode s call s' ∧ s.Unshared call

theorem agrees_quiet (h : Quiet s s') (ha : s.Agrees) : s'.Agrees := by
  refine ⟨?_, ?_⟩
  · intro n c hn
    rw [h.nodes] at hn
    obtain ⟨conn, hc, rfl⟩ := ha.entries n c hn
    have hr := h.remote c
    rw [hc] at hr
    obtain ⟨conn', hc', heq⟩ := Option.map_eq_some_iff.mp hr
    exact ⟨conn', hc', heq⟩
  · intro c conn' hc' hrep
    have hr := h.remote c
    rw [hc'] at hr
    obtain ⟨conn, hc, heq⟩ := Option.map_eq_some_iff.mp hr.symm
    rw [h.nodes, ← heq]
    apply ha.reachable c conn hc
    rintro ⟨n, hn⟩
    exact hrep ⟨n, h.events.subset hn⟩

theorem agrees_opens {c : UInt64} {n : Node} (h : Opens s s' c n) (ha : s.Agrees) : s'.Agrees := by
  obtain ⟨hfresh, ⟨new, hnew, hconns⟩, hnodes, hevents⟩ := h
  refine ⟨?_, ?_⟩
  · intro m d hm
    rw [hnodes] at hm
    by_cases hmn : m = n
    · rw [hmn, AList.lookup_insert] at hm
      cases hm
      exact ⟨new, by rw [hconns, AList.lookup_insert], hnew.trans hmn.symm⟩
    · rw [AList.lookup_insert_ne hmn] at hm
      obtain ⟨conn, hd, hremote⟩ := ha.entries m d hm
      have hdc : d ≠ c := by
        rintro rfl
        simp [hfresh] at hd
      exact ⟨conn, by rw [hconns, AList.lookup_insert_ne hdc, hd], hremote⟩
  · intro d conn hd hrep
    rw [hnodes]
    by_cases hmn : conn.remote = n
    · simp [hmn]
    · have hdc : d ≠ c := by
        rintro rfl
        rw [hconns, AList.lookup_insert] at hd
        cases hd
        exact hmn hnew
      rw [hconns, AList.lookup_insert_ne hdc] at hd
      rw [AList.lookup_insert_ne hmn]
      apply ha.reachable d conn hd
      rintro ⟨m, hm⟩
      exact hrep ⟨m, hevents.subset hm⟩

omit [DecidableEq Node] in
/-- What the queue says about the other connections does not change when a disconnect of
one is taken. -/
theorem reported_of_taken {c d : UInt64} {n : Node} (hdc : d ≠ c)
    (hevents : s.events = .nodeDisconnected c n :: s'.events) : s'.Reported d ↔ s.Reported d := by
  unfold Reported
  rw [hevents]
  refine ⟨fun ⟨m, hm⟩ => ?_, fun ⟨m, hm⟩ => ?_⟩
  · exact ⟨m, List.mem_cons_of_mem _ hm⟩
  · rcases List.mem_cons.mp hm with heq | hm
    · cases heq
      exact absurd rfl hdc
    · exact ⟨m, hm⟩

/-- A disconnect keeps the indexes in agreement if and only if it is unshared. -/
theorem agrees_disconnected_iff {c : UInt64} {n : Node}
    (hevents : s.events = .nodeDisconnected c n :: s'.events) (hconns : s'.conns = s.conns.erase c)
    (hnodes : s'.nodes = s.nodes.erase n) (ha : s.Agrees) :
    s'.Agrees ↔ (∀ d conn, d ≠ c → s.conns.lookup d = some conn → conn.remote = n → s.Reported d) ∧
      ∀ m, s.nodes.lookup m = some c → m = n := by
  refine ⟨fun ha' => ?_, fun ⟨honly, hmine⟩ => ?_⟩
  · refine ⟨?_, ?_⟩
    · intro d conn hdc hd hremote
      by_contra hrep
      have hd' : s'.conns.lookup d = some conn := by rw [hconns, AList.lookup_erase_ne hdc, hd]
      apply ha'.reachable d conn hd' (mt (reported_of_taken hdc hevents).mp hrep)
      rw [hnodes, hremote, AList.lookup_erase]
    · intro m hm
      by_contra hmn
      have hm' : s'.nodes.lookup m = some c := by rw [hnodes, AList.lookup_erase_ne hmn, hm]
      obtain ⟨conn, hc, -⟩ := ha'.entries m c hm'
      rw [hconns, AList.lookup_erase] at hc
      cases hc
  · refine ⟨?_, ?_⟩
    · intro m d hm
      have hmn : m ≠ n := by
        rintro rfl
        rw [hnodes, AList.lookup_erase] at hm
        cases hm
      rw [hnodes, AList.lookup_erase_ne hmn] at hm
      obtain ⟨conn, hd, hremote⟩ := ha.entries m d hm
      have hdc : d ≠ c := by
        rintro rfl
        exact hmn (hmine m hm)
      exact ⟨conn, by rw [hconns, AList.lookup_erase_ne hdc, hd], hremote⟩
    · intro d conn hd hrep
      have hdc : d ≠ c := by
        rintro rfl
        rw [hconns, AList.lookup_erase] at hd
        cases hd
      rw [hconns, AList.lookup_erase_ne hdc] at hd
      rw [reported_of_taken hdc hevents] at hrep
      have hmn : conn.remote ≠ n := fun hremote => hrep (honly d conn hdc hd hremote)
      rw [hnodes, AList.lookup_erase_ne hmn]
      exact ha.reachable d conn hd hrep

/-- A step from a state with agreeing indexes leads to one if and only if it is unshared. -/
theorem agrees_step_iff {call : NodeCall Node} (h : Step decode s call s') (ha : s.Agrees) :
    s'.Agrees ↔ s.Unshared call := by
  have htrivial : call ≠ .recv → s.Unshared call := by
    intro hcall
    cases call <;> trivial
  cases h.moves with
  | quiet call hcall hq => exact iff_of_true (agrees_quiet hq ha) (htrivial hcall)
  | opens call hcall c n ho => exact iff_of_true (agrees_opens ho ha) (htrivial hcall)
  | takes ht =>
    cases ht with
    | disconnected c n hevents hconns hnodes =>
      rw [agrees_disconnected_iff hevents hconns hnodes ha]
      constructor
      · rintro hun c' n' rest heq
        rw [hevents] at heq
        cases heq
        exact hun
      · exact fun hun => hun c n s'.events hevents
    | other out hout hevents hconns hnodes =>
      refine iff_of_true ⟨?_, ?_⟩ ?_
      · rw [hnodes, hconns]
        exact ha.entries
      · intro d conn hd hrep
        rw [hconns] at hd
        rw [hnodes]
        apply ha.reachable d conn hd
        rintro ⟨m, hm⟩
        rw [hevents] at hm
        rcases List.mem_cons.mp hm with heq | hm
        · exact hout d m heq.symm
        · exact hrep ⟨m, hm⟩
      · intro c n rest heq
        rw [hevents] at heq
        cases heq
        exact absurd rfl (hout c n)

/-- In every run in which each disconnect that `recv` takes is unshared, the indexes agree in
every state; and the first disconnect that is shared ends the agreement. -/
theorem indexes_agree {calls : List (NodeCall Node)} (hrun : Run (UnsharedStep decode) new calls s) :
    s.Agrees ∧ ∀ call s', Step decode s call s' → (s'.Agrees ↔ s.Unshared call) := by
  have ha : s.Agrees := by
    apply hrun.invariant
    · refine ⟨?_, ?_⟩
      · intro n c hn
        cases hn
      · intro c conn hc
        cases hc
    · exact fun _ _ _ hs ha => (agrees_step_iff hs.1 ha).mpr hs.2
  exact ⟨ha, fun call s' hs => agrees_step_iff hs ha⟩

/-- Node `true` is connected to, offers itself at the same time, and the first connection is
given up: the second one is there, but the node cannot be reached. -/
theorem shared_disconnect_hides_node : ∃ s : NetworkNode Bool Unit,
    Run (Step fun _ => none) new [.connect true 1 [], .onOffer 2 true .accepted [],
      .tick [2, 1] (fun c => if c = 1 then [.iceDisconnected] else []), .recv] s ∧
      (∃ conn, s.conns.lookup 2 = some conn ∧ conn.remote = true) ∧ ¬ s.Reported 2 ∧
      s.nodes.lookup true = none ∧ (s.send (fun _ => none) true [] []).1 = .error .noNode := by
  have h0 : Run (Step fun _ => none) (new : NetworkNode Bool Unit) [] _ := .nil
  have h1 := h0.snoc (.connect _ true 1 [] rfl)
  have h2 := h1.snoc (.onOffer _ 2 true .accepted [])
  have h3 := h2.snoc (.tick _ [2, 1] (fun c => if c = 1 then [.iceDisconnected] else [])
    (List.Perm.refl _) rfl)
  have h4 := h3.snoc (.recv _ (List.cons_ne_nil _ _))
  refine ⟨_, h4, ⟨_, rfl, rfl⟩, ?_, rfl, rfl⟩
  rintro ⟨n, hn⟩
  cases hn

/-- Connections to two nodes, the first of which is given up. -/
theorem indexes_agree_two_connections : ∃ s : NetworkNode Bool Unit,
    Run (UnsharedStep fun _ => none) new [.connect true 1 [], .onOffer 2 false .accepted [.channelOpen 0], .recv,
      .datagram 1 [.channelOpen 0, .channelClose], .recv, .recv] s ∧
      s.Agrees ∧ s.nodes.lookup true = none ∧ s.nodes.lookup false = some 2 := by
  have h0 : Run (UnsharedStep fun _ => none) (new : NetworkNode Bool Unit) [] _ := .nil
  have h1 := h0.snoc ⟨.connect _ true 1 [] rfl, trivial⟩
  have h2 := h1.snoc ⟨.onOffer _ 2 false .accepted [.channelOpen 0], trivial⟩
  have h3 := h2.snoc ⟨.recv _ (List.cons_ne_nil _ _), fun c n rest h => by cases h⟩
  have h4 := h3.snoc ⟨.datagram _ 1 [.channelOpen 0, .channelClose] rfl, trivial⟩
  have h5 := h4.snoc ⟨.recv _ (List.cons_ne_nil _ _), fun c n rest h => by cases h⟩
  have h6 := h5.snoc ⟨.recv _ (List.cons_ne_nil _ _), by
    intro c n rest h
    cases h
    refine ⟨?_, ?_⟩
    · -- the other connection is that of the other node
      intro d conn hd hc hremote
      by_cases h2 : d = 2
      · subst h2
        cases hc
        cases hremote
      · have hnone : AList.lookup d (AList.insert 1 _ (AList.insert 2 _ (AList.insert 1 _
            (∅ : AList fun _ : UInt64 => RemoteConn Bool)))) = some conn := hc
        rw [AList.lookup_insert_ne hd, AList.lookup_insert_ne h2, AList.lookup_insert_ne hd] at hnone
        cases hnone
    · intro m hm
      cases m with
      | true => rfl
      | false => exact absurd hm (by decide)⟩
  exact ⟨_, h6, (indexes_agree h6).1, rfl, rfl⟩

end NetworkNode
end Dllm
