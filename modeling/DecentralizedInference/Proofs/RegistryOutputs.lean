import DecentralizedInference.Proofs.RegistryDeadlock

/-! Whole calls of `RegistryServer::recv` on any events, one after the other. Nodes and streams
agree and the queues are empty after each of them, so that what is queued for a node while
the call runs finds the stream of that node in its model. -/

namespace Dllm

namespace SessionManager

variable {Node Stats Data : Type} [DecidableEq Node] {ord : IterOrder Node} {node : Node}
  {m m' : SessionManager Node Stats Data}

/-- The other nodes are all of them but the asking one, each once. -/
theorem others_spec (ord : IterOrder Node) (m : SessionManager Node Stats Data) (node : Node) :
    (m.others ord node).Nodup ∧ ∀ n, n ∈ m.others ord node ↔ n ∈ m.nodes ∧ n ≠ node := by
  refine ⟨?_, fun n => ?_⟩
  · exact List.Nodup.filter _ ((ord.perm _).nodup_iff.mpr m.nodes.keys_nodup)
  · rw [others, List.mem_filter, ord.mem_run, AList.mem_keys, decide_eq_true_iff]

/-- The answer to new layers. -/
theorem onEvent_update {fromLayer toLayer : ℕ} (h : m.onEvent ord node (.update fromLayer toLayer) = .ok m') :
    ∃ ns, m'.events = m.events ++ [(node, .update ns)] ∧ ns.Nodup ∧ ∀ n, n ∈ ns ↔ n ∈ m.nodes ∧ n ≠ node := by
  have hnodes := onEvent_mem h
  simp only [onEvent] at h
  split at h
  · cases h
  · cases h
    obtain ⟨hnodup, hmem⟩ := others_spec ord _ node
    exact ⟨_, rfl, hnodup, fun n => (hmem n).trans (and_congr_left fun _ => hnodes n)⟩

/-- What a registered node's event queues is for registered nodes. -/
theorem onEvent_dest {event : ToRegistry Node Stats Data} (h : m.onEvent ord node event = .ok m')
    (hpopped : m.events = []) (hnode : node ∈ m.nodes) : ∀ e ∈ m'.events, e.1 ∈ m.nodes := by
  rcases onEvent_events h with ⟨hevents, -⟩ | ⟨d, out, hevents, hdest⟩
  · rw [hevents, hpopped]
    simp
  · intro e he
    rw [hevents, hpopped, List.nil_append, List.mem_singleton] at he
    subst he
    cases event with
    | update l l' => exact Option.some.inj hdest ▸ hnode
    | neighbours => exact Option.some.inj hdest ▸ hnode
    | stats st => cases hdest
    | relay n data =>
      simp only [dest] at hdest
      split at hdest
      case isTrue hmem => exact Option.some.inj hdest ▸ hmem
      case isFalse => cases hdest

end SessionManager

namespace Registry

variable {Model Node Stats Data : Type} [DecidableEq Model] [DecidableEq Node]
  {s s' t t' : Registry Model Node Stats Data} {model : Model} {node : Node}

/-- A message that a call sends: the model, the stream and the event. -/
abbrev Sent (Model Node Data : Type) := Model × ℕ × ToWorker Node Data

/-- The sends of a call, one after the other, until the main loop waits for an event again. -/
inductive Drains : Registry Model Node Stats Data → List (Sent Model Node Data) →
    Registry Model Node Stats Data → Prop
  | done (s : Registry Model Node Stats Data) (hmain : s.main = .receiving) : Drains s [] s
  | send (s t : Registry Model Node Stats Data) (model : Model) (tx : ℕ) (out : ToWorker Node Data)
      (sent : List (Sent Model Node Data)) (hmain : s.main = .sending model tx out)
      (hrest : Drains (s.relay model) sent t) : Drains s ((model, tx, out) :: sent) t

/-- A call of `recv` that takes the event, sends `sent` and returns. -/
def RecvCall [Inhabited Stats] (s : Registry Model Node Stats Data)
    (c : IterOrder Node × StreamEvent Model Node Stats Data × List (Sent Model Node Data))
    (s' : Registry Model Node Stats Data) : Prop :=
  s.main = .receiving ∧ Drains (s.handle c.1 c.2.1) c.2.2 s'

/-- What becomes of queued events: those whose node has a stream in the model. -/
def outputs (streamsTx : AList fun _ : Model × Node => ℕ) (model : Model)
    (events : List (Node × ToWorker Node Data)) : List (Sent Model Node Data) :=
  events.filterMap fun e => (streamsTx.lookup (model, e.1)).map fun tx => (model, tx, e.2)

theorem Drains.unique {sent sent' : List (Sent Model Node Data)} (h : Drains s sent t) (h' : Drains s sent' t') :
    sent = sent' ∧ t = t' := by
  induction h generalizing sent' with
  | done s hmain =>
    cases h' with
    | done => exact ⟨rfl, rfl⟩
    | send _ _ model tx out _ hmain' => simp [hmain] at hmain'
  | send s t model tx out sent hmain hrest ih =>
    cases h' with
    | done _ hmain' => simp [hmain] at hmain'
    | send _ _ model' tx' out' _ hmain' hrest' =>
      rw [hmain] at hmain'
      cases hmain'
      obtain ⟨rfl, rfl⟩ := ih hrest'
      exact ⟨rfl, rfl⟩

/-- One turn of the loop over `pop_out`. -/
theorem popOuts_outputs (streamsTx : AList fun _ : Model × Node => ℕ) (model : Model)
    (events : List (Node × ToWorker Node Data)) :
    match popOuts streamsTx model events with
    | (none, rest) => rest = [] ∧ outputs streamsTx model events = []
    | (some (tx, out), rest) => rest.length < events.length ∧
        outputs streamsTx model events = (model, tx, out) :: outputs streamsTx model rest := by
  induction events with
  | nil => exact ⟨rfl, rfl⟩
  | cons e events ih =>
    obtain ⟨dest, out⟩ := e
    unfold popOuts
    cases hlookup : streamsTx.lookup (model, dest) with
    | some tx => simp [outputs, hlookup]
    | none =>
      have hskip : outputs streamsTx model ((dest, out) :: events) = outputs streamsTx model events := by
        simp [outputs, hlookup]
      simp only [hskip]
      cases hpop : popOuts streamsTx model events with
      | mk next rest =>
        rw [hpop] at ih
        cases next with
        | none => exact ih
        | some o => exact ⟨Nat.lt_succ_of_lt ih.1, ih.2⟩

/-- The whole loop: it sends to every queued node that has a stream, and empties the queue. -/
theorem relay_drains (s : Registry Model Node Stats Data) (model : Model) :
    ∃ t, Drains (s.relay model) (outputs s.streamsTx model (s.entry model).events) t ∧
      t.streamsTx = s.streamsTx ∧ (∀ model', (t.entry model').nodes = (s.entry model').nodes) ∧
      ∀ model', (t.entry model').events = if model' = model then [] else (s.entry model').events := by
  induction hlen : (s.entry model).events.length using Nat.strong_induction_on generalizing s with
  | _ n ih =>
    have hturn := popOuts_outputs s.streamsTx model (s.entry model).events
    have hevents := fun model' => relay_events (s := s) model model'
    have hmain : (s.relay model).main = match (popOuts s.streamsTx model (s.entry model).events).1 with
        | some (tx, out) => .sending model tx out
        | none => .receiving := by
      unfold relay
      split <;> simp [*]
    cases hpop : popOuts s.streamsTx model (s.entry model).events with
    | mk next rest =>
      simp only [hpop] at hturn hevents hmain
      cases next with
      | none =>
        obtain ⟨rfl, hout⟩ := hturn
        rw [hout]
        exact ⟨_, .done _ hmain, relay_streamsTx _, fun model' => relay_nodes _ _, hevents⟩
      | some o =>
        obtain ⟨hlt, hout⟩ := hturn
        have hrest : ((s.relay model).entry model).events = rest := by rw [hevents, if_pos rfl]
        obtain ⟨t, hdrains, htx, hnodes, hqueue⟩ := ih rest.length (hlen ▸ hlt) (s.relay model) (by rw [hrest])
        rw [hrest, relay_streamsTx] at hdrains
        rw [hout]
        refine ⟨t, .send _ _ _ _ _ _ hmain hdrains, htx.trans (relay_streamsTx _), ?_, ?_⟩
        · intro model'
          rw [hnodes, relay_nodes]
        · intro model'
          rw [hqueue, hevents]
          split <;> rfl

section Calls

variable [Inhabited Stats] {ord : IterOrder Node} {sent : List (Sent Model Node Data)}

/-- A call with an event of a node sends what the event has queued. -/
theorem RecvCall.event {event : ToRegistry Node Stats Data} (hpopped : Popped s)
    (h : RecvCall s (ord, .event model node event, sent) s') :
    ∃ m, (s.entry model).onEvent ord node event = .ok m ∧ sent = outputs s.streamsTx model m.events ∧
      Popped s' := by
  obtain ⟨-, hdrains⟩ := h
  simp only [handle] at hdrains
  split at hdrains
  case h_1 => cases hdrains with
    | done _ hmain' => simp at hmain'
    | send _ _ _ _ _ _ hmain' => simp at hmain'
  case h_2 m hm =>
    obtain ⟨t, hall, -, -, hqueues⟩ := relay_drains (s.setEntry model m) model
    obtain ⟨rfl, rfl⟩ := hdrains.unique hall
    refine ⟨m, hm, by rw [entry_setEntry, if_pos rfl]; rfl, ?_⟩
    intro model'
    rw [hqueues, entry_setEntry]
    split
    case isTrue => rfl
    case isFalse => exact hpopped model'

/-- A call with any other event sends nothing. -/
theorem RecvCall.other {event : StreamEvent Model Node Stats Data}
    (hevent : ∀ model node e, event ≠ .event model node e) (h : RecvCall s (ord, event, sent) s') :
    sent = [] ∧ s' = s.handle ord event := by
  obtain ⟨hmain, hdrains⟩ := h
  have hmain' : (s.handle ord event).main = .receiving := by
    cases event with
    | event model node e => exact absurd rfl (hevent model node e)
    | _ => exact hmain
  obtain ⟨rfl, rfl⟩ := hdrains.unique (.done _ hmain')
  exact ⟨rfl, rfl⟩

omit [Inhabited Stats] in
theorem Drains.synced (h : Drains s sent t) (hs : Synced s) : Synced t := by
  induction h with
  | done s hmain => exact hs
  | send s t model tx out sent hmain hrest ih =>
    exact ih (hs.of_eq (relay_streamsTx _) fun model' node' => by rw [relay_nodes])

/-- One call keeps nodes and streams in step and leaves the queues empty. -/
theorem RecvCall.keeps {c : IterOrder Node × StreamEvent Model Node Stats Data × List (Sent Model Node Data)}
    (h : RecvCall s c s') (hs : Synced s ∧ Popped s) : Synced s' ∧ Popped s' := by
  obtain ⟨ord, event, sent⟩ := c
  refine ⟨h.2.synced (synced_handle event hs.1), ?_⟩
  cases event with
  | event model node event =>
    obtain ⟨m, -, -, hpopped⟩ := RecvCall.event hs.2 h
    exact hpopped
  | _ =>
    obtain ⟨-, rfl⟩ := RecvCall.other (by simp) h
    exact (handle_sends ord _ hs.2 h.1).1

end Calls

/-- After every sequence of calls the streams are those of the registered nodes, model by
model, and nothing is queued. In the next call, what an event of a registered node queues is
sent, in order and none left out, to the streams of the nodes it is for; and the answer to
new layers names each other node of the model once. -/
theorem outputs_have_streams [Inhabited Stats]
    {calls : List (IterOrder Node × StreamEvent Model Node Stats Data × List (Sent Model Node Data))}
    (hrun : Run RecvCall {} calls s) :
    (∀ model node, node ∈ (s.entry model).nodes ↔ ∃ c, s.streamsTx.lookup (model, node) = some c) ∧
    (∀ model, (s.entry model).events = []) ∧
    ∀ ord model node event sent s', RecvCall s (ord, .event model node event, sent) s' →
      node ∈ (s.entry model).nodes →
        ∃ m, (s.entry model).onEvent ord node event = .ok m ∧
          List.Forall₂ (fun o e => s.streamsTx.lookup (model, e.1) = some o.2.1 ∧ o.1 = model ∧ o.2.2 = e.2)
            sent m.events ∧
          ∀ fromLayer toLayer, event = .update fromLayer toLayer →
            ∃ ns, m.events = [(node, .update ns)] ∧ ns.Nodup ∧
              ∀ n, n ∈ ns ↔ n ∈ (s.entry model).nodes ∧ n ≠ node := by
  obtain ⟨hsync, hpopped⟩ : Synced s ∧ Popped s :=
    hrun.invariant ⟨synced_empty, popped_empty⟩ fun a c b h hs => h.keeps hs
  refine ⟨hsync, hpopped, ?_⟩
  intro ord model node event sent s' hcall hnode
  obtain ⟨m, hm, rfl, -⟩ := RecvCall.event hpopped hcall
  refine ⟨m, hm, ?_, ?_⟩
  · have hdest : ∀ e ∈ m.events, ∃ c, s.streamsTx.lookup (model, e.1) = some c := fun e he =>
      (hsync model e.1).mp (SessionManager.onEvent_dest hm (hpopped model) hnode e he)
    generalize m.events = events at hdest
    induction events with
    | nil => exact .nil
    | cons e events ih =>
      obtain ⟨c, hc⟩ := hdest e (by simp)
      have hout : outputs s.streamsTx model (e :: events) =
          (model, c, e.2) :: outputs s.streamsTx model events := by
        simp [outputs, hc]
      rw [hout]
      exact .cons ⟨hc, rfl, rfl⟩ (ih fun e he => hdest e (by simp [he]))
  · rintro fromLayer toLayer rfl
    obtain ⟨ns, hevents, hns⟩ := SessionManager.onEvent_update hm
    rw [hpopped model, List.nil_append] at hevents
    exact ⟨ns, hevents, hns⟩

/-- Two nodes of a model and one of another: the first of the two announces layers. -/
theorem outputs_have_streams_two_nodes : ∃ s s' : Registry Bool Bool Unit Unit,
    Run RecvCall {} [(.asIs, .start true true 0, []), (.asIs, .start true false 1, []),
      (.asIs, .start false true 2, [])] s ∧
    RecvCall s (.asIs, .event true true (.update 0 4), [(true, 0, .update [false])]) s' ∧
    ∃ m, (s.entry true).onEvent .asIs true (.update 0 4) = .ok m ∧
      List.Forall₂ (fun o e => s.streamsTx.lookup (true, e.1) = some o.2.1 ∧ o.1 = true ∧ o.2.2 = e.2)
        [(true, 0, ToWorker.update [false])] m.events := by
  have h0 : Run RecvCall ({} : Registry Bool Bool Unit Unit) [] _ := .nil
  have h1 := h0.snoc (e := (.asIs, .start true true 0, [])) ⟨rfl, .done _ rfl⟩
  have h2 := h1.snoc (e := (.asIs, .start true false 1, [])) ⟨rfl, .done _ rfl⟩
  have h3 := h2.snoc (e := (.asIs, .start false true 2, [])) ⟨rfl, .done _ rfl⟩
  refine ⟨_, _, h3, ⟨rfl, .send _ _ true 0 (.update [false]) [] rfl (.done _ rfl)⟩, ?_⟩
  obtain ⟨m, hm, hsent, -⟩ := (outputs_have_streams h3).2.2 .asIs true true (.update 0 4)
    [(true, 0, .update [false])] _ ⟨rfl, .send _ _ true 0 (.update [false]) [] rfl (.done _ rfl)⟩ (by decide)
  exact ⟨m, hm, hsent⟩

end Registry
end Dllm
