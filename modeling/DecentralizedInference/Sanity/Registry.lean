import DecentralizedInference.Spec.Registry

/-! What the steps of the registry can do, and the order in which a connection's events come:
its `Start` first, each under the model and the node of the connection. -/

namespace Dllm

namespace SessionManager

variable {Node Stats Data : Type} [DecidableEq Node] {ord : IterOrder Node} {node : Node}
  {m m' : SessionManager Node Stats Data}

/-- Whether an event is one for which the node must be known. -/
def needsNode : ToRegistry Node Stats Data → Bool
  | .update _ _ | .stats _ => true
  | .neighbours | .relay _ _ => false

/-- An event leaves the set of nodes as it is. -/
theorem onEvent_mem {event : ToRegistry Node Stats Data} (h : m.onEvent ord node event = .ok m') (n : Node) :
    n ∈ m'.nodes ↔ n ∈ m.nodes := by
  have hinsert : ∀ info info' : NodeInfo Stats, m.nodes.lookup node = some info →
      (n ∈ m.nodes.insert node info' ↔ n ∈ m.nodes) := by
    intro info info' hinfo
    rw [AList.mem_insert, or_iff_right_of_imp]
    rintro rfl
    exact AList.lookup_isSome.mp (by simp [hinfo])
  unfold onEvent at h
  split at h
  · split at h
    · cases h
    · cases h
      exact hinsert _ _ ‹_›
  · cases h
    exact Iff.rfl
  · split at h <;> cases h <;> exact Iff.rfl
  · split at h
    · cases h
    · cases h
      exact hinsert _ _ ‹_›

/-- The only panic is that of an event of an unknown node. -/
theorem onEvent_error_iff (ord : IterOrder Node) (node : Node) (m : SessionManager Node Stats Data)
    (event : ToRegistry Node Stats Data) :
    (∃ e, m.onEvent ord node event = .error e) ↔ needsNode event = true ∧ node ∉ m.nodes := by
  have hmem : node ∉ m.nodes ↔ m.nodes.lookup node = none := AList.lookup_eq_none.symm
  rw [hmem]
  cases event with
  | update l l' => cases hn : m.nodes.lookup node <;> simp [onEvent, needsNode, hn]
  | neighbours => simp [onEvent, needsNode]
  | relay dest data =>
    simp only [onEvent]
    split <;> simp [needsNode]
  | stats st => cases hn : m.nodes.lookup node <;> simp [onEvent, needsNode, hn]

end SessionManager

namespace Registry

variable {Model Node Stats Data : Type} [DecidableEq Model] [DecidableEq Node]
  {s s' : Registry Model Node Stats Data} {ord : IterOrder Node}

omit [DecidableEq Node] in
theorem entry_setEntry (model model' : Model) (m : SessionManager Node Stats Data) :
    (s.setEntry model m).entry model' = if model' = model then m else s.entry model' := by
  unfold setEntry entry
  split
  case isTrue h =>
    subst h
    simp [AList.lookup_insert]
  case isFalse h => simp [AList.lookup_insert_ne h]

/-- The loop over `pop_out` touches the queue of the manager and its own place only. -/
theorem relay_frame (s : Registry Model Node Stats Data) (model : Model) :
    (s.relay model).streamsTx = s.streamsTx ∧ (s.relay model).streamRx = s.streamRx ∧
      (s.relay model).tasks = s.tasks ∧ (s.relay model).handled = s.handled ∧
      (s.relay model).main ≠ .panicked ∧
      ∀ model', ((s.relay model).entry model').nodes = (s.entry model').nodes := by
  have hnodes : ∀ (events : List (Node × ToWorker Node Data)) (model' : Model),
      ((s.setEntry model { s.entry model with events }).entry model').nodes = (s.entry model').nodes := by
    intro events model'
    rw [entry_setEntry]
    split
    case isTrue h => rw [h]
    case isFalse => rfl
  unfold relay
  split
  · exact ⟨rfl, rfl, rfl, rfl, by simp, hnodes _⟩
  · exact ⟨rfl, rfl, rfl, rfl, by simp, hnodes _⟩

@[simp] theorem relay_streamsTx (model : Model) : (s.relay model).streamsTx = s.streamsTx :=
  (relay_frame s model).1

@[simp] theorem relay_streamRx (model : Model) : (s.relay model).streamRx = s.streamRx :=
  (relay_frame s model).2.1

@[simp] theorem relay_tasks (model : Model) : (s.relay model).tasks = s.tasks :=
  (relay_frame s model).2.2.1

@[simp] theorem relay_handled (model : Model) : (s.relay model).handled = s.handled :=
  (relay_frame s model).2.2.2.1

@[simp] theorem relay_nodes (model model' : Model) :
    ((s.relay model).entry model').nodes = (s.entry model').nodes :=
  (relay_frame s model).2.2.2.2.2 model'

section Handle

variable [Inhabited Stats]

@[simp] theorem handle_queues (ord : IterOrder Node) (s : Registry Model Node Stats Data)
    (event : StreamEvent Model Node Stats Data) :
    (s.handle ord event).streamRx = s.streamRx ∧ (s.handle ord event).tasks = s.tasks ∧
      (s.handle ord event).handled = s.handled := by
  unfold handle
  split
  case h_2 =>
    split
    · exact ⟨rfl, rfl, rfl⟩
    · exact ⟨relay_streamRx _, relay_tasks _, relay_handled _⟩
  all_goals exact ⟨rfl, rfl, rfl⟩

theorem handle_take_handled (ord : IterOrder Node) (s : Registry Model Node Stats Data)
    (p : Posted Model Node Stats Data) (rest : List (Posted Model Node Stats Data))
    (event : StreamEvent Model Node Stats Data) :
    ((s.take p rest).handle ord event).handled = s.handled ++ [p] :=
  (handle_queues ord (s.take p rest) event).2.2

end Handle

/-- The event is one that the task of connection `c` sends. -/
def Own (c : ℕ) (t : WsTask Model Node Stats Data) : StreamEvent Model Node Stats Data → Prop
  | .start model node tx => model = t.model ∧ node = t.node ∧ tx = c
  | .event model node _ | .finish model node => model = t.model ∧ node = t.node
  | .distribution _ _ | .health _ => False

def IsHttp : StreamEvent Model Node Stats Data → Prop
  | .distribution _ _ | .health _ => True
  | _ => False

def IsStart : StreamEvent Model Node Stats Data → Prop
  | .start _ _ _ => True
  | _ => False

/-- A task goes on by itself: it takes a message in, gives one out, or starts to end. -/
structure TaskMoves (c : ℕ) (t t' : WsTask Model Node Stats Data) : Prop where
  selecting : t.phase = .selecting
  model : t'.model = t.model
  node : t'.node = t.node
  phase : ∀ e, t'.phase = .sending e → Own c t e ∧ ¬IsStart e
  alive : t'.phase ≠ .closed
  rx : t'.rx <:+ t.rx

/-- What a step does. -/
inductive Moves [Inhabited Stats] (s : Registry Model Node Stats Data) :
    RegistryAction Model Node Stats Data → Registry Model Node Stats Data → Prop
  | connect (model : Model) (node : Node) :
      Moves s (.connect model node)
        { s with
          tasks := s.tasks ++ [⟨model, node, .sending (.start model node s.tasks.length), []⟩] }
  | task (a : RegistryAction Model Node Stats Data) (ha : ∀ ord, a ≠ .recv ord) (c : ℕ)
      (t t' : WsTask Model Node Stats Data) (ht : s.tasks[c]? = some t) (h : TaskMoves c t t') :
      Moves s a { s with tasks := s.tasks.set c t' }
  | post (c : ℕ) (t : WsTask Model Node Stats Data) (e : StreamEvent Model Node Stats Data)
      (ht : s.tasks[c]? = some t) (hphase : t.phase = .sending e) (hmain : s.main ≠ .panicked)
      (hroom : s.streamRx.length < CHANNEL_SIZE) :
      Moves s (.post c)
        { s.post ⟨some c, e⟩ with tasks := s.tasks.set c { t with phase := phaseAfter e } }
  | http (a : RegistryAction Model Node Stats Data) (ha : ∀ ord, a ≠ .recv ord)
      (e : StreamEvent Model Node Stats Data) (he : IsHttp e)
      (hroom : s.streamRx.length < CHANNEL_SIZE) : Moves s a (s.post ⟨none, e⟩)
  | recv (ord : IterOrder Node) (p : Posted Model Node Stats Data)
      (rest : List (Posted Model Node Stats Data)) (hmain : s.main = .receiving)
      (hrx : s.streamRx = p :: rest) :
      Moves s (.recv ord) ((s.take p rest).handle ord p.event)
  | deliver (model : Model) (tx : ℕ) (out : ToWorker Node Data) (t : WsTask Model Node Stats Data)
      (rx : List (ToWorker Node Data)) (hmain : s.main = .sending model tx out)
      (ht : s.tasks[tx]? = some t) (hrx : t.phase = .closed ∨ rx.length ≤ CHANNEL_SIZE) :
      Moves s .deliver ({ s with tasks := s.tasks.set tx { t with rx } }.relay model)

theorem Step.moves [Inhabited Stats] {a : RegistryAction Model Node Stats Data} (h : Step s a s') :
    Moves s a s' := by
  unfold Step at h
  cases a with
  | connect model node =>
    simp only [step, Option.some.injEq] at h
    subst h
    exact .connect model node
  | post c =>
    simp only [step] at h
    split at h
    case h_1 => cases h
    case h_2 => cases h
    case h_3 t ht hmain =>
      split at h
      case h_1 e hphase =>
        split at h
        case isTrue hroom =>
          cases h
          exact .post c t e ht hphase (fun hp => hmain hp) hroom
        case isFalse => cases h
      case h_2 => cases h
  | read c event =>
    simp only [step] at h
    split at h
    case h_1 model node rx ht =>
      cases h
      refine .task _ (by simp) c _ _ ht ⟨rfl, rfl, rfl, ?_, by simp, List.suffix_refl _⟩
      rintro e ⟨⟩
      exact ⟨⟨rfl, rfl⟩, id⟩
    case h_2 => cases h
  | hangUp c =>
    simp only [step] at h
    split at h
    case h_1 model node rx ht =>
      cases h
      refine .task _ (by simp) c _ _ ht ⟨rfl, rfl, rfl, ?_, by simp, List.suffix_refl _⟩
      rintro e ⟨⟩
      exact ⟨⟨rfl, rfl⟩, id⟩
    case h_2 => cases h
  | write c =>
    simp only [step] at h
    split at h
    case h_1 model node out rx ht =>
      cases h
      exact .task _ (by simp) c _ _ ht ⟨rfl, rfl, rfl, by simp, by simp, List.suffix_cons _ _⟩
    case h_2 => cases h
  | dropped c =>
    simp only [step] at h
    split at h
    case h_1 model node ht =>
      split at h
      case isTrue => cases h
      case isFalse =>
        cases h
        refine .task _ (by simp) c _ _ ht ⟨rfl, rfl, rfl, ?_, by simp, List.suffix_refl _⟩
        rintro e ⟨⟩
        exact ⟨⟨rfl, rfl⟩, id⟩
    case h_2 => cases h
  | httpDistribution model reply =>
    simp only [step] at h
    split at h
    case h_1 => cases h
    case h_2 =>
      split at h
      case isTrue hroom =>
        cases h
        exact .http _ (by simp) _ trivial hroom
      case isFalse => cases h
  | httpHealth reply =>
    simp only [step] at h
    split at h
    case h_1 => cases h
    case h_2 =>
      split at h
      case isTrue hroom =>
        cases h
        exact .http _ (by simp) _ trivial hroom
      case isFalse => cases h
  | recv ord =>
    simp only [step] at h
    split at h
    case h_1 p rest hmain hrx =>
      cases h
      exact .recv ord p rest hmain hrx
    case h_2 => cases h
  | deliver =>
    simp only [step] at h
    split at h
    case h_1 model tx out hmain =>
      split at h
      case h_1 => cases h
      case h_2 t ht =>
        split at h
        case h_1 hclosed =>
          cases h
          have hset : s.tasks.set tx t = s.tasks := by
            obtain ⟨htx, rfl⟩ := List.getElem?_eq_some_iff.mp ht
            exact List.set_getElem_self htx
          have hmove := Moves.deliver model tx out t t.rx hmain ht (.inl hclosed)
          rwa [hset] at hmove
        case h_2 =>
          split at h
          case isTrue hroom =>
            cases h
            have hlen : (t.rx ++ [out]).length ≤ CHANNEL_SIZE := by
              rw [List.length_append]
              exact hroom
            exact .deliver model tx out t _ hmain ht (.inr hlen)
          case isFalse => cases h
    case h_2 => cases h

/-- A waiting task sends when the queue has room. -/
theorem step_post [Inhabited Stats] {c : ℕ} {t : WsTask Model Node Stats Data}
    {e : StreamEvent Model Node Stats Data} (ht : s.tasks[c]? = some t) (hphase : t.phase = .sending e)
    (hmain : s.main ≠ .panicked) (hroom : s.streamRx.length < CHANNEL_SIZE) :
    Step s (.post c) { s.post ⟨some c, e⟩ with tasks := s.tasks.set c { t with phase := phaseAfter e } } := by
  unfold Step
  simp only [step, ht, hphase, if_pos hroom]

/-- A client can always send. -/
theorem step_read [Inhabited Stats] {c : ℕ} {model : Model} {node : Node} {rx : List (ToWorker Node Data)}
    (ht : s.tasks[c]? = some ⟨model, node, .selecting, rx⟩) (event : ToRegistry Node Stats Data) :
    Step s (.read c event)
      { s with tasks := s.tasks.set c ⟨model, node, .sending (.event model node event), rx⟩ } := by
  unfold Step
  simp only [step, ht]

omit [DecidableEq Model] [DecidableEq Node] in
/-- Everything the tasks have sent, in the order of the queue. -/
def posted (s : Registry Model Node Stats Data) : List (Posted Model Node Stats Data) :=
  s.handled ++ s.streamRx

/-- A connection's events carry its own model and node, and its `Start` is the first. -/
structure InOrder (s : Registry Model Node Stats Data) : Prop where
  own : ∀ p ∈ s.posted, (p.source = none ∧ IsHttp p.event) ∨
    ∃ c t, p.source = some c ∧ s.tasks[c]? = some t ∧ Own c t p.event
  pending : ∀ c t e, s.tasks[c]? = some t → t.phase = .sending e →
    Own c t e ∧ (IsStart e → ∀ p ∈ s.posted, p.source ≠ some c)
  first : s.posted.Pairwise fun p q => ∀ model node tx, q.event = .start model node tx →
    p.source ≠ some tx

omit [DecidableEq Model] [DecidableEq Node] in
theorem inOrder_empty : InOrder ({} : Registry Model Node Stats Data) := by
  refine ⟨?_, ?_, ?_⟩
  · simp [posted]
  · simp
  · simp [posted]

omit [DecidableEq Model] [DecidableEq Node] in
theorem Own.congr {c : ℕ} {t t' : WsTask Model Node Stats Data} {e : StreamEvent Model Node Stats Data}
    (h : Own c t e) (hmodel : t'.model = t.model) (hnode : t'.node = t.node) : Own c t' e := by
  cases e with
  | start model node tx => exact ⟨h.1.trans hmodel.symm, h.2.1.trans hnode.symm, h.2.2⟩
  | event model node event => exact ⟨h.1.trans hmodel.symm, h.2.trans hnode.symm⟩
  | finish model node => exact ⟨h.1.trans hmodel.symm, h.2.trans hnode.symm⟩
  | distribution model reply => exact h
  | health reply => exact h

omit [DecidableEq Model] [DecidableEq Node] in
/-- A task of the same model and node takes a place, which sends nothing that the task before
did not send already, or an event that is not a `Start`. -/
theorem InOrder.set (h : InOrder s) {c : ℕ} {t : WsTask Model Node Stats Data}
    (t' : WsTask Model Node Stats Data) (ht : s.tasks[c]? = some t) (hmodel : t'.model = t.model) (hnode : t'.node = t.node)
    (hphase : ∀ e, t'.phase = .sending e → t.phase = .sending e ∨ (Own c t e ∧ ¬IsStart e)) :
    InOrder { s with tasks := s.tasks.set c t' } := by
  have hc : c < s.tasks.length := (List.getElem?_eq_some_iff.mp ht).1
  refine ⟨?_, ?_, h.first⟩
  · intro p hp
    rcases h.own p hp with hhttp | ⟨d, u, hd, hu, hown⟩
    · exact .inl hhttp
    · refine .inr ?_
      by_cases hcd : c = d
      · subst hcd
        obtain rfl := Option.some.inj (ht.symm.trans hu)
        exact ⟨c, t', hd, by simp [hc], hown.congr hmodel hnode⟩
      · exact ⟨d, u, hd, by simp [List.getElem?_set_ne hcd, hu], hown⟩
  · intro d u e hu hue
    by_cases hcd : c = d
    · subst hcd
      obtain rfl : t' = u := by simpa [hc] using hu
      rcases hphase e hue with hold | ⟨hown, hstart⟩
      · obtain ⟨hown, hnone⟩ := h.pending c t e ht hold
        exact ⟨hown.congr hmodel hnode, hnone⟩
      · exact ⟨hown.congr hmodel hnode, fun hs => absurd hs hstart⟩
    · rw [List.getElem?_set_ne hcd] at hu
      exact h.pending d u e hu hue

omit [DecidableEq Model] [DecidableEq Node] in
/-- The order depends on the tasks and on what they have sent. -/
theorem InOrder.of_eq (h : InOrder s) (htasks : s'.tasks = s.tasks) (hposted : s'.posted = s.posted) :
    InOrder s' := by
  refine ⟨?_, ?_, ?_⟩
  · rw [hposted, htasks]
    exact h.own
  · rw [hposted, htasks]
    exact h.pending
  · rw [hposted]
    exact h.first

omit [DecidableEq Model] [DecidableEq Node] in
theorem phaseAfter_ne_sending (e e' : StreamEvent Model Node Stats Data) : phaseAfter e ≠ .sending e' := by
  cases e <;> simp [phaseAfter]

theorem Step.inOrder [Inhabited Stats] {a : RegistryAction Model Node Stats Data} (hstep : Step s a s')
    (h : InOrder s) : InOrder s' := by
  rcases hstep.moves with ⟨model, node⟩ | ⟨_, ha, c, t, t', ht, hmove⟩ | ⟨c, t, e, ht, hphase, -, -⟩ |
    ⟨_, ha, e, he, -⟩ | ⟨ord, p, rest, -, hrx⟩ | ⟨model, tx, out, t, rx, -, ht, -⟩
  · -- The new connection has a number that nobody has sent under.
    refine ⟨?_, ?_, h.first⟩
    · intro p hp
      rcases h.own p hp with hhttp | ⟨d, u, hd, hu, hown⟩
      · exact .inl hhttp
      · exact .inr ⟨d, u, hd, List.getElem?_append_left (List.getElem?_eq_some_iff.mp hu).1 ▸ hu, hown⟩
    · intro d u e hu hue
      rcases lt_trichotomy d s.tasks.length with hd | hd | hd
      · rw [List.getElem?_append_left hd] at hu
        exact h.pending d u e hu hue
      · subst hd
        rw [List.getElem?_concat_length] at hu
        cases hu
        cases hue
        refine ⟨⟨rfl, rfl, rfl⟩, fun _ p hp hsource => ?_⟩
        rcases h.own p hp with ⟨hnone, -⟩ | ⟨d, u, hd, hu, -⟩
        · simp [hnone] at hsource
        · obtain rfl : d = s.tasks.length := by simpa [hd] using hsource
          simp at hu
      · have hlen := (List.getElem?_eq_some_iff.mp hu).1
        simp only [List.length_append, List.length_singleton] at hlen
        omega
  · exact h.set t' ht hmove.model hmove.node fun e he => .inr (hmove.phase e he)
  · obtain ⟨hown, hnone⟩ := h.pending c t e ht hphase
    have hset := h.set { t with phase := phaseAfter e } ht rfl rfl
      fun e' he' => absurd he' (phaseAfter_ne_sending e e')
    have hc : c < s.tasks.length := (List.getElem?_eq_some_iff.mp ht).1
    have hposted : ({ s.post ⟨some c, e⟩ with
        tasks := s.tasks.set c { t with phase := phaseAfter e } } : Registry Model Node Stats Data).posted =
        s.posted ++ [⟨some c, e⟩] := by
      simp [posted, Registry.post]
    refine ⟨?_, ?_, ?_⟩
    · intro p hp
      rw [hposted, List.mem_append, List.mem_singleton] at hp
      rcases hp with hp | rfl
      · exact hset.own p hp
      · exact .inr ⟨c, { t with phase := phaseAfter e }, rfl, by simp [hc], hown.congr rfl rfl⟩
    · intro d u e' hu hue
      obtain ⟨hown', hnone'⟩ := hset.pending d u e' hu hue
      refine ⟨hown', fun hstart p hp => ?_⟩
      rw [hposted, List.mem_append, List.mem_singleton] at hp
      rcases hp with hp | rfl
      · exact hnone' hstart p hp
      · -- The task that has just sent is not sending.
        rintro ⟨⟩
        obtain rfl : { t with phase := phaseAfter e } = u := by simpa [hc] using hu
        exact phaseAfter_ne_sending e e' hue
    · rw [hposted, List.pairwise_append]
      refine ⟨h.first, List.pairwise_singleton _ _, ?_⟩
      intro p hp q hq model node tx hstart
      obtain rfl := List.mem_singleton.mp hq
      cases hstart
      rw [hown.2.2]
      exact hnone trivial p hp
  · have hposted : (s.post ⟨none, e⟩).posted = s.posted ++ [⟨none, e⟩] := by simp [posted, Registry.post]
    refine ⟨?_, ?_, ?_⟩
    · intro p hp
      rw [hposted, List.mem_append, List.mem_singleton] at hp
      rcases hp with hp | rfl
      · exact h.own p hp
      · exact .inl ⟨rfl, he⟩
    · intro d u e' hu hue
      obtain ⟨hown, hnone⟩ := h.pending d u e' hu hue
      refine ⟨hown, fun hstart p hp => ?_⟩
      rw [hposted, List.mem_append, List.mem_singleton] at hp
      rcases hp with hp | rfl
      · exact hnone hstart p hp
      · simp
    · rw [hposted, List.pairwise_append]
      refine ⟨h.first, List.pairwise_singleton _ _, ?_⟩
      intro p hp q hq model node tx hstart
      obtain rfl := List.mem_singleton.mp hq
      subst hstart
      cases he
  · refine h.of_eq ?_ ?_
    · simp [take]
    · simp [posted, take, hrx]
  · refine (h.set { t with rx } ht rfl rfl fun e he => .inl he).of_eq ?_ ?_
    · simp
    · simp [posted]

end Registry
end Dllm
