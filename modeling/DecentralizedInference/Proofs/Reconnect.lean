import DecentralizedInference.Sanity.Registry

/-! Reconnects at the registry. An `End` is taken for the node, whichever connection has sent
it. The registrations are those of the connections that started last as long as no `End`
comes from a connection that was replaced, and no node is heard of after its last connection
has ended; the first event of either kind unregisters a live node or kills the registry. -/

namespace Dllm.Registry

variable {Model Node Stats Data : Type} [DecidableEq Model] [DecidableEq Node]

/-- The connection whose `Start` for the pair came last. -/
def latest (events : List (Posted Model Node Stats Data)) (model : Model) (node : Node) : Option ℕ :=
  events.foldl (fun last p =>
    match p.event with
    | .start model' node' tx => if model' = model ∧ node' = node then some tx else last
    | _ => last) none

omit [DecidableEq Model] [DecidableEq Node] in
def IsFinish : StreamEvent Model Node Stats Data → Prop
  | .finish _ _ => True
  | _ => False

/-- The connection's `End` has come. -/
def Ended (events : List (Posted Model Node Stats Data)) (c : ℕ) : Prop :=
  ∃ p ∈ events, p.source = some c ∧ IsFinish p.event

/-- The node is registered, and its stream is that of the connection. -/
def Registered (s : Registry Model Node Stats Data) (model : Model) (node : Node) (c : ℕ) : Prop :=
  node ∈ (s.entry model).nodes ∧ s.streamsTx.lookup (model, node) = some c

/-- The main loop lives, and the registrations are those of the connections that started last
and have not ended. -/
def Current (s : Registry Model Node Stats Data) : Prop :=
  s.main ≠ .panicked ∧ ∀ model node c,
    s.Registered model node c ↔ latest s.handled model node = some c ∧ ¬Ended s.handled c

/-- What `recv` must not find: the `End` of a connection that was replaced by one that is
alive, or layers or statistics of a node whose last connection has ended. -/
def OrderlyEvent (handled : List (Posted Model Node Stats Data)) (p : Posted Model Node Stats Data) : Prop :=
  match p.event with
  | .finish model node => ∀ c, latest handled model node = some c → p.source = some c ∨ Ended handled c
  | .event model node event => SessionManager.needsNode event = true →
      ∃ c, latest handled model node = some c ∧ ¬Ended handled c
  | _ => True

def Orderly (s : Registry Model Node Stats Data) : RegistryAction Model Node Stats Data → Prop
  | .recv _ => ∀ p rest, s.streamRx = p :: rest → OrderlyEvent s.handled p
  | _ => True

def OrderlyStep [Inhabited Stats] (s : Registry Model Node Stats Data)
    (a : RegistryAction Model Node Stats Data) (s' : Registry Model Node Stats Data) : Prop :=
  Step s a s' ∧ Orderly s a

section History

variable {events : List (Posted Model Node Stats Data)} {model : Model} {node : Node} {c : ℕ}

theorem latest_snoc_start (source : Option ℕ) (model' : Model) (node' : Node) (tx : ℕ) :
    latest (events ++ [⟨source, .start model' node' tx⟩]) model node =
      if model' = model ∧ node' = node then some tx else latest events model node := by
  simp [latest]

theorem latest_snoc {p : Posted Model Node Stats Data} (hp : ¬IsStart p.event) :
    latest (events ++ [p]) model node = latest events model node := by
  obtain ⟨source, event⟩ := p
  cases event with
  | start model' node' tx => exact absurd trivial hp
  | _ => simp [latest]

/-- The latest connection of a pair has sent a `Start` for it. -/
theorem latest_mem (h : latest events model node = some c) :
    ∃ p ∈ events, p.event = .start model node c := by
  induction events using List.reverseRecOn with
  | nil => simp [latest] at h
  | append_singleton events p ih =>
    by_cases hp : IsStart p.event
    · obtain ⟨source, event⟩ := p
      cases event with
      | start model' node' tx =>
        rw [latest_snoc_start] at h
        split at h
        case isTrue heq =>
          obtain ⟨rfl, rfl⟩ := heq
          cases h
          exact ⟨_, List.mem_append_right _ (List.mem_singleton_self _), rfl⟩
        case isFalse =>
          obtain ⟨q, hq, hstart⟩ := ih h
          exact ⟨q, by simp [hq], hstart⟩
      | _ => cases hp
    · rw [latest_snoc hp] at h
      obtain ⟨q, hq, hstart⟩ := ih h
      exact ⟨q, by simp [hq], hstart⟩

omit [DecidableEq Model] [DecidableEq Node] in
theorem ended_snoc {p : Posted Model Node Stats Data} :
    Ended (events ++ [p]) c ↔ Ended events c ∨ (p.source = some c ∧ IsFinish p.event) := by
  unfold Ended
  simp [or_and_right, exists_or]

omit [DecidableEq Model] [DecidableEq Node] in
theorem ended_snoc_of_not {p : Posted Model Node Stats Data} (hp : ¬IsFinish p.event) :
    Ended (events ++ [p]) c ↔ Ended events c := by
  simp [ended_snoc, hp]

end History

variable {s s' : Registry Model Node Stats Data}

/-- Nodes and streams are entered and removed together. -/
def Synced (s : Registry Model Node Stats Data) : Prop :=
  ∀ model node, node ∈ (s.entry model).nodes ↔ ∃ c, s.streamsTx.lookup (model, node) = some c

/-- A step that changes neither nodes nor streams. -/
theorem Synced.of_eq (h : Synced s) (htx : s'.streamsTx = s.streamsTx)
    (hnodes : ∀ model node, node ∈ (s'.entry model).nodes ↔ node ∈ (s.entry model).nodes) : Synced s' := by
  intro model node
  rw [htx, hnodes]
  exact h model node

theorem registered_of_eq (htx : s'.streamsTx = s.streamsTx)
    (hnodes : ∀ model node, node ∈ (s'.entry model).nodes ↔ node ∈ (s.entry model).nodes)
    (model : Model) (node : Node) (c : ℕ) : s'.Registered model node c ↔ s.Registered model node c := by
  unfold Registered
  rw [htx, hnodes]

theorem Current.of_eq (h : s'.main ≠ .panicked ↔ s.main ≠ .panicked) (htx : s'.streamsTx = s.streamsTx)
    (hnodes : ∀ model node, node ∈ (s'.entry model).nodes ↔ node ∈ (s.entry model).nodes)
    (hhandled : s'.handled = s.handled) : Current s' ↔ Current s := by
  unfold Current
  simp only [registered_of_eq htx hnodes, hhandled, h]

/-- What `recv` does with an event that is none of `Start` and `End`. -/
theorem handle_event [Inhabited Stats] (ord : IterOrder Node) (s : Registry Model Node Stats Data)
    (event : StreamEvent Model Node Stats Data) (hs : ¬IsStart event) (hf : ¬IsFinish event) :
    (s.handle ord event).streamsTx = s.streamsTx ∧
      ∀ model node, node ∈ ((s.handle ord event).entry model).nodes ↔ node ∈ (s.entry model).nodes := by
  cases event with
  | start model node tx => exact absurd trivial hs
  | finish model node => exact absurd trivial hf
  | distribution model reply => exact ⟨rfl, fun _ _ => Iff.rfl⟩
  | health reply => exact ⟨rfl, fun _ _ => Iff.rfl⟩
  | event model node event =>
    simp only [handle]
    split
    · exact ⟨rfl, fun _ _ => Iff.rfl⟩
    case h_2 m hm =>
      refine ⟨relay_streamsTx _, fun model' node' => ?_⟩
      rw [relay_nodes, entry_setEntry]
      split
      case isTrue heq => rw [SessionManager.onEvent_mem hm, heq]
      case isFalse => exact Iff.rfl

theorem handle_start_mem [Inhabited Stats] (ord : IterOrder Node) (model model' : Model) (node node' : Node)
    (tx : ℕ) : node' ∈ ((s.handle ord (.start model node tx)).entry model').nodes ↔
      (model' = model ∧ node' = node) ∨ node' ∈ (s.entry model').nodes := by
  have hentry : (s.handle ord (.start model node tx)).entry model' =
      (s.setEntry model ((s.entry model).onStart node)).entry model' := rfl
  rw [hentry, entry_setEntry]
  split
  case isTrue h => simp [SessionManager.onStart, AList.mem_insert, h]
  case isFalse h => simp [h]

theorem handle_finish_mem [Inhabited Stats] (ord : IterOrder Node) (model model' : Model) (node node' : Node) :
    node' ∈ ((s.handle ord (.finish model node)).entry model').nodes ↔
      ¬(model' = model ∧ node' = node) ∧ node' ∈ (s.entry model').nodes := by
  have hentry : (s.handle ord (.finish model node)).entry model' =
      (s.setEntry model ((s.entry model).onEnd node)).entry model' := rfl
  rw [hentry, entry_setEntry]
  split
  case isTrue h => simp [SessionManager.onEnd, AList.mem_erase, h]
  case isFalse h => simp [h]

section Recv

variable [Inhabited Stats] {ord : IterOrder Node} {rest : List (Posted Model Node Stats Data)}
  {model : Model} {node : Node}

/-- A `Start` registers its connection, which is then the latest and has not ended. -/
theorem current_start {source : Option ℕ} {tx : ℕ} (h : Current s)
    (hnone : ¬Ended s.handled tx) :
    Current ((s.take ⟨source, .start model node tx⟩ rest).handle ord
      (.start model node tx)) := by
  refine ⟨h.1, fun model' node' c => ?_⟩
  rw [handle_take_handled, latest_snoc_start, ended_snoc_of_not (by simp [IsFinish])]
  unfold Registered
  rw [handle_start_mem]
  by_cases hpair : model' = model ∧ node' = node
  · obtain ⟨rfl, rfl⟩ := hpair
    simp only [true_and, and_self, true_or, if_true, handle, AList.lookup_insert, Option.some.injEq]
    constructor
    · rintro rfl
      exact ⟨rfl, hnone⟩
    · exact fun hc => hc.1
  · have hpair' : ¬(model = model' ∧ node = node') := fun hp => hpair ⟨hp.1.symm, hp.2.symm⟩
    have hkey : (model', node') ≠ (model, node) := by simpa [Prod.ext_iff] using hpair
    rw [if_neg hpair']
    simp only [hpair, false_or, handle, AList.lookup_insert_ne hkey]
    exact h.2 model' node' c

/-- An `End` unregisters its node: right if the latest connection of the node has ended
with it. -/
theorem current_finish_iff {c : ℕ} (h : Current s)
    (hown : ∀ model' node', latest s.handled model' node' = some c → model' = model ∧ node' = node) :
    Current ((s.take ⟨some c, .finish model node⟩ rest).handle ord
      (.finish model node)) ↔ OrderlyEvent s.handled ⟨some c, .finish model node⟩ := by
  have hended : ∀ d, Ended (s.handled ++ [⟨some c, .finish model node⟩]) d ↔ Ended s.handled d ∨ c = d := by
    intro d
    simp [ended_snoc, IsFinish]
  refine ⟨fun hcur d hd => ?_, fun hord => ?_⟩
  · have hreg := hcur.2 model node d
    rw [handle_take_handled, latest_snoc (by simp [IsStart]), hended] at hreg
    unfold Registered at hreg
    rw [handle_finish_mem] at hreg
    by_contra hno
    simp only [not_or, Option.some.injEq] at hno
    exact (hreg.mpr ⟨hd, fun hor => hor.elim hno.2 hno.1⟩).1.1 ⟨rfl, rfl⟩
  · refine ⟨h.1, fun model' node' d => ?_⟩
    rw [handle_take_handled, latest_snoc (by simp [IsStart]), hended]
    unfold Registered
    rw [handle_finish_mem]
    by_cases hpair : model' = model ∧ node' = node
    · obtain ⟨rfl, rfl⟩ := hpair
      refine iff_of_false (fun hreg => hreg.1.1 ⟨rfl, rfl⟩) ?_
      rintro ⟨hd, hno⟩
      rcases hord d hd with hsource | hd'
      · exact hno (.inr (Option.some.inj hsource))
      · exact hno (.inl hd')
    · have hkey : (model', node') ≠ (model, node) := by simpa [Prod.ext_iff] using hpair
      have hcd : latest s.handled model' node' = some d → c ≠ d := by
        rintro hd rfl
        exact hpair (hown model' node' hd)
      simp only [hpair, not_false_eq_true, true_and, handle, AList.lookup_erase_ne hkey]
      refine ⟨fun hreg => ?_, fun hlatest => ?_⟩
      · obtain ⟨hd, hno⟩ := (h.2 model' node' d).mp hreg
        exact ⟨hd, fun hor => hor.elim hno (hcd hd)⟩
      · obtain ⟨hd, hno⟩ := hlatest
        exact (h.2 model' node' d).mpr ⟨hd, fun hd' => hno (.inl hd')⟩

omit [Inhabited Stats] in
/-- Whether a node is registered at all. -/
theorem Current.mem_iff (h : Current s) (hsync : Synced s) :
    node ∈ (s.entry model).nodes ↔ ∃ c, latest s.handled model node = some c ∧ ¬Ended s.handled c := by
  refine ⟨fun hnode => ?_, fun ⟨c, hc⟩ => ?_⟩
  · obtain ⟨c, hc⟩ := (hsync model node).mp hnode
    exact ⟨c, (h.2 model node c).mp ⟨hnode, hc⟩⟩
  · exact ((h.2 model node c).mpr hc).1

/-- The main loop survives an event unless it is one of an unknown node. -/
theorem handle_event_main {event : ToRegistry Node Stats Data} :
    (s.handle ord (.event model node event)).main ≠ .panicked ↔
      (SessionManager.needsNode event = true → node ∈ (s.entry model).nodes) := by
  have herror := SessionManager.onEvent_error_iff ord node (s.entry model) event
  simp only [handle]
  split
  case h_1 e he =>
    have hneeds := herror.mp ⟨e, he⟩
    simp [hneeds]
  case h_2 m hm =>
    refine iff_of_true (relay_frame _ _).2.2.2.2.1 fun hneeds => ?_
    by_contra hnode
    obtain ⟨e, he⟩ := herror.mpr ⟨hneeds, hnode⟩
    rw [hm] at he
    cases he

theorem current_event_iff {source : Option ℕ} {event : ToRegistry Node Stats Data}
    (hsync : Synced s) (h : Current s) :
    Current ((s.take ⟨source, .event model node event⟩ rest).handle ord
      (.event model node event)) ↔ OrderlyEvent s.handled ⟨source, .event model node event⟩ := by
  have hframe := handle_event ord (s.take ⟨source, .event model node event⟩ rest)
    (.event model node event) (by simp [IsStart]) (by simp [IsFinish])
  have hp : ¬IsStart (Posted.event ⟨source, .event model node event⟩ : StreamEvent Model Node Stats Data) := id
  have hp' : ¬IsFinish (Posted.event ⟨source, .event model node event⟩ : StreamEvent Model Node Stats Data) := id
  unfold Current OrderlyEvent
  rw [handle_event_main, handle_take_handled]
  simp only [registered_of_eq hframe.1 hframe.2, latest_snoc hp, ended_snoc_of_not hp']
  exact (and_iff_left h.2).trans (imp_congr_right fun _ => h.mem_iff hsync)

theorem current_http {p : Posted Model Node Stats Data} (hp : IsHttp p.event) (h : Current s) :
    Current ((s.take p rest).handle ord p.event) := by
  have hs : ¬IsStart p.event := by cases he : p.event <;> simp_all [IsHttp, IsStart]
  have hf : ¬IsFinish p.event := by cases he : p.event <;> simp_all [IsHttp, IsFinish]
  have hframe := handle_event ord (s.take p rest) p.event hs hf
  have hmain : ((s.take p rest).handle ord p.event).main = s.main := by
    cases he : p.event <;> simp_all [IsHttp, handle, take]
  unfold Current
  rw [hmain, handle_take_handled]
  simp only [registered_of_eq hframe.1 hframe.2, latest_snoc hs, ended_snoc_of_not hf]
  exact h

omit [DecidableEq Model] [DecidableEq Node] [Inhabited Stats] in
/-- A `Start` on the queue is the first event of its connection. -/
theorem InOrder.not_ended (h : InOrder s) {source : Option ℕ} {tx : ℕ}
    (hrx : s.streamRx = ⟨source, .start model node tx⟩ :: rest) : ¬Ended s.handled tx := by
  rintro ⟨p, hp, hsource, -⟩
  have hfirst := h.first
  unfold posted at hfirst
  rw [hrx, List.pairwise_append] at hfirst
  exact hfirst.2.2 p hp _ List.mem_cons_self model node tx rfl hsource

omit [Inhabited Stats] in
/-- A connection is the latest of no pair but its own. -/
theorem InOrder.pair_of_latest (h : InOrder s) {c : ℕ} {t : WsTask Model Node Stats Data}
    (ht : s.tasks[c]? = some t) (hlatest : latest s.handled model node = some c) :
    model = t.model ∧ node = t.node := by
  obtain ⟨p, hp, hstart⟩ := latest_mem hlatest
  rcases h.own p (List.mem_append_left _ hp) with ⟨-, hhttp⟩ | ⟨d, u, -, hu, hown⟩
  · rw [hstart] at hhttp
    cases hhttp
  · rw [hstart] at hown
    obtain ⟨hmodel, hnode, rfl⟩ := hown
    obtain rfl := Option.some.inj (ht.symm.trans hu)
    exact ⟨hmodel, hnode⟩

/-- Taking an event leaves the registrations right just when it comes in order. -/
theorem current_recv_iff {p : Posted Model Node Stats Data} (horder : InOrder s) (hsync : Synced s)
    (h : Current s) (hrx : s.streamRx = p :: rest) :
    Current ((s.take p rest).handle ord p.event) ↔ OrderlyEvent s.handled p := by
  have hp : p ∈ s.posted := List.mem_append_right _ (hrx ▸ List.mem_cons_self)
  rcases horder.own p hp with ⟨-, hhttp⟩ | ⟨c, t, hsource, ht, hown⟩
  · refine iff_of_true (current_http hhttp h) ?_
    unfold OrderlyEvent
    split
    case h_1 he => simp [he, IsHttp] at hhttp
    case h_2 he => simp [he, IsHttp] at hhttp
    case h_3 => trivial
  · obtain ⟨source, event⟩ := p
    obtain rfl : source = some c := hsource
    cases event with
    | start model node tx => exact iff_of_true (current_start h (horder.not_ended hrx)) trivial
    | event model node event => exact current_event_iff hsync h
    | finish model node =>
      refine current_finish_iff h fun model' node' hlatest => ?_
      obtain ⟨hmodel, hnode⟩ := horder.pair_of_latest ht hlatest
      exact ⟨hmodel.trans hown.1.symm, hnode.trans hown.2.symm⟩
    | distribution model reply => cases hown
    | health reply => cases hown

theorem synced_handle (event : StreamEvent Model Node Stats Data) (h : Synced s) :
    Synced (s.handle ord event) := by
  by_cases hs : IsStart event
  · cases event with
    | start model node tx =>
      intro model' node'
      rw [handle_start_mem]
      by_cases hpair : model' = model ∧ node' = node
      · obtain ⟨rfl, rfl⟩ := hpair
        simp [handle, AList.lookup_insert]
      · have hkey : (model', node') ≠ (model, node) := by simpa [Prod.ext_iff] using hpair
        simp only [hpair, false_or, handle, AList.lookup_insert_ne hkey]
        exact h model' node'
    | _ => cases hs
  by_cases hf : IsFinish event
  · cases event with
    | finish model node =>
      intro model' node'
      rw [handle_finish_mem]
      by_cases hpair : model' = model ∧ node' = node
      · obtain ⟨rfl, rfl⟩ := hpair
        simp [handle, AList.lookup_erase]
      · have hkey : (model', node') ≠ (model, node) := by simpa [Prod.ext_iff] using hpair
        simp only [hpair, not_false_eq_true, true_and, handle, AList.lookup_erase_ne hkey]
        exact h model' node'
    | _ => cases hf
  obtain ⟨htx, hnodes⟩ := handle_event ord s event hs hf
  exact h.of_eq htx hnodes

theorem Step.synced {a : RegistryAction Model Node Stats Data} (hstep : Step s a s') (h : Synced s) :
    Synced s' := by
  rcases hstep.moves with ⟨model, node⟩ | ⟨_, -, c, t, t', -, -⟩ | ⟨c, t, e, -, -, -, -⟩ |
    ⟨_, -, e, -, -⟩ | ⟨ord, p, rest, -, -⟩ | ⟨model, tx, out, t, rx, -, -, -⟩
  · exact h
  · exact h
  · exact h
  · exact h
  · exact synced_handle p.event h
  · exact Synced.of_eq h (relay_streamsTx _) fun model' node' => by rw [relay_nodes]; rfl

theorem current_step_iff {a : RegistryAction Model Node Stats Data} (hstep : Step s a s')
    (horder : InOrder s) (hsync : Synced s) (h : Current s) : Current s' ↔ Orderly s a := by
  have htrivial : ∀ {a : RegistryAction Model Node Stats Data}, (∀ ord, a ≠ .recv ord) → Orderly s a := by
    intro a ha
    cases a with
    | recv ord => exact absurd rfl (ha ord)
    | _ => trivial
  rcases hstep.moves with ⟨model, node⟩ | ⟨_, ha, c, t, t', -, -⟩ | ⟨c, t, e, -, -, -, -⟩ |
    ⟨_, ha, e, -, -⟩ | ⟨ord, p, rest, -, hrx⟩ | ⟨model, tx, out, t, rx, hmain, -, -⟩
  · exact iff_of_true h trivial
  · exact iff_of_true h (htrivial ha)
  · exact iff_of_true h trivial
  · exact iff_of_true h (htrivial ha)
  · rw [current_recv_iff horder hsync h hrx]
    refine ⟨fun hev q rest' hq => ?_, ?_⟩
    · obtain ⟨rfl, -⟩ := List.cons.inj (hrx.symm.trans hq)
      exact hev
    · exact fun hord => hord p rest hrx
  · refine iff_of_true ((Current.of_eq ?_ (relay_streamsTx _) ?_ (relay_handled _)).mpr h) trivial
    · exact iff_of_true (relay_frame _ _).2.2.2.2.1 (by simp [hmain])
    · intro model' node'
      rw [relay_nodes]

end Recv

theorem synced_empty : Synced ({} : Registry Model Node Stats Data) := by
  intro model node
  simp [entry]

theorem current_empty : Current ({} : Registry Model Node Stats Data) := by
  refine ⟨by simp, fun model node c => ?_⟩
  simp [Registered, latest]

/-- In every run in which each `End` that is taken is that of the pair's latest connection, or
comes when that has ended, and layers and statistics come only from nodes whose latest
connection has not ended, the registry lives and its registrations are those of the latest
connections; and the first step of any other kind breaks this. -/
theorem registrations_current [Inhabited Stats] {acts : List (RegistryAction Model Node Stats Data)}
    (hrun : Run OrderlyStep {} acts s) :
    Current s ∧ ∀ a s', Step s a s' → (Current s' ↔ Orderly s a) := by
  have hinv : InOrder s ∧ Synced s ∧ Current s := by
    refine hrun.invariant (P := fun s => InOrder s ∧ Synced s ∧ Current s)
      ⟨inOrder_empty, synced_empty, current_empty⟩ ?_
    rintro s a s' ⟨hstep, horderly⟩ ⟨horder, hsync, hcur⟩
    exact ⟨hstep.inOrder horder, hstep.synced hsync, (current_step_iff hstep horder hsync hcur).mpr horderly⟩
  obtain ⟨horder, hsync, hcur⟩ := hinv
  exact ⟨hcur, fun a s' hstep => current_step_iff hstep horder hsync hcur⟩

instance : DecidablePred (IsFinish : StreamEvent Model Node Stats Data → Prop) := fun event =>
  match event with
  | .finish _ _ => isTrue trivial
  | .start _ _ _ | .event _ _ _ | .distribution _ _ | .health _ => isFalse id

instance (events : List (Posted Model Node Stats Data)) : DecidablePred (Ended events) := fun c =>
  inferInstanceAs (Decidable (∃ p ∈ events, p.source = some c ∧ IsFinish p.event))

/-- A connection that starts, tells its layers and ends. -/
def firstConnection : List (RegistryAction Unit Unit Unit Unit) :=
  [.connect () (), .post 0, .recv .asIs, .read 0 (.update 0 3), .post 0, .recv .asIs, .deliver, .hangUp 0, .post 0, .recv .asIs]

/-- The next connection of the node. -/
def nextConnection : List (RegistryAction Unit Unit Unit Unit) :=
  [.connect () (), .post 1, .recv .asIs, .read 1 (.update 2 3), .post 1, .recv .asIs]

/-- A reconnect after the first connection has ended: the node is registered with the second one, and with its layers. -/
theorem registrations_current_reconnect :
    ∃ s s' : Registry Unit Unit Unit Unit,
      Run OrderlyStep {} firstConnection s ∧ Current s ∧ ¬s.Registered () () 0 ∧
      Run OrderlyStep {} (firstConnection ++ nextConnection) s' ∧ Current s' ∧ s'.Registered () () 1 ∧
      ((s'.entry ()).nodes.lookup ()).map NodeInfo.layers = some (some ⟨2, 3⟩) := by
  have hstart : ∃ s : Registry Unit Unit Unit Unit, Run OrderlyStep {} firstConnection s ∧
      ∃ s', Run OrderlyStep s nextConnection s' ∧ s.streamsTx.lookup ((), ()) = none ∧ s'.Registered () () 1 ∧
        ((s'.entry ()).nodes.lookup ()).map NodeInfo.layers = some (some ⟨2, 3⟩) := by
    refine ⟨_, .cons ⟨rfl, trivial⟩ (.cons ⟨rfl, trivial⟩ (.cons ⟨rfl, ?_⟩ (.cons ⟨rfl, trivial⟩ (.cons ⟨rfl, trivial⟩
      (.cons ⟨rfl, ?_⟩ (.cons ⟨rfl, trivial⟩ (.cons ⟨rfl, trivial⟩ (.cons ⟨rfl, trivial⟩ (.cons ⟨rfl, ?_⟩ .nil))))))))),
      _, .cons ⟨rfl, trivial⟩ (.cons ⟨rfl, trivial⟩ (.cons ⟨rfl, ?_⟩ (.cons ⟨rfl, trivial⟩ (.cons ⟨rfl, trivial⟩
      (.cons ⟨rfl, ?_⟩ .nil))))), rfl, ⟨by decide, rfl⟩, rfl⟩
    · rintro p rest ⟨⟩
      trivial
    · -- the node is alive when its layers come
      rintro p rest ⟨⟩ -
      exact ⟨0, rfl, by decide⟩
    · rintro p rest ⟨⟩ c ⟨⟩
      exact .inl rfl
    · rintro p rest ⟨⟩
      trivial
    · rintro p rest ⟨⟩ -
      exact ⟨1, rfl, by decide⟩
  obtain ⟨s, hs, s', hs', hnone, hreg, hlayers⟩ := hstart
  refine ⟨s, s', hs, (registrations_current hs).1, ?_, hs.append hs', (registrations_current (hs.append hs')).1, hreg, hlayers⟩
  rintro ⟨-, hlookup⟩
  rw [hnone] at hlookup
  cases hlookup

/-- A node connects twice, and the first connection ends because it was replaced. -/
def reconnect : List (RegistryAction Unit Unit Unit Unit) :=
  [.connect () (), .post 0, .recv .asIs, .connect () (), .post 1, .recv .asIs, .dropped 0, .post 0, .recv .asIs]

/-- The second connection, which is alive, has lost its registration, and the next layers it
sends kill the registry. -/
theorem reconnect_kills_registry :
    ∃ s s' : Registry Unit Unit Unit Unit, Run Step {} reconnect s ∧
      latest s.handled () () = some 1 ∧ ¬Ended s.handled 1 ∧ ¬s.Registered () () 1 ∧
      Run Step s [.read 1 (.update 0 1), .post 1, .recv .asIs] s' ∧ s'.main = .panicked := by
  have hfirst : ∃ s, reconnect.foldlM step {} = some s ∧ latest s.handled () () = some 1 ∧
      ¬Ended s.handled 1 ∧ s.streamsTx.lookup ((), ()) = none ∧
      ∃ s', [.read 1 (.update 0 1), .post 1, .recv .asIs].foldlM step s = some s' ∧ s'.main = .panicked :=
    ⟨_, rfl, rfl, by decide, rfl, _, rfl, rfl⟩
  obtain ⟨s, hs, hlatest, hended, hnone, s', hs', hpanic⟩ := hfirst
  refine ⟨s, s', Run.of_foldlM hs, hlatest, hended, ?_, Run.of_foldlM hs', hpanic⟩
  rintro ⟨-, hreg⟩
  rw [hnone] at hreg
  cases hreg

end Dllm.Registry
