import DecentralizedInference.Proofs.Reconnect

/-! The cyclic wait of the registry: the main loop waits for room at a connection whose task
waits for room at the main loop. It cannot come up as long as the main loop only takes
events whose receiver has room; from any other event the clients can bring it about. -/

namespace Dllm

namespace SessionManager

variable {Node Stats Data : Type} [DecidableEq Node] {ord : IterOrder Node} {node : Node}
  {m m' : SessionManager Node Stats Data}

/-- The node that the answer to an event goes to. -/
def dest (m : SessionManager Node Stats Data) (node : Node) : ToRegistry Node Stats Data → Option Node
  | .update _ _ | .neighbours => some node
  | .relay dest _ => if dest ∈ m.nodes then some dest else none
  | .stats _ => none

/-- An event queues one answer at most. -/
theorem onEvent_events {event : ToRegistry Node Stats Data} (h : m.onEvent ord node event = .ok m') :
    m'.events = m.events ∧ m.dest node event = none ∨
      ∃ d out, m'.events = m.events ++ [(d, out)] ∧ m.dest node event = some d := by
  unfold onEvent at h
  split at h
  · split at h
    · cases h
    · cases h
      exact .inr ⟨_, _, rfl, rfl⟩
  · cases h
    exact .inr ⟨_, _, rfl, rfl⟩
  · split at h
    case isTrue hd =>
      cases h
      exact .inr ⟨_, _, rfl, if_pos (AList.lookup_isSome.mp hd)⟩
    case isFalse hd =>
      cases h
      exact .inl ⟨rfl, if_neg fun hmem => hd (AList.lookup_isSome.mpr hmem)⟩
  · split at h
    · cases h
    · cases h
      exact .inl ⟨rfl, rfl⟩

end SessionManager

namespace Registry

variable {Model Node Stats Data : Type} [DecidableEq Model] [DecidableEq Node]
  {s s' : Registry Model Node Stats Data} {ord : IterOrder Node}

/-- The main loop waits for room at a connection whose task waits for room at the main loop. -/
def Deadlocked (s : Registry Model Node Stats Data) : Prop :=
  ∃ model c out t e, s.main = .sending model c out ∧ s.tasks[c]? = some t ∧ t.phase = .sending e ∧
    CHANNEL_SIZE ≤ t.rx.length ∧ CHANNEL_SIZE ≤ s.streamRx.length

/-- The connection that the answer to an event goes to. -/
def target (s : Registry Model Node Stats Data) : StreamEvent Model Node Stats Data → Option ℕ
  | .event model node event =>
    ((s.entry model).dest node event).bind fun d => s.streamsTx.lookup (model, d)
  | _ => none

/-- The channel of the connection takes one more message, or gives it back at once. -/
def HasRoom (s : Registry Model Node Stats Data) (c : ℕ) : Prop :=
  ∀ t, s.tasks[c]? = some t → t.phase = .closed ∨ t.rx.length < CHANNEL_SIZE

def Roomy (s : Registry Model Node Stats Data) : RegistryAction Model Node Stats Data → Prop
  | .recv _ => ∀ p rest, s.streamRx = p :: rest → ∀ c, s.target p.event = some c → s.HasRoom c
  | _ => True

def RoomyStep [Inhabited Stats] (s : Registry Model Node Stats Data)
    (a : RegistryAction Model Node Stats Data) (s' : Registry Model Node Stats Data) : Prop :=
  Step s a s' ∧ Roomy s a

/-- No manager has events that wait to be popped. -/
def Popped (s : Registry Model Node Stats Data) : Prop := ∀ model, (s.entry model).events = []

theorem relay_events (model model' : Model) : ((s.relay model).entry model').events =
    if model' = model then (popOuts s.streamsTx model (s.entry model).events).2 else (s.entry model').events := by
  have hentry : ∀ events : List (Node × ToWorker Node Data),
      ((s.setEntry model { s.entry model with events }).entry model').events =
        if model' = model then events else (s.entry model').events := by
    intro events
    rw [entry_setEntry]
    split <;> rfl
  unfold relay
  split
  case h_1 events hpop =>
    rw [hpop]
    exact hentry events
  case h_2 events hpop =>
    rw [hpop]
    exact hentry events

/-- The loop over `pop_out` with one event at most: it is sent if its node has a stream. -/
theorem relay_one {model : Model} {d : Option Node}
    (hm : (s.entry model).events = [] ∧ d = none ∨ ∃ n out, (s.entry model).events = [(n, out)] ∧ d = some n) :
    (popOuts s.streamsTx model (s.entry model).events).2 = [] ∧
      (match d.bind fun n => s.streamsTx.lookup (model, n) with
      | none => (s.relay model).main = .receiving
      | some c => ∃ out, (s.relay model).main = .sending model c out) := by
  unfold relay
  rcases hm with ⟨hevents, rfl⟩ | ⟨n, out, hevents, rfl⟩
  · rw [hevents]
    exact ⟨rfl, rfl⟩
  · rw [hevents]
    simp only [Option.bind_some]
    rcases hlookup : s.streamsTx.lookup (model, n) with _ | tx
    · simp [popOuts, hlookup]
    · simp [popOuts, hlookup]

section Handle

variable [Inhabited Stats]

/-- What `recv` does with the managers' queues, and whom it then sends to. -/
theorem handle_sends (ord : IterOrder Node) (event : StreamEvent Model Node Stats Data) (h : Popped s)
    (hmain : s.main = .receiving) :
    Popped (s.handle ord event) ∧
      (match s.target event with
      | none => ∀ model c out, (s.handle ord event).main ≠ .sending model c out
      | some c => (s.handle ord event).main = .panicked ∨
          ∃ model out, (s.handle ord event).main = .sending model c out) := by
  have hset : ∀ (model : Model) (m : SessionManager Node Stats Data) (model' : Model),
      m.events = [] → ((s.setEntry model m).entry model').events = [] := by
    intro model m model' hm
    rw [entry_setEntry]
    split
    · exact hm
    · exact h model'
  cases event with
  | start model node tx =>
    refine ⟨fun model' => hset model _ model' (h model), ?_⟩
    intro model' c out
    simp [handle, setEntry, hmain]
  | finish model node =>
    refine ⟨fun model' => hset model _ model' (h model), ?_⟩
    intro model' c out
    simp [handle, setEntry, hmain]
  | distribution model reply => exact ⟨h, fun model' c out => by simp [handle, hmain]⟩
  | health reply => exact ⟨h, fun model' c out => by simp [handle, hmain]⟩
  | event model node event =>
    unfold handle
    simp only
    split
    case h_1 =>
      refine ⟨h, ?_⟩
      split
      · simp
      · exact .inl rfl
    case h_2 m hm =>
      have hentry : (s.setEntry model m).entry model = m := by rw [entry_setEntry, if_pos rfl]
      have hevents := SessionManager.onEvent_events hm
      simp only [h model, List.nil_append] at hevents
      rw [← hentry] at hevents
      obtain ⟨hpopped, hsends⟩ := relay_one hevents
      refine ⟨fun model' => ?_, ?_⟩
      · rw [relay_events]
        split
        case isTrue => exact hpopped
        case isFalse hne =>
          rw [entry_setEntry, if_neg hne]
          exact h model'
      · change match ((s.entry model).dest node event).bind fun d => s.streamsTx.lookup (model, d) with
          | none => _
          | some c => _
        split
        case h_1 hnone =>
          rw [show (s.setEntry model m).streamsTx = s.streamsTx from rfl, hnone] at hsends
          intro model' c out
          simp [hsends]
        case h_2 c hsome =>
          rw [show (s.setEntry model m).streamsTx = s.streamsTx from rfl, hsome] at hsends
          exact .inr ⟨model, hsends⟩

/-- An event whose answer goes to a connection does not kill the main loop. -/
theorem handle_target_main (ord : IterOrder Node) {event : StreamEvent Model Node Stats Data} {c : ℕ}
    (hsync : Synced s) (htarget : s.target event = some c) : (s.handle ord event).main ≠ .panicked := by
  cases event with
  | event model node event =>
    rw [handle_event_main]
    intro hneeds
    cases event with
    | update l l' => exact (hsync model node).mpr ⟨c, htarget⟩
    | stats st => cases htarget
    | neighbours => cases hneeds
    | relay dest data => cases hneeds
  | _ => cases htarget

/-- Whom the main loop waits for has room. -/
def Served (s : Registry Model Node Stats Data) : Prop :=
  ∀ model c out, s.main = .sending model c out → s.HasRoom c

omit [DecidableEq Model] [DecidableEq Node] [Inhabited Stats] in
theorem hasRoom_of_eq {c : ℕ} (h : s.HasRoom c) (htasks : s'.tasks = s.tasks) : s'.HasRoom c := by
  unfold HasRoom
  rw [htasks]
  exact h

omit [DecidableEq Model] [DecidableEq Node] [Inhabited Stats] in
/-- A task changes to one that holds no more messages, and a closed one does not change. -/
theorem hasRoom_set {c d : ℕ} {t t' : WsTask Model Node Stats Data} (h : s.HasRoom c)
    (ht : s.tasks[d]? = some t) (hphase : t.phase ≠ .closed) (hrx : t'.rx.length ≤ t.rx.length) :
    HasRoom { s with tasks := s.tasks.set d t' } c := by
  intro u hu
  by_cases hdc : d = c
  · subst hdc
    obtain rfl : t' = u := by
      have hd : d < s.tasks.length := (List.getElem?_eq_some_iff.mp ht).1
      simpa [hd] using hu
    rcases h t ht with hclosed | hroom
    · exact absurd hclosed hphase
    · exact .inr (hrx.trans_lt hroom)
  · exact h u (by simpa [List.getElem?_set_ne hdc] using hu)

theorem served_step {a : RegistryAction Model Node Stats Data} (hstep : RoomyStep s a s')
    (hpopped : Popped s) (h : Served s) : Popped s' ∧ Served s' := by
  obtain ⟨hstep, hroomy⟩ := hstep
  rcases hstep.moves with ⟨model, node⟩ | ⟨_, -, c, t, t', ht, hmove⟩ | ⟨c, t, e, ht, hphase, -, -⟩ |
    ⟨_, -, e, -, -⟩ | ⟨ord, p, rest, hmain, hrx⟩ | ⟨model, tx, out, t, rx, hmain, -, -⟩
  · refine ⟨hpopped, fun model' c out hmain u hu => ?_⟩
    by_cases hc : c < s.tasks.length
    · exact h model' c out hmain u (by rwa [List.getElem?_append_left hc] at hu)
    · -- the connection that has just come has an empty channel
      have hlen := (List.getElem?_eq_some_iff.mp hu).1
      obtain rfl : c = s.tasks.length := by
        simp only [List.length_append, List.length_singleton] at hlen
        omega
      rw [List.getElem?_concat_length] at hu
      cases hu
      exact .inr (Nat.zero_lt_succ 9)
  · exact ⟨hpopped, fun model' d out hmain => hasRoom_set (h model' d out hmain) ht
      (by simp [hmove.selecting]) hmove.rx.length_le⟩
  · exact ⟨hpopped, fun model' d out hmain => hasRoom_set (h model' d out hmain) ht
      (by simp [hphase]) le_rfl⟩
  · exact ⟨hpopped, h⟩
  · obtain ⟨hpopped', hsends⟩ := handle_sends ord p.event (show Popped (s.take p rest) from hpopped) hmain
    refine ⟨hpopped', fun model' c out hmain' => ?_⟩
    have htasks := (handle_queues ord (s.take p rest) p.event).2.1
    refine hasRoom_of_eq ?_ htasks
    have htarget : (s.take p rest).target p.event = s.target p.event := rfl
    rw [htarget] at hsends
    rcases hd : s.target p.event with _ | d
    · rw [hd] at hsends
      exact absurd hmain' (hsends model' c out)
    · rw [hd] at hsends
      rcases hsends with hpanic | ⟨model'', out', hsending⟩
      · rw [hpanic] at hmain'
        cases hmain'
      · rw [hsending] at hmain'
        cases hmain'
        exact hroomy p rest hrx c hd
  · have hevents : ({ s with tasks := s.tasks.set tx { t with rx } }.entry model).events = [] ∧
        (none : Option Node) = none ∨ ∃ n out, ({ s with tasks := s.tasks.set tx { t with rx } }.entry
          model).events = [(n, out)] ∧ none = some n := .inl ⟨hpopped model, rfl⟩
    obtain ⟨hnil, hrecv⟩ := relay_one hevents
    refine ⟨fun model' => ?_, fun model' c out hmain' => ?_⟩
    · rw [relay_events]
      split
      · exact hnil
      · exact hpopped model'
    · rw [show (relay _ model).main = .receiving from hrecv] at hmain'
      cases hmain'

/-- New connections fill the queue to the main loop, whatever else the tasks do. -/
theorem fill_queue (k : ℕ) (model : Model) (node : Node) (s : Registry Model Node Stats Data)
    (hmain : s.main ≠ .panicked) (hk : CHANNEL_SIZE ≤ s.streamRx.length + k) :
    ∃ (acts : List (RegistryAction Model Node Stats Data)) (s' : Registry Model Node Stats Data),
      Run Step s acts s' ∧ s'.main = s.main ∧ CHANNEL_SIZE ≤ s'.streamRx.length ∧
      ∀ (c : ℕ) t, s.tasks[c]? = some t → s'.tasks[c]? = some t := by
  induction k generalizing s with
  | zero => exact ⟨[], s, .nil, rfl, hk, fun _ _ h => h⟩
  | succ k ih =>
    by_cases hfull : CHANNEL_SIZE ≤ s.streamRx.length
    · exact ⟨[], s, .nil, rfl, hfull, fun _ _ h => h⟩
    let t : WsTask Model Node Stats Data := ⟨model, node, .sending (.start model node s.tasks.length), []⟩
    let s₁ : Registry Model Node Stats Data := { s with tasks := s.tasks ++ [t] }
    let s₂ : Registry Model Node Stats Data :=
      { s₁.post ⟨some s.tasks.length, .start model node s.tasks.length⟩ with
        tasks := s₁.tasks.set s.tasks.length { t with phase := .selecting } }
    have hconnect : Step s (.connect model node) s₁ := rfl
    have hpost : Step s₁ (.post s.tasks.length) s₂ :=
      step_post (t := t) List.getElem?_concat_length rfl hmain (not_le.mp hfull)
    have hlen : CHANNEL_SIZE ≤ s₂.streamRx.length + k := by
      have hs₂ : s₂.streamRx.length = s.streamRx.length + 1 := List.length_append
      omega
    obtain ⟨acts, s', hrun, hmain', hlen', htasks⟩ := ih s₂ hmain hlen
    refine ⟨_, s', .cons hconnect (.cons hpost hrun), hmain', hlen', fun c u hu => htasks c u ?_⟩
    have hc : c < s.tasks.length := (List.getElem?_eq_some_iff.mp hu).1
    simp only [s₂, s₁]
    rw [List.getElem?_set_ne (by omega), List.getElem?_append_left hc]
    exact hu

/-- Once the main loop waits for a connection that is alive and has no room, the clients can
close the circle. -/
theorem deadlock_reachable {model : Model} {c : ℕ} {out : ToWorker Node Data}
    {t : WsTask Model Node Stats Data} (hmain : s.main = .sending model c out)
    (ht : s.tasks[c]? = some t) (halive : t.phase ≠ .closed) (hfull : CHANNEL_SIZE ≤ t.rx.length) :
    ∃ acts s', Run Step s acts s' ∧ Deadlocked s' := by
  obtain ⟨acts, s₁, hrun, hmain₁, hlen, htasks⟩ :=
    fill_queue CHANNEL_SIZE t.model t.node s (by simp [hmain]) (Nat.le_add_left _ _)
  have ht₁ := htasks c t ht
  obtain ⟨m, n, phase, rx⟩ := t
  cases phase with
  | closed => exact absurd rfl halive
  | sending e => exact ⟨acts, s₁, hrun, model, c, out, _, e, hmain₁.trans hmain, ht₁, rfl, hfull, hlen⟩
  | selecting =>
    have hread := step_read ht₁ .neighbours
    have hc : c < s₁.tasks.length := (List.getElem?_eq_some_iff.mp ht₁).1
    exact ⟨_, _, .snoc hrun hread, model, c, out, _, _, hmain₁.trans hmain,
      List.getElem?_set_self hc, rfl, hfull, hlen⟩

end Handle

omit [DecidableEq Node] in
theorem popped_empty : Popped ({} : Registry Model Node Stats Data) := fun _ => rfl

/-- In every run in which the receiver of each answer has room when the main loop takes the
event off the queue, nobody waits in a circle; and from every other step the clients can
bring the circle about. -/
theorem deadlock_free_while_roomy [Inhabited Stats] {acts : List (RegistryAction Model Node Stats Data)}
    (hrun : Run RoomyStep {} acts s) :
    ¬Deadlocked s ∧ ∀ a s', Step s a s' → ¬Roomy s a → ∃ acts' s'', Run Step s' acts' s'' ∧ Deadlocked s'' := by
  have hinv : Synced s ∧ Popped s ∧ Served s := by
    refine hrun.invariant (P := fun s => Synced s ∧ Popped s ∧ Served s)
      ⟨synced_empty, popped_empty, by intro model c out h; cases h⟩ ?_
    rintro s a s' hstep ⟨hsync, hpopped, hserved⟩
    exact ⟨hstep.1.synced hsync, served_step hstep hpopped hserved⟩
  obtain ⟨hsync, hpopped, hserved⟩ := hinv
  refine ⟨fun ⟨model, c, out, t, e, hmain, ht, hphase, hfull, _⟩ => ?_, fun a s' hstep hnot => ?_⟩
  · rcases hserved model c out hmain t ht with hclosed | hroom
    · rw [hphase] at hclosed
      cases hclosed
    · omega
  · cases a with
    | recv ord =>
      have hno : ∃ p rest, s.streamRx = p :: rest ∧ ∃ c, s.target p.event = some c ∧ ¬s.HasRoom c := by
        unfold Roomy at hnot
        simp only [not_forall] at hnot
        obtain ⟨p, rest, hrx, c, hc, hroom⟩ := hnot
        exact ⟨p, rest, hrx, c, hc, hroom⟩
      obtain ⟨p, rest, hrx, c, hc, hroom⟩ := hno
      unfold HasRoom at hroom
      simp only [not_forall, not_or, not_lt] at hroom
      obtain ⟨t, ht, halive, hfull⟩ := hroom
      cases hstep.moves with
      | task _ ha => exact absurd rfl (ha ord)
      | http _ ha => exact absurd rfl (ha ord)
      | recv _ q rest' hmain hrx' =>
        obtain ⟨rfl, rfl⟩ := List.cons.inj (hrx.symm.trans hrx')
        have hlives : ((s.take p rest).handle ord p.event).main ≠ .panicked := handle_target_main ord hsync hc
        obtain ⟨-, hsends⟩ := handle_sends ord p.event (show Popped (s.take p rest) from hpopped) hmain
        have htarget : (s.take p rest).target p.event = some c := hc
        rw [htarget] at hsends
        rcases hsends with hpanic | ⟨model, out, hsending⟩
        · exact absurd hpanic hlives
        · have htasks := (handle_queues ord (s.take p rest) p.event).2.1
          exact deadlock_reachable hsending (by rw [htasks]; exact ht) halive hfull
    | _ => exact absurd trivial hnot

/-- A client asks for its neighbours and is answered. -/
theorem deadlock_free_while_roomy_one_client :
    ∃ s : Registry Unit Unit Unit Unit,
      Run RoomyStep {} [.connect () (), .post 0, .recv .asIs, .read 0 .neighbours, .post 0, .recv .asIs] s ∧
      s.main = .sending () 0 (.neighbours []) ∧ ¬Deadlocked s := by
  have hrun : ∃ s : Registry Unit Unit Unit Unit,
      Run RoomyStep {} [.connect () (), .post 0, .recv .asIs, .read 0 .neighbours, .post 0, .recv .asIs] s ∧
      s.main = .sending () 0 (.neighbours []) := by
    refine ⟨_, .cons ⟨rfl, trivial⟩ (.cons ⟨rfl, trivial⟩ (.cons ⟨rfl, ?_⟩ (.cons ⟨rfl, trivial⟩
      (.cons ⟨rfl, trivial⟩ (.cons ⟨rfl, ?_⟩ .nil))))), rfl⟩
    · rintro p rest ⟨⟩ c ⟨⟩
    · rintro p rest ⟨⟩ c ⟨⟩ t ⟨⟩
      exact .inr (Nat.zero_lt_succ 9)
  obtain ⟨s, hs, hmain⟩ := hrun
  exact ⟨s, hs, hmain, (deadlock_free_while_roomy hs).1⟩

/-- One client asks, and asks again before it is given the answers: ten answers fill its
channel, ten questions the queue, and of the next two one is taken and one waits. -/
def impatient : List (RegistryAction Unit Unit Unit Unit) :=
  [.connect () (), .post 0, .recv .asIs] ++
    (List.replicate CHANNEL_SIZE [.read 0 .neighbours, .post 0]).flatten ++
    (List.replicate CHANNEL_SIZE [.recv .asIs, .deliver]).flatten ++
    (List.replicate CHANNEL_SIZE [.read 0 .neighbours, .post 0]).flatten ++
    [.read 0 .neighbours, .recv .asIs, .post 0, .read 0 .neighbours]

theorem impatient_client_deadlocks : ∃ s, Run Step {} impatient s ∧ Deadlocked s :=
  ⟨_, Run.of_foldlM rfl, (), 0, _, _, _, rfl, rfl, rfl, by decide, by decide⟩

end Registry
end Dllm
