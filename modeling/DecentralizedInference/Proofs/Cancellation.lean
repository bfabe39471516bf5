import DecentralizedInference.Lib.Ledger
import DecentralizedInference.Spec.RegistryRecv

/-! Which messages of a `RegistryClient` reach the websocket: all of them, once and in order, if
and only if no future of `recv` ends while its `send` still waits for the sink. -/

namespace Dllm

variable {Node Stats : Type}

/-- `recv` is called and goes on by itself. -/
def RecvEvent.RunsOn : RecvEvent Node Stats → Prop
  | call => True
  | ready => True
  | flushed => True
  | _ => False

namespace ClientRecv

/-- What has been queued and not been taken: the message in hand, then the queue. -/
def outstanding (s : ClientRecv Node Stats) : List (ToRegistry Node Stats RelayData) :=
  match s.phase with
  | .waiting req => req :: s.client.queue
  | _ => s.client.queue

/-- The future ends, and a message in its hand with it. -/
def Loses (s : ClientRecv Node Stats) : RecvEvent Node Stats → Prop
  | .drop => ∃ req, s.phase = .waiting req
  | .failed => ∃ req, s.phase = .waiting req
  | _ => False

/-- No event of a history loses a message. -/
def NeverLoses (es : List (RecvEvent Node Stats)) : Prop :=
  NeverIn step ({} : ClientRecv Node Stats) Loses es

theorem apply_push {c : RegistryCall Node Stats} {client client' : RegistryClient Node Stats}
    (h : c.apply client = .ok client') : ∃ m, client'.queue = client.queue ++ [m] := by
  cases c with
  | updateStats stats =>
    obtain rfl := Except.ok.inj h
    exact ⟨_, rfl⟩
  | updateLayer layersRange =>
    obtain rfl := Except.ok.inj h
    exact ⟨_, rfl⟩
  | offer dest connId offer =>
    obtain rfl := Except.ok.inj h
    exact ⟨_, rfl⟩
  | answer dest connId answer =>
    cases answer with
    | error e => simp [RegistryCall.apply, RegistryClient.answer] at h
    | ok sdp =>
      obtain rfl := Except.ok.inj h
      exact ⟨_, rfl⟩

/-- Popping takes nothing out of sight, and it reads only when there is nothing left. -/
theorem popFront_spec (s : ClientRecv Node Stats) :
    s.popFront.outstanding = s.client.queue ∧ s.popFront.taken = s.taken ∧ s.popFront.pushed = s.pushed ∧
      (s.popFront.phase = .reading → s.popFront.client.queue = []) := by
  unfold popFront outstanding
  cases hq : s.client.queue with
  | nil => simp [hq]
  | cons req queue => simp

/-- What has been taken, with what is to come. -/
def account (s : ClientRecv Node Stats) : List (ToRegistry Node Stats RelayData) := s.taken ++ s.outstanding

/-- One event: the account grows by what is queued, or it loses the message in hand. -/
theorem step_account (s : ClientRecv Node Stats) (e : RecvEvent Node Stats) (t : ClientRecv Node Stats)
    (h : s.step e = some t) : ∃ added, t.pushed = s.pushed ++ added ∧
      (¬s.Loses e ∧ t.account = s.account ++ added ∨
        s.Loses e ∧ t.account.length < s.account.length + added.length) := by
  have hsame : ∀ {u : ClientRecv Node Stats}, ¬s.Loses e → u.taken = s.taken → u.pushed = s.pushed →
      u.outstanding = s.outstanding → ∃ added, u.pushed = s.pushed ++ added ∧
        (¬s.Loses e ∧ u.account = s.account ++ added ∨
          s.Loses e ∧ u.account.length < s.account.length + added.length) := by
    intro u hkeep htaken hpushed hout
    refine ⟨[], by rw [hpushed, List.append_nil], .inl ⟨hkeep, ?_⟩⟩
    rw [account, htaken, hout, List.append_nil, account]
  have hpop : s.outstanding = s.client.queue → s.popFront.outstanding = s.outstanding := fun hs =>
    s.popFront_spec.1.trans hs.symm
  unfold step at h
  split at h <;> simp only [Option.some.injEq, Option.map_eq_some_iff, reduceCtorEq] at h
  case h_1 c hphase =>
    obtain ⟨client, hclient, rfl⟩ := h
    obtain ⟨m, hm⟩ := apply_push (Except.toOption_eq_some_iff.mp hclient)
    refine ⟨[m], ?_, .inl ⟨nofun, ?_⟩⟩
    · simp [hm]
    · simp [account, outstanding, hphase, hm]
  case h_2 hphase =>
    subst h
    exact hsame nofun s.popFront_spec.2.1 s.popFront_spec.2.2.1 (hpop (by simp [outstanding, hphase]))
  case h_3 req hphase =>
    subst h
    exact ⟨[], by simp, .inl ⟨nofun, by simp [account, outstanding, hphase]⟩⟩
  case h_4 hphase =>
    subst h
    exact hsame nofun s.popFront_spec.2.1 s.popFront_spec.2.2.1 (hpop (by simp [outstanding, hphase]))
  case h_5 req hphase =>
    subst h
    exact ⟨[], by simp, .inr ⟨⟨req, hphase⟩, by simp [account, outstanding, hphase]⟩⟩
  case h_8 req hphase =>
    subst h
    exact ⟨[], by simp, .inr ⟨⟨req, hphase⟩, by simp [account, outstanding, hphase]⟩⟩
  all_goals
    rename_i hphase
    subst h
    exact hsame (by simp [Loses, hphase]) rfl rfl (by simp [outstanding, hphase])

/-- The stream is read only with an empty queue. -/
theorem reading_run {es : List (RecvEvent Node Stats)} {s : ClientRecv Node Stats}
    (hs : ({} : ClientRecv Node Stats).run es = some s) : s.phase = .reading → s.client.queue = [] := by
  induction es using List.reverseRecOn generalizing s with
  | nil =>
    obtain rfl := Option.some.inj hs
    exact nofun
  | append_singleton es e _ =>
    obtain ⟨q, -, hstep⟩ := List.foldlM_snoc_eq_some_iff.mp hs
    unfold step at hstep
    split at hstep <;> simp only [Option.some.injEq, Option.map_eq_some_iff, reduceCtorEq] at hstep
    case h_1 hphase =>
      obtain ⟨client, -, rfl⟩ := hstep
      simp [hphase]
    case h_2 =>
      subst hstep
      exact q.popFront_spec.2.2.2
    case h_4 =>
      subst hstep
      exact q.popFront_spec.2.2.2
    all_goals
      subst hstep
      exact nofun

/-- A future that goes on by itself loses nothing. -/
theorem not_loses_of_runsOn {e : RecvEvent Node Stats} (he : e.RunsOn) (s : ClientRecv Node Stats) : ¬s.Loses e := by
  cases e <;> first | exact id | exact he.elim

/-- From where it pops on, the future gets to the end of the queue. -/
theorem popFront_reads (n : ℕ) : ∀ s : ClientRecv Node Stats, s.client.queue.length = n →
    ∃ es t, s.popFront.run es = some t ∧ (∀ e ∈ es, e.RunsOn) ∧ t.phase = .reading := by
  induction n with
  | zero =>
    intro s hs
    refine ⟨[], s.popFront, rfl, nofun, ?_⟩
    unfold popFront
    rw [List.eq_nil_of_length_eq_zero hs]
  | succ n ih =>
    intro s hs
    obtain ⟨req, queue, hq⟩ := List.exists_cons_of_length_eq_add_one hs
    let flushing : ClientRecv Node Stats :=
      { s with client := ⟨queue⟩, phase := .flushing, taken := s.taken ++ [req] }
    obtain ⟨es, t, ht, hes, hphase⟩ := ih flushing (by simpa [flushing, hq] using hs)
    refine ⟨.ready :: .flushed :: es, t, ?_, fun e he => ?_, hphase⟩
    · unfold popFront
      rw [hq]
      exact ht
    · obtain rfl | rfl | he := by simpa using he
      · trivial
      · trivial
      · exact hes e he

/-- Wherever it stands, `recv` can get to the end of its queue. -/
theorem reads (s : ClientRecv Node Stats) :
    ∃ es t, s.run es = some t ∧ (∀ e ∈ es, e.RunsOn) ∧ t.phase = .reading := by
  have hcons : ∀ (e : RecvEvent Node Stats) (q : ClientRecv Node Stats), e.RunsOn → s.step e = some q →
      (∃ es t, q.run es = some t ∧ (∀ e ∈ es, e.RunsOn) ∧ t.phase = .reading) →
      ∃ es t, s.run es = some t ∧ (∀ e ∈ es, e.RunsOn) ∧ t.phase = .reading := by
    intro e q he hstep hq
    obtain ⟨es, t, ht, hes, hphase⟩ := hq
    refine ⟨e :: es, t, ?_, fun e' he' => ?_, hphase⟩
    · unfold run at ht ⊢
      rw [List.foldlM_cons, hstep]
      exact ht
    · obtain rfl | he' := List.mem_cons.mp he'
      · exact he
      · exact hes e' he'
  cases hphase : s.phase with
  | idle => exact hcons .call s.popFront trivial (by simp [step, hphase]) (popFront_reads _ s rfl)
  | flushing => exact hcons .flushed s.popFront trivial (by simp [step, hphase]) (popFront_reads _ s rfl)
  | reading => exact ⟨[], s, rfl, nofun, hphase⟩
  | waiting req =>
    let flushing : ClientRecv Node Stats := { s with phase := .flushing, taken := s.taken ++ [req] }
    refine hcons .ready flushing trivial (by simp [step, hphase, flushing]) ?_
    obtain ⟨es, t, ht, hes, hend⟩ := popFront_reads _ flushing rfl
    refine ⟨.flushed :: es, t, ht, fun e he => ?_, hend⟩
    obtain rfl | he := List.mem_cons.mp he
    · trivial
    · exact hes e he

/-- After any history `recv` can run until its queue is empty; and the sink has then taken every
queued message once and in order, if and only if no future has ended while its `send` waited. -/
theorem taken_once_iff {es : List (RecvEvent Node Stats)} {s : ClientRecv Node Stats}
    (hs : ({} : ClientRecv Node Stats).run es = some s) :
    (∃ es' t, s.run es' = some t ∧ (∀ e ∈ es', e.RunsOn) ∧ t.phase = .reading) ∧
      ((∀ es' t, s.run es' = some t → (∀ e ∈ es', e.RunsOn) → t.phase = .reading → t.taken = t.pushed) ↔
        NeverLoses es) := by
  have htaken : ∀ es' t, s.run es' = some t → t.phase = .reading → t.account = t.taken := by
    intro es' t ht hphase
    have hqueue := reading_run ((List.foldlM_append_of_some hs).trans ht) hphase
    simp [account, outstanding, hphase, hqueue]
  have haccount : ∀ es' t, s.run es' = some t → (t.account = t.pushed ↔ NeverLoses (es ++ es')) := fun es' t ht =>
    ledger_iff step_account rfl ((List.foldlM_append_of_some hs).trans ht)
  refine ⟨s.reads, fun h => ?_, fun h es' t ht hruns hphase => ?_⟩
  · obtain ⟨es', t, ht, hruns, hphase⟩ := s.reads
    have hall : t.account = t.pushed := (htaken es' t ht hphase).trans (h es' t ht hruns hphase)
    exact ((haccount es' t ht).mp hall).of_append
  · have hnever := h.append_of_harmless fun e he q => not_loses_of_runsOn (hruns e he) q
    rw [← htaken es' t ht hphase]
    exact (haccount es' t ht).mpr hnever

/-- A future that is dropped while it flushes. -/
theorem taken_once_flushing :
    ∃ (es : List (RecvEvent ℕ Unit)) (s : ClientRecv ℕ Unit), run {} es = some s ∧
      es = [.queue (.updateLayer ⟨0, 1⟩), .call, .ready, .drop] ∧
      ((∀ es' t, s.run es' = some t → (∀ e ∈ es', e.RunsOn) → t.phase = .reading → t.taken = t.pushed) ↔
        NeverLoses es) :=
  ⟨_, _, rfl, rfl, (taken_once_iff rfl).2⟩

/-- An offer whose `send` is dropped before the sink is ready. -/
theorem taken_once_fails :
    ¬ ∀ (es : List (RecvEvent ℕ Unit)) (s : ClientRecv ℕ Unit), run {} es = some s →
      ∀ es' t, s.run es' = some t → (∀ e ∈ es', e.RunsOn) → t.phase = .reading → t.taken = t.pushed := by
  intro h
  have hcall : ∀ e ∈ [(.call : RecvEvent ℕ Unit)], e.RunsOn := by
    intro e he
    rw [List.mem_singleton.mp he]
    trivial
  have hlost := h [.queue (.offer 3 7 "offer"), .call, .drop] _ rfl [.call] _ rfl hcall rfl
  exact absurd hlost (by decide)

end ClientRecv
end Dllm
