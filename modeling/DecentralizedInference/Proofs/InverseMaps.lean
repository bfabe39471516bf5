import DecentralizedInference.Sanity.SharedUdpPort

/-! The four maps of `SharedUdpPort` after every history in which `add_ufrag` is given fresh
ufrags and tasks: two pairs of maps that are inverse to each other, and nothing left of a task
that has been removed. -/

namespace Dllm.SharedUdpPort

variable {Addr Task : Type} [DecidableEq Addr] [DecidableEq Task]

/-- Nothing resolves to the task. -/
structure Forgotten (p : SharedUdpPort Addr Task) (t : Task) : Prop where
  ufrags : ∀ u, p.taskUfrags.lookup u ≠ some t
  remotes : ∀ a, p.taskRemotes.lookup a ≠ some t
  answers : ∀ a name, (p.mapRemote a name).1 ≠ some t

theorem Mirrored.forgotten {p : SharedUdpPort Addr Task} (hp : p.Mirrored) {t : Task}
    (ht : p.taskUfragsReverse.lookup t = none) : p.Forgotten t := by
  have hufrags : ∀ u, p.taskUfrags.lookup u ≠ some t := fun u hu => by
    simp [(hp.ufrag_iff u t).mp hu] at ht
  have hremotes : ∀ a, p.taskRemotes.lookup a ≠ some t := fun a ha => by
    obtain ⟨u, hu⟩ := hp.registered t (List.ne_nil_of_mem ((hp.remote_iff a t).mp ha))
    simp [hu] at ht
  refine ⟨hufrags, hremotes, fun a name hname => ?_⟩
  rw [mapRemote_answer, Option.or_eq_some_iff] at hname
  obtain hcache | ⟨-, hnamed⟩ := hname
  · exact hremotes a hcache
  · obtain ⟨u, -, hu⟩ := Option.bind_eq_some_iff.mp hnamed
    exact hufrags u hu

/-- A task stays without a ufrag until it is added. -/
theorem unregistered_run {stunUsername : List UInt8 → Option String}
    {admits : SharedUdpPort Addr Task → String → Task → Prop} {es : List (PortEvent Addr Task)}
    {p q : SharedUdpPort Addr Task} {t : Task} (hrun : Run (Step stunUsername admits) p es q)
    (hadded : ∀ u, .addUfrag u t ∉ es) (ht : p.taskUfragsReverse.lookup t = none) :
    q.taskUfragsReverse.lookup t = none := by
  induction hrun with
  | nil => exact ht
  | snoc _ hstep ih =>
    obtain ⟨-, rfl⟩ := hstep
    have hbefore := ih fun u hu => hadded u (List.mem_append_left _ hu)
    rename_i e _
    cases e with
    | addUfrag u t' =>
      have htt : t ≠ t' := fun h => hadded u (by simp [h])
      simp only [apply, lookup_reverse_addUfrag, if_neg htt]
      exact hbefore
    | removeTask t' =>
      simp only [apply, lookup_reverse_removeTask, hbefore, ite_self]
    | mapRemote a buf =>
      simp only [apply, (mapRemote_ufrags _ a _).2]
      exact hbefore

/-- The maps are inverse to each other in every state, and `remove_task` takes away a task with
all its addresses, until it is added again, and nothing else. -/
theorem maps_stay_inverse (stunUsername : List UInt8 → Option String) {es : List (PortEvent Addr Task)}
    {p : SharedUdpPort Addr Task} (hrun : Run (Step stunUsername Fresh) {} es p) :
    (∀ u t, p.taskUfrags.lookup u = some t ↔ p.taskUfragsReverse.lookup t = some u) ∧
      (∀ a t, p.taskRemotes.lookup a = some t ↔ a ∈ p.addrsOf t) ∧
      (∀ a t, a ∈ p.addrsOf t → (p.addrsOf t).count a = 1 ∧ ∀ t', t' ≠ t → a ∉ p.addrsOf t') ∧
      (∀ t, p.addrsOf t ≠ [] → ∃ u, p.taskUfragsReverse.lookup t = some u) ∧
      ∀ t, Without p t (p.removeTask t) ∧
        ∀ es' q, Run (Step stunUsername Fresh) (p.removeTask t) es' q → (∀ u, .addUfrag u t ∉ es') →
          q.Forgotten t := by
  have hp := mirrored_run hrun mirrored_empty
  refine ⟨hp.ufrag_iff, hp.remote_iff, fun a t ha => ?_, hp.registered, fun t => ?_⟩
  · exact ⟨List.count_eq_one_of_mem (hp.nodup t) ha, fun t' ht' ha' => ht' (hp.addrs_disjoint ha' ha)⟩
  · have hwithout := hp.without_removeTask t
    refine ⟨hwithout, fun es' q hq hadded => ?_⟩
    have hgone : (p.removeTask t).taskUfragsReverse.lookup t = none := by
      rw [lookup_reverse_removeTask, if_pos rfl]
    exact (mirrored_run hq (hwithout.mirrored hp)).forgotten (unregistered_run hq hadded hgone)

/-- Two tasks, of which the first has been mapped to an address. -/
theorem maps_stay_inverse_two :
    ∃ p : SharedUdpPort ℕ ℕ, p.addrsOf 1 = [7] ∧ (p.taskUfrags.lookup "b" = some 2 ↔
      p.taskUfragsReverse.lookup 2 = some "b") ∧ Without p 1 (p.removeTask 1) := by
  have hrun : Run (Step requestName Fresh) ({} : SharedUdpPort ℕ ℕ)
      [.addUfrag "a" 1, .addUfrag "b" 2, .mapRemote 7 (bindingRequest 97)] _ :=
    .cons (step_addUfrag (by decide)) (.cons (step_addUfrag (by decide)) (.cons ⟨nofun, rfl⟩ .nil))
  have h := maps_stay_inverse _ hrun
  exact ⟨_, by decide, h.1 "b" 2, (h.2.2.2.2 1).1⟩

end Dllm.SharedUdpPort
