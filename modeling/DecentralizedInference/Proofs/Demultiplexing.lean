import DecentralizedInference.Sanity.SharedUdpPort

/-! When a STUN packet reaches the connection that its user name is of: `map_remote` asks the
cached addresses first, so a packet from an address of another connection goes there. -/

namespace Dllm.SharedUdpPort

variable {Addr Task : Type} [DecidableEq Addr] [DecidableEq Task]

/-- The ufrag of a registered task leads to it. -/
def Owned (p : SharedUdpPort Addr Task) : Prop :=
  ∀ t u, p.taskUfragsReverse.lookup t = some u → p.taskUfrags.lookup u = some t

omit [DecidableEq Addr] in
theorem Owned.addUfrag {p : SharedUdpPort Addr Task} (hp : p.Owned) {u : String} {t : Task} (hown : p.Own u t) :
    (p.addUfrag u t).Owned := by
  intro t' u' h
  rw [lookup_reverse_addUfrag] at h
  rw [lookup_ufrags_addUfrag]
  by_cases ht : t' = t
  · rw [if_pos ht] at h
    rw [if_pos (Option.some.inj h).symm, ht]
  · rw [if_neg ht] at h
    have hu : u' ≠ u := fun hu => hown t' ht (hu ▸ h)
    rw [if_neg hu]
    exact hp t' u' h

theorem Owned.removeTask {p : SharedUdpPort Addr Task} (hp : p.Owned) (t : Task) : (p.removeTask t).Owned := by
  intro t' u h
  rw [lookup_reverse_removeTask] at h
  rw [lookup_ufrags_removeTask]
  by_cases ht : t' = t
  · simp [ht] at h
  · rw [if_neg ht] at h
    have hu : p.taskUfragsReverse.lookup t ≠ some u := fun hu =>
      ht (Option.some.inj ((hp t' u h).symm.trans (hp t u hu)))
    rw [if_neg hu]
    exact hp t' u h

theorem owned_run {stunUsername : List UInt8 → Option String} {es : List (PortEvent Addr Task)}
    {p q : SharedUdpPort Addr Task} (hrun : Run (Step stunUsername Own) p es q) (hp : p.Owned) : q.Owned := by
  refine hrun.invariant hp fun a e b hstep ha => ?_
  obtain ⟨hadmits, rfl⟩ := hstep
  cases e with
  | addUfrag u t => exact ha.addUfrag (hadmits u t rfl)
  | removeTask t => exact ha.removeTask t
  | mapRemote remote buf =>
    intro t u h
    simp only [apply, (mapRemote_ufrags _ remote _).1, (mapRemote_ufrags _ remote _).2] at h ⊢
    exact ha t u h

/-- A packet that names the ufrag of a registered task reaches this task if and only if its
address is not cached for another one. -/
theorem mapRemote_reaches_iff (stunUsername : List UInt8 → Option String) {es : List (PortEvent Addr Task)}
    {p : SharedUdpPort Addr Task} (hrun : Run (Step stunUsername Own) {} es p) {t : Task} {u : String}
    (ht : p.taskUfragsReverse.lookup t = some u) {remote : Addr} {buf : List UInt8}
    (hbuf : stunUsername buf = some u) :
    (p.mapRemote remote (stunUsername buf)).1 = some t ↔
      ∀ t', p.taskRemotes.lookup remote = some t' → t' = t := by
  have hu : p.taskUfrags.lookup u = some t :=
    owned_run hrun (fun t u h => by simp at h) t u ht
  rw [mapRemote_answer, hbuf, Option.bind_some, hu]
  cases p.taskRemotes.lookup remote with
  | none => simp
  | some t' => simp

/-- The second of two tasks, from an address that nobody has used yet. -/
theorem mapRemote_reaches_second :
    ∃ p : SharedUdpPort ℕ ℕ, (p.mapRemote 8 (requestName (bindingRequest 98))).1 = some 2 := by
  have hrun : Run (Step requestName Own) ({} : SharedUdpPort ℕ ℕ) [.addUfrag "a" 1, .addUfrag "b" 2] _ :=
    .cons (step_addUfrag (by decide)) (.cons (step_addUfrag (by decide)) .nil)
  have hiff := @mapRemote_reaches_iff _ _ _ _ _ _ _ hrun 2 "b" (by decide) 8 (bindingRequest 98) (by decide)
  exact ⟨_, hiff.mpr (by decide)⟩

/-- A peer asks for its second connection from the address of the first. -/
theorem mapRemote_misses :
    ¬ ∀ (es : List (PortEvent ℕ ℕ)) (p : SharedUdpPort ℕ ℕ), Run (Step requestName Own) {} es p →
      ∀ t u remote buf, p.taskUfragsReverse.lookup t = some u → requestName buf = some u →
        (p.mapRemote remote (requestName buf)).1 = some t := by
  intro h
  have hrun : Run (Step requestName Own) ({} : SharedUdpPort ℕ ℕ)
      [.addUfrag "a" 1, .mapRemote 7 (bindingRequest 97), .addUfrag "b" 2] _ :=
    .cons (step_addUfrag (by decide)) (.cons ⟨nofun, rfl⟩ (.cons (step_addUfrag (by decide)) .nil))
  have hsecond := h _ _ hrun 2 "b" 7 (bindingRequest 98) (by decide) (by decide)
  exact absurd hsecond (by decide)

end Dllm.SharedUdpPort
