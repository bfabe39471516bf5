import DecentralizedInference.Lib.Run
import DecentralizedInference.Spec.Communication

/-! Histories of a `SharedUdpPort`: its three operations as steps, what each of them does to
what the four maps answer, and the invariant that the maps mirror each other. -/

namespace Dllm

/-- The calls of a port; `buf` is a whole datagram. -/
inductive PortEvent (Addr Task : Type) where
  | addUfrag (ufrag : String) (task : Task)
  | removeTask (task : Task)
  | mapRemote (remote : Addr) (buf : List UInt8)
deriving DecidableEq

namespace SharedUdpPort

variable {Addr Task : Type} [DecidableEq Addr] [DecidableEq Task]

/-- `stunUsername` is `StunMessage::parse` with `split_username`. -/
def apply (stunUsername : List UInt8 → Option String) (p : SharedUdpPort Addr Task) :
    PortEvent Addr Task → SharedUdpPort Addr Task
  | .addUfrag ufrag task => p.addUfrag ufrag task
  | .removeTask task => p.removeTask task
  | .mapRemote remote buf => (p.mapRemote remote (stunUsername buf)).2

/-- No other registered task has the ufrag. -/
def Own (p : SharedUdpPort Addr Task) (ufrag : String) (task : Task) : Prop :=
  ∀ task' ≠ task, p.taskUfragsReverse.lookup task' ≠ some ufrag

omit [DecidableEq Addr] in
theorem own_iff (p : SharedUdpPort Addr Task) (ufrag : String) (task : Task) :
    p.Own ufrag task ↔ ∀ e ∈ p.taskUfragsReverse.entries, e.1 ≠ task → e.2 ≠ ufrag := by
  refine ⟨fun h e he hne hu => h e.1 hne ?_, fun h task' hne hlook => ?_⟩
  · exact AList.lookup_eq_some_iff.mpr (hu ▸ he)
  · exact h ⟨task', ufrag⟩ (AList.lookup_eq_some_iff.mp hlook) hne rfl

instance (p : SharedUdpPort Addr Task) (ufrag : String) (task : Task) : Decidable (p.Own ufrag task) :=
  decidable_of_iff _ (p.own_iff ufrag task).symm

def Fresh (p : SharedUdpPort Addr Task) (ufrag : String) (task : Task) : Prop :=
  p.taskUfrags.lookup ufrag = none ∧ p.taskUfragsReverse.lookup task = none

instance (p : SharedUdpPort Addr Task) (ufrag : String) (task : Task) : Decidable (p.Fresh ufrag task) :=
  inferInstanceAs (Decidable (_ ∧ _))

/-- A call, with what `admits` asks of the arguments of `add_ufrag`. -/
def Step (stunUsername : List UInt8 → Option String)
    (admits : SharedUdpPort Addr Task → String → Task → Prop)
    (p : SharedUdpPort Addr Task) (e : PortEvent Addr Task) (q : SharedUdpPort Addr Task) : Prop :=
  (∀ ufrag task, e = .addUfrag ufrag task → admits p ufrag task) ∧ q = p.apply stunUsername e

theorem step_addUfrag {stunUsername : List UInt8 → Option String}
    {admits : SharedUdpPort Addr Task → String → Task → Prop} {p : SharedUdpPort Addr Task} {u : String} {t : Task}
    (h : admits p u t) : Step stunUsername admits p (.addUfrag u t) (p.addUfrag u t) := by
  refine ⟨fun u' t' he => ?_, rfl⟩
  obtain ⟨rfl, rfl⟩ : u = u' ∧ t = t' := by simpa using he
  exact h

omit [DecidableEq Addr] in
/-- The addresses that have been mapped to a task. -/
def addrsOf (p : SharedUdpPort Addr Task) (task : Task) : List Addr :=
  (p.taskRemotesMap.lookup task).getD []

/-- The four maps as two bijections. -/
structure Mirrored (p : SharedUdpPort Addr Task) : Prop where
  ufrag_iff : ∀ u t, p.taskUfrags.lookup u = some t ↔ p.taskUfragsReverse.lookup t = some u
  remote_iff : ∀ a t, p.taskRemotes.lookup a = some t ↔ a ∈ p.addrsOf t
  nodup : ∀ t, (p.addrsOf t).Nodup
  registered : ∀ t, p.addrsOf t ≠ [] → ∃ u, p.taskUfragsReverse.lookup t = some u

/-- `q` is `p` without the entries of `t`. -/
structure Without (p : SharedUdpPort Addr Task) (t : Task) (q : SharedUdpPort Addr Task) : Prop where
  reverse : ∀ t' u, q.taskUfragsReverse.lookup t' = some u ↔ t' ≠ t ∧ p.taskUfragsReverse.lookup t' = some u
  ufrags : ∀ u t', q.taskUfrags.lookup u = some t' ↔ t' ≠ t ∧ p.taskUfrags.lookup u = some t'
  remotes : ∀ a t', q.taskRemotes.lookup a = some t' ↔ t' ≠ t ∧ p.taskRemotes.lookup a = some t'
  others : ∀ t', t' ≠ t → q.taskRemotesMap.lookup t' = p.taskRemotesMap.lookup t'
  own : q.addrsOf t = []

omit [DecidableEq Addr] in
theorem lookup_reverse_addUfrag (p : SharedUdpPort Addr Task) (u : String) (t t' : Task) :
    (p.addUfrag u t).taskUfragsReverse.lookup t' =
      if t' = t then some u else p.taskUfragsReverse.lookup t' := by
  unfold addUfrag
  by_cases ht : t' = t
  · subst ht
    simp [AList.lookup_insert]
  · simp [AList.lookup_insert_ne ht, ht]

omit [DecidableEq Addr] in
theorem lookup_ufrags_addUfrag (p : SharedUdpPort Addr Task) (u u' : String) (t : Task) :
    (p.addUfrag u t).taskUfrags.lookup u' = if u' = u then some t else p.taskUfrags.lookup u' := by
  unfold addUfrag
  by_cases hu : u' = u
  · subst hu
    simp [AList.lookup_insert]
  · simp [AList.lookup_insert_ne hu, hu]

/-- What `map_remote` does: nothing, or it maps an unknown address to the task that the
datagram names. -/
theorem mapRemote_cases (p : SharedUdpPort Addr Task) (a : Addr) (name : Option String) :
    (p.mapRemote a name).2 = p ∨
      ∃ u t, name = some u ∧ p.taskRemotes.lookup a = none ∧ p.taskUfrags.lookup u = some t ∧
        (p.mapRemote a name).2 =
          { p with
            taskRemotes := p.taskRemotes.insert a t
            taskRemotesMap := p.taskRemotesMap.insert t (p.addrsOf t ++ [a]) } := by
  unfold mapRemote
  cases hcache : p.taskRemotes.lookup a with
  | some t => exact .inl rfl
  | none =>
    cases hname : name.bind fun u => p.taskUfrags.lookup u with
    | none => exact .inl rfl
    | some t =>
      obtain ⟨u, rfl, hu⟩ := Option.bind_eq_some_iff.mp hname
      exact .inr ⟨u, t, rfl, rfl, hu, rfl⟩

/-- Whom a datagram is for. -/
theorem mapRemote_answer (p : SharedUdpPort Addr Task) (a : Addr) (name : Option String) :
    (p.mapRemote a name).1 =
      (p.taskRemotes.lookup a).or (name.bind fun u => p.taskUfrags.lookup u) := by
  unfold mapRemote
  cases p.taskRemotes.lookup a with
  | some t => rfl
  | none => cases name.bind fun u => p.taskUfrags.lookup u <;> rfl

theorem mapRemote_ufrags (p : SharedUdpPort Addr Task) (a : Addr) (name : Option String) :
    (p.mapRemote a name).2.taskUfrags = p.taskUfrags ∧
      (p.mapRemote a name).2.taskUfragsReverse = p.taskUfragsReverse := by
  obtain hsame | ⟨u, t, -, -, -, hq⟩ := p.mapRemote_cases a name
  · rw [hsame]
    exact ⟨rfl, rfl⟩
  · rw [hq]
    exact ⟨rfl, rfl⟩

theorem lookup_reverse_removeTask (p : SharedUdpPort Addr Task) (t t' : Task) :
    (p.removeTask t).taskUfragsReverse.lookup t' =
      if t' = t then none else p.taskUfragsReverse.lookup t' := by
  have herase : (p.taskUfragsReverse.erase t).lookup t' =
      if t' = t then none else p.taskUfragsReverse.lookup t' := by
    by_cases ht : t' = t
    · subst ht
      simp [AList.lookup_erase]
    · simp [AList.lookup_erase_ne ht, ht]
  unfold removeTask
  cases hu : p.taskUfragsReverse.lookup t with
  | none =>
    by_cases ht : t' = t
    · subst ht
      simp [hu]
    · simp [ht]
  | some u =>
    simp only
    split
    · exact herase
    · split <;> exact herase

theorem lookup_ufrags_removeTask (p : SharedUdpPort Addr Task) (t : Task) (u' : String) :
    (p.removeTask t).taskUfrags.lookup u' =
      if p.taskUfragsReverse.lookup t = some u' then none else p.taskUfrags.lookup u' := by
  unfold removeTask
  cases hu : p.taskUfragsReverse.lookup t with
  | none => simp
  | some u =>
    have herase : (p.taskUfrags.erase u).lookup u' =
        if some u = some u' then none else p.taskUfrags.lookup u' := by
      by_cases hu' : u' = u
      · subst hu'
        simp [AList.lookup_erase]
      · simp [AList.lookup_erase_ne hu', Ne.symm hu']
    simp only
    split
    case h_1 hnone =>
      by_cases hu' : u = u'
      · subst hu'
        simp [hnone]
      · simp [hu']
    case h_2 => split <;> exact herase

/-- `remove_task` of a task that has no ufrag returns at once. -/
theorem removeTask_unregistered {p : SharedUdpPort Addr Task} {t : Task}
    (h : p.taskUfragsReverse.lookup t = none) : p.removeTask t = p := by
  unfold removeTask
  rw [h]

theorem lookup_remotes_removeTask {p : SharedUdpPort Addr Task} {t t' : Task} {u : String}
    (h : p.taskUfragsReverse.lookup t = some u) (hu : p.taskUfrags.lookup u = some t') (a : Addr) :
    (p.removeTask t).taskRemotes.lookup a =
      if a ∈ p.addrsOf t then none else p.taskRemotes.lookup a := by
  unfold removeTask addrsOf
  simp only [h, hu]
  cases p.taskRemotesMap.lookup t with
  | none => simp
  | some remotes => exact AList.lookup_foldl_erase remotes p.taskRemotes a

theorem lookup_remotesMap_removeTask {p : SharedUdpPort Addr Task} {t t' : Task} {u : String}
    (h : p.taskUfragsReverse.lookup t = some u) (hu : p.taskUfrags.lookup u = some t') (k : Task) :
    (p.removeTask t).taskRemotesMap.lookup k =
      if k = t then none else p.taskRemotesMap.lookup k := by
  unfold removeTask
  simp only [h, hu]
  cases hr : p.taskRemotesMap.lookup t with
  | none =>
    by_cases hk : k = t
    · subst hk
      simp [hr]
    · simp [hk]
  | some remotes =>
    by_cases hk : k = t
    · subst hk
      simp [AList.lookup_erase]
    · simp [AList.lookup_erase_ne hk, hk]

theorem mirrored_empty : ({} : SharedUdpPort Addr Task).Mirrored :=
  ⟨fun _ _ => by simp, fun _ _ => by simp [addrsOf], fun _ => by simp [addrsOf], fun _ h => by simp [addrsOf] at h⟩

namespace Mirrored

variable {p : SharedUdpPort Addr Task}

/-- Two tasks share no address. -/
theorem addrs_disjoint (hp : p.Mirrored) {a : Addr} {t t' : Task} (h : a ∈ p.addrsOf t) (h' : a ∈ p.addrsOf t') :
    t = t' := by
  have hsome : some t = some t' := ((hp.remote_iff a t).mpr h).symm.trans ((hp.remote_iff a t').mpr h')
  exact Option.some.inj hsome

theorem addUfrag (hp : p.Mirrored) {u : String} {t : Task} (hfresh : p.Fresh u t) : (p.addUfrag u t).Mirrored := by
  obtain ⟨hu, ht⟩ := hfresh
  refine ⟨fun u' t' => ?_, hp.remote_iff, hp.nodup, fun t' ht' => ?_⟩
  · rw [lookup_ufrags_addUfrag, lookup_reverse_addUfrag]
    by_cases hu' : u' = u <;> by_cases htt : t' = t
    · simp [hu', htt]
    · subst hu'
      have hno : p.taskUfragsReverse.lookup t' ≠ some u' := fun h => by
        simp [(hp.ufrag_iff u' t').mpr h] at hu
      simp [htt, Ne.symm htt, hno]
    · subst htt
      have hno : p.taskUfrags.lookup u' ≠ some t' := fun h => by
        simp [(hp.ufrag_iff u' t').mp h] at ht
      simp [hu', Ne.symm hu', hno]
    · simp [hu', htt, hp.ufrag_iff]
  · obtain ⟨u', hu'⟩ := hp.registered t' ht'
    rw [lookup_reverse_addUfrag]
    split
    · exact ⟨u, rfl⟩
    · exact ⟨u', hu'⟩

theorem mapRemote (hp : p.Mirrored) (a : Addr) (name : Option String) : (p.mapRemote a name).2.Mirrored := by
  obtain hsame | ⟨u, t, -, hcache, hu, hq⟩ := p.mapRemote_cases a name
  · rw [hsame]
    exact hp
  · rw [hq]
    have haddrs : ∀ t', addrsOf { p with
          taskRemotes := p.taskRemotes.insert a t
          taskRemotesMap := p.taskRemotesMap.insert t (p.addrsOf t ++ [a]) } t' =
        if t' = t then p.addrsOf t ++ [a] else p.addrsOf t' := by
      intro t'
      by_cases ht' : t' = t
      · subst ht'
        simp [addrsOf, AList.lookup_insert]
      · simp [addrsOf, AList.lookup_insert_ne ht', ht']
    -- an unknown address is in no list
    have hunknown : ∀ t', a ∉ p.addrsOf t' := fun t' h => by
      simp [(hp.remote_iff a t').mpr h] at hcache
    refine ⟨hp.ufrag_iff, fun a' t' => ?_, fun t' => ?_, fun t' ht' => ?_⟩
    · rw [haddrs]
      by_cases ha : a' = a
      · subst ha
        rw [AList.lookup_insert]
        by_cases ht' : t' = t
        · simp [ht']
        · simp [ht', Ne.symm ht', hunknown t']
      · rw [AList.lookup_insert_ne ha, hp.remote_iff]
        by_cases ht' : t' = t
        · subst ht'
          simp [ha]
        · simp [ht']
    · rw [haddrs]
      split
      · exact List.nodup_append.mpr ⟨hp.nodup t, List.nodup_singleton a, fun b hb c hc => by
          rw [List.mem_singleton.mp hc]
          exact fun hbc => hunknown t (hbc ▸ hb)⟩
      · exact hp.nodup t'
    · rw [haddrs] at ht'
      by_cases htt : t' = t
      · subst htt
        exact ⟨u, (hp.ufrag_iff u t').mp hu⟩
      · rw [if_neg htt] at ht'
        exact hp.registered t' ht'

/-- `remove_task` takes away what belongs to the task, whichever of its `?` returns. -/
theorem without_removeTask (hp : p.Mirrored) (t : Task) : Without p t (p.removeTask t) := by
  cases ht : p.taskUfragsReverse.lookup t with
  | none =>
    have hnone : p.addrsOf t = [] := by
      by_contra hne
      obtain ⟨u, hu⟩ := hp.registered t hne
      simp [ht] at hu
    rw [removeTask_unregistered ht]
    refine ⟨fun t' u => ?_, fun u t' => ?_, fun a t' => ?_, fun _ _ => rfl, hnone⟩
    · refine ⟨fun h => ⟨fun htt => ?_, h⟩, fun h => h.2⟩
      subst htt
      simp [ht] at h
    · refine ⟨fun h => ⟨fun htt => ?_, h⟩, fun h => h.2⟩
      subst htt
      simp [hp.ufrag_iff, ht] at h
    · refine ⟨fun h => ⟨fun htt => ?_, h⟩, fun h => h.2⟩
      subst htt
      simp [hp.remote_iff, hnone] at h
  | some u =>
    have hu := (hp.ufrag_iff u t).mpr ht
    refine ⟨fun t' u' => ?_, fun u' t' => ?_, fun a t' => ?_, fun t' ht' => ?_, ?_⟩
    · rw [lookup_reverse_removeTask]
      by_cases htt : t' = t <;> simp [htt]
    · rw [lookup_ufrags_removeTask, ht]
      by_cases huu : u = u'
      · subst huu
        have hne : t' ≠ t → p.taskUfrags.lookup u ≠ some t' := fun h h' =>
          h (Option.some.inj (h'.symm.trans hu))
        simpa using hne
      · have hne : p.taskUfrags.lookup u' = some t' → t' ≠ t := fun h htt => by
          subst htt
          exact huu (Option.some.inj (ht.symm.trans ((hp.ufrag_iff u' t').mp h)))
        simpa [huu] using hne
    · rw [lookup_remotes_removeTask ht hu]
      by_cases ha : a ∈ p.addrsOf t
      · have hat := (hp.remote_iff a t).mpr ha
        simp only [ha, if_true, hat, reduceCtorEq, false_iff, not_and]
        exact fun h h' => h (Option.some.inj h').symm
      · have hne : p.taskRemotes.lookup a = some t' → t' ≠ t := fun h htt => by
          subst htt
          exact ha ((hp.remote_iff a t').mp h)
        simpa [ha] using hne
    · rw [lookup_remotesMap_removeTask ht hu, if_neg ht']
    · unfold addrsOf
      rw [lookup_remotesMap_removeTask ht hu, if_pos rfl]
      rfl

end Mirrored

theorem Without.addrs {p q : SharedUdpPort Addr Task} {t : Task} (h : Without p t q) {t' : Task} (ht : t' ≠ t) :
    q.addrsOf t' = p.addrsOf t' := by
  unfold addrsOf
  rw [h.others t' ht]

theorem Without.mirrored {p q : SharedUdpPort Addr Task} {t : Task} (h : Without p t q) (hp : p.Mirrored) :
    q.Mirrored := by
  refine ⟨fun u t' => ?_, fun a t' => ?_, fun t' => ?_, fun t' ht' => ?_⟩
  · rw [h.ufrags, h.reverse, hp.ufrag_iff]
  · rw [h.remotes, hp.remote_iff]
    by_cases ht : t' = t
    · subst ht
      simp [h.own]
    · simp [ht, h.addrs ht]
  · by_cases ht : t' = t
    · rw [ht, h.own]
      exact List.nodup_nil
    · rw [h.addrs ht]
      exact hp.nodup t'
  · have ht : t' ≠ t := fun ht => ht' (ht ▸ h.own)
    rw [h.addrs ht] at ht'
    obtain ⟨u, hu⟩ := hp.registered t' ht'
    exact ⟨u, (h.reverse t' u).mpr ⟨ht, hu⟩⟩

/-- The invariant of every history whose tasks and ufrags are fresh. -/
theorem mirrored_run {stunUsername : List UInt8 → Option String} {es : List (PortEvent Addr Task)}
    {p q : SharedUdpPort Addr Task} (hrun : Run (Step stunUsername Fresh) p es q) (hp : p.Mirrored) : q.Mirrored := by
  refine hrun.invariant hp fun a e b hstep ha => ?_
  obtain ⟨hadmits, rfl⟩ := hstep
  cases e with
  | addUfrag u t => exact ha.addUfrag (hadmits u t rfl)
  | removeTask t => exact (ha.without_removeTask t).mirrored ha
  | mapRemote remote buf => exact ha.mapRemote remote _

/-- A STUN binding request with the user name `a:xy`, for a letter `a`. -/
def bindingRequest (letter : UInt8) : List UInt8 :=
  [0, 1, 0, 8, 0x21, 0x12, 0xA4, 0x42] ++ List.replicate 12 letter ++ [0, 6, 0, 4, letter, 58, 120, 121]

/-- Who is named by two of these requests. -/
def requestName (buf : List UInt8) : Option String :=
  if buf = bindingRequest 97 then some "a" else if buf = bindingRequest 98 then some "b" else none

end SharedUdpPort
end Dllm
