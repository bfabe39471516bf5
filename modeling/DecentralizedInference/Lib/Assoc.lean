import Mathlib.Data.List.AList
import Mathlib.Data.List.MinMax

/-! Finite maps as association lists: the `retain` of a map, the order in which a
hash map iterates, and the least entry that such an iteration finds. And ordered
maps, as `Std.TreeMap` has them, filled in the order of their keys. -/

universe u v

namespace AList

variable {α : Type u} {β : α → Type v} [DecidableEq α]

/-- Keep the entries a predicate accepts. -/
def retain (p : (a : α) → β a → Bool) (s : AList β) : AList β :=
  ⟨s.entries.filter fun e => p e.1 e.2, s.nodupKeys.sublist List.filter_sublist⟩

theorem lookup_eq_some_iff {a : α} {b : β a} {s : AList β} :
    s.lookup a = some b ↔ (⟨a, b⟩ : Sigma β) ∈ s.entries :=
  mem_lookup_iff

theorem lookup_retain (p : (a : α) → β a → Bool) (s : AList β) (a : α) (b : β a) :
    (s.retain p).lookup a = some b ↔ s.lookup a = some b ∧ p a b = true := by
  rw [lookup_eq_some_iff, lookup_eq_some_iff]
  exact List.mem_filter

theorem lookup_erase_eq_some_iff {a a' : α} {b : β a'} {s : AList β} :
    (s.erase a).lookup a' = some b ↔ a' ≠ a ∧ s.lookup a' = some b := by
  by_cases ha : a' = a
  · subst ha
    simp [lookup_erase]
  · simp [lookup_erase_ne ha, ha]

/-- Erasing a list of keys. -/
theorem lookup_foldl_erase (as : List α) (s : AList β) (a : α) :
    (as.foldl (fun s a => s.erase a) s).lookup a = if a ∈ as then none else s.lookup a := by
  induction as generalizing s with
  | nil => simp
  | cons b as ih =>
    rw [List.foldl_cons, ih]
    by_cases hb : a = b
    · subst hb
      simp [lookup_erase]
    · simp [lookup_erase_ne hb, hb]

omit [DecidableEq α] in
/-- A `retain` that keeps the size keeps the map. -/
theorem retain_eq_of_length {p : (a : α) → β a → Bool} {s : AList β}
    (h : (s.retain p).entries.length = s.entries.length) : s.retain p = s :=
  AList.ext (List.filter_sublist.eq_of_length h)

theorem entries_eq_nil_iff {s : AList β} : s.entries = [] ↔ ∀ a, s.lookup a = none := by
  refine ⟨fun h a => ?_, fun h => ?_⟩
  · rw [lookup_eq_none, mem_keys]
    simp [keys, h]
  · by_contra hne
    obtain ⟨⟨a, b⟩, hab⟩ := List.exists_mem_of_ne_nil _ hne
    have hb : s.lookup a = some b := lookup_eq_some_iff.mpr hab
    simp [h a] at hb

end AList

namespace Std.TreeMap

variable {α : Type u} {β : Type v} {cmp : α → α → Ordering} [TransCmp cmp]

/-- A key above all others goes to the end of the iteration. -/
theorem toList_insert_of_lt [BEq α] [LawfulBEqCmp cmp] {t : TreeMap α β cmp} {k : α} {v : β}
    (h : ∀ p ∈ t.toList, cmp p.1 k = .lt) : (t.insert k v).toList = t.toList ++ [(k, v)] := by
  have hflip : ∀ a b : α, cmp a b = .lt → cmp b a = .gt := by
    intro a b hab
    have hswap : cmp b a = (cmp a b).swap := OrientedCmp.eq_swap
    rw [hswap, hab]
    rfl
  have hfilter : t.toList.filter (fun x => decide ¬(k == x.1) = true) = t.toList := by
    apply List.filter_eq_self.mpr
    intro p hp
    have hne : ¬(k == p.1) = true := by
      intro hk
      have heq : cmp k p.1 = .eq := LawfulBEqCmp.compare_eq_iff_beq.mpr hk
      rw [hflip _ _ (h p hp)] at heq
      cases heq
    exact decide_eq_true hne
  have hperm : (t.insert k v).toList.Perm (t.toList ++ [(k, v)]) := by
    have hp := toList_insert_perm (t := t) (k := k) (v := v)
    rw [hfilter] at hp
    exact hp.trans (List.perm_append_singleton _ _).symm
  apply hperm.eq_of_pairwise ?_ ordered_keys_toList ?_
  · intro a b _ _ hab hba
    rw [hflip _ _ hab] at hba
    cases hba
  · rw [List.pairwise_append]
    refine ⟨ordered_keys_toList, List.pairwise_singleton _ _, ?_⟩
    intro a ha b hb
    rw [List.mem_singleton.mp hb]
    exact h a ha

end Std.TreeMap

/-- The order in which a hash map happens to iterate over its entries: any
permutation of them, and possibly another one at the next call. -/
structure IterOrder (α : Type u) where
  run : List α → List α
  perm : ∀ l, (run l).Perm l

namespace IterOrder

variable {α : Type u}

/-- Iteration in list order, for evaluating concrete maps. -/
def asIs : IterOrder α := ⟨id, fun _ => List.Perm.refl _⟩

theorem mem_run (o : IterOrder α) {l : List α} {a : α} : a ∈ o.run l ↔ a ∈ l :=
  (o.perm l).mem_iff

/-- What the first minimum of the iteration is: an entry no other one undercuts. -/
theorem argmin_run (o : IterOrder α) (f : α → ℕ) {l : List α} {m : α}
    (h : (o.run l).argmin f = some m) : m ∈ l ∧ ∀ a ∈ l, f m ≤ f a :=
  ⟨o.mem_run.mp (List.argmin_mem h), fun _ ha => List.le_of_mem_argmin (o.mem_run.mpr ha) h⟩

theorem argmin_run_eq_none (o : IterOrder α) (f : α → ℕ) {l : List α} :
    (o.run l).argmin f = none ↔ l = [] := by
  rw [List.argmin_eq_none]
  constructor
  · intro h
    have hp := o.perm l
    rw [h] at hp
    exact hp.nil_eq.symm
  · rintro rfl
    exact (o.perm []).eq_nil

end IterOrder
