import Mathlib.Data.List.Basic
import Mathlib.Data.List.Induction
import Mathlib.Data.List.Nodup
import Std.Data.TreeMap.Lemmas

/-! A sorted map that is filled with entries in any order. -/

universe u v

namespace Std.TreeMap

variable {α : Type u} {β : Type v} {cmp : α → α → Ordering}

/-- The map that holds the entries of a list. -/
def fill (cmp : α → α → Ordering) (ps : List (α × β)) : TreeMap α β cmp :=
  ps.foldl (fun t p => t.insert p.1 p.2) ∅

theorem fill_snoc (ps : List (α × β)) (p : α × β) :
    fill cmp (ps ++ [p]) = (fill cmp ps).insert p.1 p.2 := by
  simp [fill]

variable [BEq α] [LawfulBEq α] [TransCmp cmp] [LawfulBEqCmp cmp] {ps qs : List (α × β)}

/-- Entries under different keys are all kept. -/
theorem fill_toList_perm (hnodup : (ps.map Prod.fst).Nodup) : (fill cmp ps).toList.Perm ps := by
  induction ps using List.reverseRecOn with
  | nil => exact List.Perm.refl _
  | append_singleton ps p ih =>
    rw [List.map_append, List.nodup_append] at hnodup
    have hps := ih hnodup.1
    have hkeep : (fill cmp ps).toList.filter (fun q => ¬p.1 == q.1) = (fill cmp ps).toList := by
      apply List.filter_eq_self.mpr
      intro q hq
      have hmem : q.1 ∈ ps.map Prod.fst := List.mem_map_of_mem (hps.mem_iff.mp hq)
      have hne : p.1 ≠ q.1 := fun h => hnodup.2.2 _ hmem _ (by simp) h.symm
      simp [hne]
    rw [fill_snoc]
    refine (toList_insert_perm).trans ?_
    rw [hkeep]
    exact (hps.cons p).trans (List.perm_append_singleton p ps).symm

theorem fill_size (hnodup : (ps.map Prod.fst).Nodup) : (fill cmp ps).size = ps.length := by
  rw [← length_toList, (fill_toList_perm hnodup).length_eq]

omit [BEq α] [LawfulBEq α] [LawfulBEqCmp cmp] in
theorem nodup_of_sorted (hperm : ps.Perm qs) (hsorted : qs.Pairwise fun p q => cmp p.1 q.1 = .lt) :
    (ps.map Prod.fst).Nodup := by
  rw [(hperm.map Prod.fst).nodup_iff, List.nodup_iff_pairwise_ne, List.pairwise_map]
  refine hsorted.imp fun {p q} hlt heq => ?_
  have hself : cmp q.1 q.1 = .eq := ReflCmp.compare_self
  rw [heq, hself] at hlt
  cases hlt

/-- Whatever the order in which they came, the entries are listed in the order of their keys. -/
theorem fill_toList_eq (hperm : ps.Perm qs) (hsorted : qs.Pairwise fun p q => cmp p.1 q.1 = .lt) :
    (fill cmp ps).toList = qs := by
  have hnodup := nodup_of_sorted hperm hsorted
  refine List.Perm.eq_of_pairwise ?_ ordered_keys_toList hsorted ((fill_toList_perm hnodup).trans hperm)
  intro p q _ _ hpq hqp
  have hswap : cmp p.1 q.1 = (cmp q.1 p.1).swap := OrientedCmp.eq_swap
  rw [hpq, hqp] at hswap
  cases hswap

end Std.TreeMap
