import Mathlib.Data.List.Basic
import Mathlib.Data.List.Nodup
import Mathlib.Algebra.BigOperators.Group.List.Basic
import Mathlib.Algebra.Order.BigOperators.Group.List
import Mathlib.Algebra.Order.Ring.Nat

/-! The account of a sending window: items are booked with a size when they are
queued, count as used from the moment they are sent, and are struck off when they
are acknowledged. -/

universe u

/-- `book` holds exactly the sizes of the queued items and of those in the air, each
item once, and `used` is the total size of the latter. -/
structure Booked {K : Type u} (book : K → Option ℕ) (queued air : List K) (used : ℕ) : Prop where
  nodup : (queued ++ air).Nodup
  booked : ∀ k, book k ≠ none ↔ k ∈ queued ++ air
  total : used = (air.map fun k => (book k).getD 0).sum

namespace Booked

variable {K : Type u} {book book' : K → Option ℕ} {queued queued' air air' ks : List K} {used size : ℕ}
  {k : K}

theorem empty : Booked (fun _ : K => none) [] [] 0 := ⟨List.nodup_nil, by simp, rfl⟩

theorem perm (h : Booked book queued air used) (hq : queued.Perm queued') (ha : air.Perm air') :
    Booked book queued' air' used where
  nodup := (hq.append ha).nodup_iff.mp h.nodup
  booked k := by rw [h.booked, (hq.append ha).mem_iff]
  total := by rw [h.total, (ha.map _).sum_eq]

/-- The items of a list that the book has not seen are queued under new entries. -/
theorem issue (h : Booked book queued air used) (hks : ks.Nodup) (hnew : ∀ k ∈ ks, book k = none)
    (hin : ∀ k ∈ ks, book' k ≠ none) (hout : ∀ k, k ∉ ks → book' k = book k) :
    Booked book' (queued ++ ks) air used where
  nodup := by
    have hdisj : ∀ k ∈ queued ++ air, k ∉ ks := fun k hk hks => (h.booked k).mpr hk (hnew k hks)
    have hperm : (queued ++ ks ++ air).Perm (queued ++ air ++ ks) := by
      rw [List.append_assoc, List.append_assoc]
      exact List.perm_append_comm.append_left queued
    rw [hperm.nodup_iff, List.nodup_append']
    exact ⟨h.nodup, hks, hdisj⟩
  booked k := by
    by_cases hk : k ∈ ks
    · simp [hin k hk, hk]
    · rw [hout k hk, h.booked]
      simp [hk]
  total := by
    rw [h.total]
    apply congrArg List.sum
    apply List.map_congr_left
    intro k hk
    rw [hout k fun hks => (h.booked k).mpr (List.mem_append_right _ hk) (hnew k hks)]

/-- A queued item goes into the air. -/
theorem launch (h : Booked book (k :: queued) air used) (hk : book k = some size) :
    Booked book queued (k :: air) (used + size) where
  nodup := (List.perm_middle (a := k)).nodup_iff.mpr h.nodup
  booked k' := by rw [h.booked, (List.perm_middle (a := k)).mem_iff]; rfl
  total := by simp [h.total, hk, Nat.add_comm]

/-- An item in the air is struck off. -/
theorem settle (h : Booked book queued (k :: air) used) (hk : book k = some size)
    (hin : book' k = none) (hout : ∀ k', k' ≠ k → book' k' = book k') :
    Booked book' queued air (used - size) where
  nodup := (List.nodup_cons.mp ((List.perm_middle (a := k)).nodup_iff.mp h.nodup)).2
  booked k' := by
    have hnot := (List.nodup_cons.mp ((List.perm_middle (a := k)).nodup_iff.mp h.nodup)).1
    by_cases hk' : k' = k
    · subst hk'
      simp [hin, hnot]
    · rw [hout k' hk', h.booked, (List.perm_middle (a := k)).mem_iff, List.mem_cons]
      simp [hk']
  total := by
    have hnot := (List.nodup_cons.mp ((List.perm_middle (a := k)).nodup_iff.mp h.nodup)).1
    rw [h.total, List.map_cons, List.sum_cons, hk, Option.getD_some, Nat.add_sub_cancel_left]
    apply congrArg List.sum
    apply List.map_congr_left
    intro k' hk'
    rw [hout]
    intro heq
    exact hnot (List.mem_append_right _ (heq ▸ hk'))

theorem le_used (h : Booked book queued air used) (hk : k ∈ air) (hs : book k = some size) :
    size ≤ used := by
  rw [h.total]
  have hmem : size ∈ air.map fun k => (book k).getD 0 := List.mem_map.mpr ⟨k, hk, by simp [hs]⟩
  exact List.single_le_sum (fun _ _ => Nat.zero_le _) _ hmem

theorem used_eq_zero (h : Booked book queued [] used) : used = 0 := h.total

end Booked
