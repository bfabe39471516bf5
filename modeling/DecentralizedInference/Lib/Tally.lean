import Mathlib.Algebra.Group.Nat.Defs
import Mathlib.Data.Nat.Notation
import Mathlib.Data.List.Basic

/-! Counting by a list of counters: `counts[i] += 1` for every index of a list, with the
check of the index, and the largest value of a function over a list. -/

universe u v

variable {ε : Type u} {α : Type v}

/-- `counts[i] += 1`; `e` is an index out of bounds. -/
def incrementAt (e : ε) (counts : List ℕ) (i : ℕ) : Except ε (List ℕ) :=
  match counts[i]? with
  | some n => .ok (counts.set i (n + 1))
  | none => .error e

def tally (counts is : List ℕ) : List ℕ :=
  is.foldl (fun counts i => counts.modify i (· + 1)) counts

theorem tally_append (counts is js : List ℕ) : tally counts (is ++ js) = tally (tally counts is) js :=
  List.foldl_append

theorem length_tally (counts is : List ℕ) : (tally counts is).length = counts.length := by
  induction is generalizing counts with
  | nil => rfl
  | cons i is ih => exact (ih _).trans (List.length_modify ..)

/-- Each counter grows by the occurrences of its index. -/
theorem getElem?_tally (counts is : List ℕ) (l : ℕ) :
    (tally counts is)[l]? = counts[l]?.map (· + is.count l) := by
  induction is generalizing counts with
  | nil => simp [tally]
  | cons i is ih =>
    have hstep := ih (counts.modify i (· + 1))
    rw [List.getElem?_modify] at hstep
    refine hstep.trans ?_
    by_cases hi : i = l
    · subst hi
      simp [Function.comp_def, Nat.add_comm, Nat.add_left_comm]
    · simp [hi]

theorem tally_perm (counts : List ℕ) {is js : List ℕ} (h : is.Perm js) : tally counts is = tally counts js := by
  refine List.ext_getElem? fun l => ?_
  rw [getElem?_tally, getElem?_tally, h.count_eq]

theorem incrementAt_of_lt (e : ε) {counts : List ℕ} {i : ℕ} (h : i < counts.length) :
    incrementAt e counts i = .ok (counts.modify i (· + 1)) := by
  unfold incrementAt
  rw [List.getElem?_eq_getElem h]
  simp [List.modify_eq_set_getElem?, h]

/-- Indices that are all in bounds. -/
theorem foldlM_incrementAt (e : ε) {counts is : List ℕ} (h : ∀ i ∈ is, i < counts.length) :
    is.foldlM (incrementAt e) counts = .ok (tally counts is) := by
  induction is generalizing counts with
  | nil => rfl
  | cons i is ih =>
    rw [List.foldlM_cons, incrementAt_of_lt e (h i List.mem_cons_self)]
    refine ih fun j hj => ?_
    rw [List.length_modify]
    exact h j (List.mem_cons_of_mem _ hj)

/-- Two nested loops. -/
theorem foldlM_foldlM_incrementAt (e : ε) {f : α → List ℕ} {as : List α} {counts : List ℕ}
    (h : ∀ a ∈ as, ∀ i ∈ f a, i < counts.length) :
    as.foldlM (fun counts a => (f a).foldlM (incrementAt e) counts) counts = .ok (tally counts (as.flatMap f)) := by
  induction as generalizing counts with
  | nil => rfl
  | cons a as ih =>
    rw [List.foldlM_cons, foldlM_incrementAt e (h a List.mem_cons_self), List.flatMap_cons, tally_append]
    refine ih fun b hb i hi => ?_
    rw [length_tally]
    exact h b (List.mem_cons_of_mem _ hb) i hi

/-- The largest value, or where the loop began. -/
def largest (f : α → ℕ) (as : List α) (n : ℕ) : ℕ :=
  as.foldl (fun n a => if f a > n then f a else n) n

theorem le_largest (f : α → ℕ) (as : List α) (n : ℕ) : n ≤ largest f as n := by
  induction as generalizing n with
  | nil => exact Nat.le_refl n
  | cons a as ih =>
    have hrest := ih (if f a > n then f a else n)
    refine Nat.le_trans ?_ hrest
    split <;> omega

theorem le_largest_of_mem {f : α → ℕ} {as : List α} {a : α} (h : a ∈ as) (n : ℕ) : f a ≤ largest f as n := by
  induction as generalizing n with
  | nil => simp at h
  | cons b as ih =>
    obtain rfl | h := List.mem_cons.mp h
    · have hfirst : f a ≤ if f a > n then f a else n := by split <;> omega
      exact Nat.le_trans hfirst (le_largest f as _)
    · exact ih h _

theorem largest_mem (f : α → ℕ) (as : List α) (n : ℕ) : largest f as n = n ∨ ∃ a ∈ as, f a = largest f as n := by
  induction as generalizing n with
  | nil => exact .inl rfl
  | cons b as ih =>
    obtain hstart | ⟨a, ha, hmax⟩ := ih (if f b > n then f b else n)
    · by_cases hb : f b > n
      · rw [if_pos hb] at hstart
        refine .inr ⟨b, List.mem_cons_self, ?_⟩
        unfold largest at hstart ⊢
        rw [List.foldl_cons, if_pos hb]
        exact hstart.symm
      · rw [if_neg hb] at hstart
        refine .inl ?_
        unfold largest at hstart ⊢
        rw [List.foldl_cons, if_neg hb]
        exact hstart
    · exact .inr ⟨a, List.mem_cons_of_mem _ ha, hmax⟩

theorem largest_perm (f : α → ℕ) {as bs : List α} (h : as.Perm bs) (n : ℕ) : largest f as n = largest f bs n := by
  have hle : ∀ {as bs : List α}, as.Perm bs → largest f as n ≤ largest f bs n := by
    intro as bs h
    obtain hn | ⟨a, ha, hmax⟩ := largest_mem f as n
    · rw [hn]
      exact le_largest f bs n
    · rw [← hmax]
      exact le_largest_of_mem (h.mem_iff.mp ha) n
  exact Nat.le_antisymm (hle h) (hle h.symm)
