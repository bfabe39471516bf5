import Mathlib.Algebra.BigOperators.Fin
import Mathlib.Algebra.Field.Basic
import Mathlib.Order.WithBot

/-! The softmax of numbers some of which may be minus infinity, in exact arithmetic, and sums that
are weighted with it. -/

namespace Dllm

section Softmax

set_option linter.unusedSectionVars false

variable {F : Type*} [Field F] [LinearOrder F]

/-- Each number is taken relative to the largest one, and minus infinity gets the weight zero. -/
def softmax (exp : F → F) (xs : List (WithBot F)) : List F :=
  let top := (xs.foldr max ⊥).unbotD 0
  let num := xs.map fun x => (x.map fun x => exp (x - top)).unbotD 0
  num.map (· / num.sum)

theorem length_softmax (exp : F → F) (xs : List (WithBot F)) : (softmax exp xs).length = xs.length := by
  simp [softmax]

theorem foldr_max_replicate_bot (n : ℕ) : (List.replicate n (⊥ : WithBot F)).foldr max ⊥ = ⊥ := by
  induction n with
  | zero => rfl
  | succ n ih => simp [List.replicate_succ, ih]

/-- What is minus infinity gets no weight, and changes that of nothing else. -/
theorem softmax_append_replicate (exp : F → F) (xs : List (WithBot F)) (n : ℕ) :
    softmax exp (xs ++ List.replicate n ⊥) = softmax exp xs ++ List.replicate n 0 := by
  simp [softmax, foldr_max_replicate_bot]

/-- The sum of some values, each with its weight. -/
def weightedSum {α : Type*} (weights : List F) (f : α → F) (values : List α) : F :=
  (List.zipWith (fun a v => a * f v) weights values).sum

theorem weightedSum_replicate_zero {α : Type*} (n : ℕ) (f : α → F) (values : List α) :
    weightedSum (List.replicate n 0) f values = 0 := by
  unfold weightedSum
  induction n generalizing values with
  | zero => simp
  | succ n ih =>
    cases values with
    | nil => simp
    | cons v values => simp [List.replicate_succ, ih]

/-- Values without a weight do not count. -/
theorem weightedSum_append_replicate {α : Type*} {weights : List F} (n : ℕ) (f : α → F) {values values' : List α}
    (h : weights.length = values.length) :
    weightedSum (weights ++ List.replicate n 0) f (values ++ values') = weightedSum weights f values := by
  unfold weightedSum
  rw [List.zipWith_append h, List.sum_append]
  exact (congrArg _ (weightedSum_replicate_zero n f values')).trans (add_zero _)

end Softmax
end Dllm
