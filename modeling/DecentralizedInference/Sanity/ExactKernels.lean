import DecentralizedInference.Lib.Softmax
import DecentralizedInference.Sanity.Attention

/-! Kernels that compute in a field, without rounding. -/

namespace Dllm

section ExactKernels

set_option linter.unusedSectionVars false

variable {A : Type} [Field A] [LinearOrder A]

/-- A number in a calculation with finite ones. -/
def finite (a : WithBot A) : A := a.unbotD 0

/-- A score of a query. -/
def exactScore (sqrt : ℕ → A) {dim : ℕ} (q key : Row (WithBot A) dim) : WithBot A :=
  ((∑ c, finite (q c) * finite (key c)) / sqrt dim : A)

/-- A row of the attention, with weights that are finite. -/
def exactWeigh {dim : ℕ} (att : List (WithBot A)) (values : List (Row (WithBot A) dim)) : Row (WithBot A) dim :=
  fun c => (weightedSum (att.map finite) (fun v : Row (WithBot A) dim => finite (v c)) values : A)

def exactSoftmax (exp : A → A) (att : List (WithBot A)) : List (WithBot A) := (softmax exp att).map fun a : A => (a : WithBot A)

/-- Exact arithmetic, with minus infinity as a score that has been masked. -/
def exactKernels (exp : A → A) (sqrt : ℕ → A) (silu : A → A)
    (rope : {dim : ℕ} → ℕ → Row (WithBot A) dim → Row (WithBot A) dim) : Kernels (WithBot A) where
  add a b := WithBot.map₂ (· + ·) a b
  mul a b := WithBot.map₂ (· * ·) a b
  silu a := a.map silu
  negInfinity := ⊥
  rope := rope
  scores q keys := q.map fun q h => keys.map fun key => exactScore sqrt (q h) (key h)
  softmax att := att.map fun att h => exactSoftmax exp (att h)
  weigh att values := att.map fun att h => exactWeigh (att h) (values.map (· h))

theorem finite_exactSoftmax (exp : A → A) (att : List (WithBot A)) : (exactSoftmax exp att).map finite = softmax exp att := by
  unfold exactSoftmax
  rw [List.map_map]
  exact List.map_id _

/-- Masked scores get no weight. -/
theorem exactWeigh_masked (exp : A → A) {dim : ℕ} {att : List (WithBot A)} {values hidden : List (Row (WithBot A) dim)}
    (hlength : att.length = values.length) :
    exactWeigh (exactSoftmax exp (att ++ List.replicate hidden.length ⊥)) (values ++ hidden) =
      exactWeigh (exactSoftmax exp att) values := by
  funext c
  unfold exactWeigh
  rw [finite_exactSoftmax, finite_exactSoftmax, softmax_append_replicate, weightedSum_append_replicate]
  rw [length_softmax, hlength]

/-- Exact arithmetic treats each row by itself. -/
def exactByRow (exp : A → A) (sqrt : ℕ → A) (silu : A → A)
    (rope : {dim : ℕ} → ℕ → Row (WithBot A) dim → Row (WithBot A) dim) : (exactKernels exp sqrt silu rope).ByRow where
  score := exactScore sqrt
  softmaxRow := exactSoftmax exp
  weighRow := exactWeigh
  scores_eq _ _ := rfl
  softmax_eq _ := rfl
  weigh_eq _ _ := rfl
  masked _ hlength := exactWeigh_masked exp hlength

end ExactKernels
end Dllm
