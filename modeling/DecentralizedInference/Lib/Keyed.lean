import Mathlib.Data.List.Basic

/-! Machines that answer inputs one after the other, and those whose state is a cell for each key.
If an input reads and changes the cell of its own key alone, the answers for a key are those of a
machine that has only this cell and only the inputs for this key, whatever comes in between. -/

variable {I O S C K : Type}

/-- The answers to inputs, each beside its input. -/
def answersOf (step : I → S → O × S) : List I → S → List (I × O)
  | [], _ => []
  | i :: is, s => (i, (step i s).1) :: answersOf step is (step i s).2

@[simp] theorem answersOf_nil (step : I → S → O × S) (s : S) : answersOf step [] s = [] := rfl

theorem answersOf_cons (step : I → S → O × S) (i : I) (is : List I) (s : S) :
    answersOf step (i :: is) s = (i, (step i s).1) :: answersOf step is (step i s).2 := rfl

theorem map_fst_answersOf (step : I → S → O × S) (is : List I) (s : S) : (answersOf step is s).map Prod.fst = is := by
  induction is generalizing s with
  | nil => rfl
  | cons i is ih => simp [answersOf, ih]

/-- An input does to the cell of its key what `own` does, and nothing to any other. -/
structure Keyed (inv : S → Prop) (step : I → S → O × S) (key : I → K) (cell : K → S → C) (own : I → C → O × C) : Prop where
  keeps : ∀ i s, inv s → inv (step i s).2
  answer : ∀ i s, inv s → (step i s).1 = (own i (cell (key i) s)).1
  own : ∀ i s, inv s → cell (key i) (step i s).2 = (own i (cell (key i) s)).2
  other : ∀ i s k, inv s → k ≠ key i → cell k (step i s).2 = cell k s

/-- The answers for a key, from those of all. -/
theorem Keyed.answers [DecidableEq K] {inv : S → Prop} {step : I → S → O × S} {key : I → K} {cell : K → S → C}
    {own : I → C → O × C} (h : Keyed inv step key cell own) (k : K) (is : List I) {s : S} (hs : inv s) :
    (answersOf step is s).filter (fun a => key a.1 = k) = answersOf own (is.filter fun i => key i = k) (cell k s) := by
  induction is generalizing s with
  | nil => rfl
  | cons i is ih =>
    have htail := ih (h.keeps i s hs)
    rw [answersOf_cons]
    by_cases hk : key i = k
    · rw [List.filter_cons_of_pos (by simpa using hk), List.filter_cons_of_pos (by simpa using hk), answersOf_cons, htail]
      subst hk
      rw [h.answer i s hs, h.own i s hs]
    · rw [List.filter_cons_of_neg (by simpa using hk), List.filter_cons_of_neg (by simpa using hk), htail,
        h.other i s k hs fun heq => hk heq.symm]
