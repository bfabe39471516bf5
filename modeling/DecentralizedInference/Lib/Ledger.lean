import DecentralizedInference.Lib.Run
import Mathlib.Tactic.Common

/-! Accounts along the runs of a step function: a list that has to agree with another one, which
every step extends in the same way, unless it is of a kind that loses something. What is lost
stays lost, so the two agree at the end of a run if and only if no step of it was of this kind. -/

universe u v w

variable {σ : Type u} {ε : Type v} {α : Type w} {step : σ → ε → Option σ} {s s' t : σ} {es es' : List ε} {e : ε}

theorem List.foldlM_snoc_eq_some_iff :
    (es ++ [e]).foldlM step s = some t ↔ ∃ q, es.foldlM step s = some q ∧ step q e = some t := by
  rw [List.foldlM_append, Option.bind_eq_bind, Option.bind_eq_some_iff]
  simp

theorem List.foldlM_append_of_some (h : es.foldlM step s = some t) :
    (es ++ es').foldlM step s = es'.foldlM step t := by
  rw [List.foldlM_append, h]
  rfl

/-- No step of the run from `s` by `es` is bad. -/
def NeverIn (step : σ → ε → Option σ) (s : σ) (bad : σ → ε → Prop) (es : List ε) : Prop :=
  ∀ pre e post, es = pre ++ e :: post → ∀ q, pre.foldlM step s = some q → ¬bad q e

namespace NeverIn

variable {bad : σ → ε → Prop}

theorem nil : NeverIn step s bad [] := fun pre e post h => by simp at h

theorem snoc_iff (h : es.foldlM step s = some t) :
    NeverIn step s bad (es ++ [e]) ↔ NeverIn step s bad es ∧ ¬bad t e := by
  unfold NeverIn
  rw [List.forall_split_snoc_iff (P := fun pre e => ∀ q, pre.foldlM step s = some q → ¬bad q e)]
  simp [h]

theorem of_append (h : NeverIn step s bad (es ++ es')) : NeverIn step s bad es :=
  fun pre e post hsplit => h pre e (post ++ es') (by simp [hsplit])

/-- Events that are bad in no state. -/
theorem append_of_harmless (h : NeverIn step s bad es) (hes' : ∀ e ∈ es', ∀ q, ¬bad q e) :
    NeverIn step s bad (es ++ es') := by
  intro pre e post hsplit q hq
  obtain ⟨rest, rfl, hes⟩ | ⟨rest, rfl, hes⟩ := List.append_eq_append_iff.mp hsplit
  · exact hes' e (by simp [hes]) q
  · cases rest with
    | nil =>
      have hmem : e ∈ [] ++ es' := hes ▸ List.mem_cons_self
      exact hes' e hmem q
    | cons e' rest =>
      obtain ⟨rfl, rfl⟩ : e = e' ∧ post = rest ++ es' := by simpa using hes
      exact h pre e rest rfl q hq

end NeverIn

/-- The rule of the ledger: `account` has to agree with `goal`. -/
theorem ledger {bad : σ → ε → Prop} {account goal : σ → List α}
    (hstep : ∀ s e t, step s e = some t → ∃ added, goal t = goal s ++ added ∧
      (¬bad s e ∧ account t = account s ++ added ∨
        bad s e ∧ (account t).length < (account s).length + added.length))
    (h0 : account s = goal s) (hrun : es.foldlM step s = some t) :
    (NeverIn step s bad es ∧ account t = goal t) ∨
      (¬NeverIn step s bad es ∧ (account t).length < (goal t).length) := by
  induction es using List.reverseRecOn generalizing t with
  | nil =>
    obtain rfl : s = t := by simpa using hrun
    exact .inl ⟨.nil, h0⟩
  | append_singleton es e ih =>
    obtain ⟨q, hq, hlast⟩ := List.foldlM_snoc_eq_some_iff.mp hrun
    obtain ⟨added, hgoal, hkeep⟩ := hstep q e t hlast
    rw [NeverIn.snoc_iff hq, hgoal]
    obtain ⟨hes, hqa⟩ | ⟨hes, hqa⟩ := ih hq
    · rw [← hqa]
      obtain ⟨hgood, haccount⟩ | ⟨hbad, haccount⟩ := hkeep
      · exact .inl ⟨⟨hes, hgood⟩, haccount⟩
      · refine .inr ⟨fun h => h.2 hbad, ?_⟩
        rwa [List.length_append]
    · refine .inr ⟨fun h => hes h.1, ?_⟩
      rw [List.length_append]
      obtain ⟨-, haccount⟩ | ⟨-, haccount⟩ := hkeep
      · rw [haccount, List.length_append]
        omega
      · omega

/-- The two agree exactly where nothing has been lost. -/
theorem ledger_iff {bad : σ → ε → Prop} {account goal : σ → List α}
    (hstep : ∀ s e t, step s e = some t → ∃ added, goal t = goal s ++ added ∧
      (¬bad s e ∧ account t = account s ++ added ∨
        bad s e ∧ (account t).length < (account s).length + added.length))
    (h0 : account s = goal s) (hrun : es.foldlM step s = some t) :
    account t = goal t ↔ NeverIn step s bad es := by
  obtain ⟨hes, hagree⟩ | ⟨hes, hless⟩ := ledger hstep h0 hrun
  · exact ⟨fun _ => hes, fun _ => hagree⟩
  · refine ⟨fun h => ?_, fun h => absurd h hes⟩
    rw [h] at hless
    exact absurd hless (Nat.lt_irrefl _)
