import Mathlib.Data.List.Basic
import Mathlib.Data.List.Induction

/-! Runs of a labelled step relation, the invariant rule for them, positions in a
growing history, and what a finished sequence of fallible computations says about each of them. -/

universe u v w

/-- `Run step s es t`: the events `es`, in order, lead from `s` to `t`. -/
inductive Run {σ : Type u} {ε : Type v} (step : σ → ε → σ → Prop) (s : σ) : List ε → σ → Prop
  | nil : Run step s [] s
  | snoc {es : List ε} {t t' : σ} {e : ε} : Run step s es t → step t e t' → Run step s (es ++ [e]) t'

namespace Run

variable {σ : Type u} {ε : Type v} {step : σ → ε → σ → Prop} {s t : σ} {es : List ε}

/-- A property of the start that every step keeps holds at the end of every run. -/
theorem invariant {P : σ → Prop} (hrun : Run step s es t) (h0 : P s)
    (hstep : ∀ a e b, step a e b → P a → P b) : P t := by
  induction hrun with
  | nil => exact h0
  | snoc _ hs ih => exact hstep _ _ _ hs ih

theorem append {es' : List ε} {t' : σ} (hrun : Run step s es t) (hrun' : Run step t es' t') :
    Run step s (es ++ es') t' := by
  induction hrun' with
  | nil => simpa using hrun
  | snoc _ hs ih =>
    rw [← List.append_assoc]
    exact .snoc ih hs

theorem cons {t' : σ} {e : ε} (hstep : step s e t) (hrun : Run step t es t') :
    Run step s (e :: es) t' :=
  append (snoc nil hstep) hrun

/-- A weaker step relation has the same runs. -/
theorem mono {step' : σ → ε → σ → Prop} (hrun : Run step s es t)
    (h : ∀ a e b, step a e b → step' a e b) : Run step' s es t := by
  induction hrun with
  | nil => exact .nil
  | snoc _ hs ih => exact .snoc ih (h _ _ _ hs)

theorem eq_of_nil (hrun : Run step s [] t) : t = s := by
  generalize hes : ([] : List ε) = es at hrun
  cases hrun with
  | nil => rfl
  | snoc => simp at hes

/-- What relates states over no events, over one step, and over two parts that follow each
other, relates the ends of every run. -/
theorem rel {R : σ → List ε → σ → Prop} (hrun : Run step s es t) (hnil : ∀ a, R a [] a)
    (happend : ∀ a es b es' c, R a es b → R b es' c → R a (es ++ es') c)
    (hstep : ∀ a e b, step a e b → R a [e] b) : R s es t := by
  induction hrun with
  | nil => exact hnil s
  | snoc _ hs ih => exact happend _ _ _ _ _ ih (hstep _ _ _ hs)

/-- The steps of a function, taken one after the other, are a run. -/
theorem of_foldlM {f : σ → ε → Option σ} (h : es.foldlM f s = some t) :
    Run (fun s e t => f s e = some t) s es t := by
  induction es using List.reverseRecOn generalizing t with
  | nil =>
    obtain rfl : s = t := by simpa using h
    exact .nil
  | append_singleton es e ih =>
    rw [List.foldlM_append] at h
    obtain ⟨u, hu, ht⟩ := Option.bind_eq_some_iff.mp h
    exact .snoc (ih hu) (by simpa using ht)

end Run

/-- The steps as an observer sees them who sees only `view` of a state. -/
def Viewed {σ : Type u} {ε : Type v} {τ : Type w} (view : σ → τ) (step : σ → ε → σ → Prop) (x : τ) (e : ε) (y : τ) : Prop :=
  ∃ a b, step a e b ∧ view a = x ∧ view b = y

/-- Where an event stands in a history that has just grown by one: at its end, or
in the part before. -/
theorem List.snoc_eq_append_cons_iff {α : Type u} {es pre post : List α} {e x : α} :
    es ++ [e] = pre ++ x :: post ↔
      (post = [] ∧ es = pre ∧ e = x) ∨ ∃ post', post = post' ++ [e] ∧ es = pre ++ x :: post' := by
  rcases List.eq_nil_or_concat post with rfl | ⟨post', y, rfl⟩
  · simp [List.append_singleton_inj]
  · have hsplit : pre ++ x :: post'.concat y = (pre ++ x :: post') ++ [y] := by simp
    rw [hsplit, List.append_singleton_inj, List.concat_eq_append]
    constructor
    · rintro ⟨rfl, rfl⟩
      exact .inr ⟨post', rfl, rfl⟩
    · rintro (⟨h, -⟩ | ⟨q, hq, rfl⟩)
      · simp at h
      · obtain ⟨rfl, rfl⟩ := List.append_singleton_inj.mp hq
        exact ⟨rfl, rfl⟩

/-- What holds of every event of a history with what came before it. -/
theorem List.forall_split_snoc_iff {α : Type u} {es : List α} {e : α} {P : List α → α → Prop} :
    (∀ pre x post, es ++ [e] = pre ++ x :: post → P pre x) ↔
      (∀ pre x post, es = pre ++ x :: post → P pre x) ∧ P es e := by
  refine ⟨fun h => ⟨fun pre x post hes => ?_, h es e [] rfl⟩, fun h pre x post hes => ?_⟩
  · exact h pre x (post ++ [e]) (by simp [hes])
  · obtain ⟨-, rfl, rfl⟩ | ⟨post', -, hes⟩ := List.snoc_eq_append_cons_iff.mp hes
    · exact h.2
    · exact h.1 pre x post' hes

theorem List.getElem?_snoc_eq_some_iff {α : Type u} {l : List α} {a b : α} {i : ℕ} :
    (l ++ [a])[i]? = some b ↔ l[i]? = some b ∨ (i = l.length ∧ a = b) := by
  rw [List.getElem?_append]
  split
  case isTrue hi => simp [Nat.ne_of_lt hi]
  case isFalse hi =>
    rw [List.getElem?_eq_none (Nat.le_of_not_lt hi)]
    simp only [List.getElem?_singleton, Option.ite_none_right_eq_some, Option.some.injEq, reduceCtorEq, false_or]
    refine ⟨fun hend => ?_, fun hend => ?_⟩
    · obtain ⟨h0, rfl⟩ := hend
      exact ⟨by omega, rfl⟩
    · obtain ⟨rfl, rfl⟩ := hend
      exact ⟨Nat.sub_self _, rfl⟩

/-- If a list of fallible computations finishes, each of them did, and their
results are in place. -/
theorem Except.mapM_ok {α : Type u} {β ε : Type v} {f : α → Except ε β} :
    ∀ {ls : List α} {out : List β}, ls.mapM f = .ok out →
      ∀ k (hk : k < ls.length), ∃ b, f ls[k] = .ok b ∧ out[k]? = some b := by
  intro ls
  induction ls with
  | nil => intro out _ k hk; exact absurd hk (Nat.not_lt_zero k)
  | cons a ls ih =>
    intro out hout k hk
    rw [List.mapM_cons] at hout
    cases ha : f a with
    | error e => simp [ha, bind, Except.bind] at hout
    | ok b =>
      cases hls : ls.mapM f with
      | error e => simp [ha, hls, bind, Except.bind] at hout
      | ok rest =>
        simp only [ha, hls, bind, Except.bind, pure, Except.pure, Except.ok.injEq] at hout
        subst hout
        cases k with
        | zero => exact ⟨b, ha, rfl⟩
        | succ k =>
          obtain ⟨b', hb', hk'⟩ := ih hls k (by simpa using hk)
          exact ⟨b', by simpa using hb', by simpa using hk'⟩

theorem Except.length_mapM {α : Type u} {β ε : Type v} {f : α → Except ε β} {ls : List α} {out : List β}
    (h : ls.mapM f = .ok out) : out.length = ls.length := by
  induction ls generalizing out with
  | nil =>
    obtain rfl : [] = out := Except.ok.inj h
    rfl
  | cons a ls ih =>
    rw [List.mapM_cons] at h
    cases ha : f a with
    | error e => simp [ha, bind, Except.bind] at h
    | ok b =>
      cases hls : ls.mapM f with
      | error e => simp [ha, hls, bind, Except.bind] at h
      | ok rest =>
        simp only [ha, hls, bind, Except.bind, pure, Except.pure, Except.ok.injEq] at h
        rw [← h, List.length_cons, List.length_cons, ih hls]

theorem Except.toOption_eq_some_iff {ε : Type u} {α : Type v} {x : Except ε α} {a : α} :
    x.toOption = some a ↔ x = .ok a := by
  cases x <;> simp [Except.toOption]

theorem Except.map_eq_ok_iff {ε : Type u} {α β : Type v} {f : α → β} {x : Except ε α} {b : β} :
    x.map f = .ok b ↔ ∃ a, x = .ok a ∧ f a = b := by
  cases x <;> simp [Except.map]
