import Mathlib.Data.List.Basic

/-! A loop over a list whose body may go on, break, or leave the function around it, and how
much a measure of the state can grow in it. -/

universe u v

inductive LoopTurn (σ : Type u) where
  | next (s : σ)
  | brk (s : σ)
  | leave (s : σ)

variable {α : Type v} {σ : Type u}

def LoopTurn.state : LoopTurn σ → σ
  | next s => s
  | brk s => s
  | leave s => s

/-- The state to go on with. -/
def LoopTurn.next? : LoopTurn σ → Option σ
  | next s => some s
  | brk _ => none
  | leave _ => none

def LoopTurn.map {τ : Type u} (f : σ → τ) : LoopTurn σ → LoopTurn τ
  | next s => .next (f s)
  | brk s => .brk (f s)
  | leave s => .leave (f s)

/-- What holds after a turn, by how it ends. -/
def LoopTurn.Ends (t : LoopTurn σ) (next brk leave : σ → Prop) : Prop :=
  match t with
  | .next s => next s
  | .brk s => brk s
  | .leave s => leave s

/-- The loop is over in that state, and the function around it goes on. -/
def LoopTurn.Over (t : LoopTurn σ) (s : σ) : Prop := t = .brk s ∨ t = .next s

/-- `next` is the end of the list. -/
def forEach (body : α → σ → LoopTurn σ) : List α → σ → LoopTurn σ
  | [], s => .next s
  | a :: as, s =>
    match body a s with
    | .next s => forEach body as s
    | t => t

/-- The loop from `s` on comes to the turn for `a`, in state `t`. -/
def ComesTo (body : α → σ → LoopTurn σ) (as : List α) (s : σ) (a : α) (t : σ) : Prop :=
  ∃ before after, as = before ++ a :: after ∧ forEach body before s = .next t

variable {body : α → σ → LoopTurn σ} {μ : σ → ℕ}

theorem LoopTurn.leave_or_over (t : LoopTurn σ) : (∃ s, t = .leave s) ∨ ∃ s, t.Over s := by
  cases t with
  | next s => exact .inr ⟨s, .inr rfl⟩
  | brk s => exact .inr ⟨s, .inl rfl⟩
  | leave s => exact .inl ⟨s, rfl⟩

theorem LoopTurn.Over.map {τ : Type u} {t : LoopTurn σ} {s : σ} (h : t.Over s) (f : σ → τ) : (t.map f).Over (f s) := by
  rcases h with rfl | rfl
  · exact .inl rfl
  · exact .inr rfl

theorem LoopTurn.Ends.of_leave {t : LoopTurn σ} {s : σ} {P Q R : σ → Prop} (h : t.Ends P Q R) (ht : t = .leave s) :
    R s := by
  subst ht
  exact h

theorem LoopTurn.Ends.of_over {t : LoopTurn σ} {s : σ} {P Q R : σ → Prop} (h : t.Ends P Q R)
    (hPQ : ∀ s, P s → Q s) (ht : t.Over s) : Q s := by
  rcases ht with rfl | rfl
  · exact h
  · exact hPQ s h

theorem forEach_append (as bs : List α) (s : σ) :
    forEach body (as ++ bs) s =
      match forEach body as s with
      | .next s => forEach body bs s
      | t => t := by
  induction as generalizing s with
  | nil => rfl
  | cons a as ih =>
    simp only [List.cons_append, forEach]
    cases body a s with
    | next s => exact ih s
    | brk s => rfl
    | leave s => rfl

/-- What every turn preserves, however it ends. -/
theorem forEach_invariant {P : σ → Prop} (hbody : ∀ a s, P s → P (body a s).state) (as : List α) {s : σ}
    (hs : P s) : P (forEach body as s).state := by
  induction as generalizing s with
  | nil => exact hs
  | cons a as ih =>
    have ha := hbody a s hs
    simp only [forEach]
    cases hturn : body a s <;> rw [hturn] at ha
    case next s' => exact ih ha
    all_goals exact ha

/-- What holds after a turn that a loop comes to, and is kept. -/
theorem ComesTo.keeps {P : σ → Prop} {as : List α} {s t : σ} {a : α} (h : ComesTo body as s a t)
    (hbody : ∀ a s, P s → P (body a s).state) (ht : P (body a t).state) : P (forEach body as s).state := by
  obtain ⟨before, after, rfl, hbefore⟩ := h
  rw [forEach_append, hbefore]
  simp only [forEach]
  cases hturn : body a t with
  | next t' =>
    rw [hturn] at ht
    exact forEach_invariant hbody after ht
  | brk t' =>
    rw [hturn] at ht
    exact ht
  | leave t' =>
    rw [hturn] at ht
    exact ht

/-- Turns that lose nothing. -/
theorem le_forEach (hbody : ∀ a s, μ s ≤ μ (body a s).state) (as : List α) (s : σ) :
    μ s ≤ μ (forEach body as s).state :=
  forEach_invariant (P := fun t => μ s ≤ μ t) (fun a t ht => Nat.le_trans ht (hbody a t)) as (Nat.le_refl _)

/-- Turns that add at most one each. -/
theorem forEach_le (hbody : ∀ a s, μ (body a s).state ≤ μ s + 1) (as : List α) (s : σ) :
    μ (forEach body as s).state ≤ μ s + as.length := by
  induction as generalizing s with
  | nil => exact Nat.le_refl _
  | cons a as ih =>
    have ha := hbody a s
    simp only [forEach, List.length_cons]
    cases hturn : body a s <;> rw [hturn] at ha
    case next s' =>
      have hone : μ s' ≤ μ s + 1 := ha
      have hrest := ih s'
      simp only
      omega
    all_goals exact Nat.le_trans ha (Nat.add_le_add_left (Nat.le_add_left 1 _) _)

/-- Turns that add one each where they go on. -/
theorem forEach_next {s s' : σ} {as : List α} (hbody : ∀ a s s', body a s = .next s' → μ s' = μ s + 1)
    (h : forEach body as s = .next s') : μ s' = μ s + as.length := by
  induction as generalizing s with
  | nil =>
    cases h
    rfl
  | cons a as ih =>
    simp only [forEach] at h
    cases hturn : body a s with
    | next t =>
      simp only [hturn] at h
      have hone := hbody a s t hturn
      have hrest := ih h
      simp only [List.length_cons]
      omega
    | brk t => simp [hturn] at h
    | leave t => simp [hturn] at h

theorem LoopTurn.next?_eq_some_iff {t : LoopTurn σ} {s : σ} : t.next? = some s ↔ t = .next s := by
  cases t <;> simp [LoopTurn.next?]

/-- What of the state `next` is decided by, if that is all that a turn asks for. -/
theorem map_next?_forEach {β : Type v} {f : σ → β} {g : β → α → Option β}
    (hbody : ∀ a s, (body a s).next?.map f = g (f s) a) (as : List α) (s : σ) :
    (forEach body as s).next?.map f = as.foldlM g (f s) := by
  induction as generalizing s with
  | nil => rfl
  | cons a as ih =>
    rw [List.foldlM_cons, ← hbody a s]
    simp only [forEach]
    cases body a s with
    | next s' => exact ih s'
    | brk s' => rfl
    | leave s' => rfl

theorem forEach_ne_brk (hbody : ∀ a s s', body a s ≠ .brk s') (as : List α) (s s' : σ) :
    forEach body as s ≠ .brk s' := by
  induction as generalizing s with
  | nil => exact nofun
  | cons a as ih =>
    simp only [forEach]
    cases hturn : body a s with
    | next t => exact ih t
    | brk t => exact absurd hturn (hbody a s t)
    | leave t => exact nofun

/-- A loop that breaks in its first turn, however long it may be. -/
theorem forEach_range_brk {body : ℕ → σ → LoopTurn σ} {n : ℕ} (hn : 0 < n) {s s' : σ} (h : body 0 s = .brk s') :
    forEach body (List.range n) s = .brk s' := by
  obtain ⟨n, rfl⟩ := Nat.exists_eq_succ_of_ne_zero (Nat.ne_of_gt hn)
  rw [Nat.succ_eq_add_one, List.range_succ_eq_map]
  simp only [forEach, h]

/-- A loop that does the same on other states does the same in all. -/
theorem forEach_map {τ : Type u} {f : σ → τ} {body' : α → τ → LoopTurn τ}
    (hbody : ∀ a s, body' a (f s) = (body a s).map f) (as : List α) (s : σ) :
    forEach body' as (f s) = (forEach body as s).map f := by
  induction as generalizing s with
  | nil => rfl
  | cons a as ih =>
    simp only [forEach, hbody]
    cases body a s with
    | next s' => exact ih s'
    | brk s' => rfl
    | leave s' => rfl

/-- The rule for loops. What holds before a turn may say which turns there have been. -/
theorem forEach_ends {P : List α → σ → Prop} {Q R : σ → Prop} {as : List α} {s : σ} (hs : P [] s)
    (hbody : ∀ before a after s, as = before ++ a :: after → P before s →
      (body a s).Ends (P (before ++ [a])) Q R) :
    (forEach body as s).Ends (P as) Q R := by
  have h : ∀ before after s, as = before ++ after → P before s → (forEach body after s).Ends (P as) Q R := by
    intro before after
    induction after generalizing before with
    | nil =>
      intro s has hs
      rw [has, List.append_nil]
      exact hs
    | cons a after ih =>
      intro s has hs
      have ha := hbody before a after s has hs
      simp only [forEach]
      cases hturn : body a s <;> rw [hturn] at ha
      case next t => exact ih (before ++ [a]) t (by rw [has, List.append_assoc, List.singleton_append]) ha
      all_goals exact ha
  exact h [] as s rfl hs

/-- The rule for a loop over `0..n`. -/
theorem forEach_range_ends {body : ℕ → σ → LoopTurn σ} {P : ℕ → σ → Prop} {Q R : σ → Prop} {n : ℕ} {s : σ}
    (hs : P 0 s) (hbody : ∀ i s, i < n → P i s → (body i s).Ends (P (i + 1)) Q R) :
    (forEach body (List.range n) s).Ends (P n) Q R := by
  have h : (forEach body (List.range n) s).Ends (P (List.range n).length) Q R :=
    forEach_ends (P := fun before => P before.length) hs fun before i after t hsplit ht => by
      have hi : (List.range n)[before.length]? = some i := by simp [hsplit]
      obtain ⟨hlt, rfl⟩ := List.getElem?_eq_some_iff.mp hi
      rw [List.getElem_range, List.length_append]
      rw [List.length_range] at hlt
      exact hbody before.length t hlt ht
  rwa [List.length_range] at h

/-- The rule for a loop with `enumerate`. -/
theorem forEach_zipIdx_ends {body : α × ℕ → σ → LoopTurn σ} {P : List α → σ → Prop} {Q R : σ → Prop} {as : List α}
    {s : σ} (hs : P [] s) (hbody : ∀ before a after s, as = before ++ a :: after → P before s →
      (body (a, before.length) s).Ends (P (before ++ [a])) Q R) :
    (forEach body as.zipIdx s).Ends (P as) Q R := by
  have h : (forEach body as.zipIdx s).Ends (P (as.zipIdx.map Prod.fst)) Q R :=
    forEach_ends (P := fun before => P (before.map Prod.fst)) hs fun before x after t hsplit ht => by
      have hx : as.zipIdx[before.length]? = some x := by simp [hsplit]
      have has : as = before.map Prod.fst ++ x.1 :: after.map Prod.fst := by
        rw [← List.map_cons, ← List.map_append, ← hsplit, List.zipIdx_map_fst]
      have hpos : x.2 = before.length := by
        rw [List.getElem?_zipIdx, Option.map_eq_some_iff] at hx
        obtain ⟨a, -, rfl⟩ := hx
        exact Nat.zero_add _
      have hturn := hbody (before.map Prod.fst) x.1 (after.map Prod.fst) t has ht
      rw [List.length_map, ← hpos] at hturn
      rwa [List.map_append]
  rwa [List.zipIdx_map_fst] at h

/-- A loop leaves the function in a turn that it comes to. -/
theorem forEach_leave_iff (as : List α) (s : σ) :
    (∃ s', forEach body as s = .leave s') ↔ ∃ a t, ComesTo body as s a t ∧ ∃ s', body a t = .leave s' := by
  refine ⟨fun h => ?_, fun h => ?_⟩
  · induction as generalizing s with
    | nil =>
      obtain ⟨s', h⟩ := h
      cases h
    | cons a as ih =>
      obtain ⟨s', h⟩ := h
      simp only [forEach] at h
      cases hturn : body a s with
      | next t =>
        rw [hturn] at h
        obtain ⟨b, u, ⟨before, after, rfl, hbefore⟩, hb⟩ := ih t ⟨s', h⟩
        exact ⟨b, u, ⟨a :: before, after, rfl, by simp only [forEach, hturn, hbefore]⟩, hb⟩
      | brk t =>
        rw [hturn] at h
        cases h
      | leave t => exact ⟨a, s, ⟨[], as, rfl, rfl⟩, t, hturn⟩
  · obtain ⟨a, t, ⟨before, after, rfl, hbefore⟩, s', ha⟩ := h
    refine ⟨s', ?_⟩
    rw [forEach_append, hbefore]
    simp only [forEach, ha]

/-- Two turns that end in the same way, in states that are related by how they end. -/
def LoopTurn.Alike {τ : Type u} (next brk leave : σ → τ → Prop) : LoopTurn σ → LoopTurn τ → Prop
  | .next s, .next t => next s t
  | .brk s, .brk t => brk s t
  | .leave s, .leave t => leave s t
  | _, _ => False

theorem forEach_range_succ (body : ℕ → σ → LoopTurn σ) (n : ℕ) (s : σ) :
    forEach body (List.range (n + 1)) s =
      match forEach body (List.range n) s with
      | .next s => body n s
      | t => t := by
  rw [List.range_succ, forEach_append]
  cases forEach body (List.range n) s with
  | next s' =>
    simp only [forEach]
    cases body n s' <;> rfl
  | brk s' => rfl
  | leave s' => rfl

/-- The rule for two loops over `0..n` that go on, break and leave at the same turns. -/
theorem forEach_range_alike {τ : Type u} {body : ℕ → σ → LoopTurn σ} {body' : ℕ → τ → LoopTurn τ} {R : ℕ → σ → τ → Prop}
    {B L : σ → τ → Prop} {n : ℕ} {s : σ} {t : τ} (hst : R 0 s t)
    (hbody : ∀ i s t, i < n → R i s t → LoopTurn.Alike (R (i + 1)) B L (body i s) (body' i t)) :
    LoopTurn.Alike (R n) B L (forEach body (List.range n) s) (forEach body' (List.range n) t) := by
  induction n with
  | zero => exact hst
  | succ n ih =>
    have hbefore := ih fun i s t hi => hbody i s t (Nat.lt_succ_of_lt hi)
    rw [forEach_range_succ, forEach_range_succ]
    cases hturns : forEach body (List.range n) s <;> cases hturns' : forEach body' (List.range n) t <;>
      rw [hturns, hturns'] at hbefore
    case next.next s' t' => exact hbody n s' t' (Nat.lt_succ_self n) hbefore
    case brk.brk => exact hbefore
    case leave.leave => exact hbefore
    all_goals exact hbefore.elim

/-- The rule for two loops of which the first one may leave when the second one would go on, where what holds at its
end has held all along. -/
theorem forEach_range_alike_or_leave {τ : Type u} {body : ℕ → σ → LoopTurn σ} {body' : ℕ → τ → LoopTurn τ}
    {R : ℕ → σ → τ → Prop} {B L : σ → τ → Prop} {U : ℕ → σ → τ → Prop} {T : σ → Prop} {n : ℕ} {s : σ} {t : τ} (hst : R 0 s t)
    (hback : ∀ i s, T (body i s).state → T s)
    (hbody : ∀ i s t, i < n → R i s t → T (body i s).state →
      LoopTurn.Alike (R (i + 1)) B L (body i s) (body' i t) ∨ ∃ s', body i s = .leave s' ∧ U i s' t)
    (hend : T (forEach body (List.range n) s).state) :
    LoopTurn.Alike (R n) B L (forEach body (List.range n) s) (forEach body' (List.range n) t) ∨
      ∃ s' i t', forEach body (List.range n) s = .leave s' ∧ ComesTo body' (List.range n) t i t' ∧ U i s' t' := by
  induction n with
  | zero => exact .inl hst
  | succ n ih =>
    rw [forEach_range_succ] at hend
    have hbefore : T (forEach body (List.range n) s).state := by
      cases hturns : forEach body (List.range n) s <;> rw [hturns] at hend
      case next s' => exact hback n s' hend
      all_goals exact hend
    rw [forEach_range_succ, forEach_range_succ]
    rcases ih (fun i s t hi => hbody i s t (Nat.lt_succ_of_lt hi)) hbefore with halike | ⟨s', i, t', hleave, hcomes, hu⟩
    · cases hturns : forEach body (List.range n) s <;> cases hturns' : forEach body' (List.range n) t <;>
        rw [hturns, hturns'] at halike
      case next.next s' t' =>
        rw [hturns] at hend
        rcases hbody n s' t' (Nat.lt_succ_self n) halike hend with hlast | ⟨s'', hleave, hu⟩
        · exact .inl hlast
        · exact .inr ⟨s'', n, t', hleave, ⟨List.range n, [], List.range_succ, hturns'⟩, hu⟩
      case brk.brk => exact .inl halike
      case leave.leave => exact .inl halike
      all_goals exact halike.elim
    · obtain ⟨before, after, hsplit, hcomes⟩ := hcomes
      refine .inr ⟨s', i, t', by rw [hleave], ⟨before, after ++ [n], ?_, hcomes⟩, hu⟩
      rw [List.range_succ, hsplit, List.append_assoc, List.cons_append]
