import DecentralizedInference.Proofs.DistributedInference
import DecentralizedInference.Spec.RootChat

/-! A chat whose layers are spread over a chain of nodes is the chat of one machine that has all layers. The chat
does not know its answers before it has sent what they are answers to, so they are given beforehand, and it is a
matter of the chain whether it gives them. -/

namespace Dllm

/-- Calls of a session as its layers need them: pieces of rows that may follow each other, each at its position. -/
structure InOrder {α : Type} (calls : List (List α × UInt32)) : Prop where
  follow : MayFollowAll [] (calls.map Prod.fst)
  positions : ∀ before call after, calls = before ++ call :: after → call.2 = .ofNat (before.map Prod.fst).flatten.length

theorem InOrder.nil {α : Type} : InOrder ([] : List (List α × UInt32)) := ⟨trivial, by simp⟩

theorem InOrder.snoc {α : Type} {calls : List (List α × UInt32)} (h : InOrder calls) {xs : List α}
    (hxs : MayFollow (calls.map Prod.fst).flatten xs) {pos : UInt32} (hpos : pos = .ofNat (calls.map Prod.fst).flatten.length) :
    InOrder (calls ++ [(xs, pos)]) := by
  refine ⟨?_, List.forall_split_snoc_iff.mpr ⟨h.positions, hpos⟩⟩
  rw [List.map_append, List.map_singleton]
  exact mayFollowAll_snoc.mpr ⟨h.follow, hxs⟩

namespace ChatParts

variable {σ E : Type} (m : ChatParts σ E)

/-- A turn that feeds these tokens at that position. -/
def turnOn (ctxt : List UInt32) (pos : UInt32) (s : ChatState σ) : LoopTurn (ChatState σ) :=
  match m.infer ctxt 0 pos s.tokens s with
  | (none, s) => .leave s
  | (some next, s) =>
    let s := { s with indexPos := s.indexPos + .ofNat ctxt.length, tokens := s.tokens ++ [next] }
    if next ∈ m.eos.getD [] then .brk s
    else
      match m.emit next s.parts with
      | (.undecodable, parts) => .leave { s with parts }
      | (.closed, parts) => .brk { s with parts }
      | (.sent, parts) => .next { s with parts }

/-- What a turn feeds: first all tokens of the prompt, and then the last one. -/
def Feeding (index : ℕ) (tokens : List UInt32) (indexPos : UInt32) (ctxt : List UInt32) (pos : UInt32) : Prop :=
  index = 0 ∧ ctxt = tokens ∧ pos = 0 ∨ 0 < index ∧ pos = indexPos ∧ ∃ before last, tokens = before ++ [last] ∧ ctxt = [last]

theorem exists_feeding (index : ℕ) {tokens : List UInt32} (indexPos : UInt32) (htokens : tokens ≠ []) :
    ∃ ctxt pos, Feeding index tokens indexPos ctxt pos := by
  rcases Nat.eq_zero_or_pos index with rfl | hindex
  · exact ⟨tokens, 0, .inl ⟨rfl, rfl, rfl⟩⟩
  · exact ⟨_, indexPos, .inr ⟨hindex, rfl, tokens.dropLast, tokens.getLast htokens, (List.dropLast_append_getLast htokens).symm, rfl⟩⟩

theorem llamaTurnWith_feeding {index : ℕ} {s : ChatState σ} {ctxt : List UInt32} {pos : UInt32}
    (h : Feeding index s.tokens s.indexPos ctxt pos) : m.llamaTurnWith true index s = m.turnOn ctxt pos s := by
  have hcontext : ∀ c, (if true = true ∧ 0 < index then (1, s.indexPos) else (s.tokens.length, 0)) = c →
      s.tokens.drop (s.tokens.length - c.1) = ctxt ∧ c.2 = pos := by
    intro c hc
    subst hc
    rcases h with ⟨rfl, rfl, rfl⟩ | ⟨hindex, rfl, before, last, htokens, rfl⟩
    · simp
    · simp [hindex, htokens]
  unfold llamaTurnWith
  generalize hc : (if true = true ∧ 0 < index then (1, s.indexPos) else (s.tokens.length, 0)) = c
  obtain ⟨hdrop, rfl⟩ := hcontext c hc
  simp only [hdrop]
  rfl

/-- What a turn keeps: its inference and what becomes of the token do. -/
theorem llamaTurnWith_keeps {P : ChatState σ → Prop} {s : ChatState σ} (useKvCache : Bool) (index : ℕ)
    (hinfer : ∀ ctxt pos, P (m.infer ctxt 0 pos s.tokens s).2)
    (hput : ∀ t next indexPos, P t → P { t with indexPos := indexPos, tokens := t.tokens ++ [next] })
    (hemit : ∀ t token, P t → P { t with parts := (m.emit token t.parts).2 }) :
    P (m.llamaTurnWith useKvCache index s).state := by
  unfold ChatParts.llamaTurnWith
  generalize (if useKvCache = true ∧ 0 < index then (1, s.indexPos) else (s.tokens.length, 0)) = c
  have hkept := hinfer (s.tokens.drop (s.tokens.length - c.1)) c.2
  rcases hnext : m.infer (s.tokens.drop (s.tokens.length - c.1)) 0 c.2 s.tokens s with ⟨_ | next, s'⟩
  · simp only [hnext] at hkept ⊢
    exact hkept
  · simp only [hnext] at hkept ⊢
    have hput' := hput s' next (s'.indexPos + .ofNat (s.tokens.drop (s.tokens.length - c.1)).length) hkept
    split
    · exact hput'
    · have hemit' := hemit _ next hput'
      rcases hemits : m.emit next s'.parts with ⟨_ | _ | _, parts⟩ <;> simp only [hemits] at hemit' ⊢ <;> exact hemit'

/-- Tokens are only added. -/
theorem tokens_prefix_llamaTurnWith (useKvCache : Bool) (index : ℕ) (s : ChatState σ) :
    s.tokens <+: (m.llamaTurnWith useKvCache index s).state.tokens := by
  refine m.llamaTurnWith_keeps (P := fun t => s.tokens <+: t.tokens) useKvCache index (fun ctxt pos => ?_) ?_ ?_
  · rw [(m.infer_vars ctxt 0 pos s.tokens s).1]
  · exact fun t next indexPos h => h.trans (List.prefix_append _ _)
  · exact fun t token h => h

theorem tokens_prefix_close (undecodable : ChatEnd) (s : ChatState σ) : s.tokens <+: (m.close undecodable s).2.tokens := by
  rw [m.close_tokens]

/-- A loop that has come to a turn ends with more tokens than it has there. -/
theorem tokens_prefix_of_comesTo {useKvCache : Bool} {indices : List ℕ} {s t : ChatState σ} {index : ℕ}
    (h : ComesTo (m.llamaTurnWith useKvCache) indices s index t) :
    t.tokens <+: (forEach (m.llamaTurnWith useKvCache) indices s).state.tokens :=
  h.keeps (P := fun s => t.tokens <+: s.tokens) (fun index s hs => hs.trans (m.tokens_prefix_llamaTurnWith useKvCache index s))
    (m.tokens_prefix_llamaTurnWith useKvCache index t)

end ChatParts

namespace LlamaModel

variable {F : Type} {d : LlamaDims} {L σ : Type} (m : LlamaModel d F L σ)

theorem rootParts_emit (token : UInt32) (s : σ × Elsewhere (Row F d.hiddenSize)) :
    m.rootParts.emit token s = ((m.emit token s.1).1, (m.emit token s.1).2, s.2) := rfl

theorem rootParts_decodeRest (s : σ × Elsewhere (Row F d.hiddenSize)) :
    m.rootParts.decodeRest s = ((m.decodeRest s.1).1, (m.decodeRest s.1).2, s.2) := rfl

/-- An input that has no embedding is not sent. -/
theorem rootParts_infer_none {input : List UInt32} (pos : UInt32) (penalized : List UInt32)
    (s : ChatState (σ × Elsewhere (Row F d.hiddenSize))) (hxs : input.mapM m.wte = none) :
    m.rootParts.infer input 0 pos penalized s = (none, s) := by
  simp [ChatParts.infer, rootParts, hxs]

theorem rootParts_infer_some {input : List UInt32} (pos : UInt32) (penalized : List UInt32)
    (s : ChatState (σ × Elsewhere (Row F d.hiddenSize))) {xs : List (Row F d.hiddenSize)} (hxs : input.mapM m.wte = some xs) :
    (m.rootParts.infer input 0 pos penalized s).2.parts.2 = ⟨s.parts.2.answers.tail, s.parts.2.calls ++ [(xs, pos)]⟩ ∧
      ((m.rootParts.infer input 0 pos penalized s).1, (m.rootParts.infer input 0 pos penalized s).2.parts.1) =
        match s.parts.2.answers.head?.bind List.getLast? with
        | none => (none, s.parts.1)
        | some row => m.sample penalized (m.logits row) s.parts.1 := by
  cases hhead : s.parts.2.answers.head? with
  | none => simp [ChatParts.infer, rootParts, hxs, Elsewhere.forward, hhead]
  | some y =>
    cases hrow : y.getLast? with
    | none => simp [ChatParts.infer, rootParts, hxs, Elsewhere.forward, hhead, hrow]
    | some row => simp [ChatParts.infer, rootParts, hxs, Elsewhere.forward, hhead, hrow]

/-- The loop at the root before a turn: what has been sent is what comes before the position. -/
structure Sending (index : ℕ) (s : ChatState (σ × Elsewhere (Row F d.hiddenSize))) : Prop where
  tokens : s.tokens ≠ []
  inOrder : InOrder s.parts.2.calls
  indexPos : s.indexPos = .ofNat s.parts.2.sent.flatten.length
  first : index = 0 → s.parts.2.calls = []

/-- What becomes of a token is nothing to the layers. -/
theorem turnOn_elsewhere (ctxt : List UInt32) (pos : UInt32) (s : ChatState (σ × Elsewhere (Row F d.hiddenSize))) :
    (m.rootParts.turnOn ctxt pos s).state.parts.2 = (m.rootParts.infer ctxt 0 pos s.tokens s).2.parts.2 := by
  unfold ChatParts.turnOn
  rcases m.rootParts.infer ctxt 0 pos s.tokens s with ⟨_ | next, s'⟩
  · rfl
  · simp only [rootParts_emit]
    split
    · rfl
    · rcases m.emit next s'.parts.1 with ⟨_ | _ | _, own⟩ <;> rfl

/-- Calls are only added. -/
theorem calls_prefix_llamaTurnWith (index : ℕ) (s : ChatState (σ × Elsewhere (Row F d.hiddenSize))) :
    s.parts.2.calls <+: (m.rootParts.llamaTurnWith true index s).state.parts.2.calls := by
  refine m.rootParts.llamaTurnWith_keeps (P := fun t => s.parts.2.calls <+: t.parts.2.calls) true index (fun ctxt pos => ?_)
    (fun t next indexPos h => h) (fun t token h => h)
  cases hxs : ctxt.mapM m.wte with
  | none => rw [m.rootParts_infer_none pos s.tokens s hxs]
  | some xs =>
    rw [(m.rootParts_infer_some pos s.tokens s hxs).1]
    exact List.prefix_append _ _

theorem Sending.follows {index : ℕ} {s : ChatState (σ × Elsewhere (Row F d.hiddenSize))} (h : Sending index s)
    {ctxt : List UInt32} {pos : UInt32} (hfeeding : ChatParts.Feeding index s.tokens s.indexPos ctxt pos)
    {xs : List (Row F d.hiddenSize)} (hlength : xs.length = ctxt.length) :
    MayFollow s.parts.2.sent.flatten xs ∧ pos = .ofNat s.parts.2.sent.flatten.length := by
  rcases hfeeding with ⟨hindex, rfl, rfl⟩ | ⟨hindex, rfl, before, last, htokens, rfl⟩
  · have hsent : s.parts.2.sent = [] := by
      rw [Elsewhere.sent, h.first hindex]
      rfl
    rw [hsent]
    refine ⟨.inl ⟨rfl, ?_⟩, rfl⟩
    rw [← List.length_pos_iff, hlength]
    exact List.length_pos_iff.mpr h.tokens
  · exact ⟨.inr hlength, h.indexPos⟩

theorem llamaTurn_sending {index : ℕ} {s : ChatState (σ × Elsewhere (Row F d.hiddenSize))} (h : Sending index s) :
    (m.rootParts.llamaTurnWith true index s).Ends (Sending (index + 1)) (fun s => InOrder s.parts.2.calls)
      (fun s => InOrder s.parts.2.calls) := by
  obtain ⟨ctxt, pos, hfeeding⟩ := ChatParts.exists_feeding index s.indexPos h.tokens
  rw [ChatParts.llamaTurnWith_feeding _ hfeeding]
  obtain ⟨-, -, hindexPos⟩ := m.rootParts.infer_vars ctxt 0 pos s.tokens s
  cases hxs : ctxt.mapM m.wte with
  | none =>
    have hinfer := m.rootParts_infer_none pos s.tokens s hxs
    unfold ChatParts.turnOn
    rw [hinfer]
    exact h.inOrder
  | some xs =>
    have hlength := length_of_mapM hxs
    have hfollow := h.follows hfeeding hlength
    obtain ⟨helsewhere, -⟩ := m.rootParts_infer_some pos s.tokens s hxs
    have hinOrder : InOrder (s.parts.2.calls ++ [(xs, pos)]) := h.inOrder.snoc hfollow.1 hfollow.2
    have hcalls : (m.rootParts.infer ctxt 0 pos s.tokens s).2.parts.2.calls = s.parts.2.calls ++ [(xs, pos)] := by
      rw [helsewhere]
    unfold ChatParts.turnOn
    rcases hinfer : m.rootParts.infer ctxt 0 pos s.tokens s with ⟨_ | next, s'⟩
    · rw [← hcalls, hinfer] at hinOrder
      exact hinOrder
    · rw [hinfer] at hcalls hindexPos
      rw [← hcalls] at hinOrder
      have hpos : s'.indexPos + UInt32.ofNat ctxt.length = .ofNat s'.parts.2.sent.flatten.length := by
        rw [hindexPos, h.indexPos, Elsewhere.sent, Elsewhere.sent, hcalls, ← hlength, ← UInt32.ofNat_add]
        simp
      simp only [rootParts_emit]
      split
      · exact hinOrder
      · rcases m.emit next s'.parts.1 with ⟨_ | _ | _, own⟩
        · exact hinOrder
        · exact hinOrder
        · exact ⟨by simp, hinOrder, hpos, by simp⟩

/-- A turn makes one call at most. -/
theorem calls_length_llamaTurnWith (index : ℕ) (s : ChatState (σ × Elsewhere (Row F d.hiddenSize))) :
    (m.rootParts.llamaTurnWith true index s).state.parts.2.calls.length ≤ s.parts.2.calls.length + 1 := by
  refine m.rootParts.llamaTurnWith_keeps (P := fun t => t.parts.2.calls.length ≤ s.parts.2.calls.length + 1) true index
    (fun ctxt pos => ?_) (fun t next indexPos h => h) (fun t token h => h)
  cases hxs : ctxt.mapM m.wte with
  | none =>
    rw [m.rootParts_infer_none pos s.tokens s hxs]
    exact Nat.le_succ _
  | some xs => rw [(m.rootParts_infer_some pos s.tokens s hxs).1, List.length_append, List.length_singleton]

theorem rootParts_close (undecodable : ChatEnd) (s : ChatState (σ × Elsewhere (Row F d.hiddenSize))) :
    (m.rootParts.close undecodable s).2.parts.2 = s.parts.2 := by
  unfold ChatParts.close
  rw [rootParts_decodeRest]
  rcases m.decodeRest s.parts.1 with ⟨_ | _ | _, own⟩ <;> rfl

/-- The loop of the chat at the root. -/
def rootLoop (maxLen : UInt32) (tokens : List UInt32) (own : σ) (answers : List (List (Row F d.hiddenSize))) :
    LoopTurn (ChatState (σ × Elsewhere (Row F d.hiddenSize))) :=
  forEach (m.rootParts.llamaTurnWith true) (List.range maxLen.toNat) { parts := (own, ⟨answers, []⟩), tokens }

theorem rootChat_elsewhere (maxLen : UInt32) {prompt : String} {tokens : List UInt32} (hprompt : m.encode prompt = some tokens)
    (own : σ) (answers : List (List (Row F d.hiddenSize))) :
    (m.rootParts.llamaChatWith true maxLen prompt (own, ⟨answers, []⟩)).2.parts.2 =
      (m.rootLoop maxLen tokens own answers).state.parts.2 := by
  have hencode : m.rootParts.encode prompt = some tokens := hprompt
  have hstart : m.rootParts.start maxLen (own, ⟨answers, []⟩) = (true, own, ⟨answers, []⟩) := rfl
  unfold ChatParts.llamaChatWith rootLoop
  simp only [hencode, hstart]
  cases forEach (m.rootParts.llamaTurnWith true) (List.range maxLen.toNat) { parts := (own, ⟨answers, []⟩), tokens } with
  | leave s => rfl
  | brk s => exact m.rootParts_close _ s
  | next s => exact m.rootParts_close _ s

/-- The chat makes as many calls as it may generate tokens, or fewer. -/
theorem rootChat_calls_length (maxLen : UInt32) {prompt : String} {tokens : List UInt32} (hprompt : m.encode prompt = some tokens)
    (own : σ) (answers : List (List (Row F d.hiddenSize))) :
    (m.rootParts.llamaChatWith true maxLen prompt (own, ⟨answers, []⟩)).2.parts.2.calls.length ≤ maxLen.toNat := by
  rw [m.rootChat_elsewhere maxLen hprompt]
  have hle := forEach_le (μ := fun s : ChatState (σ × Elsewhere (Row F d.hiddenSize)) => s.parts.2.calls.length)
    m.calls_length_llamaTurnWith (List.range maxLen.toNat) { parts := (own, ⟨answers, []⟩), tokens }
  simpa [rootLoop] using hle

section MoreAnswers

variable (extra : List (List (Row F d.hiddenSize)))

/-- The same chat with more answers to come. -/
def withMore (s : ChatState (σ × Elsewhere (Row F d.hiddenSize))) : ChatState (σ × Elsewhere (Row F d.hiddenSize)) :=
  { s with parts := (s.parts.1, ⟨s.parts.2.answers ++ extra, s.parts.2.calls⟩) }

variable {m}

/-- A call that has an answer gets that one. -/
theorem rootParts_infer_withMore (ctxt : List UInt32) (pos : UInt32) (penalized : List UInt32)
    {s : ChatState (σ × Elsewhere (Row F d.hiddenSize))} (h : s.parts.2.answers ≠ []) :
    m.rootParts.infer ctxt 0 pos penalized (withMore extra s) =
      ((m.rootParts.infer ctxt 0 pos penalized s).1, withMore extra (m.rootParts.infer ctxt 0 pos penalized s).2) := by
  obtain ⟨y, ys, hanswers⟩ := List.exists_cons_of_ne_nil h
  cases hxs : ctxt.mapM m.wte with
  | none => simp [ChatParts.infer, rootParts, hxs, withMore]
  | some xs =>
    cases hrow : y.getLast? with
    | none => simp [ChatParts.infer, rootParts, hxs, withMore, Elsewhere.forward, hanswers, hrow]
    | some row => simp [ChatParts.infer, rootParts, hxs, withMore, Elsewhere.forward, hanswers, hrow]

/-- A chat and one with more answers, before a turn. -/
def GoesOn (_ : ℕ) (s t : ChatState (σ × Elsewhere (Row F d.hiddenSize))) : Prop := s.tokens ≠ [] ∧ t = withMore extra s

/-- What one of them has sent the other one has, too. -/
def HasSent (s t : ChatState (σ × Elsewhere (Row F d.hiddenSize))) : Prop := s.parts.2.calls <+: t.parts.2.calls

theorem llamaTurn_goesOn {index : ℕ} {s t : ChatState (σ × Elsewhere (Row F d.hiddenSize))} (h : GoesOn extra index s t) :
    LoopTurn.Alike (GoesOn extra (index + 1)) HasSent HasSent (m.rootParts.llamaTurnWith true index s)
        (m.rootParts.llamaTurnWith true index t) ∨
      ∃ s', m.rootParts.llamaTurnWith true index s = .leave s' ∧
        HasSent s' (m.rootParts.llamaTurnWith true index t).state := by
  obtain ⟨htokens, rfl⟩ := h
  obtain ⟨ctxt, pos, hfeeding⟩ := ChatParts.exists_feeding index s.indexPos htokens
  have hfeeding' : ChatParts.Feeding index (withMore extra s).tokens (withMore extra s).indexPos ctxt pos := hfeeding
  rw [ChatParts.llamaTurnWith_feeding _ hfeeding, ChatParts.llamaTurnWith_feeding _ hfeeding']
  have hcalls := m.turnOn_elsewhere ctxt pos (withMore extra s)
  cases hxs : ctxt.mapM m.wte with
  | none =>
    refine .inr ⟨s, ?_, ?_⟩
    · unfold ChatParts.turnOn
      rw [m.rootParts_infer_none pos s.tokens s hxs]
    · rw [HasSent, hcalls, m.rootParts_infer_none pos _ _ hxs]
      exact List.prefix_rfl
  | some xs =>
    by_cases hanswers : s.parts.2.answers = []
    · obtain ⟨helsewhere, hnext⟩ := m.rootParts_infer_some pos s.tokens s hxs
      rw [hanswers, List.head?_nil, Option.bind_none] at hnext
      have hnone := (Prod.mk.inj hnext).1
      refine .inr ⟨(m.rootParts.infer ctxt 0 pos s.tokens s).2, ?_, ?_⟩
      · unfold ChatParts.turnOn
        rcases hr : m.rootParts.infer ctxt 0 pos s.tokens s with ⟨next, s'⟩
        rw [hr] at hnone
        subst hnone
        rfl
      · rw [HasSent, hcalls, (m.rootParts_infer_some pos _ (withMore extra s) hxs).1, helsewhere]
        exact List.prefix_rfl
    · refine .inl ?_
      have hmore := rootParts_infer_withMore (m := m) extra ctxt pos s.tokens hanswers
      unfold ChatParts.turnOn
      have htokens' : (withMore extra s).tokens = s.tokens := rfl
      rw [htokens', hmore]
      rcases m.rootParts.infer ctxt 0 pos s.tokens s with ⟨_ | next, s'⟩
      · exact List.prefix_rfl
      · simp only [rootParts_emit, withMore]
        split
        · exact List.prefix_rfl
        · rcases m.emit next s'.parts.1 with ⟨_ | _ | _, own⟩
          · exact List.prefix_rfl
          · exact List.prefix_rfl
          · exact ⟨by simp, rfl⟩

/-- More answers let a chat send more, but nothing else before. -/
theorem rootChat_calls_prefix (maxLen : UInt32) {prompt : String} {tokens : List UInt32} (hprompt : m.encode prompt = some tokens)
    (htokens : tokens ≠ []) (own : σ) (answers : List (List (Row F d.hiddenSize))) :
    (m.rootParts.llamaChatWith true maxLen prompt (own, ⟨answers, []⟩)).2.parts.2.calls <+:
      (m.rootParts.llamaChatWith true maxLen prompt (own, ⟨answers ++ extra, []⟩)).2.parts.2.calls := by
  rw [m.rootChat_elsewhere maxLen hprompt, m.rootChat_elsewhere maxLen hprompt]
  have hbegin : GoesOn extra 0 { parts := (own, (⟨answers, []⟩ : Elsewhere (Row F d.hiddenSize))), tokens }
      { parts := (own, ⟨answers ++ extra, []⟩), tokens } := ⟨htokens, rfl⟩
  have hturn : ∀ index s t, index < maxLen.toNat → GoesOn extra index s t → True →
      LoopTurn.Alike (GoesOn extra (index + 1)) HasSent HasSent (m.rootParts.llamaTurnWith true index s)
          (m.rootParts.llamaTurnWith true index t) ∨
        ∃ s', m.rootParts.llamaTurnWith true index s = .leave s' ∧
          HasSent s' (m.rootParts.llamaTurnWith true index t).state :=
    fun _ _ _ _ hst _ => m.llamaTurn_goesOn extra hst
  have hloop := forEach_range_alike_or_leave
    (U := fun index s t => HasSent s (m.rootParts.llamaTurnWith true index t).state) hbegin (T := fun _ => True)
    (fun _ _ _ => trivial) hturn trivial
  unfold rootLoop
  rcases hloop with halike | ⟨s', index, t', hleave, hcomes, hsent⟩
  · cases hturns : forEach (m.rootParts.llamaTurnWith true) (List.range maxLen.toNat) { parts := (own, ⟨answers, []⟩), tokens } <;>
      cases hturns' : forEach (m.rootParts.llamaTurnWith true) (List.range maxLen.toNat)
        { parts := (own, ⟨answers ++ extra, []⟩), tokens } <;>
      rw [hturns, hturns'] at halike
    case next.next s t =>
      obtain ⟨-, rfl⟩ := halike
      exact List.prefix_rfl
    case brk.brk s t => exact halike
    case leave.leave s t => exact halike
    all_goals exact halike.elim
  · rw [hleave]
    exact hcomes.keeps (P := HasSent s') (fun index t ht => List.IsPrefix.trans ht (m.calls_prefix_llamaTurnWith index t))
      hsent

end MoreAnswers

section Shared

variable {k : Kernels F} (r : k.ByRow) (pieces answers : List (List (Row F d.hiddenSize)))

/-- The chat at the root and that of one machine, before a turn: the machine has kept what the root has sent. -/
structure Shared (index : ℕ) (s : ChatState (σ × Elsewhere (Row F d.hiddenSize))) (t : ChatState (σ × LlamaCache d F)) : Prop where
  sending : Sending index s
  tokens : t.tokens = s.tokens
  own : t.parts.1 = s.parts.1
  indexPos : t.indexPos = s.indexPos
  answers : s.parts.2.answers = answers.drop s.parts.2.calls.length
  cache : t.parts.2 = .after r m.blocks m.numHiddenLayers s.parts.2.sent.flatten
  length_le : s.parts.2.sent.flatten.length ≤ d.maxPositionEmbeddings.toNat

/-- Both chats have generated the same, and have sampled and sent on the same. -/
def SameEnd (s : ChatState (σ × Elsewhere (Row F d.hiddenSize))) (t : ChatState (σ × LlamaCache d F)) : Prop :=
  t.tokens = s.tokens ∧ t.parts.1 = s.parts.1

/-- A forward has failed at the root for which the machine has room. -/
def FailedAt (_ : ℕ) (s : ChatState (σ × Elsewhere (Row F d.hiddenSize))) (t : ChatState (σ × LlamaCache d F)) : Prop :=
  t.tokens = s.tokens ∧ answers.length < s.parts.2.calls.length ∧
    s.parts.2.sent.flatten.length ≤ d.maxPositionEmbeddings.toNat

/-- What has been sent and answered is what the chain has been fed. -/
def Fed (s : ChatState (σ × Elsewhere (Row F d.hiddenSize))) : Prop := s.parts.2.sent.take answers.length <+: pieces

variable {m r pieces answers}

/-- The answers from a piece on. -/
theorem drop_of_prefix {f : List (Row F d.hiddenSize) → List (Row F d.hiddenSize) → List (Row F d.hiddenSize)}
    (hanswers : answers = pieceByPiece f [] pieces) {calls : List (List (Row F d.hiddenSize) × UInt32)}
    {xs : List (Row F d.hiddenSize)} (hfed : calls.map Prod.fst ++ [xs] <+: pieces) :
    answers.drop calls.length = f (calls.map Prod.fst).flatten xs :: answers.drop (calls.length + 1) := by
  obtain ⟨rest, rfl⟩ := hfed
  have hlength : (pieceByPiece f [] (calls.map Prod.fst)).length = calls.length := by simp
  rw [hanswers, List.append_assoc, pieceByPiece_append, ← hlength, List.drop_left, List.drop_append]
  simp [pieceByPiece]

theorem Shared.posNat {index : ℕ} {s : ChatState (σ × Elsewhere (Row F d.hiddenSize))} {t : ChatState (σ × LlamaCache d F)}
    (h : Shared m r answers index s t) {pos : UInt32} (hpos : pos = .ofNat s.parts.2.sent.flatten.length) :
    pos.toNat = s.parts.2.sent.flatten.length := by
  rw [hpos]
  exact UInt32.toNat_ofNat_of_lt' (Nat.lt_of_le_of_lt h.length_le d.maxPositionEmbeddings.toNat_lt)

/-- A forward that is answered, by the chain and by the layers with their cache. -/
theorem Shared.infer_alike (hcut : d.numKeyValueHeads ≤ d.maxPositionEmbeddings.toNat) (hblocks : m.blocks ≠ [])
    (hanswers : answers = pieceByPiece (rowsThrough r m.blocks) [] pieces)
    (hle : pieces.flatten.length ≤ d.maxPositionEmbeddings.toNat) {index : ℕ}
    {s : ChatState (σ × Elsewhere (Row F d.hiddenSize))} {t : ChatState (σ × LlamaCache d F)} (h : Shared m r answers index s t)
    {ctxt : List UInt32} {pos : UInt32} (hfeeding : ChatParts.Feeding index s.tokens s.indexPos ctxt pos)
    {xs : List (Row F d.hiddenSize)} (hxs : ctxt.mapM m.wte = some xs) (hfed : s.parts.2.sent ++ [xs] <+: pieces)
    (penalized : List UInt32) :
    let root := m.rootParts.infer ctxt 0 pos penalized s
    let machine := (m.parts k true).infer ctxt 0 pos penalized t
    machine.1 = root.1 ∧ machine.2.parts.1 = root.2.parts.1 ∧
      machine.2.parts.2 = .after r m.blocks m.numHiddenLayers (s.parts.2.sent ++ [xs]).flatten ∧
      (s.parts.2.sent ++ [xs]).flatten.length ≤ d.maxPositionEmbeddings.toNat ∧
      root.2.parts.2 = ⟨answers.drop (s.parts.2.calls.length + 1), s.parts.2.calls ++ [(xs, pos)]⟩ := by
  intro root machine
  obtain ⟨hfollows, hpos⟩ := h.sending.follows hfeeding (length_of_mapM hxs)
  have hanswer : s.parts.2.answers =
      rowsThrough r m.blocks s.parts.2.sent.flatten xs :: answers.drop (s.parts.2.calls.length + 1) := by
    rw [h.answers]
    exact drop_of_prefix hanswers hfed
  have hflatten : (s.parts.2.sent ++ [xs]).flatten = s.parts.2.sent.flatten ++ xs := by simp
  have hfits : s.parts.2.sent.flatten.length + xs.length ≤ d.maxPositionEmbeddings.toNat := by
    obtain ⟨rest, hrest⟩ := hfed
    rw [← hrest, List.flatten_append, hflatten, List.length_append, List.length_append] at hle
    omega
  have hforward := llamaForward_after r m.numHiddenLayers hcut hblocks hfollows
  rw [if_pos hfits, ← h.posNat hpos, ← h.cache] at hforward
  have hne : rowsThrough r m.blocks s.parts.2.sent.flatten xs ≠ [] := by
    rw [← List.length_pos_iff, (causal_rowsThrough r m.blocks).length]
    exact hfollows.elim (fun h => List.length_pos_iff.mpr h.2) fun h => by omega
  have hrow := List.getLast?_eq_some_getLast hne
  obtain ⟨hnext, hparts⟩ := m.infer_some k true penalized hxs hforward hrow
  obtain ⟨helsewhere, hroot⟩ := m.rootParts_infer_some pos penalized s hxs
  rw [hanswer, List.head?_cons, Option.bind_some, hrow] at hroot
  rw [hanswer, List.tail_cons] at helsewhere
  obtain ⟨hroot₁, hroot₂⟩ := Prod.mk.inj hroot
  refine ⟨hnext.trans ?_, ?_, ?_, ?_, helsewhere⟩
  · rw [hroot₁, h.own]
  · rw [hparts, hroot₂, h.own]
  · rw [hparts, hflatten]
  · rw [hflatten, List.length_append]
    exact hfits

/-- A forward for which the tables of the machine have no room. -/
theorem Shared.infer_full (hcut : d.numKeyValueHeads ≤ d.maxPositionEmbeddings.toNat) (hblocks : m.blocks ≠ []) {index : ℕ}
    {s : ChatState (σ × Elsewhere (Row F d.hiddenSize))} {t : ChatState (σ × LlamaCache d F)} (h : Shared m r answers index s t)
    {ctxt : List UInt32} {pos : UInt32} (hfeeding : ChatParts.Feeding index s.tokens s.indexPos ctxt pos)
    {xs : List (Row F d.hiddenSize)} (hxs : ctxt.mapM m.wte = some xs)
    (hover : d.maxPositionEmbeddings.toNat < (s.parts.2.sent ++ [xs]).flatten.length) (penalized : List UInt32) :
    ((m.parts k true).infer ctxt 0 pos penalized t).1 = none ∧
      ((m.parts k true).infer ctxt 0 pos penalized t).2.parts.1 = t.parts.1 := by
  obtain ⟨hfollows, hpos⟩ := h.sending.follows hfeeding (length_of_mapM hxs)
  have hflatten : (s.parts.2.sent ++ [xs]).flatten = s.parts.2.sent.flatten ++ xs := by simp
  have hfits : ¬s.parts.2.sent.flatten.length + xs.length ≤ d.maxPositionEmbeddings.toNat := by
    rw [hflatten, List.length_append] at hover
    exact Nat.not_le.mpr hover
  have hforward := llamaForward_after r m.numHiddenLayers hcut hblocks hfollows
  rw [if_neg hfits, ← h.posNat hpos, ← h.cache] at hforward
  exact m.infer_none k true penalized hxs fun y hy => by simp [hforward] at hy

theorem llamaTurn_shared (hcut : d.numKeyValueHeads ≤ d.maxPositionEmbeddings.toNat) (hblocks : m.blocks ≠ [])
    (hanswers : answers = pieceByPiece (rowsThrough r m.blocks) [] pieces)
    (hle : pieces.flatten.length ≤ d.maxPositionEmbeddings.toNat) {index : ℕ}
    {s : ChatState (σ × Elsewhere (Row F d.hiddenSize))} {t : ChatState (σ × LlamaCache d F)} (h : Shared m r answers index s t)
    (hfed : Fed pieces answers (m.rootParts.llamaTurnWith true index s).state) :
    LoopTurn.Alike (Shared m r answers (index + 1)) SameEnd SameEnd (m.rootParts.llamaTurnWith true index s)
        ((m.parts k true).llamaTurnWith true index t) ∨
      ∃ s', m.rootParts.llamaTurnWith true index s = .leave s' ∧ FailedAt answers index s' t := by
  obtain ⟨ctxt, pos, hfeeding⟩ := ChatParts.exists_feeding index s.indexPos h.sending.tokens
  have hfeeding' : ChatParts.Feeding index t.tokens t.indexPos ctxt pos := by rwa [h.tokens, h.indexPos]
  have hsending := m.llamaTurn_sending h.sending
  rw [ChatParts.llamaTurnWith_feeding _ hfeeding] at hfed hsending ⊢
  rw [ChatParts.llamaTurnWith_feeding _ hfeeding']
  rw [Fed, Elsewhere.sent, turnOn_elsewhere] at hfed
  obtain ⟨hvars, -, hindexPos⟩ := m.rootParts.infer_vars ctxt 0 pos s.tokens s
  obtain ⟨hvars', -, hindexPos'⟩ := (m.parts k true).infer_vars ctxt 0 pos s.tokens t
  unfold ChatParts.turnOn at hsending ⊢
  rw [h.tokens]
  cases hxs : ctxt.mapM m.wte with
  | none =>
    have hmachine : (m.parts k true).infer ctxt 0 pos s.tokens t = (none, t) := by simp [ChatParts.infer, parts, hxs]
    rw [m.rootParts_infer_none pos s.tokens s hxs, hmachine]
    exact .inl ⟨h.tokens, h.own⟩
  | some xs =>
    obtain ⟨helsewhere, hroot⟩ := m.rootParts_infer_some pos s.tokens s hxs
    by_cases hn : s.parts.2.calls.length < answers.length
    · have hsent : s.parts.2.sent ++ [xs] <+: pieces := by
        rw [helsewhere, List.map_append, List.take_of_length_le (by simpa using Nat.succ_le_of_lt hn)] at hfed
        exact hfed
      obtain ⟨hnext, hown, hcache, hfits, helsewhere⟩ := h.infer_alike hcut hblocks hanswers hle hfeeding hxs hsent s.tokens
      refine .inl ?_
      rcases hr : m.rootParts.infer ctxt 0 pos s.tokens s with ⟨next, s'⟩
      rcases hr' : (m.parts k true).infer ctxt 0 pos s.tokens t with ⟨next', t'⟩
      simp only [hr, hr'] at hnext hown hcache helsewhere hvars hvars' hindexPos hindexPos' hsending
      subst hnext
      cases next' with
      | none => exact ⟨by rw [hvars', hvars, h.tokens], hown⟩
      | some next =>
        have htokens : t'.tokens ++ [next] = s'.tokens ++ [next] := by rw [hvars', hvars, h.tokens]
        have heos : m.rootParts.eos = m.eos := rfl
        have heos' : (m.parts k true).eos = m.eos := rfl
        simp only [heos, heos', rootParts_emit, parts_emit, hown] at hsending ⊢
        by_cases hstop : next ∈ m.eos.getD []
        · rw [if_pos hstop, if_pos hstop]
          exact ⟨htokens, hown⟩
        · rw [if_neg hstop] at hsending
          rw [if_neg hstop, if_neg hstop]
          rcases hemit : m.emit next s'.parts.1 with ⟨_ | _ | _, own⟩
          · exact ⟨htokens, rfl⟩
          · exact ⟨htokens, rfl⟩
          · rw [hemit] at hsending
            refine ⟨hsending, htokens, rfl, ?_, ?_, ?_, ?_⟩
            · simp only [hindexPos', hindexPos, h.indexPos]
            · simp only [helsewhere, List.length_append, List.length_singleton]
            · simp only [hcache, Elsewhere.sent, helsewhere, List.map_append, List.map_singleton]
            · simp only [Elsewhere.sent, helsewhere, List.map_append, List.map_singleton]
              exact hfits
    · -- there is no answer to this call
      have hnone : s.parts.2.answers = [] := by rw [h.answers, List.drop_of_length_le (Nat.le_of_not_lt hn)]
      rw [hnone, List.head?_nil, Option.bind_none] at hroot
      obtain ⟨hfirst, hown⟩ := Prod.mk.inj hroot
      have hsent : (m.rootParts.infer ctxt 0 pos s.tokens s).2.parts.2.sent = s.parts.2.sent ++ [xs] := by
        rw [helsewhere, Elsewhere.sent, List.map_append]
        rfl
      rcases hr : m.rootParts.infer ctxt 0 pos s.tokens s with ⟨next, s'⟩
      rw [hr] at hfirst hown hsent helsewhere hvars
      subst hfirst
      by_cases hfits : (s.parts.2.sent ++ [xs]).flatten.length ≤ d.maxPositionEmbeddings.toNat
      · refine .inr ⟨s', rfl, by rw [hvars, h.tokens], ?_, by rwa [hsent]⟩
        rw [helsewhere, List.length_append]
        exact Nat.lt_succ_of_le (Nat.le_of_not_lt hn)
      · -- nor is there room for it
        obtain ⟨hnext, hown'⟩ := h.infer_full hcut hblocks hfeeding hxs (Nat.lt_of_not_le hfits) s.tokens
        rcases hr' : (m.parts k true).infer ctxt 0 pos s.tokens t with ⟨next', t'⟩
        rw [hr'] at hnext hown' hvars'
        subst hnext
        exact .inl ⟨by rw [hvars', hvars, h.tokens], by rw [hown', hown, h.own]⟩

theorem close_sameEnd {s : ChatState (σ × Elsewhere (Row F d.hiddenSize))} {t : ChatState (σ × LlamaCache d F)}
    (h : SameEnd s t) :
    ((m.parts k true).close (.panic .unwrapOnError) t).1 = (m.rootParts.close (.panic .unwrapOnError) s).1 ∧
      SameEnd (m.rootParts.close (.panic .unwrapOnError) s).2 ((m.parts k true).close (.panic .unwrapOnError) t).2 := by
  obtain ⟨htokens, hown⟩ := h
  unfold ChatParts.close
  simp only [parts_decodeRest, rootParts_decodeRest, hown]
  rcases m.decodeRest s.parts.1 with ⟨_ | _ | _, own⟩
  all_goals exact ⟨rfl, htokens, rfl⟩

/-- Whatever the answers are, what the root sends is in order. -/
theorem rootChat_inOrder (maxLen : UInt32) {prompt : String} {tokens : List UInt32} (hprompt : m.encode prompt = some tokens)
    (htokens : tokens ≠ []) (own : σ) :
    InOrder (m.rootParts.llamaChatWith true maxLen prompt (own, ⟨answers, []⟩)).2.parts.2.calls := by
  have hbegin : Sending 0 { parts := (own, (⟨answers, []⟩ : Elsewhere (Row F d.hiddenSize))), tokens } :=
    ⟨htokens, .nil, rfl, fun _ => rfl⟩
  have hloop := forEach_range_ends (n := maxLen.toNat) hbegin fun _ _ _ h => m.llamaTurn_sending h
  rw [m.rootChat_elsewhere maxLen hprompt]
  unfold rootLoop
  cases hturns : forEach (m.rootParts.llamaTurnWith true) (List.range maxLen.toNat) { parts := (own, ⟨answers, []⟩), tokens } with
  | leave s =>
    rw [hturns] at hloop
    exact hloop
  | brk s =>
    rw [hturns] at hloop
    exact hloop
  | next s =>
    rw [hturns] at hloop
    exact Sending.inOrder hloop

/-- The chat at the root ends as that of the machine, or with a forward that has failed and a part of its tokens. -/
theorem rootChat_shared (hcut : d.numKeyValueHeads ≤ d.maxPositionEmbeddings.toNat) (hblocks : m.blocks ≠ [])
    (hanswers : answers = pieceByPiece (rowsThrough r m.blocks) [] pieces)
    (hle : pieces.flatten.length ≤ d.maxPositionEmbeddings.toNat) (maxLen : UInt32) {prompt : String} {tokens : List UInt32}
    (hprompt : m.encode prompt = some tokens) (htokens : tokens ≠ []) (own : σ) (cache : LlamaCache d F)
    (hfed : Fed pieces answers (m.rootParts.llamaChatWith true maxLen prompt (own, ⟨answers, []⟩)).2) :
    let root := m.rootParts.llamaChatWith true maxLen prompt (own, ⟨answers, []⟩)
    let machine := (m.parts k true).llamaChatWith true maxLen prompt (own, cache)
    machine.1 = root.1 ∧ SameEnd root.2 machine.2 ∨
      answers.length < root.2.parts.2.calls.length ∧
        root.2.parts.2.sent.flatten.length ≤ d.maxPositionEmbeddings.toNat ∧ root.2.tokens <+: machine.2.tokens := by
  have hencode : m.rootParts.encode prompt = some tokens := hprompt
  have hencode' : (m.parts k true).encode prompt = some tokens := hprompt
  have hstart : m.rootParts.start maxLen (own, ⟨answers, []⟩) = (true, own, ⟨answers, []⟩) := rfl
  have hstart' : (m.parts k true).start maxLen (own, cache) = (true, own, .new d F true m.numHiddenLayers) := rfl
  have hbegin : Shared m r answers 0 { parts := (own, ⟨answers, []⟩), tokens }
      { parts := (own, .new d F true m.numHiddenLayers), tokens } :=
    ⟨⟨htokens, .nil, rfl, fun _ => rfl⟩, rfl, rfl, rfl, rfl, LlamaCache.new_eq_after r m.blocks_le, Nat.zero_le _⟩
  have hback : ∀ index s, Fed pieces answers (m.rootParts.llamaTurnWith true index s).state → Fed pieces answers s := by
    exact fun index s h => (((m.calls_prefix_llamaTurnWith index s).map _).take _).trans h
  have hend : Fed pieces answers (m.rootLoop maxLen tokens own answers).state := by
    rwa [Fed, m.rootChat_elsewhere maxLen hprompt] at hfed
  have hturn : ∀ index s t, index < maxLen.toNat → Shared m r answers index s t →
      Fed pieces answers (m.rootParts.llamaTurnWith true index s).state →
      LoopTurn.Alike (Shared m r answers (index + 1)) SameEnd SameEnd (m.rootParts.llamaTurnWith true index s)
          ((m.parts k true).llamaTurnWith true index t) ∨
        ∃ s', m.rootParts.llamaTurnWith true index s = .leave s' ∧ FailedAt answers index s' t :=
    fun _ _ _ _ h hfed => llamaTurn_shared hcut hblocks hanswers hle h hfed
  have hloop := forEach_range_alike_or_leave hbegin hback hturn hend
  intro root machine
  unfold root machine ChatParts.llamaChatWith
  simp only [hencode, hencode', hstart, hstart']
  rcases hloop with halike | ⟨s, index, t, hleave, hcomes, htokens, hcalls, hfits⟩
  · refine .inl ?_
    cases hturns : forEach (m.rootParts.llamaTurnWith true) (List.range maxLen.toNat) { parts := (own, ⟨answers, []⟩), tokens } <;>
      cases hturns' : forEach ((m.parts k true).llamaTurnWith true) (List.range maxLen.toNat)
        { parts := (own, .new d F true m.numHiddenLayers), tokens } <;>
      rw [hturns, hturns'] at halike
    case next.next s t =>
      exact close_sameEnd ⟨halike.tokens, halike.own⟩
    case brk.brk s t =>
      exact close_sameEnd halike
    case leave.leave s t =>
      exact ⟨rfl, halike⟩
    all_goals exact halike.elim
  · refine .inr ?_
    have hprefix := (m.parts k true).tokens_prefix_of_comesTo hcomes
    rw [htokens] at hprefix
    simp only [hleave]
    refine ⟨hcalls, hfits, hprefix.trans ?_⟩
    cases forEach ((m.parts k true).llamaTurnWith true) (List.range maxLen.toNat)
      { parts := (own, .new d F true m.numHiddenLayers), tokens } with
    | leave t => exact List.prefix_rfl
    | brk t => exact (m.parts k true).tokens_prefix_close _ t
    | next t => exact (m.parts k true).tokens_prefix_close _ t

end Shared

end LlamaModel

section Network

variable {Node S F : Type} {N : ℕ} [DecidableEq Node] {d : LlamaDims} {k : Kernels F} {vb : ℕ → Block d F}
  {numHiddenLayers : ℕ} {ranges : Node → Range} {w : World Node S (SharedHashMap UInt64 (LlamaCache d F)) N}
  {buf : TensorBuf (List (Row F d.hiddenSize))} {layers : Node → LayersForward (SharedHashMap UInt64 (LlamaCache d F)) (List (Row F d.hiddenSize))}
  {root : Node} {session : UInt64} {maxLen : UInt32}
  {starts : List (Visit Node S (SharedHashMap UInt64 (LlamaCache d F)) StartReq StartRes)}
  {net net₁ net₂ : Net Node S (SharedHashMap UInt64 (LlamaCache d F))} {es es₁ : List (Node × Part Node N)}
  {answers : List (List (Row F d.hiddenSize))}

/-- A chat whose forwards go through the chain of its session sends pieces in order. If all of them are answered, it
ends as the chat of one machine with all layers; and what it has generated when one of them fails is the beginning of
what that machine generates. -/
theorem LlamaWorld.distributed_chat_eq_local {L σ : Type} (r : k.ByRow) (hw : LlamaWorld k vb numHiddenLayers ranges w layers)
    (hcut : d.numKeyValueHeads ≤ d.maxPositionEmbeddings.toNat) (hN : N ≤ numHiddenLayers)
    (hopen : w.Opens ranges (w.Other buf layers (chatIds starts) session) root session maxLen starts net es net₁)
    (m : LlamaModel d F L σ) (hblocks : m.blocks = loadLayers vb ⟨0, N⟩) {prompt : String} {tokens : List UInt32}
    (hprompt : m.encode prompt = some tokens) (htokens : tokens ≠ []) (own : σ) (cache : LlamaCache d F)
    (hfeeds : w.Feeds buf layers (w.Other buf layers (chatIds starts) session) root session net₁ es₁ net₂
      ((m.rootParts.llamaChat maxLen prompt (own, ⟨answers, []⟩)).2.parts.2.sent.take answers.length) answers) :
    let chat := m.rootParts.llamaChat maxLen prompt (own, ⟨answers, []⟩)
    let machine := (m.parts k true).llamaChat maxLen prompt (own, cache)
    InOrder chat.2.parts.2.calls ∧
      (chat.2.parts.2.calls.length = answers.length →
        chat.1 = machine.1 ∧ chat.2.tokens = machine.2.tokens ∧ chat.2.parts.1 = machine.2.parts.1) ∧
      chat.2.tokens <+: machine.2.tokens := by
  rw [← ChatParts.llamaChatWith_true] at hfeeds
  rw [← ChatParts.llamaChatWith_true, ← ChatParts.llamaChatWith_true]
  have hinOrder : InOrder (m.rootParts.llamaChatWith true maxLen prompt (own, ⟨answers, []⟩)).2.parts.2.calls :=
    m.rootChat_inOrder maxLen hprompt htokens own
  have hfollow := hinOrder.follow
  rw [← List.take_append_drop answers.length (List.map _ _)] at hfollow
  obtain ⟨hanswers, hle, hne⟩ := hw.feeds_answers r hcut hN hopen hfeeds hfollow.of_append
  rw [← hblocks] at hanswers hne
  have hshared := LlamaModel.rootChat_shared hcut hne hanswers hle maxLen hprompt htokens own cache List.prefix_rfl
  refine ⟨hinOrder, fun hall => ?_, ?_⟩
  · rcases hshared with ⟨hend, htokens, hown⟩ | ⟨hfailed, -⟩
    · exact ⟨hend.symm, htokens.symm, hown.symm⟩
    · exact absurd hall (Nat.ne_of_gt hfailed)
  · rcases hshared with ⟨-, htokens, -⟩ | ⟨-, -, hprefix⟩
    · rw [htokens]
    · exact hprefix

/-- A chat that has been answered so far ends as that of the machine, or its next call can be answered. -/
theorem LlamaWorld.chat_ends_or_goes_on {L σ : Type} (r : k.ByRow) (hw : LlamaWorld k vb numHiddenLayers ranges w layers)
    (hcut : d.numKeyValueHeads ≤ d.maxPositionEmbeddings.toNat) (hN : N ≤ numHiddenLayers)
    (hopen : w.Opens ranges (w.Other buf layers (chatIds starts) session) root session maxLen starts net es net₁)
    (hpass : w.PassesFeeds buf layers (w.Other buf layers (chatIds starts) session) root session net₁)
    (m : LlamaModel d F L σ) (hblocks : m.blocks = loadLayers vb ⟨0, N⟩) {prompt : String} {tokens : List UInt32}
    (hprompt : m.encode prompt = some tokens) (htokens : tokens ≠ []) (own : σ) (cache : LlamaCache d F)
    (hfeeds : w.Feeds buf layers (w.Other buf layers (chatIds starts) session) root session net₁ es₁ net₂
      ((m.rootParts.llamaChatWith true maxLen prompt (own, ⟨answers, []⟩)).2.parts.2.sent.take answers.length) answers) :
    let chat := m.rootParts.llamaChatWith true maxLen prompt (own, ⟨answers, []⟩)
    let machine := (m.parts k true).llamaChatWith true maxLen prompt (own, cache)
    machine.1 = chat.1 ∧ LlamaModel.SameEnd chat.2 machine.2 ∨
      answers.length < maxLen.toNat ∧ ∃ net₃ ys,
        w.Feeds buf layers (w.Other buf layers (chatIds starts) session) root session net₁ es₁ net₃
          ((m.rootParts.llamaChatWith true maxLen prompt (own, ⟨answers ++ [ys], []⟩)).2.parts.2.sent.take
            (answers ++ [ys]).length) (answers ++ [ys]) := by
  have hinOrder : InOrder (m.rootParts.llamaChatWith true maxLen prompt (own, ⟨answers, []⟩)).2.parts.2.calls :=
    m.rootChat_inOrder maxLen hprompt htokens own
  have hfollow := hinOrder.follow
  rw [← List.take_append_drop answers.length (List.map _ _)] at hfollow
  obtain ⟨hanswers, hle, hne⟩ := hw.feeds_answers r hcut hN hopen hfeeds hfollow.of_append
  rw [← hblocks] at hanswers hne
  rcases LlamaModel.rootChat_shared hcut hne hanswers hle maxLen hprompt htokens own cache List.prefix_rfl with
    hend | ⟨hcalls, hfits, -⟩
  · exact .inl hend
  refine .inr ⟨Nat.lt_of_lt_of_le hcalls (m.rootChat_calls_length maxLen hprompt own answers), ?_⟩
  generalize hsent : (m.rootParts.llamaChatWith true maxLen prompt (own, ⟨answers, []⟩)).2.parts.2.sent = sent at hfeeds hfits
  have hlt : answers.length < sent.length := by
    rw [← hsent, Elsewhere.sent, List.length_map]
    exact hcalls
  have hsplit : sent = sent.take answers.length ++ [sent.get ⟨_, hlt⟩] ++ sent.drop (answers.length + 1) := by simp
  have hnext : MayFollowAll [] (sent.take answers.length ++ [sent.get ⟨_, hlt⟩]) := by
    have hall : MayFollowAll [] sent := hsent ▸ hinOrder.follow
    rw [hsplit] at hall
    exact hall.of_append
  have hroom : (sent.take answers.length ++ [sent.get ⟨_, hlt⟩]).flatten.length ≤ d.maxPositionEmbeddings.toNat := by
    rw [hsplit, List.flatten_append, List.length_append] at hfits
    exact Nat.le_trans (Nat.le_add_right _ _) hfits
  obtain ⟨-, hlinked, hplace, hfed, hcomputes⟩ := hw.opened r hcut hN hopen
  have hids : ∀ g ∈ starts.map Visit.hop, g.session ∈ chatIds starts := fun g hg => World.hop_session_mem hg
  obtain ⟨net₃, ys, hmore⟩ := hw.cacheWorld.feeds_more (LlamaWorld.causal_rows r vb ranges) hcomputes hlinked hids
    hopen.nodup_sessions hplace hfed hfeeds hnext (hpass _ _ _ _ hfeeds _) hroom
  refine ⟨net₃, ys, ?_⟩
  -- with this answer nothing else has been sent before
  have hbefore : sent <+: (m.rootParts.llamaChatWith true maxLen prompt (own, ⟨answers ++ [ys], []⟩)).2.parts.2.sent := by
    rw [← hsent]
    exact (LlamaModel.rootChat_calls_prefix [ys] maxLen hprompt htokens own answers).map Prod.fst
  obtain ⟨later, hlater⟩ := hbefore
  have htake : (sent ++ later).take (answers ++ [ys]).length = sent.take answers.length ++ [sent.get ⟨_, hlt⟩] := by
    rw [List.length_append, List.length_singleton, List.take_append_of_le_length hlt, List.take_succ_eq_append_getElem hlt]
    rfl
  rw [← hlater, htake]
  exact hmore

/-- Where no usage service refuses, a chat over a chain goes on to its end, whatever has been done so far. -/
theorem LlamaWorld.distributed_chat_completes {L σ : Type} (r : k.ByRow) (hw : LlamaWorld k vb numHiddenLayers ranges w layers)
    (hcut : d.numKeyValueHeads ≤ d.maxPositionEmbeddings.toNat) (hN : N ≤ numHiddenLayers)
    (hopen : w.Opens ranges (w.Other buf layers (chatIds starts) session) root session maxLen starts net es net₁)
    (hpass : w.PassesFeeds buf layers (w.Other buf layers (chatIds starts) session) root session net₁)
    (m : LlamaModel d F L σ) (hblocks : m.blocks = loadLayers vb ⟨0, N⟩) {prompt : String} {tokens : List UInt32}
    (hprompt : m.encode prompt = some tokens) (htokens : tokens ≠ []) (own : σ) (cache : LlamaCache d F)
    (hfeeds : w.Feeds buf layers (w.Other buf layers (chatIds starts) session) root session net₁ es₁ net₂
      ((m.rootParts.llamaChat maxLen prompt (own, ⟨answers, []⟩)).2.parts.2.sent.take answers.length) answers) :
    ∃ net₃ more,
      let chat := m.rootParts.llamaChat maxLen prompt (own, ⟨answers ++ more, []⟩)
      let machine := (m.parts k true).llamaChat maxLen prompt (own, cache)
      w.Feeds buf layers (w.Other buf layers (chatIds starts) session) root session net₁ es₁ net₃
          (chat.2.parts.2.sent.take (answers ++ more).length) (answers ++ more) ∧
        chat.1 = machine.1 ∧ chat.2.tokens = machine.2.tokens ∧ chat.2.parts.1 = machine.2.parts.1 := by
  simp only [← ChatParts.llamaChatWith_true] at hfeeds ⊢
  induction hn : maxLen.toNat - answers.length using Nat.strong_induction_on generalizing net₂ answers with
  | _ n ih =>
    rcases hw.chat_ends_or_goes_on r hcut hN hopen hpass m hblocks hprompt htokens own cache hfeeds with
      ⟨hend, htokens, hown⟩ | ⟨hlt, net₃, ys, hmore⟩
    · refine ⟨net₂, [], ?_⟩
      rw [List.append_nil]
      exact ⟨hfeeds, hend.symm, htokens.symm, hown.symm⟩
    · have hless : maxLen.toNat - (answers ++ [ys]).length < n := by
        rw [List.length_append, List.length_singleton]
        omega
      obtain ⟨net₄, more, hmore⟩ := ih _ hless hmore rfl
      refine ⟨net₄, [ys] ++ more, ?_⟩
      rw [← List.append_assoc]
      exact hmore

end Network

/-- A model of the three layers that the two nodes share. -/
def threeModel : LlamaModel oneNumber (WithBot ℚ) (WithBot ℚ) (List UInt32) where
  encode := meanModel.encode
  eos := meanModel.eos
  wte := meanModel.wte
  blocks := loadLayers (fun _ => meanBlock) ⟨0, 3⟩
  numHiddenLayers := 3
  blocks_le := Nat.le_refl 3
  logits := meanModel.logits
  sample _ x own := (some (if x < (12 : ℚ) then 3 else 0), own)
  emit := meanModel.emit
  decodeRest := meanModel.decodeRest

/-- What its root sends. -/
def threePieces : List (List (Row (WithBot ℚ) oneNumber.hiddenSize)) := [[rowOf 1, rowOf 2], [rowOf 3]]

def noAnswers : List (List (Row (WithBot ℚ) oneNumber.hiddenSize)) := []

def threeAnswers : List (List (Row (WithBot ℚ) oneNumber.hiddenSize)) :=
  pieceByPiece (rowsThrough evenByRow (loadLayers (fun _ => meanBlock) ⟨0, 3⟩)) [] threePieces

theorem distributed_chat_eq_local_three : ∃ starts net₁ net₂,
    meanWorld.Feeds meanBuf (fun n => (meanWorker n).forward) (meanOther starts) false 7 net₁ [] net₂ threePieces threeAnswers ∧
      let chat := threeModel.rootParts.llamaChat 10 "hi" ([], ⟨threeAnswers, []⟩)
      let machine := (threeModel.parts evenKernels true).llamaChat 10 "hi" ([], ⟨true, []⟩)
      chat.2.tokens = [1, 2, 3, 0] ∧ chat.1 = machine.1 ∧ chat.2.tokens = machine.2.tokens ∧
        chat.2.parts.1 = machine.2.parts.1 := by
  obtain ⟨starts, net₁, hopen⟩ := opens_mean
  obtain ⟨net₂, answers, hfeeds⟩ := feeds_mean hopen
  obtain rfl : answers = threeAnswers :=
    (llamaWorld_mean.feeds_answers evenByRow oneNumber_cut (Nat.le_refl 3) hopen hfeeds mayFollowAll_alternating).1
  have hcalls : (threeModel.rootParts.llamaChat 10 "hi" ([], ⟨threeAnswers, []⟩)).2.parts.2.calls = threePieces.zip [0, 2] := by
    decide +kernel
  have hchat := llamaWorld_mean.distributed_chat_eq_local evenByRow oneNumber_cut (Nat.le_refl 3) hopen threeModel rfl
    (rfl : threeModel.encode "hi" = some [1, 2]) (List.cons_ne_nil 1 [2]) [] ⟨true, []⟩
    (by rw [Elsewhere.sent, hcalls]; exact hfeeds)
  exact ⟨starts, net₁, net₂, hfeeds, by decide +kernel, hchat.2.1 (by rw [hcalls]; rfl)⟩

theorem distributed_chat_completes_three : ∃ starts net₁ net₂ answers,
    let chat := threeModel.rootParts.llamaChat 10 "hi" ([], ⟨answers, []⟩)
    meanWorld.Feeds meanBuf (fun n => (meanWorker n).forward) (meanOther starts) false 7 net₁ [] net₂
        (chat.2.parts.2.sent.take answers.length) answers ∧ chat.2.tokens = [1, 2, 3, 0] := by
  obtain ⟨starts, net₁, hopen⟩ := opens_mean
  have hnone : meanWorld.Feeds meanBuf (fun n => (meanWorker n).forward) (meanOther starts) false 7 net₁ [] net₁
      ((threeModel.rootParts.llamaChat 10 "hi" ([], ⟨[], []⟩)).2.parts.2.sent.take noAnswers.length) noAnswers := .none
  obtain ⟨net₂, answers, hfeeds, -, htokens, -⟩ := llamaWorld_mean.distributed_chat_completes evenByRow oneNumber_cut
    (Nat.le_refl 3) hopen passesFeeds_mean threeModel rfl (rfl : threeModel.encode "hi" = some [1, 2]) (List.cons_ne_nil 1 [2]) [] ⟨true, []⟩ hnone
  refine ⟨starts, net₁, net₂, answers, hfeeds, htokens.trans ?_⟩
  decide +kernel

end Dllm
