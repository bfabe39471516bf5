import DecentralizedInference.Lib.Run
import DecentralizedInference.Proofs.CachedInference
import DecentralizedInference.Proofs.Sampling

/-! Each token of the answer in a chat is one that the sampling allows for what all layers make of all
tokens before it. The chat itself feeds the last token alone to layers that have kept the others. -/

namespace Dllm

/-- An answer to a prompt: each of its tokens may come next, and there is none after one that stops. -/
structure Answers (next : List UInt32 → UInt32 → Prop) (stops : List UInt32) (maxLen : ℕ) (prompt answer : List UInt32) :
    Prop where
  length_le : answer.length ≤ maxLen
  next : ∀ before token after, answer = before ++ token :: after → next (prompt ++ before) token
  stop : ∀ before token after, answer = before ++ token :: after → token ∈ stops → after = []

section Answers

variable {next : List UInt32 → UInt32 → Prop} {stops prompt answer : List UInt32} {maxLen : ℕ}

theorem Answers.nil : Answers next stops maxLen prompt [] := ⟨Nat.zero_le _, by simp, by simp⟩

theorem Answers.mono {maxLen' : ℕ} (h : Answers next stops maxLen prompt answer) (hle : maxLen ≤ maxLen') :
    Answers next stops maxLen' prompt answer := ⟨h.length_le.trans hle, h.next, h.stop⟩

theorem Answers.snoc {token : UInt32} (h : Answers next stops maxLen prompt answer) (hgo : ∀ t ∈ answer, t ∉ stops)
    (hnext : next (prompt ++ answer) token) : Answers next stops (maxLen + 1) prompt (answer ++ [token]) := by
  refine ⟨?_, ?_, fun before t after heq hstop => ?_⟩
  · rw [List.length_append]
    exact Nat.add_le_add_right h.length_le 1
  · exact List.forall_split_snoc_iff.mpr ⟨h.next, hnext⟩
  · obtain ⟨hafter, -⟩ | ⟨after', -, rfl⟩ := List.snoc_eq_append_cons_iff.mp heq
    · exact hafter
    · exact absurd hstop (hgo t (by simp))

end Answers

section Llama

variable {F A D R σ : Type} [LinearOrder A] {fl : Floats A D} {d : LlamaDims}

theorem ChatCfg.nextToken_allows (rand : WeightedIndex fl R) (nth : SelectNth) (cfg : ChatCfg A D) {logits : List A}
    (hlogits : logits ≠ []) (hvocabulary : logits.length ≤ 2 ^ 32) {tokens : List UInt32} {g g' : R} {token : UInt32}
    (h : cfg.nextToken rand nth tokens logits g = some (token, g')) :
    (cfg.sampling fl).Allows fl (cfg.penalized fl tokens logits) token := by
  have hlength : (cfg.penalized fl tokens logits).length = logits.length := by
    unfold penalized
    split
    · rfl
    · rw [applyRepeatPenalty_eq]
      exact List.length_mapIdx
  refine sample_allows rand nth ?_ (by rwa [hlength]) h
  rw [← List.length_pos_iff, hlength]
  exact List.length_pos_iff.mpr hlogits

namespace LlamaModel

variable {k : Kernels F}

/-- A next token: one that the sampling allows for the last row that all layers make of the tokens, with the penalty
for those among the last of them. -/
def Next (m : LlamaModel d F (List A) (R × σ)) (r : k.ByRow) (fl : Floats A D) (cfg : ChatCfg A D) (tokens : List UInt32) (token : UInt32) : Prop :=
  ∃ rows row, tokens.mapM m.wte = some rows ∧ rows.length ≤ d.maxPositionEmbeddings.toNat ∧
    (rowsThrough r m.blocks [] rows).getLast? = some row ∧
    (cfg.sampling fl).Allows fl (cfg.penalized fl tokens (m.logits row)) token

/-- A turn that feeds all tokens samples from the last row of them all. -/
theorem infer_plain {L τ : Type} (m : LlamaModel d F L τ) (r : k.ByRow) (hblocks : m.blocks ≠ [])
    {tokens : List UInt32} {s s' : ChatState (τ × LlamaCache d F)} {next : UInt32}
    (hcache : s.parts.2 = .new d F false m.numHiddenLayers)
    (h : (m.parts k false).infer tokens 0 0 tokens s = (some next, s')) :
    s'.parts.2 = .new d F false m.numHiddenLayers ∧ ∃ rows row, tokens.mapM m.wte = some rows ∧
      rows.length ≤ d.maxPositionEmbeddings.toNat ∧ (rowsThrough r m.blocks [] rows).getLast? = some row ∧
      (m.sample tokens (m.logits row) s.parts.1).1 = some next := by
  have hnext : ((m.parts k false).infer tokens 0 0 tokens s).1 ≠ none := by simp [h]
  cases hrows : tokens.mapM m.wte with
  | none => simp [ChatParts.infer, parts, hrows] at hnext
  | some rows =>
    have hnonempty : ∃ y, (llamaForward m.blocks k rows 0 s.parts.2).1 = some y ∧ y ≠ [] := by
      by_contra hnone
      refine hnext (m.infer_none k false tokens hrows fun y hy => ?_).1
      by_contra hy'
      exact hnone ⟨y, hy, hy'⟩
    obtain ⟨y, hy, hne⟩ := hnonempty
    have hlength := length_llamaForward r m.blocks 0 s.parts.2 hy
    have hrowsne : rows ≠ [] := by
      intro hnil
      rw [hnil] at hlength
      exact hne (List.eq_nil_of_length_eq_zero hlength)
    have hplain := llamaForward_plain r hblocks hrowsne m.blocks_le
    rw [hcache, hplain] at hy
    split at hy
    case isFalse => cases hy
    case isTrue hfits =>
      obtain rfl := Option.some.inj hy
      rw [if_pos hfits, ← hcache, ← UInt32.toNat_zero] at hplain
      have hrow : (rowsThrough r m.blocks [] rows).getLast? = some ((rowsThrough r m.blocks [] rows).getLast hne) :=
        List.getLast?_eq_some_getLast hne
      obtain ⟨h₁, h₂⟩ := m.infer_some k false tokens hrows hplain hrow
      rw [h] at h₁ h₂
      exact ⟨by rw [h₂, hcache], rows, _, rfl, hfits, hrow, h₁.symm⟩

variable {m : LlamaModel d F (List A) (R × σ)} {r : k.ByRow} {cfg : ChatCfg A D} {prompt : List UInt32}

/-- A chat with an answer, of so many tokens or fewer. -/
def Answered (m : LlamaModel d F (List A) (R × σ)) (r : k.ByRow) (fl : Floats A D) (cfg : ChatCfg A D) (prompt : List UInt32)
    (maxLen : ℕ)
    (s : ChatState ((R × σ) × LlamaCache d F)) : Prop :=
  ∃ answer, s.tokens = prompt ++ answer ∧ Answers (m.Next r fl cfg) (m.eos.getD []) maxLen prompt answer

/-- A chat that feeds all tokens in each turn, before a turn. -/
def Answering (m : LlamaModel d F (List A) (R × σ)) (r : k.ByRow) (fl : Floats A D) (cfg : ChatCfg A D) (prompt : List UInt32)
    (index : ℕ)
    (s : ChatState ((R × σ) × LlamaCache d F)) : Prop :=
  s.parts.2 = .new d F false m.numHiddenLayers ∧ ∃ answer, s.tokens = prompt ++ answer ∧
    Answers (m.Next r fl cfg) (m.eos.getD []) index prompt answer ∧ ∀ t ∈ answer, t ∉ m.eos.getD []

theorem Answering.answered {index maxLen : ℕ} {s : ChatState ((R × σ) × LlamaCache d F)}
    (h : Answering m r fl cfg prompt index s) (hle : index ≤ maxLen) : Answered m r fl cfg prompt maxLen s := by
  obtain ⟨-, answer, htokens, hanswer, -⟩ := h
  exact ⟨answer, htokens, hanswer.mono hle⟩

/-- A token that the model with its sampling gives for a row. -/
theorem withCfg_allows (rand : WeightedIndex fl R) (nth : SelectNth) {tokens : List UInt32} {logits : List A}
    (hvocabulary : logits ≠ [] ∧ logits.length ≤ 2 ^ 32) {s : R × σ} {next : UInt32}
    (h : ((m.withCfg rand nth cfg).sample tokens logits s).1 = some next) :
    (cfg.sampling fl).Allows fl (cfg.penalized fl tokens logits) next := by
  simp only [withCfg] at h
  cases hnext : cfg.nextToken rand nth tokens logits s.1 with
  | none => simp [hnext] at h
  | some drawn =>
    simp only [hnext, Option.some.injEq] at h
    subst h
    exact cfg.nextToken_allows rand nth hvocabulary.1 hvocabulary.2 hnext

theorem llamaTurnWith_answers (rand : WeightedIndex fl R) (nth : SelectNth) (hblocks : m.blocks ≠ [])
    (hvocabulary : ∀ row, m.logits row ≠ [] ∧ (m.logits row).length ≤ 2 ^ 32) {index maxLen : ℕ} (hindex : index < maxLen)
    {s : ChatState ((R × σ) × LlamaCache d F)} (h : Answering m r fl cfg prompt index s) :
    (((m.withCfg rand nth cfg).parts k false).llamaTurnWith false index s).Ends
      (Answering m r fl cfg prompt (index + 1)) (Answered m r fl cfg prompt maxLen) (Answered m r fl cfg prompt maxLen) := by
  obtain ⟨hvars, -, -⟩ := ((m.withCfg rand nth cfg).parts k false).infer_vars s.tokens 0 0 s.tokens s
  unfold ChatParts.llamaTurnWith
  simp only [Bool.false_eq_true, false_and, if_false, Nat.sub_self, List.drop_zero]
  rcases hinfer : ((m.withCfg rand nth cfg).parts k false).infer s.tokens 0 0 s.tokens s with ⟨_ | next, s'⟩
  · -- no token: what there is stays
    rw [hinfer] at hvars
    obtain ⟨answer, htokens, hanswer⟩ := h.answered hindex.le
    exact ⟨answer, hvars.trans htokens, hanswer⟩
  · rw [hinfer] at hvars
    obtain ⟨hcache, answer, htokens, hanswer, hgo⟩ := h
    obtain ⟨hcache', rows, row, hrows, hfits, hrow, hsample⟩ :=
      (m.withCfg rand nth cfg).infer_plain r hblocks hcache hinfer
    have hnext : m.Next r fl cfg (prompt ++ answer) next := by
      rw [← htokens]
      exact ⟨rows, row, hrows, hfits, hrow, withCfg_allows rand nth (hvocabulary row) hsample⟩
    have hsnoc := hanswer.snoc hgo hnext
    have htokens' : s'.tokens ++ [next] = prompt ++ (answer ++ [next]) := by
      rw [hvars, htokens, List.append_assoc]
    have hanswered : ∀ t : ChatState ((R × σ) × LlamaCache d F), t.tokens = s'.tokens ++ [next] → Answered m r fl cfg prompt maxLen t :=
      fun t ht => ⟨_, ht.trans htokens', hsnoc.mono hindex⟩
    have heos : ((m.withCfg rand nth cfg).parts k false).eos = m.eos := rfl
    simp only [heos]
    by_cases hstop : next ∈ m.eos.getD []
    · rw [if_pos hstop]
      exact hanswered _ rfl
    · rw [if_neg hstop]
      simp only [parts_emit]
      rcases (m.withCfg rand nth cfg).emit next s'.parts.1 with ⟨_ | _ | _, own⟩
      · exact hanswered _ rfl
      · exact hanswered _ rfl
      · refine ⟨hcache', _, htokens', hsnoc, fun t ht => ?_⟩
        rcases List.mem_append.mp ht with ht | ht
        · exact hgo t ht
        · rwa [List.mem_singleton.mp ht]

/-- The answer of a chat that keeps keys and values, whether it fails or not. -/
theorem chat_answers (r : k.ByRow) (hcut : d.numKeyValueHeads ≤ d.maxPositionEmbeddings.toNat)
    (rand : WeightedIndex fl R) (nth : SelectNth) (hblocks : m.blocks ≠ [])
    (hvocabulary : ∀ row, m.logits row ≠ [] ∧ (m.logits row).length ≤ 2 ^ 32) (maxLen : UInt32) (text : String)
    (own : R × σ) (cache : LlamaCache d F) {prompt : List UInt32} (hprompt : m.encode text = some prompt) :
    ∃ answer, (((m.withCfg rand nth cfg).parts k true).llamaChat maxLen text (own, cache)).2.tokens = prompt ++ answer ∧
      Answers (m.Next r fl cfg) (m.eos.getD []) maxLen.toNat prompt answer := by
  rw [← ChatParts.llamaChatWith_true]
  obtain ⟨-, htokens, -⟩ := (m.withCfg rand nth cfg).llamaChatWith_alike r hcut hblocks maxLen text own cache cache
  rw [← htokens]
  have hencode : ((m.withCfg rand nth cfg).parts k false).encode text = some prompt := hprompt
  have hstart : ((m.withCfg rand nth cfg).parts k false).start maxLen (own, cache) =
      (true, own, .new d F false m.numHiddenLayers) := rfl
  have hbegin : Answering m r fl cfg prompt 0 { parts := (own, .new d F false m.numHiddenLayers), tokens := prompt } :=
    ⟨rfl, [], by rw [List.append_nil], .nil, by simp⟩
  have hloop := forEach_range_ends (n := maxLen.toNat) hbegin fun index s hindex h =>
    llamaTurnWith_answers rand nth hblocks hvocabulary hindex h
  unfold ChatParts.llamaChatWith
  simp only [hencode, hstart]
  cases hturns : forEach (((m.withCfg rand nth cfg).parts k false).llamaTurnWith false) (List.range maxLen.toNat)
      { parts := (own, .new d F false m.numHiddenLayers), tokens := prompt } with
  | leave s =>
    rw [hturns] at hloop
    exact hloop
  | brk s =>
    rw [hturns] at hloop
    rw [ChatParts.close_tokens]
    exact hloop
  | next s =>
    rw [hturns] at hloop
    rw [ChatParts.close_tokens]
    exact Answering.answered hloop (Nat.le_refl _)

end LlamaModel

end Llama

/-- The model of two layers that add the means so far, with logits for the tokens up to 3. The end becomes likely as the
last number grows. -/
def rankModel : LlamaModel oneNumber (WithBot ℚ) (List ℚ) (Unit × List UInt32) where
  encode := meanModel.encode
  eos := meanModel.eos
  wte := meanModel.wte
  blocks := meanModel.blocks
  numHiddenLayers := meanModel.numHiddenLayers
  blocks_le := meanModel.blocks_le
  logits x := [finite (meanModel.logits x) - 8, 0, 1, 2]
  sample _ _ own := (none, own)
  emit token own := (.sent, own.1, own.2 ++ [token])
  decodeRest own := (.sent, own)

theorem chat_answers_rank :
    let cfg : ChatCfg ℚ ℚ := ⟨0, some 2, none, 4, 1⟩
    let m := rankModel.withCfg firstChance sortNth cfg
    let chat := ((m.parts evenKernels true).llamaChat 8 "hi" (((), []), ⟨true, []⟩)).2
    chat.tokens = [1, 2, 3, 2, 3, 0] ∧ ∃ answer, chat.tokens = [1, 2] ++ answer ∧
      Answers (rankModel.Next evenByRow evenFloats cfg) [0] 8 [1, 2] answer := by
  have hvocabulary : ∀ row, rankModel.logits row ≠ [] ∧ (rankModel.logits row).length ≤ 2 ^ 32 :=
    fun row => ⟨List.cons_ne_nil _ _, by simp [rankModel]⟩
  exact ⟨by decide +kernel, LlamaModel.chat_answers evenByRow (by decide) firstChance sortNth (by simp [rankModel, meanModel])
    hvocabulary 8 "hi" ((), []) ⟨true, []⟩ rfl⟩

end Dllm
