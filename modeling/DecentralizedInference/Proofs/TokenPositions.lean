import DecentralizedInference.Proofs.ChatBudget
import DecentralizedInference.Sanity.KvCache

/-! Tokens are fed at their own positions. `LlamaModel::chat` feeds the prompt as a whole and
then the last token at a running index, `Phi3Model::chat` feeds token by token and counts the
positions of the answer from the length of the prompt. In both, the tokens that a call comes
with are those that follow what the caches hold. -/

namespace Dllm

/-- Calls that feed the beginning of `tokens`, each token at its own position. -/
structure FedInOrder (layers : ℕ) (tokens : List UInt32) (calls : List FedCall) : Prop where
  first : ∀ c after, calls = c :: after → c.indexPos = 0
  next : ∀ before c d after, calls = before ++ c :: d :: after →
    d.indexPos.toNat = c.indexPos.toNat + c.seqLen.toNat
  seqLen : ∀ c ∈ calls, c.seqLen.toNat = c.ids.length
  caches : ∀ c ∈ calls, c.caches = List.replicate layers (List.range c.indexPos.toNat)
  fed : fed calls <+: tokens

theorem Aligned.fedInOrder {layers : ℕ} {tokens : List UInt32} {calls : List FedCall} (h : Aligned layers calls)
    (hfed : Dllm.fed calls <+: tokens) : FedInOrder layers tokens calls where
  first c after hcalls := UInt32.toNat_inj.mp (h [] c after hcalls).indexPos
  next before c d after hcalls := by
    have hc := h before c (d :: after) hcalls
    have hd := h (before ++ [c]) d after (by rw [hcalls, List.append_assoc, List.singleton_append])
    rw [hd.indexPos, hc.indexPos, hc.seqLen, fed_append, fed_singleton, List.length_append]
  seqLen c hc := by
    obtain ⟨before, after, hcalls⟩ := List.append_of_mem hc
    exact (h before c after hcalls).seqLen
  caches c hc := by
    obtain ⟨before, after, hcalls⟩ := List.append_of_mem hc
    have hfollows := h before c after hcalls
    rw [hfollows.indexPos]
    exact hfollows.caches
  fed := hfed

namespace ChatParts

variable {σ E : Type} (m : ChatParts σ E) {cfg : LayersConfig} {s : ChatState (CachedState σ)}
  {prompt generated : List UInt32} {next : UInt32}

/-- A loop has left the function after it had fed some of the tokens. -/
def FedUpTo (cfg : LayersConfig) (tokens : List UInt32) (s : ChatState (CachedState σ)) : Prop :=
  Aligned cfg.layers s.parts.calls ∧ fed s.parts.calls <+: tokens

/-- A loop is over, and of the tokens all have been fed but the last one that was generated. -/
def FedButLast (cfg : LayersConfig) (prompt generated : List UInt32) (s : ChatState (CachedState σ)) : Prop :=
  Aligned cfg.layers s.parts.calls ∧ fed s.parts.calls = prompt ++ generated.dropLast

/-- The loop of `LlamaModel::chat` before a turn: `index_pos` is the length of what the caches hold, which
is nothing at first and all but the last token later. -/
structure LlamaFed (cfg : LayersConfig) (prompt : List UInt32) (index : ℕ) (s : ChatState (CachedState σ)) : Prop where
  caches : CachesUpTo cfg s.parts
  indexPos : s.indexPos.toNat = (fed s.parts.calls).length
  tokens : index = 0 ∧ s.tokens = prompt ∧ fed s.parts.calls = [] ∨
    0 < index ∧ ∃ generated next, s.tokens = prompt ++ generated ++ [next] ∧ fed s.parts.calls = prompt ++ generated

def LlamaOver (cfg : LayersConfig) (prompt : List UInt32) (s : ChatState (CachedState σ)) : Prop :=
  ∃ generated, s.tokens = prompt ++ generated ∧ FedButLast cfg prompt generated s

def LlamaLeft (cfg : LayersConfig) (prompt : List UInt32) (s : ChatState (CachedState σ)) : Prop :=
  ∃ generated, s.tokens = prompt ++ generated ∧ FedUpTo cfg (prompt ++ generated) s

/-- The loop is over with its range, which is no shorter than the prompt. -/
theorem LlamaFed.over {index : ℕ} (hs : LlamaFed cfg prompt index s) (h : prompt.length ≤ index) :
    LlamaOver cfg prompt s := by
  rcases hs.tokens with ⟨rfl, htokens, hfed⟩ | ⟨-, generated, next, htokens, hfed⟩
  · obtain rfl := List.eq_nil_of_length_eq_zero (Nat.le_zero.mp h)
    exact ⟨[], htokens, hs.caches.aligned, hfed⟩
  · refine ⟨generated ++ [next], by rw [htokens, List.append_assoc], hs.caches.aligned, ?_⟩
    rw [List.dropLast_concat]
    exact hfed

/-- A token has been generated from all that have been there. -/
structure LlamaAnswered (cfg : LayersConfig) (prompt generated : List UInt32) (next : UInt32)
    (s : ChatState (CachedState σ)) : Prop where
  caches : CachesUpTo cfg s.parts
  indexPos : s.indexPos.toNat = (fed s.parts.calls).length
  tokens : s.tokens = prompt ++ generated ++ [next]
  fed : fed s.parts.calls = prompt ++ generated

theorem LlamaAnswered.fed_succ (hs : LlamaAnswered cfg prompt generated next s) (index : ℕ) :
    LlamaFed cfg prompt (index + 1) s :=
  ⟨hs.caches, hs.indexPos, .inr ⟨Nat.succ_pos index, generated, next, hs.tokens, hs.fed⟩⟩

theorem LlamaAnswered.over (hs : LlamaAnswered cfg prompt generated next s) : LlamaOver cfg prompt s :=
  (hs.fed_succ prompt.length).over (Nat.le_succ _)

theorem LlamaAnswered.left (hs : LlamaAnswered cfg prompt generated next s) : LlamaLeft cfg prompt s := by
  refine ⟨generated ++ [next], by rw [hs.tokens, List.append_assoc], hs.caches.aligned, ?_⟩
  rw [hs.fed, ← List.append_assoc]
  exact List.prefix_append _ _

/-- Nothing but the parts of the model is touched by what becomes of a token. -/
theorem LlamaAnswered.emit (hs : LlamaAnswered cfg prompt generated next s) (token : UInt32) :
    LlamaAnswered cfg prompt generated next { s with parts := ((m.withCaches cfg).emit token s.parts).2 } :=
  ⟨⟨hs.caches.aligned, hs.caches.caches, hs.caches.le⟩, hs.indexPos, hs.tokens, hs.fed⟩

/-- The context of a turn is what comes after the caches, with its position. -/
theorem LlamaFed.context {index : ℕ} (hs : LlamaFed cfg prompt index s) (hlen : prompt.length < 2 ^ 32)
    {c : ℕ × UInt32} (hc : (if 0 < index then (1, s.indexPos) else (s.tokens.length, 0)) = c) :
    s.tokens = fed s.parts.calls ++ s.tokens.drop (s.tokens.length - c.1) ∧
      c.2.toNat = (fed s.parts.calls).length ∧ (s.tokens.drop (s.tokens.length - c.1)).length < 2 ^ 32 := by
  rcases hs.tokens with ⟨rfl, htokens, hfed⟩ | ⟨hindex, generated, next, htokens, hfed⟩
  · rw [if_neg (Nat.lt_irrefl 0)] at hc
    subst hc
    exact ⟨by simp [hfed, htokens], by simp [hfed], by simpa [htokens] using hlen⟩
  · rw [if_pos hindex] at hc
    subst hc
    exact ⟨by simp [hfed, htokens], hs.indexPos, by simp [htokens]⟩

/-- There is a token more in the prompt and the answer than the caches hold, but at the beginning. -/
theorem LlamaFed.tokens_eq {index : ℕ} (hs : LlamaFed cfg prompt index s) :
    ∃ generated, s.tokens = prompt ++ generated := by
  rcases hs.tokens with ⟨-, htokens, -⟩ | ⟨-, generated, next, htokens, -⟩
  · exact ⟨[], by rw [htokens, List.append_nil]⟩
  · exact ⟨generated ++ [next], by rw [htokens, List.append_assoc]⟩

theorem llamaTurn_ends {index : ℕ} (hs : LlamaFed cfg prompt index s) (hlen : prompt.length < 2 ^ 32) :
    ((m.withCaches cfg).llamaTurn index s).Ends (LlamaFed cfg prompt (index + 1)) (LlamaOver cfg prompt)
      (LlamaLeft cfg prompt) := by
  unfold llamaTurn
  generalize hc : (if 0 < index then (1, s.indexPos) else (s.tokens.length, 0)) = c
  obtain ⟨hcontext, hpos, hctxt⟩ := hs.context hlen hc
  obtain ⟨generated, hgenerated⟩ := hs.tokens_eq
  obtain ⟨haligned, hprefix, hsome⟩ := m.withCaches_infer 0 s.tokens hs.caches hpos hctxt
  obtain ⟨htokens, -, hindex⟩ := (m.withCaches cfg).infer_vars (s.tokens.drop (s.tokens.length - c.1)) 0 c.2 s.tokens s
  rw [← hcontext] at hprefix hsome
  rcases hinfer : (m.withCaches cfg).infer (s.tokens.drop (s.tokens.length - c.1)) 0 c.2 s.tokens s
    with ⟨_ | next, t⟩ <;> simp only [hinfer] at haligned hprefix hsome htokens hindex ⊢
  · refine ⟨generated, htokens.trans hgenerated, haligned, ?_⟩
    rw [← hgenerated]
    exact hprefix
  · obtain ⟨hcaches, hfed⟩ := hsome nofun
    have hanswered : LlamaAnswered cfg prompt generated next
        { t with
          indexPos := t.indexPos + .ofNat (s.tokens.drop (s.tokens.length - c.1)).length
          tokens := t.tokens ++ [next] } := by
      refine ⟨hcaches, ?_, by rw [htokens, hgenerated], by rw [hfed, hgenerated]⟩
      -- the position stays within the tables of the layers, so it does not wrap
      have hlength := congrArg List.length hcontext
      have hle := hcaches.le
      have hmax := cfg.maxSeqLen.toNat_lt
      rw [List.length_append] at hlength
      rw [hfed] at hle ⊢
      rw [hindex, UInt32.toNat_add, UInt32.toNat_ofNat_of_lt' hctxt, hs.indexPos, ← hlength]
      exact Nat.mod_eq_of_lt (Nat.lt_of_le_of_lt hle hmax)
    split
    · exact hanswered.over
    · have hemitted := hanswered.emit m next
      rcases hemit : (m.withCaches cfg).emit next t.parts with ⟨_ | _ | _, p⟩ <;> rw [hemit] at hemitted
      · exact hemitted.left
      · exact hemitted.over
      · exact hemitted.fed_succ index

/-- The loop of `Phi3Model::chat` over the prompt. -/
structure PromptFed (cfg : LayersConfig) (before : List UInt32) (s : ChatState (CachedState σ)) : Prop where
  caches : CachesUpTo cfg s.parts
  tokens : s.tokens = []
  fed : fed s.parts.calls = before

/-- The loop over the answer. -/
structure AnswerFed (cfg : LayersConfig) (prompt : List UInt32) (index : ℕ) (s : ChatState (CachedState σ)) : Prop where
  caches : CachesUpTo cfg s.parts
  tokens : ∃ generated, s.tokens = generated ++ [s.nextToken] ∧ fed s.parts.calls = prompt ++ generated ∧
    generated.length = index

theorem AnswerFed.over {index : ℕ} (hs : AnswerFed cfg prompt index s) : FedButLast cfg prompt s.tokens s := by
  obtain ⟨generated, htokens, hfed, -⟩ := hs.tokens
  rw [htokens]
  refine ⟨hs.caches.aligned, ?_⟩
  rw [List.dropLast_concat]
  exact hfed

theorem AnswerFed.left {index : ℕ} (hs : AnswerFed cfg prompt index s) : FedUpTo cfg (prompt ++ s.tokens) s := by
  obtain ⟨generated, htokens, hfed, -⟩ := hs.tokens
  rw [htokens]
  refine ⟨hs.caches.aligned, ?_⟩
  rw [hfed, ← List.append_assoc]
  exact List.prefix_append _ _

theorem AnswerFed.emit {index : ℕ} (hs : AnswerFed cfg prompt index s) (token : UInt32) :
    AnswerFed cfg prompt index { s with parts := ((m.withCaches cfg).emit token s.parts).2 } :=
  ⟨⟨hs.caches.aligned, hs.caches.caches, hs.caches.le⟩, hs.tokens⟩

theorem length_singleton_lt (token : UInt32) : [token].length < 2 ^ 32 := Nat.one_lt_two_pow (by decide)

theorem promptTurn_ends {before after : List UInt32} {token : UInt32} (hprompt : prompt = before ++ token :: after)
    (hlen : prompt.length < 2 ^ 32) (hs : PromptFed cfg before s) :
    ((m.withCaches cfg).promptTurn (token, before.length) s).Ends (PromptFed cfg (before ++ [token])) (fun _ => False)
      (fun t => t.tokens = [] ∧ FedUpTo cfg prompt t) := by
  unfold promptTurn
  have hpos : (UInt32.ofNat before.length).toNat = (fed s.parts.calls).length := by
    rw [hs.fed]
    refine UInt32.toNat_ofNat_of_lt' (Nat.lt_of_le_of_lt ?_ hlen)
    rw [hprompt, List.length_append]
    exact Nat.le_add_right _ _
  obtain ⟨haligned, hprefix, hsome⟩ := m.withCaches_infer 0 [] hs.caches hpos (length_singleton_lt token)
  obtain ⟨htokens, -, -⟩ := (m.withCaches cfg).infer_vars [token] 0 (.ofNat before.length) [] s
  rw [hs.fed] at hprefix hsome
  rcases hinfer : (m.withCaches cfg).infer [token] 0 (.ofNat before.length) [] s with ⟨_ | next, t⟩ <;>
    simp only [hinfer] at haligned hprefix hsome htokens ⊢
  · refine ⟨htokens.trans hs.tokens, haligned, hprefix.trans ?_⟩
    exact ⟨after, by rw [hprompt, List.append_assoc, List.singleton_append]⟩
  · obtain ⟨hcaches, hfed⟩ := hsome nofun
    exact ⟨hcaches, htokens.trans hs.tokens, hfed⟩

theorem phi3Turn_ends (eos : List UInt32) {index : ℕ} (hs : AnswerFed cfg prompt index s) :
    ((m.withCaches cfg).phi3Turn eos (.ofNat prompt.length) index s).Ends (AnswerFed cfg prompt (index + 1))
      (fun t => FedButLast cfg prompt t.tokens t) (fun t => FedUpTo cfg (prompt ++ t.tokens) t) := by
  unfold phi3Turn
  obtain ⟨generated, hgenerated, hfedBefore, hindex⟩ := hs.tokens
  have hpos : (UInt32.ofNat prompt.length + UInt32.ofNat index).toNat = (fed s.parts.calls).length := by
    have hlength : (fed s.parts.calls).length = prompt.length + index := by
      rw [hfedBefore, List.length_append, hindex]
    have hle := hs.caches.le
    have hmax := cfg.maxSeqLen.toNat_lt
    rw [← UInt32.ofNat_add, ← hlength]
    exact UInt32.toNat_ofNat_of_lt' (Nat.lt_of_le_of_lt hle hmax)
  obtain ⟨haligned, hprefix, hsome⟩ := m.withCaches_infer (.ofNat index + 1) s.tokens hs.caches hpos
    (length_singleton_lt s.nextToken)
  obtain ⟨htokens, -, -⟩ := (m.withCaches cfg).infer_vars [s.nextToken] (.ofNat index + 1)
    (.ofNat prompt.length + .ofNat index) s.tokens s
  rw [hfedBefore, List.append_assoc, ← hgenerated] at hprefix hsome
  rcases hinfer : (m.withCaches cfg).infer [s.nextToken] (.ofNat index + 1) (.ofNat prompt.length + .ofNat index)
    s.tokens s with ⟨_ | next, t⟩ <;> simp only [hinfer] at haligned hprefix hsome htokens ⊢
  · refine ⟨haligned, ?_⟩
    rw [htokens]
    exact hprefix
  · obtain ⟨hcaches, hfed⟩ := hsome nofun
    have hanswer : AnswerFed cfg prompt (index + 1) { t with nextToken := next, tokens := t.tokens ++ [next] } := by
      refine ⟨hcaches, s.tokens, by rw [htokens], hfed, ?_⟩
      rw [hgenerated, List.length_append, hindex, List.length_singleton]
    have hemitted := hanswer.emit m next
    rcases hemit : (m.withCaches cfg).emit next t.parts with ⟨_ | _ | _, p⟩ <;> rw [hemit] at hemitted
    · exact hemitted.left
    · exact hemitted.over
    · simp only
      split
      · exact hemitted.over
      · exact hemitted

/-- A chat with what it has generated: prompt and answer are fed from the beginning, and all of them but the
last token if the chat does not fail. -/
structure ChatFed (cfg : LayersConfig) (prompt generated : List UInt32)
    (chat : ChatEnd × ChatState (CachedState σ)) : Prop where
  order : FedInOrder cfg.layers (prompt ++ generated) chat.2.parts.calls
  all : chat.1 ≠ .err → fed chat.2.parts.calls = prompt ++ generated.dropLast

theorem FedUpTo.chatFed (hs : FedUpTo cfg (prompt ++ generated) s) : ChatFed cfg prompt generated (.err, s) where
  order := hs.1.fedInOrder hs.2
  all h := absurd rfl h

theorem FedButLast.chatFed {chat : ChatEnd × ChatState (CachedState σ)} (hs : FedButLast cfg prompt generated s)
    (hcalls : chat.2.parts.calls = s.parts.calls) : ChatFed cfg prompt generated chat where
  order := by
    rw [hcalls]
    refine hs.1.fedInOrder ?_
    rw [hs.2, List.prefix_append_right_inj]
    exact List.dropLast_prefix generated
  all _ := by
    rw [hcalls]
    exact hs.2

theorem withCaches_close (cfg : LayersConfig) (undecodable : ChatEnd) (s : ChatState (CachedState σ)) :
    ((m.withCaches cfg).close undecodable s).2.tokens = s.tokens ∧
      ((m.withCaches cfg).close undecodable s).2.parts.calls = s.parts.calls := by
  unfold close
  rcases hrest : m.decodeRest s.parts.parts with ⟨_ | _ | _, p⟩ <;> simp [withCaches, hrest]

/-- New caches hold the positions of nothing. -/
theorem cachesUpTo_new (p : σ) : CachesUpTo cfg { parts := p, caches := List.replicate cfg.layers [] } :=
  ⟨.nil, rfl, Nat.zero_le _⟩

theorem llamaChat_fed {maxLen : UInt32} {text : String} (parts : σ) (caches : List (List ℕ))
    (henc : m.encode text = some prompt) (hlen : prompt.length ≤ maxLen.toNat) :
    ∃ generated, ((m.withCaches cfg).llamaChat maxLen text { parts, caches }).2.tokens = prompt ++ generated ∧
      ChatFed cfg prompt generated ((m.withCaches cfg).llamaChat maxLen text { parts, caches }) := by
  have hencoded : (m.withCaches cfg).encode text = some prompt := henc
  rcases hstart : m.start maxLen parts with ⟨_ | _, p⟩
  · have hstarted : (m.withCaches cfg).start maxLen { parts, caches } =
        (false, { parts := p, caches := List.replicate cfg.layers [] }) := by simp [withCaches, hstart]
    simp only [llamaChat, hencoded, hstarted]
    exact ⟨[], (List.append_nil _).symm, FedUpTo.chatFed ⟨.nil, List.nil_prefix⟩⟩
  · have hstarted : (m.withCaches cfg).start maxLen { parts, caches } =
        (true, { parts := p, caches := List.replicate cfg.layers [] }) := by simp [withCaches, hstart]
    have hlt : prompt.length < 2 ^ 32 := Nat.lt_of_le_of_lt hlen maxLen.toNat_lt
    have hbegin : LlamaFed cfg prompt 0
        { parts := { parts := p, caches := List.replicate cfg.layers [] }, tokens := prompt } :=
      ⟨cachesUpTo_new p, rfl, .inl ⟨rfl, rfl, rfl⟩⟩
    have hloop := forEach_range_ends (n := maxLen.toNat) hbegin fun index s _ hs => m.llamaTurn_ends hs hlt
    obtain ⟨t, hleave⟩ | ⟨t, hover⟩ := (forEach (m.withCaches cfg).llamaTurn (List.range maxLen.toNat)
      { parts := { parts := p, caches := List.replicate cfg.layers [] }, tokens := prompt }).leave_or_over
    · rw [(m.withCaches cfg).llamaChat_of_leave hencoded hstarted hleave]
      obtain ⟨generated, htokens, hfed⟩ := hloop.of_leave hleave
      exact ⟨generated, htokens, hfed.chatFed⟩
    · rw [(m.withCaches cfg).llamaChat_of_over hencoded hstarted hover]
      obtain ⟨generated, htokens, hfed⟩ := hloop.of_over (fun s hs => hs.over hlen) hover
      obtain ⟨hsame, hcalls⟩ := m.withCaches_close cfg (.panic .unwrapOnError) t
      exact ⟨generated, hsame.trans htokens, hfed.chatFed hcalls⟩

theorem phi3Answer_fed {maxLen : UInt32} (hs : PromptFed cfg prompt s) :
    ChatFed cfg prompt ((m.withCaches cfg).phi3Answer maxLen (.ofNat prompt.length) s).2.tokens
      ((m.withCaches cfg).phi3Answer maxLen (.ofNat prompt.length) s) := by
  have hfirst : AnswerFed cfg prompt 0 { s with tokens := [s.nextToken] } :=
    ⟨hs.caches, [], rfl, by rw [List.append_nil]; exact hs.fed, rfl⟩
  have hemitted := hfirst.emit m s.nextToken
  rcases hemit : (m.withCaches cfg).emit s.nextToken s.parts with ⟨_ | _ | _, p⟩ <;> rw [hemit] at hemitted
  · simp only [phi3Answer, hemit]
    exact hemitted.left.chatFed
  · simp only [phi3Answer, hemit]
    exact hemitted.over.chatFed rfl
  · cases heos : (m.withCaches cfg).eos with
    | none =>
      simp only [phi3Answer, hemit, heos]
      exact hemitted.over.chatFed rfl
    | some eos =>
      have hbegin : AnswerFed cfg prompt 0 (s.answering maxLen (.ofNat prompt.length) p) :=
        ⟨hemitted.caches, hemitted.tokens⟩
      have hloop := forEach_range_ends (n := (maxLen - .ofNat prompt.length).toNat) hbegin
        fun index s _ hs => m.phi3Turn_ends eos hs
      obtain ⟨t, hleave⟩ | ⟨t, hover⟩ := (forEach ((m.withCaches cfg).phi3Turn eos (.ofNat prompt.length))
        (List.range (maxLen - .ofNat prompt.length).toNat) (s.answering maxLen (.ofNat prompt.length) p)).leave_or_over
      · rw [(m.withCaches cfg).phi3Answer_of_leave hemit heos hleave]
        exact (hloop.of_leave hleave).chatFed
      · rw [(m.withCaches cfg).phi3Answer_of_over hemit heos hover]
        obtain ⟨hsame, hcalls⟩ := m.withCaches_close cfg .err t
        rw [hsame]
        exact (hloop.of_over (fun s hs => hs.over) hover).chatFed hcalls

theorem phi3Chat_fed {maxLen : UInt32} {text : String} (parts : σ) (caches : List (List ℕ))
    (henc : m.encode text = some prompt) (hlen : prompt.length ≤ maxLen.toNat) :
    ChatFed cfg prompt ((m.withCaches cfg).phi3Chat maxLen text { parts, caches }).2.tokens
      ((m.withCaches cfg).phi3Chat maxLen text { parts, caches }) := by
  have hencoded : (m.withCaches cfg).encode text = some prompt := henc
  rcases hstart : m.start maxLen parts with ⟨_ | _, p⟩
  · have hstarted : (m.withCaches cfg).start maxLen { parts, caches } =
        (false, { parts := p, caches := List.replicate cfg.layers [] }) := by simp [withCaches, hstart]
    simp only [phi3Chat, hencoded, hstarted]
    exact FedUpTo.chatFed ⟨.nil, List.nil_prefix⟩
  · have hstarted : (m.withCaches cfg).start maxLen { parts, caches } =
        (true, { parts := p, caches := List.replicate cfg.layers [] }) := by simp [withCaches, hstart]
    have hbegin : PromptFed cfg []
        { parts := { parts := p, caches := List.replicate cfg.layers [] } } := ⟨cachesUpTo_new p, rfl, rfl⟩
    have hlt : prompt.length < 2 ^ 32 := Nat.lt_of_le_of_lt hlen maxLen.toNat_lt
    have hloop : (forEach (m.withCaches cfg).promptTurn prompt.zipIdx
        { parts := { parts := p, caches := List.replicate cfg.layers [] } }).Ends (PromptFed cfg prompt) (fun _ => False)
        (fun t => t.tokens = [] ∧ FedUpTo cfg prompt t) :=
      forEach_zipIdx_ends hbegin fun before token after s hsplit hs => m.promptTurn_ends hsplit hlt hs
    cases hturns : forEach (m.withCaches cfg).promptTurn prompt.zipIdx
      { parts := { parts := p, caches := List.replicate cfg.layers [] } } <;> rw [hturns] at hloop
    case leave t =>
      rw [(m.withCaches cfg).phi3Chat_of_leave hencoded hstarted hturns]
      obtain ⟨htokens, hfed⟩ := hloop
      refine FedUpTo.chatFed ?_
      rw [htokens, List.append_nil]
      exact hfed
    case brk t => exact hloop.elim
    case next t =>
      rw [(m.withCaches cfg).phi3Chat_of_next hencoded hstarted hturns]
      exact m.phi3Answer_fed hloop

/-- The layers are fed the prompt and the answer but its last token, each token once, at its own position,
to caches that hold the positions before that. -/
theorem fed_in_order (m : ChatParts σ E) (cfg : LayersConfig) (maxLen : UInt32) (text : String) (parts : σ)
    (caches : List (List ℕ)) (prompt : List UInt32) (hencode : m.encode text = some prompt)
    (hlen : prompt.length ≤ maxLen.toNat) :
    let llama := (m.withCaches cfg).llamaChat maxLen text { parts, caches }
    let phi3 := (m.withCaches cfg).phi3Chat maxLen text { parts, caches }
    (∃ generated, llama.2.tokens = prompt ++ generated ∧ ChatFed cfg prompt generated llama) ∧
      ChatFed cfg prompt phi3.2.tokens phi3 :=
  ⟨m.llamaChat_fed parts caches hencode hlen, m.phi3Chat_fed parts caches hencode hlen⟩

/-- A model of two layers whose answers are over with their second token. -/
def twoTokens : ChatParts ℕ Unit where
  encode _ := some [1, 2]
  start _ s := (true, s)
  pre _ s := (some (), s)
  forward _ _ _ s := (some (), s)
  sample penalized _ s := (if penalized = [1, 2] ∨ penalized = [] then some 5 else some 0, s)
  emit _ s := (.sent, s)
  decodeRest s := (.sent, s)
  finish s := s
  eos := some [0]

def twoLayers : LayersConfig := ⟨2, by decide, 4096⟩

theorem fed_in_order_two :
    let llama := (twoTokens.withCaches twoLayers).llamaChat 8 "hi" { parts := 0 }
    let phi3 := (twoTokens.withCaches twoLayers).phi3Chat 8 "hi" { parts := 0 }
    llama.2.parts.calls = [⟨[1, 2], 2, 0, [[], []]⟩, ⟨[5], 1, 2, [[0, 1], [0, 1]]⟩] ∧
      phi3.2.parts.calls = [⟨[1], 1, 0, [[], []]⟩, ⟨[2], 1, 1, [[0], [0]]⟩, ⟨[5], 1, 2, [[0, 1], [0, 1]]⟩] ∧
      (∃ generated, llama.2.tokens = [1, 2] ++ generated ∧ ChatFed twoLayers [1, 2] generated llama) ∧
      ChatFed twoLayers [1, 2] phi3.2.tokens phi3 :=
  ⟨rfl, rfl, fed_in_order twoTokens twoLayers 8 "hi" 0 [] [1, 2] rfl (by decide)⟩

end ChatParts
end Dllm
