import DecentralizedInference.Spec.Chat

/-! How often a chat calls the layers. The loop of `LlamaModel::chat` is bounded by `max_len`
itself. `Phi3Model::chat` calls the layers for every token of the prompt first and bounds the
rest by the difference, so it stays within `max_len` as long as the prompt does; a longer
prompt is fed to its end, and then the difference wraps around. -/

namespace Dllm

namespace ChatState

variable {σ : Type} {s s' s'' : ChatState σ} {k : ℕ}

/-- The layers are called at most `maxLen` times, and no bound of a loop underflows. -/
structure Within (s : ChatState σ) (maxLen : UInt32) : Prop where
  forwards : s.forwards.length ≤ maxLen.toNat
  loopBound : ∀ a b, s.loopBound = some (a, b) → b ≤ a

/-- At most `k` calls of the layers are made, and no bound of a loop is computed. -/
structure Adds (k : ℕ) (s s' : ChatState σ) : Prop where
  loopBound : s'.loopBound = s.loopBound
  le : s.forwards.length ≤ s'.forwards.length
  ge : s'.forwards.length ≤ s.forwards.length + k

theorem Adds.trans {j : ℕ} (h : Adds j s s') (h' : Adds k s' s'') : Adds (j + k) s s'' where
  loopBound := h'.loopBound.trans h.loopBound
  le := Nat.le_trans h.le h'.le
  ge := by
    have hfirst := h.ge
    have hsecond := h'.ge
    omega

theorem Within.of_adds {maxLen : UInt32} (h : Adds k s s') (hk : s.forwards.length + k ≤ maxLen.toNat)
    (hbound : ∀ a b, s.loopBound = some (a, b) → b ≤ a) : s'.Within maxLen :=
  ⟨Nat.le_trans h.ge hk, h.loopBound ▸ hbound⟩

end ChatState

open ChatState

/-- A chat at the beginning of the loop over its answer. -/
def ChatState.answering {σ : Type} (s : ChatState σ) (maxLen promptLen : UInt32) (parts : σ) : ChatState σ :=
  { s with parts, tokens := [s.nextToken], loopBound := some (maxLen, promptLen) }

/-- A loop whose turns call the layers at most once each. -/
theorem forEach_adds {σ : Type} {α : Type} {body : α → ChatState σ → LoopTurn (ChatState σ)}
    (hbody : ∀ a s, Adds 1 s (body a s).state) (as : List α) (s : ChatState σ) :
    Adds as.length s (forEach body as s).state where
  loopBound := forEach_invariant (P := fun t => t.loopBound = s.loopBound)
    (fun a t ht => (hbody a t).loopBound.trans ht) as rfl
  le := le_forEach (μ := fun s => s.forwards.length) (fun a s => (hbody a s).le) as s
  ge := forEach_le (μ := fun s => s.forwards.length) (fun a s => (hbody a s).ge) as s

namespace ChatParts

variable {σ E : Type} (m : ChatParts σ E) {s s' : ChatState σ}

/-- The layers are called if the input gets to them. -/
theorem infer_forwards (input : List UInt32) (step indexPos : UInt32) (penalized : List UInt32) (s : ChatState σ) :
    (m.infer input step indexPos penalized s).2.forwards =
      s.forwards ++ if (m.pre input s.parts).1.isSome then [(step, indexPos)] else [] := by
  unfold infer
  rcases m.pre input s.parts with ⟨_ | x, parts⟩
  · simp
  · rcases hforward : m.forward step x indexPos parts with ⟨_ | y, parts'⟩ <;> simp [hforward]

/-- An input that a token comes from has been given to the layers. -/
theorem infer_some {input : List UInt32} {step indexPos next : UInt32} {penalized : List UInt32}
    (h : m.infer input step indexPos penalized s = (some next, s')) :
    s'.forwards = s.forwards ++ [(step, indexPos)] := by
  have hforwards := m.infer_forwards input step indexPos penalized s
  rw [h] at hforwards
  unfold infer at h
  rcases hpre : m.pre input s.parts with ⟨_ | x, parts⟩ <;> rw [hpre] at h hforwards
  · cases h
  · exact hforwards

theorem infer_adds (input : List UInt32) (step indexPos : UInt32) (penalized : List UInt32) (s : ChatState σ) :
    Adds 1 s (m.infer input step indexPos penalized s).2 := by
  refine ⟨?_, ?_, ?_⟩
  · unfold infer
    rcases m.pre input s.parts with ⟨_ | x, parts⟩
    · rfl
    · rcases hforward : m.forward step x indexPos parts with ⟨_ | y, parts'⟩ <;> simp [hforward]
  · rw [infer_forwards]
    simp
  · rw [infer_forwards]
    split <;> simp

/-- What a turn of any of the loops leaves: the state after one inference, but for the variables
of the loop and a token that may have been passed on. -/
def Inferred (m : ChatParts σ E) (s s' : ChatState σ) : Prop :=
  ∃ input step indexPos penalized, ∃ t, (m.infer input step indexPos penalized s).2 = t ∧
    s'.forwards = t.forwards ∧ s'.loopBound = t.loopBound ∧
    (s'.parts = t.parts ∨ ∃ next, s'.parts = (m.emit next t.parts).2)

theorem Inferred.adds (h : m.Inferred s s') : Adds 1 s s' := by
  obtain ⟨input, step, indexPos, penalized, t, rfl, hforwards, hbound, -⟩ := h
  have hinfer := m.infer_adds input step indexPos penalized s
  exact ⟨hbound.trans hinfer.loopBound, hforwards ▸ hinfer.le, hforwards ▸ hinfer.ge⟩

theorem llamaTurn_inferred (index : ℕ) (s : ChatState σ) : m.Inferred s (m.llamaTurn index s).state := by
  unfold llamaTurn
  generalize (if 0 < index then (1, s.indexPos) else (s.tokens.length, 0)) = c
  refine ⟨s.tokens.drop (s.tokens.length - c.1), 0, c.2, s.tokens, _, rfl, ?_⟩
  rcases hinfer : m.infer (s.tokens.drop (s.tokens.length - c.1)) 0 c.2 s.tokens s with ⟨_ | next, t⟩ <;>
    simp only [hinfer]
  · exact ⟨rfl, rfl, .inl rfl⟩
  · split
    · exact ⟨rfl, rfl, .inl rfl⟩
    · rcases hemit : m.emit next t.parts with ⟨_ | _ | _, parts⟩ <;> simp only <;>
        exact ⟨rfl, rfl, .inr ⟨next, by rw [hemit]; rfl⟩⟩

theorem promptTurn_inferred (token : UInt32 × ℕ) (s : ChatState σ) :
    m.Inferred s (m.promptTurn token s).state := by
  unfold promptTurn
  refine ⟨[token.1], 0, .ofNat token.2, [], _, rfl, ?_⟩
  rcases m.infer [token.1] 0 (.ofNat token.2) [] s with ⟨_ | next, t⟩ <;> exact ⟨rfl, rfl, .inl rfl⟩

theorem phi3Turn_inferred (eos : List UInt32) (promptLen : UInt32) (index : ℕ) (s : ChatState σ) :
    m.Inferred s (m.phi3Turn eos promptLen index s).state := by
  unfold phi3Turn
  refine ⟨[s.nextToken], .ofNat index + 1, promptLen + .ofNat index, s.tokens, _, rfl, ?_⟩
  rcases hinfer : m.infer [s.nextToken] (.ofNat index + 1) (promptLen + .ofNat index) s.tokens s
    with ⟨_ | next, t⟩ <;> simp only [hinfer]
  · exact ⟨rfl, rfl, .inl rfl⟩
  · rcases hemit : m.emit next t.parts with ⟨_ | _ | _, parts⟩ <;> simp only
    · exact ⟨rfl, rfl, .inr ⟨next, by rw [hemit]; rfl⟩⟩
    · exact ⟨rfl, rfl, .inr ⟨next, by rw [hemit]; rfl⟩⟩
    · split <;> exact ⟨rfl, rfl, .inr ⟨next, by rw [hemit]; rfl⟩⟩

theorem close_adds (undecodable : ChatEnd) (s : ChatState σ) : Adds 0 s (m.close undecodable s).2 := by
  unfold close
  split <;> exact ⟨rfl, Nat.le_refl _, Nat.le_refl _⟩

/-- The end of a chat after a loop. -/
theorem afterLoop_adds (undecodable : ChatEnd) (t : LoopTurn (ChatState σ)) :
    Adds 0 t.state (match t with
      | .leave s => (ChatEnd.err, s)
      | .brk s => m.close undecodable s
      | .next s => m.close undecodable s).2 := by
  cases t with
  | leave s => exact ⟨rfl, Nat.le_refl _, Nat.le_refl _⟩
  | brk s => exact m.close_adds undecodable s
  | next s => exact m.close_adds undecodable s

/-- Whatever the prompt is and the parts do. -/
theorem llamaChat_within (maxLen : UInt32) (prompt : String) (parts : σ) :
    (m.llamaChat maxLen prompt parts).2.Within maxLen := by
  unfold llamaChat
  cases m.encode prompt with
  | none => exact ⟨Nat.zero_le _, nofun⟩
  | some tokens =>
    rcases m.start maxLen parts with ⟨_ | _, parts'⟩
    · exact ⟨Nat.zero_le _, nofun⟩
    · have hloop := forEach_adds (fun index s => (m.llamaTurn_inferred index s).adds) (List.range maxLen.toNat)
        { parts := parts', tokens }
      have hend := m.afterLoop_adds (.panic .unwrapOnError)
        (forEach m.llamaTurn (List.range maxLen.toNat) { parts := parts', tokens })
      refine Within.of_adds (hloop.trans hend) ?_ nofun
      simp

/-- The calls for the answer, once the prompt is through. -/
theorem phi3Answer_forwards (maxLen promptLen : UInt32) (s : ChatState σ) :
    s.forwards.length ≤ (m.phi3Answer maxLen promptLen s).2.forwards.length ∧
      (m.phi3Answer maxLen promptLen s).2.forwards.length ≤ s.forwards.length + (maxLen - promptLen).toNat ∧
      ((m.phi3Answer maxLen promptLen s).2.loopBound = s.loopBound ∨
        (m.phi3Answer maxLen promptLen s).2.loopBound = some (maxLen, promptLen)) := by
  unfold phi3Answer
  rcases hemit : m.emit s.nextToken s.parts with ⟨_ | _ | _, parts⟩ <;> simp only [hemit]
  · exact ⟨Nat.le_refl _, Nat.le_add_right _ _, .inl trivial⟩
  · exact ⟨Nat.le_refl _, Nat.le_add_right _ _, .inl trivial⟩
  · cases m.eos with
    | none => exact ⟨Nat.le_refl _, Nat.le_add_right _ _, .inl rfl⟩
    | some eos =>
      have hloop := forEach_adds (fun index s => (m.phi3Turn_inferred eos promptLen index s).adds)
        (List.range (maxLen - promptLen).toNat)
        { s with tokens := [s.nextToken], parts, loopBound := some (maxLen, promptLen) }
      have hall := hloop.trans (m.afterLoop_adds .err _)
      rw [List.length_range] at hall
      exact ⟨hall.le, hall.ge, .inr hall.loopBound⟩

/-- Take a token of the prompt through the parts, as far as their own state goes; `none` if one
of them fails. -/
def takeThrough (m : ChatParts σ E) (p : σ) (token : UInt32 × ℕ) : Option σ :=
  match m.pre [token.1] p with
  | (none, _) => none
  | (some x, p) =>
    match m.forward 0 x (.ofNat token.2) p with
    | (none, _) => none
    | (some y, p) =>
      match m.sample [] y p with
      | (none, _) => none
      | (some _, p) => some p

/-- A prompt is fed beyond `maxLen`: it has a token more, those before it are taken through, and
that one gets to the layers too. -/
def Overruns (m : ChatParts σ E) (maxLen : UInt32) (prompt : String) (parts : σ) : Prop :=
  ∃ tokens token p q, m.encode prompt = some tokens ∧ tokens[maxLen.toNat]? = some token ∧
    m.start maxLen parts = (true, p) ∧
    (tokens.take maxLen.toNat).zipIdx.foldlM m.takeThrough p = some q ∧ (m.pre [token] q).1.isSome

theorem promptTurn_next? (token : UInt32 × ℕ) (s : ChatState σ) :
    (m.promptTurn token s).next?.map ChatState.parts = m.takeThrough s.parts token := by
  unfold promptTurn infer takeThrough
  rcases m.pre [token.1] s.parts with ⟨_ | x, p⟩
  · rfl
  · rcases hforward : m.forward 0 x (.ofNat token.2) p with ⟨_ | y, p'⟩ <;> simp only [hforward]
    · rfl
    · rcases hsample : m.sample [] y p' with ⟨_ | next, q⟩ <;> simp only [hsample] <;> rfl

theorem promptTurn_ne_brk (token : UInt32 × ℕ) (s s' : ChatState σ) : m.promptTurn token s ≠ .brk s' := by
  unfold promptTurn
  split <;> exact nofun

theorem promptTurn_next {token : UInt32 × ℕ} (h : m.promptTurn token s = .next s') :
    s'.forwards.length = s.forwards.length + 1 := by
  unfold promptTurn at h
  rcases hinfer : m.infer [token.1] 0 (.ofNat token.2) [] s with ⟨_ | next, t⟩ <;> rw [hinfer] at h
  · cases h
  · cases h
    show t.forwards.length = _
    rw [m.infer_some hinfer, List.length_append, List.length_singleton]

theorem promptTurn_forwards (token : UInt32 × ℕ) (s : ChatState σ) :
    (m.promptTurn token s).state.forwards =
      s.forwards ++ if (m.pre [token.1] s.parts).1.isSome then [(0, .ofNat token.2)] else [] := by
  rw [← m.infer_forwards [token.1] 0 (.ofNat token.2) [] s]
  unfold promptTurn
  split <;> simp_all [LoopTurn.state]

/-- A token that is not preprocessed ends the chat. -/
theorem promptTurn_of_pre_none {token : UInt32 × ℕ} (h : (m.pre [token.1] s.parts).1 = none) :
    ∃ parts, m.promptTurn token s = .leave { s with parts } := by
  unfold promptTurn infer
  rcases hpre : m.pre [token.1] s.parts with ⟨_ | x, p⟩ <;> rw [hpre] at h
  · exact ⟨p, rfl⟩
  · cases h

theorem promptLoop_adds (tokens : List (UInt32 × ℕ)) (s : ChatState σ) :
    Adds tokens.length s (forEach m.promptTurn tokens s).state :=
  forEach_adds (fun token s => (m.promptTurn_inferred token s).adds) tokens s

/-- Whether a prompt gets through is up to the parts. -/
theorem promptLoop_next? (tokens : List (UInt32 × ℕ)) (s : ChatState σ) :
    (forEach m.promptTurn tokens s).next?.map ChatState.parts = tokens.foldlM m.takeThrough s.parts :=
  map_next?_forEach m.promptTurn_next? tokens s

/-- The loop over the first tokens of a prompt has called the layers once for each of them. -/
theorem promptLoop_next {tokens : List (UInt32 × ℕ)} (h : forEach m.promptTurn tokens s = .next s') :
    s'.forwards.length = s.forwards.length + tokens.length :=
  forEach_next (μ := fun s => s.forwards.length) (fun _ _ _ => m.promptTurn_next) h

/-- A prompt up to the token that `maxLen` is too few for. -/
theorem zipIdx_split {tokens : List UInt32} {n : ℕ} {token : UInt32} (h : tokens[n]? = some token) :
    tokens.zipIdx = (tokens.take n).zipIdx ++ (token, n) :: (tokens.drop (n + 1)).zipIdx (n + 1) := by
  obtain ⟨hn, rfl⟩ := List.getElem?_eq_some_iff.mp h
  have hlen : (tokens.take n).length = n := List.length_take_of_le (Nat.le_of_lt hn)
  conv_lhs => rw [← List.take_append_drop n tokens, List.drop_eq_getElem_cons hn]
  rw [List.zipIdx_append, hlen, Nat.zero_add, List.zipIdx_cons]

/-- The ends of a chat after its loops. -/
theorem llamaChat_of_leave {maxLen : UInt32} {prompt : String} {parts p : σ} {tokens : List UInt32}
    (henc : m.encode prompt = some tokens) (hstart : m.start maxLen parts = (true, p))
    (hloop : forEach m.llamaTurn (List.range maxLen.toNat) { parts := p, tokens } = .leave s) :
    m.llamaChat maxLen prompt parts = (.err, s) := by
  simp only [llamaChat, henc, hstart, hloop]

theorem llamaChat_of_over {maxLen : UInt32} {prompt : String} {parts p : σ} {tokens : List UInt32}
    (henc : m.encode prompt = some tokens) (hstart : m.start maxLen parts = (true, p))
    (hloop : (forEach m.llamaTurn (List.range maxLen.toNat) { parts := p, tokens }).Over s) :
    m.llamaChat maxLen prompt parts = m.close (.panic .unwrapOnError) s := by
  rcases hloop with hloop | hloop <;> simp only [llamaChat, henc, hstart, hloop]

theorem phi3Answer_of_leave {maxLen promptLen : UInt32} {eos : List UInt32} {p : σ}
    (hemit : m.emit s.nextToken s.parts = (.sent, p)) (heos : m.eos = some eos)
    (hloop : forEach (m.phi3Turn eos promptLen) (List.range (maxLen - promptLen).toNat)
      (s.answering maxLen promptLen p) = .leave s') :
    m.phi3Answer maxLen promptLen s = (.err, s') := by
  unfold ChatState.answering at hloop
  simp only [phi3Answer, hemit, heos, hloop]

theorem phi3Answer_of_over {maxLen promptLen : UInt32} {eos : List UInt32} {p : σ}
    (hemit : m.emit s.nextToken s.parts = (.sent, p)) (heos : m.eos = some eos)
    (hloop : (forEach (m.phi3Turn eos promptLen) (List.range (maxLen - promptLen).toNat)
      (s.answering maxLen promptLen p)).Over s') :
    m.phi3Answer maxLen promptLen s = m.close .err s' := by
  unfold ChatState.answering at hloop
  rcases hloop with hloop | hloop <;> simp only [phi3Answer, hemit, heos, hloop]

/-- An answer that is over with its second token. -/
theorem phi3Answer_of_brk {maxLen promptLen : UInt32} {eos : List UInt32} {p : σ}
    (hemit : m.emit s.nextToken s.parts = (.sent, p)) (heos : m.eos = some eos)
    (hpos : 0 < (maxLen - promptLen).toNat)
    (hturn : m.phi3Turn eos promptLen 0
      { s with tokens := [s.nextToken], parts := p, loopBound := some (maxLen, promptLen) } = .brk s') :
    m.phi3Answer maxLen promptLen s = m.close .err s' := by
  exact m.phi3Answer_of_over hemit heos (.inl (forEach_range_brk hpos hturn))

theorem phi3Chat_of_leave {maxLen : UInt32} {prompt : String} {parts p : σ} {tokens : List UInt32}
    (henc : m.encode prompt = some tokens) (hstart : m.start maxLen parts = (true, p))
    (hloop : forEach m.promptTurn tokens.zipIdx { parts := p } = .leave s) :
    m.phi3Chat maxLen prompt parts = (.err, s) := by
  simp only [phi3Chat, henc, hstart, hloop]

theorem phi3Chat_of_next {maxLen : UInt32} {prompt : String} {parts p : σ} {tokens : List UInt32}
    (henc : m.encode prompt = some tokens) (hstart : m.start maxLen parts = (true, p))
    (hloop : forEach m.promptTurn tokens.zipIdx { parts := p } = .next s) :
    m.phi3Chat maxLen prompt parts = m.phi3Answer maxLen (.ofNat tokens.length) s := by
  simp only [phi3Chat, henc, hstart, hloop]

/-- The calls for the prompt are never taken back. -/
theorem promptLoop_le_phi3Chat {maxLen : UInt32} {prompt : String} {parts p : σ} {tokens : List UInt32}
    (henc : m.encode prompt = some tokens) (hstart : m.start maxLen parts = (true, p)) :
    (forEach m.promptTurn tokens.zipIdx { parts := p }).state.forwards.length ≤
      (m.phi3Chat maxLen prompt parts).2.forwards.length := by
  cases hloop : forEach m.promptTurn tokens.zipIdx { parts := p } with
  | leave s => exact Nat.le_of_eq (by rw [m.phi3Chat_of_leave henc hstart hloop, LoopTurn.state])
  | brk s => exact absurd hloop (forEach_ne_brk m.promptTurn_ne_brk _ _ _)
  | next s =>
    rw [m.phi3Chat_of_next henc hstart hloop]
    exact (m.phi3Answer_forwards maxLen _ s).1

/-- A prompt that is fed beyond `maxLen` costs a call more than that. -/
theorem Overruns.not_within {maxLen : UInt32} {prompt : String} {parts : σ}
    (h : m.Overruns maxLen prompt parts) : ¬ (m.phi3Chat maxLen prompt parts).2.Within maxLen := by
  obtain ⟨tokens, token, p, q, henc, htoken, hstart, htaken, hpre⟩ := h
  have hn := (List.getElem?_eq_some_iff.mp htoken).1
  -- the first `maxLen` tokens
  have htake := m.promptLoop_next? (tokens.take maxLen.toNat).zipIdx { parts := p }
  rw [htaken, Option.map_eq_some_iff] at htake
  obtain ⟨s, hs, rfl⟩ := htake
  rw [LoopTurn.next?_eq_some_iff] at hs
  have hcount : s.forwards.length = maxLen.toNat := by
    rw [m.promptLoop_next hs, List.length_zipIdx, List.length_take_of_le (Nat.le_of_lt hn)]
    exact Nat.zero_add _
  -- and the one after them
  have hturn : (m.promptTurn (token, maxLen.toNat) s).state.forwards.length = maxLen.toNat + 1 := by
    rw [m.promptTurn_forwards, if_pos hpre, List.length_append, hcount, List.length_singleton]
  have hrest := (m.promptLoop_adds ((tokens.drop (maxLen.toNat + 1)).zipIdx (maxLen.toNat + 1))
    (m.promptTurn (token, maxLen.toNat) s).state).le
  have hloop : maxLen.toNat + 1 ≤ (forEach m.promptTurn tokens.zipIdx { parts := p }).state.forwards.length := by
    rw [zipIdx_split htoken, forEach_append, hs]
    simp only [forEach]
    cases hnext : m.promptTurn (token, maxLen.toNat) s <;> rw [hnext] at hturn hrest
    case next t => exact hturn ▸ hrest
    all_goals exact Nat.le_of_eq hturn.symm
  intro hwithin
  have hchat := m.promptLoop_le_phi3Chat henc hstart
  have hle := hwithin.forwards
  omega

/-- A prompt within `maxLen` leaves what remains of it to the answer. -/
theorem phi3Chat_within_of_length_le {maxLen : UInt32} {prompt : String} {parts p : σ} {tokens : List UInt32}
    (henc : m.encode prompt = some tokens) (hstart : m.start maxLen parts = (true, p))
    (hlen : tokens.length ≤ maxLen.toNat) : (m.phi3Chat maxLen prompt parts).2.Within maxLen := by
  have hprompt := m.promptLoop_adds tokens.zipIdx { parts := p }
  rw [List.length_zipIdx] at hprompt
  cases hloop : forEach m.promptTurn tokens.zipIdx { parts := p } with
  | leave s =>
    rw [m.phi3Chat_of_leave henc hstart hloop]
    rw [hloop] at hprompt
    exact Within.of_adds hprompt (by simpa using hlen) nofun
  | brk s => exact absurd hloop (forEach_ne_brk m.promptTurn_ne_brk _ _ _)
  | next s =>
    rw [m.phi3Chat_of_next henc hstart hloop]
    rw [hloop] at hprompt
    have hcast : (UInt32.ofNat tokens.length).toNat = tokens.length :=
      UInt32.toNat_ofNat_of_lt' (Nat.lt_of_le_of_lt hlen maxLen.toNat_lt)
    have hle : UInt32.ofNat tokens.length ≤ maxLen := UInt32.le_iff_toNat_le.mpr (hcast.symm ▸ hlen)
    have hdiff := UInt32.toNat_sub_of_le maxLen (.ofNat tokens.length) hle
    obtain ⟨-, hanswer, hbound⟩ := m.phi3Answer_forwards maxLen (.ofNat tokens.length) s
    have hcount : s.forwards.length ≤ 0 + tokens.length := hprompt.ge
    refine ⟨by omega, fun a b hab => ?_⟩
    rcases hbound with hnone | hsome
    · have hstill : s.loopBound = none := hprompt.loopBound
      rw [hnone, hstill] at hab
      cases hab
    · rw [hsome] at hab
      cases hab
      exact hle

/-- A longer prompt, if one of its first `maxLen` tokens is not taken through or the next does not
get to the layers. -/
theorem phi3Chat_within_of_token {maxLen : UInt32} {prompt : String} {parts p : σ} {tokens : List UInt32}
    {token : UInt32} (henc : m.encode prompt = some tokens) (hstart : m.start maxLen parts = (true, p))
    (htoken : tokens[maxLen.toNat]? = some token) (h : ¬ m.Overruns maxLen prompt parts) :
    (m.phi3Chat maxLen prompt parts).2.Within maxLen := by
  have hn := (List.getElem?_eq_some_iff.mp htoken).1
  have htake := m.promptLoop_adds (tokens.take maxLen.toNat).zipIdx { parts := p }
  rw [List.length_zipIdx, List.length_take_of_le (Nat.le_of_lt hn)] at htake
  have hsplit := congrArg (forEach m.promptTurn · { parts := p }) (zipIdx_split htoken)
  rw [forEach_append] at hsplit
  cases hloop : forEach m.promptTurn (tokens.take maxLen.toNat).zipIdx { parts := p } with
  | leave s =>
    simp only [hloop] at htake hsplit
    rw [m.phi3Chat_of_leave henc hstart hsplit]
    exact Within.of_adds htake (by simp) nofun
  | brk s => exact absurd hloop (forEach_ne_brk m.promptTurn_ne_brk _ _ _)
  | next s =>
    simp only [hloop] at htake hsplit
    have htaken := m.promptLoop_next? (tokens.take maxLen.toNat).zipIdx { parts := p }
    rw [hloop] at htaken
    have hpre : (m.pre [token] s.parts).1 = none := by
      by_contra hsome
      exact h ⟨tokens, token, p, s.parts, henc, htoken, hstart, htaken.symm, Option.isSome_iff_ne_none.mpr hsome⟩
    obtain ⟨parts', hleave⟩ : ∃ parts', m.promptTurn (token, maxLen.toNat) s = .leave { s with parts := parts' } :=
      m.promptTurn_of_pre_none hpre
    simp only [forEach, hleave] at hsplit
    rw [m.phi3Chat_of_leave henc hstart hsplit]
    have hsame : Adds maxLen.toNat { parts := p } { s with parts := parts' } :=
      ⟨htake.loopBound, htake.le, htake.ge⟩
    exact Within.of_adds hsame (by simp) nofun

theorem phi3Chat_within_iff (maxLen : UInt32) (prompt : String) (parts : σ) :
    (m.phi3Chat maxLen prompt parts).2.Within maxLen ↔ ¬ m.Overruns maxLen prompt parts := by
  refine ⟨fun hwithin h => Overruns.not_within m h hwithin, fun h => ?_⟩
  cases henc : m.encode prompt with
  | none =>
    simp only [phi3Chat, henc]
    exact ⟨Nat.zero_le _, nofun⟩
  | some tokens =>
    rcases hstart : m.start maxLen parts with ⟨_ | _, p⟩
    · simp only [phi3Chat, henc, hstart]
      exact ⟨Nat.zero_le _, nofun⟩
    · cases htoken : tokens[maxLen.toNat]? with
      | none => exact m.phi3Chat_within_of_length_le henc hstart (List.getElem?_eq_none_iff.mp htoken)
      | some token => exact m.phi3Chat_within_of_token henc hstart htoken h

end ChatParts
end Dllm
