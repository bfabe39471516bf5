import DecentralizedInference.Lib.Run
import DecentralizedInference.Spec.Chat

/-! The calls that a chat makes on its `ModelLayersWorker`, in their order. A model whose layers
note their calls chats as the model itself does, and what they note is a `start`, the calls of
`forward` that the chat lists, and a `finish` if the chat is over with `Ok`. -/

namespace Dllm

/-- A call of a `ModelLayersWorker`, with what `start` answers. -/
inductive LayersCall where
  | start (ok : Bool)
  | forward (step indexPos : UInt32)
  | finish
deriving DecidableEq, Repr

theorem ChatEnd.err_ne_ok : ChatEnd.err ≠ .ok := nofun

theorem ChatEnd.panic_ne_ok {e : Panic} : ChatEnd.panic e ≠ .ok := nofun

/-- Layers that are started are finished once and not called after that; others are neither called
nor finished. -/
structure FinishedOnce (calls : List LayersCall) : Prop where
  once : .start true ∈ calls → calls.count .finish = 1
  last : ∀ before after, calls = before ++ .finish :: after → ∀ step indexPos, .forward step indexPos ∉ after
  idle : .start true ∉ calls → .finish ∉ calls ∧ ∀ step indexPos, .forward step indexPos ∉ calls

theorem FinishedOnce.of_idle {calls : List LayersCall} (hstart : .start true ∉ calls) (hfinish : .finish ∉ calls)
    (hforward : ∀ step indexPos, .forward step indexPos ∉ calls) : FinishedOnce calls where
  once h := absurd h hstart
  last before _ hsplit := absurd (hsplit ▸ List.mem_append_right before List.mem_cons_self) hfinish
  idle _ := ⟨hfinish, hforward⟩

namespace ChatParts

variable {σ E : Type} (m : ChatParts σ E)

/-- The model over layers that note their calls. -/
def noted (m : ChatParts σ E) : ChatParts (σ × List LayersCall) E where
  encode := m.encode
  start maxLen s :=
    let (ok, p) := m.start maxLen s.1
    (ok, p, s.2 ++ [.start ok])
  pre input s :=
    let (x, p) := m.pre input s.1
    (x, p, s.2)
  forward step x indexPos s :=
    let (y, p) := m.forward step x indexPos s.1
    (y, p, s.2 ++ [.forward step indexPos])
  sample penalized y s :=
    let (next, p) := m.sample penalized y s.1
    (next, p, s.2)
  emit token s :=
    let (emitted, p) := m.emit token s.1
    (emitted, p, s.2)
  decodeRest s :=
    let (emitted, p) := m.decodeRest s.1
    (emitted, p, s.2)
  finish s := (m.finish s.1, s.2 ++ [.finish])
  eos := m.eos

/-- The calls of a chat that has been started and lists these. -/
def startedCalls (forwards : List (UInt32 × UInt32)) : List LayersCall :=
  .start true :: forwards.map fun c => .forward c.1 c.2

/-- A started chat with what its layers have noted. -/
def noting (s : ChatState σ) : ChatState (σ × List LayersCall) where
  parts := (s.parts, startedCalls s.forwards)
  tokens := s.tokens
  nextToken := s.nextToken
  indexPos := s.indexPos
  forwards := s.forwards
  loopBound := s.loopBound

/-- What is noted in a chat with that end. -/
def callsOf (chat : ChatEnd × ChatState σ) : List LayersCall :=
  startedCalls chat.2.forwards ++ if chat.1 = .ok then [.finish] else []

@[simp] theorem noting_tokens (s : ChatState σ) : (noting s).tokens = s.tokens := rfl

@[simp] theorem noting_nextToken (s : ChatState σ) : (noting s).nextToken = s.nextToken := rfl

@[simp] theorem noting_indexPos (s : ChatState σ) : (noting s).indexPos = s.indexPos := rfl

theorem startedCalls_snoc (forwards : List (UInt32 × UInt32)) (step indexPos : UInt32) :
    startedCalls forwards ++ [.forward step indexPos] = startedCalls (forwards ++ [(step, indexPos)]) := by
  unfold startedCalls
  rw [List.map_append, List.cons_append]
  rfl

theorem finish_notMem_startedCalls (forwards : List (UInt32 × UInt32)) : .finish ∉ startedCalls forwards := by
  simp [startedCalls]

/-- A started chat is finished once if it is over with `Ok`, and only then. -/
theorem finishedOnce_callsOf_iff (chat : ChatEnd × ChatState σ) : FinishedOnce (callsOf chat) ↔ chat.1 = .ok := by
  have hnone := finish_notMem_startedCalls chat.2.forwards
  have hstart : .start true ∈ callsOf chat := List.mem_append_left _ List.mem_cons_self
  refine ⟨fun h => ?_, fun hok => ?_⟩
  · by_contra hok
    have honce := h.once hstart
    unfold callsOf at honce
    rw [if_neg hok, List.append_nil, List.count_eq_zero_of_not_mem hnone] at honce
    cases honce
  · have hcalls : callsOf chat = startedCalls chat.2.forwards ++ [.finish] := by rw [callsOf, if_pos hok]
    refine ⟨fun _ => ?_, fun before after hsplit step indexPos hmem => ?_, fun hidle => absurd hstart hidle⟩
    · rw [hcalls, List.count_append, List.count_eq_zero_of_not_mem hnone]
      rfl
    · -- what is noted before the last call has no `finish`
      rw [hcalls] at hsplit
      obtain ⟨rfl, -, -⟩ | ⟨init, -, hinit⟩ := List.snoc_eq_append_cons_iff.mp hsplit
      · cases hmem
      · exact hnone (hinit ▸ List.mem_append_right before List.mem_cons_self)

theorem noted_infer (input : List UInt32) (step indexPos : UInt32) (penalized : List UInt32) (s : ChatState σ) :
    m.noted.infer input step indexPos penalized (noting s) =
      ((m.infer input step indexPos penalized s).1, noting (m.infer input step indexPos penalized s).2) := by
  unfold infer
  rcases hpre : m.pre input s.parts with ⟨_ | x, p⟩
  · simp [noted, noting, hpre]
  · rcases hforward : m.forward step x indexPos p with ⟨_ | y, q⟩
    · simp [noted, noting, hpre, hforward, startedCalls_snoc]
    · simp [noted, noting, hpre, hforward, startedCalls_snoc]

theorem noted_llamaTurn (index : ℕ) (s : ChatState σ) :
    m.noted.llamaTurn index (noting s) = (m.llamaTurn index s).map noting := by
  unfold llamaTurn
  simp only [noting_tokens, noting_indexPos]
  generalize (if 0 < index then (1, s.indexPos) else (s.tokens.length, 0)) = c
  rw [noted_infer]
  rcases m.infer (s.tokens.drop (s.tokens.length - c.1)) 0 c.2 s.tokens s with ⟨_ | next, t⟩
  · rfl
  · rcases hemit : m.emit next t.parts with ⟨_ | _ | _, p⟩ <;> by_cases heos : next ∈ m.eos.getD [] <;>
      simp [noted, noting, hemit, heos, LoopTurn.map]

theorem noted_promptTurn (token : UInt32 × ℕ) (s : ChatState σ) :
    m.noted.promptTurn token (noting s) = (m.promptTurn token s).map noting := by
  unfold promptTurn
  rw [noted_infer]
  rcases m.infer [token.1] 0 (.ofNat token.2) [] s with ⟨_ | next, t⟩ <;> rfl

theorem noted_phi3Turn (eos : List UInt32) (promptLen : UInt32) (index : ℕ) (s : ChatState σ) :
    m.noted.phi3Turn eos promptLen index (noting s) = (m.phi3Turn eos promptLen index s).map noting := by
  unfold phi3Turn
  simp only [noting_tokens, noting_nextToken]
  rw [noted_infer]
  rcases hinfer : m.infer [s.nextToken] (.ofNat index + 1) (promptLen + .ofNat index) s.tokens s
    with ⟨_ | next, t⟩ <;> simp only [hinfer]
  · rfl
  · rcases hemit : m.emit next t.parts with ⟨_ | _ | _, p⟩ <;> by_cases heos : next ∈ eos <;>
      simp [noted, noting, hemit, heos, LoopTurn.map]

/-- Two chats with the same end, of which one notes what the other does. -/
structure Notes (noted : ChatEnd × ChatState (σ × List LayersCall)) (chat : ChatEnd × ChatState σ) : Prop where
  ends : noted.1 = chat.1
  calls : noted.2.parts.2 = callsOf chat

theorem Notes.of_ne_ok {e : ChatEnd} (he : e ≠ .ok) (s : ChatState σ) : Notes (e, noting s) (e, s) := by
  refine ⟨rfl, ?_⟩
  unfold callsOf
  rw [if_neg he, List.append_nil]
  rfl

theorem Notes.err (s : ChatState σ) : Notes (.err, noting s) (.err, s) := .of_ne_ok ChatEnd.err_ne_ok s

theorem Notes.panic (e : Panic) (s : ChatState σ) : Notes (.panic e, noting s) (.panic e, s) :=
  .of_ne_ok ChatEnd.panic_ne_ok s

theorem notes_close {undecodable : ChatEnd} (h : undecodable ≠ .ok) (s : ChatState σ) :
    Notes (m.noted.close undecodable (noting s)) (m.close undecodable s) := by
  unfold close
  rcases hrest : m.decodeRest s.parts with ⟨_ | _ | _, p⟩
  · have hnoted : m.noted.decodeRest (noting s).parts = (.undecodable, p, startedCalls s.forwards) := by
      simp [noted, noting, hrest]
    rw [hnoted]
    exact .of_ne_ok h { s with parts := p }
  · have hnoted : m.noted.decodeRest (noting s).parts = (.closed, p, startedCalls s.forwards) := by
      simp [noted, noting, hrest]
    rw [hnoted]
    exact ⟨rfl, rfl⟩
  · have hnoted : m.noted.decodeRest (noting s).parts = (.sent, p, startedCalls s.forwards) := by
      simp [noted, noting, hrest]
    rw [hnoted]
    exact ⟨rfl, rfl⟩

end ChatParts
end Dllm
