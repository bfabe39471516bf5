import DecentralizedInference.Proofs.ChatBudget
import DecentralizedInference.Sanity.ChatCalls

/-! Which chats are finished. `finish` stands at the end of `LlamaModel::chat` and
`Phi3Model::chat`, and every `?` before it returns without it: a started chat is finished once
if nothing fails on the way there, and otherwise not at all. -/

namespace Dllm

/-- A chat that does not panic. -/
def ChatEnd.Returned (e : ChatEnd) : Prop := e = .ok ∨ e = .err

namespace ChatParts

variable {σ E : Type}

/-- One of the calls fails that an input goes through. -/
def Fails (m : ChatParts σ E) (input : List UInt32) (step indexPos : UInt32)
    (penalized : List UInt32) (p : σ) : Prop :=
  (m.pre input p).1 = none ∨
    ∃ x q, m.pre input p = (some x, q) ∧
      ((m.forward step x indexPos q).1 = none ∨
        ∃ y r, m.forward step x indexPos q = (some y, r) ∧ (m.sample penalized y r).1 = none)

/-- A turn of `LlamaModel::chat` in which a call fails, or whose token is not decoded. -/
def LlamaTurnFails (m : ChatParts σ E) (index : ℕ) (s : ChatState σ) : Prop :=
  let (contextSize, contextIndex) := if 0 < index then (1, s.indexPos) else (s.tokens.length, 0)
  let ctxt := s.tokens.drop (s.tokens.length - contextSize)
  m.Fails ctxt 0 contextIndex s.tokens s.parts ∨
    ∃ next t, m.infer ctxt 0 contextIndex s.tokens s = (some next, t) ∧ next ∉ m.eos.getD [] ∧
      (m.emit next t.parts).1 = .undecodable

/-- The same for the answer of `Phi3Model::chat`. -/
def Phi3TurnFails (m : ChatParts σ E) (promptLen : UInt32) (index : ℕ) (s : ChatState σ) : Prop :=
  m.Fails [s.nextToken] (.ofNat index + 1) (promptLen + .ofNat index) s.tokens s.parts ∨
    ∃ next t, m.infer [s.nextToken] (.ofNat index + 1) (promptLen + .ofNat index) s.tokens s = (some next, t) ∧
      (m.emit next t.parts).1 = .undecodable

/-- What ends a started `LlamaModel::chat` before its `finish`, and how. -/
inductive LlamaFailure (m : ChatParts σ E) (maxLen : UInt32) (prompt : String) (parts : σ) : ChatEnd → Prop where
  | turn {tokens p index s} (hencode : m.encode prompt = some tokens) (hstart : m.start maxLen parts = (true, p))
      (hcomes : ComesTo m.llamaTurn (List.range maxLen.toNat) { parts := p, tokens } index s)
      (hfails : m.LlamaTurnFails index s) : LlamaFailure m maxLen prompt parts .err
  | rest {tokens p s} (hencode : m.encode prompt = some tokens) (hstart : m.start maxLen parts = (true, p))
      (hover : (forEach m.llamaTurn (List.range maxLen.toNat) { parts := p, tokens }).Over s)
      (hrest : (m.decodeRest s.parts).1 = .undecodable) : LlamaFailure m maxLen prompt parts (.panic .unwrapOnError)

/-- What ends the rest of `Phi3Model::chat` before its `finish`, when the prompt is through. -/
inductive AnswerFailure (m : ChatParts σ E) (maxLen promptLen : UInt32) (s : ChatState σ) : ChatEnd → Prop where
  | undecodable {p} (hemit : m.emit s.nextToken s.parts = (.undecodable, p)) : AnswerFailure m maxLen promptLen s .err
  | closed {p} (hemit : m.emit s.nextToken s.parts = (.closed, p)) :
      AnswerFailure m maxLen promptLen s (.panic .unwrapOnError)
  | eos {p} (hemit : m.emit s.nextToken s.parts = (.sent, p)) (heos : m.eos = none) :
      AnswerFailure m maxLen promptLen s (.panic .unwrapOnError)
  | turn {p eos index t} (hemit : m.emit s.nextToken s.parts = (.sent, p)) (heos : m.eos = some eos)
      (hcomes : ComesTo (m.phi3Turn eos promptLen) (List.range (maxLen - promptLen).toNat)
        (s.answering maxLen promptLen p) index t)
      (hfails : m.Phi3TurnFails promptLen index t) : AnswerFailure m maxLen promptLen s .err
  | rest {p eos t} (hemit : m.emit s.nextToken s.parts = (.sent, p)) (heos : m.eos = some eos)
      (hover : (forEach (m.phi3Turn eos promptLen) (List.range (maxLen - promptLen).toNat)
        (s.answering maxLen promptLen p)).Over t)
      (hrest : (m.decodeRest t.parts).1 = .undecodable) : AnswerFailure m maxLen promptLen s .err

/-- What ends a started `Phi3Model::chat` before its `finish`, and how. -/
inductive Phi3Failure (m : ChatParts σ E) (maxLen : UInt32) (prompt : String) (parts : σ) : ChatEnd → Prop where
  | prompt {tokens p token s} (hencode : m.encode prompt = some tokens) (hstart : m.start maxLen parts = (true, p))
      (hcomes : ComesTo m.promptTurn tokens.zipIdx { parts := p } token s)
      (hfails : m.Fails [token.1] 0 (.ofNat token.2) [] s.parts) : Phi3Failure m maxLen prompt parts .err
  | answer {tokens p s e} (hencode : m.encode prompt = some tokens) (hstart : m.start maxLen parts = (true, p))
      (hprompt : forEach m.promptTurn tokens.zipIdx { parts := p } = .next s)
      (hanswer : m.AnswerFailure maxLen (.ofNat tokens.length) s e) : Phi3Failure m maxLen prompt parts e

variable (m : ChatParts σ E) {maxLen promptLen : UInt32} {prompt : String} {parts p : σ}
  {tokens eos : List UInt32} {s t : ChatState σ}

theorem notes_llamaChat (henc : m.encode prompt = some tokens) (hstart : m.start maxLen parts = (true, p)) :
    Notes (m.noted.llamaChat maxLen prompt (parts, [])) (m.llamaChat maxLen prompt parts) := by
  have hencoded : m.noted.encode prompt = some tokens := henc
  have hstarted : m.noted.start maxLen (parts, []) = (true, p, startedCalls []) := by simp [noted, hstart, startedCalls]
  have hmap := forEach_map m.noted_llamaTurn (List.range maxLen.toNat) { parts := p, tokens }
  obtain ⟨t, hleave⟩ | ⟨t, hover⟩ := (forEach m.llamaTurn (List.range maxLen.toNat) { parts := p, tokens }).leave_or_over
  · rw [hleave] at hmap
    rw [m.llamaChat_of_leave henc hstart hleave, m.noted.llamaChat_of_leave hencoded hstarted hmap]
    exact .err t
  · have hnoted := hover.map noting
    rw [← hmap] at hnoted
    rw [m.llamaChat_of_over henc hstart hover, m.noted.llamaChat_of_over hencoded hstarted hnoted]
    exact m.notes_close ChatEnd.panic_ne_ok t

theorem notes_phi3Answer (maxLen promptLen : UInt32) (s : ChatState σ) :
    Notes (m.noted.phi3Answer maxLen promptLen (noting s)) (m.phi3Answer maxLen promptLen s) := by
  rcases hemit : m.emit s.nextToken s.parts with ⟨e, p⟩
  have hemitted : m.noted.emit (noting s).nextToken (noting s).parts = (e, p, startedCalls s.forwards) := by
    simp [noted, noting, hemit]
  rcases e with _ | _ | _
  · simp only [phi3Answer, hemit, hemitted]
    exact .err { s with parts := p, tokens := [s.nextToken] }
  · simp only [phi3Answer, hemit, hemitted]
    exact .panic .unwrapOnError { s with parts := p, tokens := [s.nextToken] }
  · cases heos : m.eos with
    | none =>
      have hnone : m.noted.eos = none := heos
      simp only [phi3Answer, hemit, hemitted, heos, hnone]
      exact .panic .unwrapOnError { s with parts := p, tokens := [s.nextToken] }
    | some eos =>
      have hsome : m.noted.eos = some eos := heos
      have hmap := forEach_map (m.noted_phi3Turn eos promptLen) (List.range (maxLen - promptLen).toNat)
        (s.answering maxLen promptLen p)
      obtain ⟨t, hleave⟩ | ⟨t, hover⟩ := (forEach (m.phi3Turn eos promptLen) (List.range (maxLen - promptLen).toNat)
        (s.answering maxLen promptLen p)).leave_or_over
      · rw [hleave] at hmap
        rw [m.phi3Answer_of_leave hemit heos hleave, m.noted.phi3Answer_of_leave hemitted hsome hmap]
        exact .err t
      · have hnoted := hover.map noting
        rw [← hmap] at hnoted
        rw [m.phi3Answer_of_over hemit heos hover, m.noted.phi3Answer_of_over hemitted hsome hnoted]
        exact m.notes_close ChatEnd.err_ne_ok t

theorem notes_phi3Chat (henc : m.encode prompt = some tokens) (hstart : m.start maxLen parts = (true, p)) :
    Notes (m.noted.phi3Chat maxLen prompt (parts, [])) (m.phi3Chat maxLen prompt parts) := by
  have hencoded : m.noted.encode prompt = some tokens := henc
  have hstarted : m.noted.start maxLen (parts, []) = (true, p, startedCalls []) := by simp [noted, hstart, startedCalls]
  have hmap := forEach_map m.noted_promptTurn tokens.zipIdx { parts := p }
  cases hloop : forEach m.promptTurn tokens.zipIdx { parts := p } <;> rw [hloop] at hmap
  case leave t =>
    rw [m.phi3Chat_of_leave henc hstart hloop, m.noted.phi3Chat_of_leave hencoded hstarted hmap]
    exact .err t
  case brk t => exact absurd hloop (forEach_ne_brk m.promptTurn_ne_brk _ _ _)
  case next t =>
    rw [m.phi3Chat_of_next henc hstart hloop, m.noted.phi3Chat_of_next hencoded hstarted hmap]
    exact m.notes_phi3Answer maxLen (.ofNat tokens.length) t

theorem infer_eq_none_iff (input : List UInt32) (step indexPos : UInt32) (penalized : List UInt32) (s : ChatState σ) :
    (m.infer input step indexPos penalized s).1 = none ↔ m.Fails input step indexPos penalized s.parts := by
  unfold infer Fails
  rcases hpre : m.pre input s.parts with ⟨_ | x, q⟩
  · simp
  · rcases hforward : m.forward step x indexPos q with ⟨_ | y, r⟩
    · simp [hforward]
    · simp [hforward]

theorem llamaTurn_leave_iff (index : ℕ) (s : ChatState σ) :
    (∃ t, m.llamaTurn index s = .leave t) ↔ m.LlamaTurnFails index s := by
  unfold llamaTurn LlamaTurnFails
  generalize (if 0 < index then (1, s.indexPos) else (s.tokens.length, 0)) = c
  simp only [← m.infer_eq_none_iff]
  rcases hinfer : m.infer (s.tokens.drop (s.tokens.length - c.1)) 0 c.2 s.tokens s with ⟨_ | next, t⟩
  · simp
  · rcases hemit : m.emit next t.parts with ⟨_ | _ | _, p⟩ <;> by_cases heos : next ∈ m.eos.getD [] <;>
      simp [hemit, heos]

theorem promptTurn_leave_iff (token : UInt32 × ℕ) (s : ChatState σ) :
    (∃ t, m.promptTurn token s = .leave t) ↔ m.Fails [token.1] 0 (.ofNat token.2) [] s.parts := by
  unfold promptTurn
  rw [← m.infer_eq_none_iff]
  rcases m.infer [token.1] 0 (.ofNat token.2) [] s with ⟨_ | next, t⟩ <;> simp

theorem phi3Turn_leave_iff (eos : List UInt32) (promptLen : UInt32) (index : ℕ) (s : ChatState σ) :
    (∃ t, m.phi3Turn eos promptLen index s = .leave t) ↔ m.Phi3TurnFails promptLen index s := by
  unfold phi3Turn Phi3TurnFails
  rw [← m.infer_eq_none_iff]
  rcases hinfer : m.infer [s.nextToken] (.ofNat index + 1) (promptLen + .ofNat index) s.tokens s
    with ⟨_ | next, t⟩ <;> simp only [hinfer]
  · simp
  · rcases hemit : m.emit next t.parts with ⟨_ | _ | _, p⟩ <;> by_cases heos : next ∈ eos <;> simp [hemit, heos]

theorem close_iff {undecodable e : ChatEnd} (h : undecodable ≠ .ok) (s : ChatState σ) :
    (m.close undecodable s).1 = e ∧ e ≠ .ok ↔ (m.decodeRest s.parts).1 = .undecodable ∧ e = undecodable := by
  unfold close
  rcases hrest : m.decodeRest s.parts with ⟨_ | _ | _, p⟩
  · refine ⟨fun he => ⟨rfl, he.1.symm⟩, fun he => ⟨he.2.symm, he.2 ▸ h⟩⟩
  · refine ⟨fun he => absurd he.1.symm he.2, fun he => nomatch he.1⟩
  · refine ⟨fun he => absurd he.1.symm he.2, fun he => nomatch he.1⟩

/-- A started chat is over with anything but `Ok` where something has failed. -/
theorem llamaFailure_iff (henc : m.encode prompt = some tokens) (hstart : m.start maxLen parts = (true, p))
    (e : ChatEnd) :
    m.LlamaFailure maxLen prompt parts e ↔ (m.llamaChat maxLen prompt parts).1 = e ∧ e ≠ .ok := by
  have hleave := @forEach_leave_iff _ _ m.llamaTurn (List.range maxLen.toNat) { parts := p, tokens }
  simp only [llamaTurn_leave_iff] at hleave
  refine ⟨fun h => ?_, fun ⟨hend, he⟩ => ?_⟩
  · rcases h with ⟨hencode, hstarted, hcomes, hfails⟩ | ⟨hencode, hstarted, hover, hrest⟩
    · cases henc.symm.trans hencode
      cases hstart.symm.trans hstarted
      obtain ⟨t, hloop⟩ := hleave.mpr ⟨_, _, hcomes, hfails⟩
      rw [m.llamaChat_of_leave henc hstart hloop]
      exact ⟨rfl, ChatEnd.err_ne_ok⟩
    · cases henc.symm.trans hencode
      cases hstart.symm.trans hstarted
      rw [m.llamaChat_of_over henc hstart hover]
      exact (m.close_iff ChatEnd.panic_ne_ok _).mpr ⟨hrest, rfl⟩
  · obtain ⟨t, hloop⟩ | ⟨t, hover⟩ := (forEach m.llamaTurn (List.range maxLen.toNat) { parts := p, tokens }).leave_or_over
    · obtain ⟨index, s, hcomes, hfails⟩ := hleave.mp ⟨t, hloop⟩
      rw [m.llamaChat_of_leave henc hstart hloop] at hend
      exact hend ▸ .turn henc hstart hcomes hfails
    · rw [m.llamaChat_of_over henc hstart hover] at hend
      obtain ⟨hrest, rfl⟩ := (m.close_iff ChatEnd.panic_ne_ok t).mp ⟨hend, he⟩
      exact .rest henc hstart hover hrest

theorem answerFailure_iff (maxLen promptLen : UInt32) (s : ChatState σ) (e : ChatEnd) :
    m.AnswerFailure maxLen promptLen s e ↔ (m.phi3Answer maxLen promptLen s).1 = e ∧ e ≠ .ok := by
  have hleave := fun eos p => @forEach_leave_iff _ _ (m.phi3Turn eos promptLen)
    (List.range (maxLen - promptLen).toNat) (s.answering maxLen promptLen p)
  simp only [phi3Turn_leave_iff] at hleave
  refine ⟨fun h => ?_, fun ⟨hend, he⟩ => ?_⟩
  · rcases h with ⟨hemit⟩ | ⟨hemit⟩ | ⟨hemit, heos⟩ | ⟨hemit, heos, hcomes, hfails⟩ | ⟨hemit, heos, hover, hrest⟩
    · simp only [phi3Answer, hemit]
      exact ⟨trivial, ChatEnd.err_ne_ok⟩
    · simp only [phi3Answer, hemit]
      exact ⟨trivial, ChatEnd.panic_ne_ok⟩
    · simp only [phi3Answer, hemit, heos]
      exact ⟨trivial, ChatEnd.panic_ne_ok⟩
    · obtain ⟨t, hloop⟩ := (hleave _ _).mpr ⟨_, _, hcomes, hfails⟩
      rw [m.phi3Answer_of_leave hemit heos hloop]
      exact ⟨rfl, ChatEnd.err_ne_ok⟩
    · rw [m.phi3Answer_of_over hemit heos hover]
      exact (m.close_iff ChatEnd.err_ne_ok _).mpr ⟨hrest, rfl⟩
  · rcases hemit : m.emit s.nextToken s.parts with ⟨_ | _ | _, p⟩
    · simp only [phi3Answer, hemit] at hend
      exact hend ▸ .undecodable hemit
    · simp only [phi3Answer, hemit] at hend
      exact hend ▸ .closed hemit
    · cases heos : m.eos with
      | none =>
        simp only [phi3Answer, hemit, heos] at hend
        exact hend ▸ .eos hemit heos
      | some eos =>
        obtain ⟨t, hloop⟩ | ⟨t, hover⟩ := (forEach (m.phi3Turn eos promptLen) (List.range (maxLen - promptLen).toNat)
          (s.answering maxLen promptLen p)).leave_or_over
        · obtain ⟨index, t', hcomes, hfails⟩ := (hleave eos p).mp ⟨t, hloop⟩
          rw [m.phi3Answer_of_leave hemit heos hloop] at hend
          exact hend ▸ .turn hemit heos hcomes hfails
        · rw [m.phi3Answer_of_over hemit heos hover] at hend
          obtain ⟨hrest, rfl⟩ := (m.close_iff ChatEnd.err_ne_ok t).mp ⟨hend, he⟩
          exact .rest hemit heos hover hrest

theorem phi3Failure_iff (henc : m.encode prompt = some tokens) (hstart : m.start maxLen parts = (true, p))
    (e : ChatEnd) :
    m.Phi3Failure maxLen prompt parts e ↔ (m.phi3Chat maxLen prompt parts).1 = e ∧ e ≠ .ok := by
  have hleave := @forEach_leave_iff _ _ m.promptTurn tokens.zipIdx { parts := p }
  simp only [promptTurn_leave_iff] at hleave
  refine ⟨fun h => ?_, fun ⟨hend, he⟩ => ?_⟩
  · rcases h with ⟨hencode, hstarted, hcomes, hfails⟩ | ⟨hencode, hstarted, hprompt, hanswer⟩
    · cases henc.symm.trans hencode
      cases hstart.symm.trans hstarted
      obtain ⟨t, hloop⟩ := hleave.mpr ⟨_, _, hcomes, hfails⟩
      rw [m.phi3Chat_of_leave henc hstart hloop]
      exact ⟨rfl, ChatEnd.err_ne_ok⟩
    · cases henc.symm.trans hencode
      cases hstart.symm.trans hstarted
      rw [m.phi3Chat_of_next henc hstart hprompt]
      exact (m.answerFailure_iff maxLen _ _ e).mp hanswer
  · cases hloop : forEach m.promptTurn tokens.zipIdx { parts := p } with
    | leave t =>
      obtain ⟨token, s, hcomes, hfails⟩ := hleave.mp ⟨t, hloop⟩
      rw [m.phi3Chat_of_leave henc hstart hloop] at hend
      exact hend ▸ .prompt henc hstart hcomes hfails
    | brk t => exact absurd hloop (forEach_ne_brk m.promptTurn_ne_brk _ _ _)
    | next t =>
      rw [m.phi3Chat_of_next henc hstart hloop] at hend
      exact .answer henc hstart hloop ((m.answerFailure_iff maxLen _ t e).mpr ⟨hend, he⟩)

/-- Two views of the calls of a chat, by what ends it. -/
theorem Notes.finished_iff {noted : ChatEnd × ChatState (σ × List LayersCall)} {chat : ChatEnd × ChatState σ}
    (hnotes : Notes noted chat) {Failure : ChatEnd → Prop} (hfailure : ∀ e, Failure e ↔ chat.1 = e ∧ e ≠ .ok) :
    ((noted.1.Returned → FinishedOnce noted.2.parts.2) ↔ ¬ Failure .err) ∧
      (FinishedOnce noted.2.parts.2 ↔ ∀ e, ¬ Failure e) := by
  rw [hnotes.calls, hnotes.ends, finishedOnce_callsOf_iff]
  simp only [hfailure]
  refine ⟨⟨fun h ⟨hend, hne⟩ => ?_, fun h hreturned => ?_⟩, fun h e ⟨hend, hne⟩ => ?_, fun h => ?_⟩
  · exact hne (hend ▸ h (.inr hend))
  · rcases hreturned with hok | herr
    · exact hok
    · exact absurd ⟨herr, ChatEnd.err_ne_ok⟩ h
  · exact hne (hend ▸ h)
  · by_contra hne
    exact h chat.1 ⟨rfl, hne⟩

/-- A chat that is not started. -/
theorem finished_iff_of_idle {e : ChatEnd} {calls : List LayersCall} (hcalls : calls = [] ∨ calls = [.start false])
    {Failure : ChatEnd → Prop} (hfailure : ∀ e, ¬ Failure e) :
    ((e.Returned → FinishedOnce calls) ↔ ¬ Failure .err) ∧ (FinishedOnce calls ↔ ∀ e, ¬ Failure e) := by
  have hidle : FinishedOnce calls := by
    rcases hcalls with rfl | rfl <;> exact .of_idle (by simp) (by simp) (by simp)
  exact ⟨iff_of_true (fun _ => hidle) (hfailure .err), iff_of_true hidle hfailure⟩

theorem LlamaFailure.started {e : ChatEnd} (h : m.LlamaFailure maxLen prompt parts e) :
    ∃ tokens p, m.encode prompt = some tokens ∧ m.start maxLen parts = (true, p) := by
  rcases h with ⟨hencode, hstart, -, -⟩ | ⟨hencode, hstart, -, -⟩ <;> exact ⟨_, _, hencode, hstart⟩

theorem Phi3Failure.started {e : ChatEnd} (h : m.Phi3Failure maxLen prompt parts e) :
    ∃ tokens p, m.encode prompt = some tokens ∧ m.start maxLen parts = (true, p) := by
  rcases h with ⟨hencode, hstart, -, -⟩ | ⟨hencode, hstart, -, -⟩ <;> exact ⟨_, _, hencode, hstart⟩

/-- The calls of a chat, by what ends it, if that is known where the chat is started. -/
theorem finished_iff {noted : ChatEnd × ChatState (σ × List LayersCall)} {chat : ChatEnd × ChatState σ}
    {Failure : ChatEnd → Prop} (hunread : m.encode prompt = none → noted.2.parts.2 = [])
    (hrefused : ∀ tokens p, m.encode prompt = some tokens → m.start maxLen parts = (false, p) →
      noted.2.parts.2 = [.start false])
    (hstarted : ∀ tokens p, m.encode prompt = some tokens → m.start maxLen parts = (true, p) →
      Notes noted chat ∧ ∀ e, Failure e ↔ chat.1 = e ∧ e ≠ .ok)
    (hfailure : ∀ e, Failure e → ∃ tokens p, m.encode prompt = some tokens ∧ m.start maxLen parts = (true, p)) :
    ((noted.1.Returned → FinishedOnce noted.2.parts.2) ↔ ¬ Failure .err) ∧
      (FinishedOnce noted.2.parts.2 ↔ ∀ e, ¬ Failure e) := by
  cases henc : m.encode prompt with
  | none =>
    refine finished_iff_of_idle (.inl (hunread henc)) fun e h => ?_
    obtain ⟨tokens, p, hsome, -⟩ := hfailure e h
    cases henc.symm.trans hsome
  | some tokens =>
    rcases hstart : m.start maxLen parts with ⟨_ | _, p⟩
    · refine finished_iff_of_idle (.inr (hrefused tokens p henc hstart)) fun e h => ?_
      obtain ⟨tokens, p, -, htrue⟩ := hfailure e h
      cases hstart.symm.trans htrue
    · obtain ⟨hnotes, hends⟩ := hstarted tokens p henc hstart
      exact hnotes.finished_iff hends

theorem llama_finished_iff (maxLen : UInt32) (prompt : String) (parts : σ) :
    (((m.noted.llamaChat maxLen prompt (parts, [])).1.Returned →
        FinishedOnce (m.noted.llamaChat maxLen prompt (parts, [])).2.parts.2) ↔
      ¬ m.LlamaFailure maxLen prompt parts .err) ∧
    (FinishedOnce (m.noted.llamaChat maxLen prompt (parts, [])).2.parts.2 ↔
      ∀ e, ¬ m.LlamaFailure maxLen prompt parts e) := by
  refine m.finished_iff (fun henc => ?_) (fun tokens p henc hstart => ?_)
    (fun tokens p henc hstart => ⟨m.notes_llamaChat henc hstart, m.llamaFailure_iff henc hstart⟩) fun e h => h.started
  · simp [llamaChat, noted, henc]
  · simp [llamaChat, noted, henc, hstart]

theorem phi3_finished_iff (maxLen : UInt32) (prompt : String) (parts : σ) :
    (((m.noted.phi3Chat maxLen prompt (parts, [])).1.Returned →
        FinishedOnce (m.noted.phi3Chat maxLen prompt (parts, [])).2.parts.2) ↔
      ¬ m.Phi3Failure maxLen prompt parts .err) ∧
    (FinishedOnce (m.noted.phi3Chat maxLen prompt (parts, [])).2.parts.2 ↔
      ∀ e, ¬ m.Phi3Failure maxLen prompt parts e) := by
  refine m.finished_iff (fun henc => ?_) (fun tokens p henc hstart => ?_)
    (fun tokens p henc hstart => ⟨m.notes_phi3Chat henc hstart, m.phi3Failure_iff henc hstart⟩) fun e h => h.started
  · simp [phi3Chat, noted, henc]
  · simp [phi3Chat, noted, henc, hstart]

/-- A chat that returns is finished if no `?` on its way fails, and any chat if nothing does. -/
theorem finished_once_iff (m : ChatParts σ E) (maxLen : UInt32) (prompt : String) (parts : σ) :
    let llama := m.noted.llamaChat maxLen prompt (parts, [])
    let phi3 := m.noted.phi3Chat maxLen prompt (parts, [])
    ((llama.1.Returned → FinishedOnce llama.2.parts.2) ↔ ¬ m.LlamaFailure maxLen prompt parts .err) ∧
      ((phi3.1.Returned → FinishedOnce phi3.2.parts.2) ↔ ¬ m.Phi3Failure maxLen prompt parts .err) ∧
      (FinishedOnce llama.2.parts.2 ↔ ∀ e, ¬ m.LlamaFailure maxLen prompt parts e) ∧
      (FinishedOnce phi3.2.parts.2 ↔ ∀ e, ¬ m.Phi3Failure maxLen prompt parts e) := by
  obtain ⟨hllama, hllama'⟩ := m.llama_finished_iff maxLen prompt parts
  obtain ⟨hphi3, hphi3'⟩ := m.phi3_finished_iff maxLen prompt parts
  exact ⟨hllama, hphi3, hllama', hphi3'⟩

/-- A model whose layers are started and then fail. -/
def failingLayers : ChatParts Unit Unit where
  encode _ := some [1]
  start _ s := (true, s)
  pre _ s := (some (), s)
  forward _ _ _ s := (none, s)
  sample _ _ s := (some 0, s)
  emit _ s := (.sent, s)
  decodeRest s := (.sent, s)
  finish s := s
  eos := some [0]

/-- Their first `forward` is the last call that a chat makes. -/
theorem finished_once_fails :
    let llama := failingLayers.noted.llamaChat 8 "hi" ((), [])
    let phi3 := failingLayers.noted.phi3Chat 8 "hi" ((), [])
    llama.1 = .err ∧ llama.2.parts.2 = [.start true, .forward 0 0] ∧ ¬ FinishedOnce llama.2.parts.2 ∧
      phi3.1 = .err ∧ phi3.2.parts.2 = [.start true, .forward 0 0] ∧ ¬ FinishedOnce phi3.2.parts.2 := by
  have hmissing : ¬ FinishedOnce [.start true, .forward 0 0] := fun h => absurd (h.once (by decide)) (by decide)
  exact ⟨rfl, rfl, hmissing, rfl, rfl, hmissing⟩

end ChatParts
end Dllm
