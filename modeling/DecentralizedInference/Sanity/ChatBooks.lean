import DecentralizedInference.Sanity.ChatRun
import DecentralizedInference.Sanity.OnChainWorld

/-! What the nodes of a network note down for one chat, and that calls of other chats leave
it alone: the hooks look it up by the id of the chat, and a session that is not one of the
chat has a container of another chat. -/

namespace Dllm

variable {Address SecretKey PublicKey : Type}

/-- What an `OnChainService` has for a chat: the tokens it has earned and those it has spent,
its checkpoint, and the token counts and signatures it has put into claims. -/
@[ext] structure Books where
  earned : UInt64
  spent : UInt64
  checkpoint : Option Checkpoint
  claims : List (UInt64 × List UInt8)

/-- The token count and the signature of a claim for the chat. -/
def Submission.claim (chat : UInt64) : Submission Address → Option (UInt64 × List UInt8)
  | .createSession .. => none
  | .claimTokens _ chatId tokenCount signature => if chatId = chat then some (tokenCount, signature) else none

def OnChainState.books (s : OnChainState Address PublicKey) (chat : UInt64) : Books :=
  ⟨OnChainStorage.get s.earning chat, OnChainStorage.get s.spending chat, s.checkpoints.getClone chat,
    s.submitted.filterMap (Submission.claim chat)⟩

namespace OnChainAccount

variable {a : OnChainAccount Address SecretKey PublicKey} {s s' : OnChainState Address PublicKey} {chat c : UInt64}

/-! The hooks around START note nothing. -/

theorem preStart_books (req : StartReq) : (a.preStart req s).2.books c = s.books c := by
  unfold preStart
  split
  · rfl
  · split <;> rfl

theorem postStart_books (req : StartReq) (res : StartRes) : (a.postStart req res s).2.books c = s.books c := by
  have hsubmit : ∀ t : Submission Address, t.claim c = none → (a.submit t s).2.books c = s.books c := by
    intro t ht
    simp [submit, OnChainState.books, ht]
  unfold postStart
  split
  case h_1 => rfl
  case h_2 m hm =>
    split
    · have h := hsubmit (.createSession req.chatId req.maxTokens.toUInt64 m.addresses m.layers) rfl
      simp only
      split <;> exact h
    · rfl

/-! The hooks around FORWARD and END note things for the chat that they are called for. -/

theorem preForward_books_of_ne (hc : c ≠ chat) (req : ForwardReq) : (a.preForward chat req s).2.books c = s.books c := by
  by_cases hidx : req.chainIndex = 0
  · simp [preForward, hidx, createCheckpoint, signCheckpoint, OnChainState.books, OnChainStorage.get_increase, hc]
  · rcases h : a.preForward chat req s with ⟨r, s'⟩
    rcases preForward_worker hidx h with ⟨m, cp, pk, -, -, -, -, -, rfl⟩ | ⟨-, rfl⟩
    · simp [OnChainState.books, OnChainStorage.get_increase, hc]
    · rfl

theorem preEnd_books_of_ne (hc : c ≠ chat) (req : EndReq) : (a.preEnd chat req s).2.books c = s.books c := by
  unfold preEnd
  split
  · simp [OnChainState.books, OnChainStorage.get_finish, hc]
  · rfl

theorem postEnd_books_of_ne (hc : c ≠ chat) (req : EndReq) (res : EndRes) :
    (a.postEnd chat req res s).2.books c = s.books c := by
  unfold postEnd
  split
  · rfl
  · split
    · rfl
    · simp only
      split
      · simp [OnChainState.books, OnChainStorage.get_finish, hc]
      · simp [submit, Submission.claim, OnChainState.books, OnChainStorage.get_finish, hc, hc.symm]

theorem service_passesEnd (a : OnChainAccount Address SecretKey PublicKey) : a.service.PassesEnd := by
  intro chatId req s
  have hpre : a.service.preEnd chatId req s = a.preEnd chatId req s := rfl
  rw [hpre]
  unfold preEnd
  split
  · exact ⟨_, _, rfl⟩
  · exact ⟨req.metadata, _, rfl⟩

end OnChainAccount

variable {Node S W E : Type} {N : ℕ}

/-! Sessions that are not of the chat have containers of other chats. -/

/-- The chat has no sessions but these. -/
def NodeState.Owned (ids : List UInt64) (chat : UInt64) (st : NodeState Node S W) : Prop :=
  ∀ t c, st.sessions.getClone t = some c → c.chatId = chat → t ∈ ids

theorem NodeState.Owned.insert {ids : List UInt64} {chat : UInt64} {st st' : NodeState Node S W} (h : st.Owned ids chat)
    {t : UInt64} {c : SessionContainer Node} (hsessions : st'.sessions = st.sessions.insert t c)
    (hc : c.chatId = chat → t ∈ ids) : st'.Owned ids chat := by
  intro t' c' hget hchat
  rw [hsessions, SharedHashMap.getClone_insert] at hget
  split at hget
  case isTrue heq =>
    cases hget
    exact heq ▸ hc hchat
  case isFalse => exact h t' c' hget hchat

namespace Part

variable {usage : LawfulUsageService S} {worker : LayerSessions W} {buf : TensorBuf E} {forward : LayersForward W E}
  {part : Part Node N} {ids : List UInt64} {chat : UInt64} {st : NodeState Node S W}

/-- A part of another chat, or one for a session of the chat, keeps it so. -/
theorem run_owned (hpart : part.Foreign ids chat ∨ ∀ t, part.session = some t → t ∈ ids) (h : st.Owned ids chat) :
    (part.run usage.toWorkerUsageService worker buf forward st).Owned ids chat := by
  cases part with
  | startBegin router rs req =>
    have hbegin := ModelService.startBegin_beginning usage worker router rs req st
    have hc : req.chatId = chat → req.session ∈ ids := by
      intro hchat
      rcases hpart with ⟨-, hne⟩ | hmem
      · exact absurd hchat hne
      · exact hmem _ rfl
    simp only [run]
    rcases hres : ModelService.startBegin usage.toWorkerUsageService worker router rs req st with ⟨r, st'⟩
    rw [hres] at hbegin
    cases hbegin with
    | layersFailed => exact h.insert rfl hc
    | proceeds => exact h.insert rfl hc
    | _ => exact h
  | forwardBegin req =>
    intro t c hget
    simp only [run, ModelService.forwardBegin_sessions] at hget
    exact h t c hget
  | endBegin req =>
    intro t c hget hchat
    simp only [run, ModelService.endBegin_sessions] at hget
    split at hget
    · cases hget
    · exact h t c hget hchat
  | _ => exact h

end Part

/-- A part of another chat leaves what is noted for this one. -/
theorem Part.Foreign.books_eq {a : OnChainAccount Address SecretKey PublicKey} {worker : LayerSessions W}
    {buf : TensorBuf E} {forward : LayersForward W E} {part : Part Node N} {ids : List UInt64} {chat : UInt64}
    (hpart : part.Foreign ids chat) {st : NodeState Node (OnChainState Address PublicKey) W} (h : st.Owned ids chat) :
    (part.run a.service.toWorkerUsageService worker buf forward st).usage.books chat = st.usage.books chat := by
  cases part with
  | startBegin router rs req =>
    simp only [Part.run, ModelService.startBegin_usage]
    exact OnChainAccount.preStart_books req
  | startEnd req res => exact OnChainAccount.postStart_books req res
  | forwardBegin req =>
    simp only [Part.run, ModelService.forwardBegin_usage]
    cases hc : st.sessions.getClone req.session with
    | none => rfl
    | some c =>
      have hne : chat ≠ c.chatId := fun heq => hpart (h _ c hc heq.symm)
      exact OnChainAccount.preForward_books_of_ne hne req
  | forwardEnd chatId req res => rfl
  | endBegin req =>
    simp only [Part.run, ModelService.endBegin_usage]
    cases hc : st.sessions.getClone req.session with
    | none => rfl
    | some c =>
      have hne : chat ≠ c.chatId := fun heq => hpart (h _ c hc heq.symm)
      exact OnChainAccount.preEnd_books_of_ne hne req
  | endEnd chatId req res => exact OnChainAccount.postEnd_books_of_ne (Ne.symm hpart) req res

/-! The same along runs. -/

section Network

variable [DecidableEq Node] {ids : List UInt64} {chat : UInt64}

theorem World.does_owned {w : World Node S W N} {buf : TensorBuf E} {layers : Node → LayersForward W E}
    {e : Node × Part Node N} {net : Net Node S W} (he : e.2.Foreign ids chat ∨ ∀ t, e.2.session = some t → t ∈ ids)
    (h : ∀ m, (net m).Owned ids chat) (m : Node) : (w.does buf layers e net m).Owned ids chat := by
  unfold World.does
  by_cases hm : m = e.1
  · subst hm
    rw [Function.update_self]
    exact Part.run_owned he (h e.1)
  · rw [Function.update_of_ne hm]
    exact h m

/-- A call of the chat gives it no sessions but its own. -/
theorem World.HasParts.owned {Req Res Ctx : Type} {w : World Node S W N} {buf : TensorBuf E}
    {layers : Node → LayersForward W E}
    {first : ℕ → Node → Req → NodeState Node S W → Outcome (NodeState Node S W) (Ctx × Progress Node Req Res)}
    {last : Node → Ctx → Req → Res → NodeState Node S W → Outcome (NodeState Node S W) Res} {session : Req → UInt64}
    (hparts : w.HasParts buf layers first last session) {hop : ℕ} {n : Node} {req : Req} {net net' : Net Node S W}
    {es : List (Node × Part Node N)} {res : Res} {vs : List (Visit Node S W Req Res)}
    (h : Served first last (w.Other buf layers ids chat) hop n req net es res net' vs)
    (hids : ∀ v ∈ vs, session v.req ∈ ids) (howned : ∀ m, (net m).Owned ids chat) : ∀ m, (net' m).Owned ids chat := by
  refine h.keeps (I := fun a => ∀ m, (a m).Owned ids chat) howned ?_ ?_ ?_
  · intro a e b hab ha
    obtain ⟨hforeign, rfl⟩ := hab
    exact World.does_owned (.inl hforeign) ha
  · intro v hv hop ctx a hbegin ha
    obtain ⟨part, hsession, hdoes⟩ := hparts.first _ _ _ _ _ _ hbegin
    rw [hdoes]
    refine World.does_owned (.inr ?_) ha
    intro t ht
    rw [hsession] at ht
    exact Option.some.inj ht ▸ hids v hv
  · intro v hv ctx req res next answer a res' b hprogress hend ha
    obtain ⟨part, hsession, rfl⟩ := hparts.last _ _ _ _ _ _ _ hend
    refine World.does_owned (.inr ?_) ha
    intro t ht
    rw [hsession] at ht
    cases ht

end Network

namespace OnChainWorld

variable [DecidableEq Node] {w : World Node (OnChainState Address PublicKey) W N}
  {acct : Node → OnChainAccount Address SecretKey PublicKey} {codec : MetadataCodec Address PublicKey}
  {buf : TensorBuf E} {layers : Node → LayersForward W E} {ids : List UInt64} {chat : UInt64}
  {a b : Net Node (OnChainState Address PublicKey) W} {es : List (Node × Part Node N)}

theorem other_books (hw : OnChainWorld w acct codec) {e : Node × Part Node N} (h : w.Other buf layers ids chat a e b)
    (howned : ∀ m, (a m).Owned ids chat) (m : Node) : (b m).usage.books chat = (a m).usage.books chat := by
  obtain ⟨hforeign, rfl⟩ := h
  unfold World.does
  by_cases hm : m = e.1
  · subst hm
    rw [Function.update_self, hw.usage]
    exact hforeign.books_eq (howned e.1)
  · rw [Function.update_of_ne hm]

/-- While others run, the chat has no new sessions, and nothing is noted for it. -/
theorem run_books (hw : OnChainWorld w acct codec) (h : Run (w.Other buf layers ids chat) a es b)
    (howned : ∀ m, (a m).Owned ids chat) :
    (∀ m, (b m).Owned ids chat) ∧ ∀ m, (b m).usage.books chat = (a m).usage.books chat := by
  refine h.invariant (P := fun x => (∀ m, (x m).Owned ids chat) ∧ ∀ m, (x m).usage.books chat = (a m).usage.books chat)
    ⟨howned, fun _ => rfl⟩ ?_
  intro x e y hstep hx
  refine ⟨?_, fun m => (hw.other_books hstep hx.1 m).trans (hx.2 m)⟩
  obtain ⟨hforeign, rfl⟩ := hstep
  exact World.does_owned (.inl hforeign) hx.1

end OnChainWorld

end Dllm
