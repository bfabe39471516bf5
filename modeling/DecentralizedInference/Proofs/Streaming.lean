import DecentralizedInference.Spec.TokenOutputStream

/-! The pieces of text that a `TokenOutputStream` gives, one after the other, are the text of all
tokens: every index is between two characters, because the text before it ends with one that is
not U+FFFD. -/

namespace Dllm

/-- `decode` is byte by byte, and the replacement character is not alphanumeric. -/
structure TextTools.ByteLevel (tools : TextTools) (bytes : UInt32 → List UInt8) : Prop where
  decode : ∀ tokens, tools.decode tokens = some (decodeLossy (tokens.flatMap bytes))
  replacement : tools.isAlphanumeric Utf8State.REPLACEMENT = false

theorem slice_ok {α : Type} {l : List α} {a b : ℕ} (hab : a ≤ b) (hb : b ≤ l.length) :
    slice l a b = .ok ((l.take b).drop a) := if_pos ⟨hab, hb⟩

theorem splitOff_append (as bs : List Char) : splitOff (as ++ bs) (byteLen as) = .ok bs := by
  unfold splitOff
  rw [splitAtByte_append]

namespace TokenOutputStream

variable {tools : TextTools} {bytes : UInt32 → List UInt8} {s : TokenOutputStream}

/-- The indices are in order, and between two characters. -/
structure Clean (bytes : UInt32 → List UInt8) (s : TokenOutputStream) : Prop where
  prev_le : s.prevIndex ≤ s.currentIndex
  current_le : s.currentIndex ≤ s.tokens.length
  prev : EndsClean ((s.tokens.take s.prevIndex).flatMap bytes)
  current : EndsClean ((s.tokens.take s.currentIndex).flatMap bytes)

/-- The text before the current index. -/
def emitted (bytes : UInt32 → List UInt8) (s : TokenOutputStream) : List Char :=
  decodeLossy ((s.tokens.take s.currentIndex).flatMap bytes)

/-- The bytes between the indices. -/
def window (bytes : UInt32 → List UInt8) (s : TokenOutputStream) : List UInt8 :=
  ((s.tokens.take s.currentIndex).drop s.prevIndex).flatMap bytes

namespace Clean

theorem empty : Clean bytes {} := ⟨Nat.le_refl _, Nat.le_refl _, .nil, .nil⟩

theorem window_clean (h : Clean bytes s) : EndsClean (s.window bytes) := by
  have htake : s.tokens.take s.prevIndex = (s.tokens.take s.currentIndex).take s.prevIndex := by
    rw [List.take_take, Nat.min_eq_left h.prev_le]
  have hsplit : (s.tokens.take s.prevIndex).flatMap bytes ++ s.window bytes =
      (s.tokens.take s.currentIndex).flatMap bytes := by
    rw [window, htake, ← List.flatMap_append, List.take_append_drop]
  have hcurrent := h.current
  rw [← hsplit] at hcurrent
  exact h.prev.append_iff.mp hcurrent

/-- All that is not behind the first index. -/
theorem window_append (h : Clean bytes s) :
    s.window bytes ++ (s.tokens.drop s.currentIndex).flatMap bytes = (s.tokens.drop s.prevIndex).flatMap bytes := by
  have hle : s.prevIndex ≤ (s.tokens.take s.currentIndex).length := by
    rw [List.length_take, Nat.min_eq_left h.current_le]
    exact h.prev_le
  rw [window, ← List.flatMap_append, ← List.drop_append_of_le_length hle, List.take_append_drop]

theorem prevText_eq (h : Clean bytes s) (htools : tools.ByteLevel bytes) :
    s.prevText tools = .ok (some (decodeLossy (s.window bytes))) := by
  unfold prevText
  split
  case isTrue hnil =>
    simp [window, hnil]
    rfl
  case isFalse =>
    rw [slice_ok h.prev_le h.current_le]
    simp only [bind, Except.bind, pure, Except.pure, htools.decode]
    rfl

/-- The text of these tokens begins with the text between the indices. -/
theorem decode_tail (h : Clean bytes s) (htools : tools.ByteLevel bytes) :
    tools.decode (s.tokens.drop s.prevIndex) = some (decodeLossy (s.window bytes) ++
      decodeLossy ((s.tokens.drop s.currentIndex).flatMap bytes)) := by
  rw [htools.decode, ← h.window_append, h.window_clean.decodeLossy_append]

theorem emitted_append (h : Clean bytes s) :
    s.emitted bytes ++ decodeLossy ((s.tokens.drop s.currentIndex).flatMap bytes) =
      decodeLossy (s.tokens.flatMap bytes) := by
  rw [emitted, ← h.current.decodeLossy_append, ← List.flatMap_append, List.take_append_drop]

theorem decodeRest_ok (h : Clean bytes s) (htools : tools.ByteLevel bytes) :
    ∃ rest, s.decodeRest tools = .ok (some rest) ∧
      s.emitted bytes ++ rest.getD [] = decodeLossy (s.tokens.flatMap bytes) := by
  have hslice : slice s.tokens s.prevIndex s.tokens.length = .ok (s.tokens.drop s.prevIndex) := by
    rw [slice_ok (Nat.le_trans h.prev_le h.current_le) (Nat.le_refl _), List.take_length]
  unfold decodeRest
  rw [h.prevText_eq htools]
  simp only [bind, Except.bind, pure, Except.pure, hslice, h.decode_tail htools, byteLen_append, splitOff_append]
  split
  case isTrue => exact ⟨_, rfl, h.emitted_append⟩
  case isFalse hlen =>
    have hnil : decodeLossy ((s.tokens.drop s.currentIndex).flatMap bytes) = [] :=
      byteLen_eq_zero.mp (by omega)
    refine ⟨none, rfl, ?_⟩
    rw [← h.emitted_append, hnil]
    rfl

/-- Another token, before anything is emitted. -/
theorem push (h : Clean bytes s) (token : UInt32) : Clean bytes { s with tokens := s.tokens ++ [token] } := by
  have hprev : (s.tokens ++ [token]).take s.prevIndex = s.tokens.take s.prevIndex :=
    List.take_append_of_le_length (Nat.le_trans h.prev_le h.current_le)
  have hcurrent : (s.tokens ++ [token]).take s.currentIndex = s.tokens.take s.currentIndex :=
    List.take_append_of_le_length h.current_le
  refine ⟨h.prev_le, ?_, ?_, ?_⟩
  · simp only [List.length_append]
    exact Nat.le_trans h.current_le (Nat.le_add_right _ _)
  · simp only [hprev]
    exact h.prev
  · simp only [hcurrent]
    exact h.current

/-- The next piece ends with an alphanumeric character, so the text can be cut after it. -/
theorem advance (h : Clean bytes s) {c : Char} (hc : c ≠ Utf8State.REPLACEMENT)
    (hlast : (decodeLossy ((s.tokens.drop s.currentIndex).flatMap bytes)).getLast? = some c) :
    Clean bytes { s with prevIndex := s.currentIndex, currentIndex := s.tokens.length } := by
  have hall : (s.tokens.take s.currentIndex).flatMap bytes ++ (s.tokens.drop s.currentIndex).flatMap bytes =
      s.tokens.flatMap bytes := by
    rw [← List.flatMap_append, List.take_append_drop]
  refine ⟨h.current_le, Nat.le_refl _, h.current, ?_⟩
  simp only [List.take_length]
  rw [← hall]
  exact h.current.append_iff.mpr (.of_getLast? hlast hc)

theorem nextToken_ok (h : Clean bytes s) (htools : tools.ByteLevel bytes) (token : UInt32) :
    ∃ out s', s.nextToken tools token = .ok (some out, s') ∧ s'.tokens = s.tokens ++ [token] ∧ Clean bytes s' ∧
      s'.emitted bytes = s.emitted bytes ++ out.getD [] := by
  have hpush := h.push token
  have hslice : slice (s.tokens ++ [token]) s.prevIndex (s.tokens ++ [token]).length =
      .ok ((s.tokens ++ [token]).drop s.prevIndex) := by
    rw [slice_ok (Nat.le_trans hpush.prev_le hpush.current_le) (Nat.le_refl _), List.take_length]
  have hemitted : emitted bytes { s with tokens := s.tokens ++ [token] } = s.emitted bytes := by
    simp only [emitted]
    rw [List.take_append_of_le_length h.current_le]
  have hwindow : window bytes { s with tokens := s.tokens ++ [token] } = s.window bytes := by
    simp only [window]
    rw [List.take_append_of_le_length h.current_le]
  have hdecode := hpush.decode_tail htools
  rw [hwindow] at hdecode
  have hquiet : ∃ out s', Except.ok (ε := Panic) (some none, { s with tokens := s.tokens ++ [token] }) = .ok (some out, s') ∧
      s'.tokens = s.tokens ++ [token] ∧ Clean bytes s' ∧ s'.emitted bytes = s.emitted bytes ++ out.getD [] := by
    refine ⟨none, _, rfl, rfl, hpush, ?_⟩
    rw [hemitted]
    exact (List.append_nil _).symm
  unfold nextToken
  rw [h.prevText_eq htools]
  simp only [bind, Except.bind, pure, Except.pure, hslice, hdecode, byteLen_append, splitOff_append]
  generalize hpiece : decodeLossy (((s.tokens ++ [token]).drop s.currentIndex).flatMap bytes) = piece at *
  split
  case isFalse => exact hquiet
  case isTrue hlen =>
    have hne : piece ≠ [] := fun hnil => by simp [hnil, byteLen] at hlen
    obtain ⟨c, hc⟩ : ∃ c, piece.getLast? = some c := by
      cases hlast : piece.getLast? with
      | none => exact absurd (List.getLast?_eq_none_iff.mp hlast) hne
      | some c => exact ⟨c, rfl⟩
    have hlast : (decodeLossy (s.window bytes) ++ piece).getLast? = some c := by
      rw [List.getLast?_append, hc]
      rfl
    simp only [hlast]
    split
    case isFalse => exact hquiet
    case isTrue halnum =>
      have hchar : c ≠ Utf8State.REPLACEMENT := fun hrep => by
        rw [hrep, htools.replacement] at halnum
        cases halnum
      have hadvance := hpush.advance hchar (by simpa only [hpiece] using hc)
      refine ⟨some piece, _, rfl, rfl, hadvance, ?_⟩
      have hall := hpush.emitted_append
      rw [hemitted] at hall
      simp only [hpiece] at hall
      simp only [emitted, List.take_length, Option.getD_some]
      exact hall.symm

/-- Every token gives its piece of the text, or nothing. -/
theorem feed_ok (htools : tools.ByteLevel bytes) (tokens : List UInt32) (h : Clean bytes s) :
    ∃ outs s', feed tools tokens s = .ok (some (outs, s')) ∧ s'.tokens = s.tokens ++ tokens ∧ Clean bytes s' ∧
      s'.emitted bytes = s.emitted bytes ++ outs.flatMap (·.getD []) := by
  induction tokens generalizing s with
  | nil => exact ⟨[], s, rfl, by simp, h, by simp⟩
  | cons token tokens ih =>
    obtain ⟨out, s₁, hnext, htokens, hclean, hemitted⟩ := h.nextToken_ok htools token
    obtain ⟨outs, s₂, hfeed, htokens₂, hclean₂, hemitted₂⟩ := ih hclean
    refine ⟨out :: outs, s₂, ?_, ?_, hclean₂, ?_⟩
    · unfold feed
      simp only [hnext, bind, Except.bind, hfeed]
      rfl
    · rw [htokens₂, htokens, List.append_assoc, List.singleton_append]
    · rw [hemitted₂, hemitted, List.flatMap_cons, List.append_assoc]

end Clean

/-- No call panics or fails, the indices stay in order, and the pieces with the rest are the text
of all tokens. -/
theorem streaming_eq_batch (htools : tools.ByteLevel bytes) (tokens : List UInt32) :
    ∃ outs s rest, feed tools tokens {} = .ok (some (outs, s)) ∧ s.tokens = tokens ∧
      s.prevIndex ≤ s.currentIndex ∧ s.currentIndex ≤ s.tokens.length ∧
      s.decodeRest tools = .ok (some rest) ∧
      s.decodeAll tools = some (outs.flatMap (·.getD []) ++ rest.getD []) := by
  obtain ⟨outs, s, hfeed, htokens, hclean, hemitted⟩ := Clean.empty.feed_ok htools tokens
  obtain ⟨rest, hrest, hall⟩ := hclean.decodeRest_ok htools
  refine ⟨outs, s, rest, hfeed, htokens, hclean.prev_le, hclean.current_le, hrest, ?_⟩
  rw [decodeAll, htools.decode, ← hall, hemitted]
  rfl

/-- The tokens of a text stream as the text, however they cut it. -/
theorem streaming_of_text (htools : tools.ByteLevel bytes) {tokens : List UInt32} {text : List Char}
    (htext : tokens.flatMap bytes = text.flatMap String.utf8EncodeChar) :
    ∃ outs s rest, feed tools tokens {} = .ok (some (outs, s)) ∧ s.decodeRest tools = .ok (some rest) ∧
      outs.flatMap (·.getD []) ++ rest.getD [] = text := by
  obtain ⟨outs, s, hfeed, htokens, hclean, hemitted⟩ := Clean.empty.feed_ok htools tokens
  obtain ⟨rest, hrest, hall⟩ := hclean.decodeRest_ok htools
  refine ⟨outs, s, rest, hfeed, hrest, ?_⟩
  have hempty : emitted bytes {} = [] := rfl
  rw [hemitted, hempty, List.nil_append, htokens, List.nil_append, htext, decodeLossy_encode] at hall
  exact hall

/-- Three tokens for the letters h and é, and a special one. -/
def letterBytes : UInt32 → List UInt8
  | 1 => [104]
  | 2 => [0xC3]
  | 3 => [0xA9]
  | _ => []

def letterTools : TextTools where
  decode tokens := some (decodeLossy (tokens.flatMap letterBytes))
  isAlphanumeric c := c.isAlphanum || c = 'é'

theorem streaming_eq_batch_letters :
    feed letterTools [1, 2, 3, 0] {} = .ok (some ([some ['h'], none, some ['é'], none], ⟨[1, 2, 3, 0], 1, 3⟩)) ∧
      ∃ outs s rest, feed letterTools [1, 2, 3, 0] {} = .ok (some (outs, s)) ∧
        s.decodeRest letterTools = .ok (some rest) ∧
        s.decodeAll letterTools = some (outs.flatMap (·.getD []) ++ rest.getD []) := by
  have htools : letterTools.ByteLevel letterBytes := ⟨fun _ => rfl, by decide⟩
  obtain ⟨outs, s, rest, hfeed, -, -, -, hrest, hall⟩ := streaming_eq_batch htools [1, 2, 3, 0]
  exact ⟨by rfl, outs, s, rest, hfeed, hrest, hall⟩

end TokenOutputStream
end Dllm
