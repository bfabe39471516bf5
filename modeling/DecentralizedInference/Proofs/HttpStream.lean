import DecentralizedInference.Lib.Ledger
import DecentralizedInference.Spec.AsyncReadRx

/-! Whether an `AsyncReadRx` passes on every byte: it does, unless a read with no room for a byte
takes a message while there is something unread before it. -/

namespace Dllm

namespace AsyncReadRx

/-- The rest of the buffer. -/
def unread (s : AsyncReadRx) : List UInt8 := (s.buffer.getD []).drop s.offset

/-- What has been sent and not been read. -/
def pendingBytes (s : AsyncReadRx) : List UInt8 := s.unread ++ s.rx.flatten

/-- A read without room takes messages off the channel, up to `budget`; all but the last one and
the rest of the buffer before them are overwritten, and they are not all empty. -/
def Overwrites (s : AsyncReadRx) (remaining budget : ℕ) : Prop :=
  remaining = 0 ∧ ∃ msg ∈ (s.unread :: s.rx.take budget).dropLast, msg ≠ []

theorem copy_written (remaining : ℕ) (s : AsyncReadRx) : (s.copy remaining).1 = s.unread.take remaining := by
  unfold copy unread
  cases s.buffer with
  | none => simp
  | some buffer =>
    simp only [Option.getD_some]
    have htake : (buffer.drop s.offset).take (min (buffer.length - s.offset) remaining) =
        (buffer.drop s.offset).take remaining := by
      rw [← List.length_drop, List.take_eq_take_iff]
      omega
    split <;> exact htake

theorem copy_unread (remaining : ℕ) (s : AsyncReadRx) :
    (s.copy remaining).2.unread = s.unread.drop remaining := by
  unfold copy unread
  cases hb : s.buffer with
  | none => simp [hb]
  | some buffer =>
    simp only [Option.getD_some]
    split
    case isTrue hdone =>
      have hnil : (buffer.drop s.offset).drop remaining = [] := by
        rw [List.drop_drop, List.drop_eq_nil_iff]
        omega
      simpa using hnil.symm
    case isFalse hmore =>
      simp only [Option.getD_some, List.drop_drop]
      congr 1
      omega

theorem copy_rx (remaining : ℕ) (s : AsyncReadRx) :
    (s.copy remaining).2.rx = s.rx ∧ (s.copy remaining).2.closed = s.closed := by
  unfold copy
  cases s.buffer with
  | none => exact ⟨rfl, rfl⟩
  | some buffer =>
    simp only
    split <;> exact ⟨rfl, rfl⟩

/-- The offset is a place in the buffer, so the slice is in range. -/
def Bounded (s : AsyncReadRx) : Prop := ∀ buffer, s.buffer = some buffer → s.offset ≤ buffer.length

theorem Bounded.copy {s : AsyncReadRx} (h : s.Bounded) (remaining : ℕ) : (s.copy remaining).2.Bounded := by
  unfold AsyncReadRx.copy
  cases hb : s.buffer with
  | none => exact h
  | some buffer =>
    simp only
    split
    · exact nofun
    · intro buffer' hbuffer
      obtain rfl : buffer = buffer' := by simpa using hbuffer
      have hoffset := h buffer hb
      simp only
      omega

/-- A read that copies something, or takes the next message, or finds the channel empty. -/
theorem pollRead_cases (remaining budget : ℕ) (s : AsyncReadRx) :
    (s.unread.take remaining ≠ [] ∧ s.pollRead remaining budget = (.ready (s.unread.take remaining), (s.copy remaining).2)) ∨
      (s.unread.take remaining = [] ∧ (budget = 0 ∨ s.rx = []) ∧
        s.pollRead remaining budget =
          (if budget ≠ 0 ∧ s.closed then .ready [] else .pending, (s.copy remaining).2)) ∨
      (s.unread.take remaining = [] ∧ ∃ k msg rx, budget = k + 1 ∧ s.rx = msg :: rx ∧
        s.pollRead remaining budget =
          pollRead remaining k { (s.copy remaining).2 with rx, buffer := some msg, offset := 0 }) := by
  by_cases hw : s.unread.take remaining = []
  · right
    cases budget with
    | zero =>
      left
      refine ⟨hw, .inl rfl, ?_⟩
      unfold pollRead
      simp [copy_written, hw]
    | succ k =>
      cases hrx : s.rx with
      | nil =>
        left
        refine ⟨hw, .inr rfl, ?_⟩
        unfold pollRead
        simp only [copy_written, hw, (copy_rx remaining s).1, (copy_rx remaining s).2, hrx]
        cases s.closed <;> simp
      | cons msg rx =>
        right
        refine ⟨hw, k, msg, rx, rfl, rfl, ?_⟩
        conv => lhs; unfold pollRead
        simp [copy_written, hw, (copy_rx remaining s).1, hrx]
  · left
    refine ⟨hw, ?_⟩
    unfold pollRead
    simp [copy_written, hw]

/-- Induction along the messages that a read takes. -/
theorem pollRead_induct (remaining : ℕ) {motive : ℕ → AsyncReadRx → Prop}
    (copied : ∀ budget s, s.unread.take remaining ≠ [] →
      s.pollRead remaining budget = (.ready (s.unread.take remaining), (s.copy remaining).2) → motive budget s)
    (stopped : ∀ budget s, s.unread.take remaining = [] → (budget = 0 ∨ s.rx = []) →
      s.pollRead remaining budget = (if budget ≠ 0 ∧ s.closed then .ready [] else .pending, (s.copy remaining).2) →
      motive budget s)
    (taken : ∀ k (s : AsyncReadRx) msg rx, s.unread.take remaining = [] → s.rx = msg :: rx →
      s.pollRead remaining (k + 1) =
        pollRead remaining k { (s.copy remaining).2 with rx, buffer := some msg, offset := 0 } →
      motive k { (s.copy remaining).2 with rx, buffer := some msg, offset := 0 } → motive (k + 1) s)
    (budget : ℕ) (s : AsyncReadRx) : motive budget s := by
  induction budget using Nat.strongRecOn generalizing s with
  | ind budget ih =>
    obtain ⟨hw, hres⟩ | ⟨hw, hstop, hres⟩ | ⟨hw, k, msg, rx, rfl, hrx, hres⟩ := s.pollRead_cases remaining budget
    · exact copied budget s hw hres
    · exact stopped budget s hw hstop hres
    · exact taken k s msg rx hw hrx hres (ih k (Nat.lt_succ_self k) _)

theorem Bounded.pollRead {s : AsyncReadRx} (h : s.Bounded) (remaining budget : ℕ) :
    (s.pollRead remaining budget).2.Bounded := by
  induction budget, s using pollRead_induct remaining with
  | copied budget s hw hres =>
    rw [hres]
    exact h.copy remaining
  | stopped budget s hw hstop hres =>
    rw [hres]
    exact h.copy remaining
  | taken k s msg rx hw hrx hres ih =>
    rw [hres]
    exact ih fun buffer _ => Nat.zero_le _

theorem overwrites_succ {s : AsyncReadRx} {remaining k : ℕ} {msg : List UInt8} {rx : List (List UInt8)}
    (hrx : s.rx = msg :: rx) {s' : AsyncReadRx} (hs' : s'.unread = msg) (hrx' : s'.rx = rx) :
    s.Overwrites remaining (k + 1) ↔ remaining = 0 ∧ (s.unread ≠ [] ∨ s'.Overwrites remaining k) := by
  unfold Overwrites
  rw [hrx, hs', hrx', List.take_succ_cons, List.dropLast_cons_cons]
  simp only [List.mem_cons, exists_eq_or_imp]
  tauto

/-- Copying moves bytes from the reader to the read buffer. -/
theorem copy_account (remaining : ℕ) (s : AsyncReadRx) :
    s.unread.take remaining ++ (s.copy remaining).2.pendingBytes = s.pendingBytes := by
  unfold pendingBytes
  rw [copy_unread, (copy_rx remaining s).1, ← List.append_assoc, List.take_append_drop]

/-- A read passes on what it takes, or it overwrites something. -/
theorem pollRead_account (remaining budget : ℕ) (s : AsyncReadRx) :
    (¬s.Overwrites remaining budget ∧ (s.pollRead remaining budget).1.written ++
        (s.pollRead remaining budget).2.pendingBytes = s.pendingBytes) ∨
      (s.Overwrites remaining budget ∧ ((s.pollRead remaining budget).1.written ++
        (s.pollRead remaining budget).2.pendingBytes).length < s.pendingBytes.length) := by
  induction budget, s using pollRead_induct remaining with
  | copied budget s hw hres =>
    left
    refine ⟨fun h => hw (by rw [h.1, List.take_zero]), ?_⟩
    rw [hres]
    exact s.copy_account remaining
  | stopped budget s hw hstop hres =>
    left
    have htaken : s.rx.take budget = [] := by
      obtain rfl | hnil := hstop
      · exact List.take_zero
      · rw [hnil, List.take_nil]
    refine ⟨fun h => ?_, ?_⟩
    · obtain ⟨-, m, hm, -⟩ := h
      simp [htaken] at hm
    · have hcopy := s.copy_account remaining
      rw [hw] at hcopy
      rw [hres]
      split <;> exact hcopy
  | taken k s msg rx hw hrx hres ih =>
    -- the buffer is replaced by the message, so what was unread in it is gone
    have hpending : s.pendingBytes = s.unread ++ pendingBytes ⟨rx, s.closed, some msg, 0⟩ := by
      simp [pendingBytes, unread, hrx]
    let next : AsyncReadRx := { (s.copy remaining).2 with rx, buffer := some msg, offset := 0 }
    have hover : s.Overwrites remaining (k + 1) ↔ remaining = 0 ∧ (s.unread ≠ [] ∨ next.Overwrites remaining k) :=
      overwrites_succ hrx rfl rfl
    have hnext : s.pollRead remaining (k + 1) = next.pollRead remaining k := hres
    rw [hnext, hover, hpending]
    have hrest : (¬next.Overwrites remaining k ∧ (next.pollRead remaining k).1.written ++
          (next.pollRead remaining k).2.pendingBytes = next.pendingBytes) ∨
        (next.Overwrites remaining k ∧ ((next.pollRead remaining k).1.written ++
          (next.pollRead remaining k).2.pendingBytes).length < next.pendingBytes.length) := ih
    have hsame : next.pendingBytes = pendingBytes ⟨rx, s.closed, some msg, 0⟩ := rfl
    rw [hsame] at hrest
    by_cases hzero : remaining = 0
    · by_cases hunread : s.unread = []
      · simpa [hzero, hunread] using hrest
      · right
        refine ⟨⟨hzero, .inl hunread⟩, ?_⟩
        have hpos := List.length_pos_iff.mpr hunread
        rw [@List.length_append _ s.unread]
        obtain ⟨-, hkeep⟩ | ⟨-, hless⟩ := hrest
        · rw [hkeep]
          omega
        · omega
    · have hunread : s.unread = [] := by
        by_contra hne
        obtain hr | hu := List.take_eq_nil_iff.mp hw
        · exact hzero hr
        · exact hne hu
      obtain ⟨-, hkeep⟩ | ⟨hlost, -⟩ := hrest
      · left
        refine ⟨fun h => hzero h.1, ?_⟩
        rw [hkeep, hunread, List.nil_append]
      · exact absurd hlost.1 hzero

theorem pollRead_closed (remaining budget : ℕ) (s : AsyncReadRx) :
    (s.pollRead remaining budget).2.closed = s.closed := by
  induction budget, s using pollRead_induct remaining with
  | copied budget s hw hres =>
    rw [hres]
    exact (copy_rx remaining s).2
  | stopped budget s hw hstop hres =>
    rw [hres]
    exact (copy_rx remaining s).2
  | taken k s msg rx hw hrx hres ih =>
    rw [hres]
    exact ih.trans (copy_rx remaining s).2

/-- A read with room that gives nothing has come to the end. -/
theorem pollRead_nothing {remaining budget : ℕ} {s : AsyncReadRx} (hroom : remaining ≠ 0)
    (h : (s.pollRead remaining budget).1 = .ready []) :
    (s.pollRead remaining budget).2.closed = true ∧ (s.pollRead remaining budget).2.rx = [] ∧
      (s.pollRead remaining budget).2.pendingBytes = [] := by
  induction budget, s using pollRead_induct remaining with
  | copied budget s hw hres =>
    rw [hres] at h
    exact absurd (ReadPoll.ready.inj h) hw
  | stopped budget s hw hstop hres =>
    rw [hres] at h ⊢
    simp only at h
    split at h
    case isTrue hclosed =>
      have hnil : s.rx = [] := hstop.resolve_left hclosed.1
      have hunread : s.unread = [] := (List.take_eq_nil_iff.mp hw).resolve_left hroom
      refine ⟨(copy_rx remaining s).2.trans hclosed.2, (copy_rx remaining s).1.trans hnil, ?_⟩
      simp [pendingBytes, copy_unread, hunread, (copy_rx remaining s).1, hnil]
    case isFalse => cases h
  | taken k s msg rx hw hrx hres ih =>
    rw [hres] at h ⊢
    exact ih h

end AsyncReadRx

namespace HttpStream

open AsyncReadRx

/-- A read without room that overwrites something. -/
def Overwrites (s : HttpStream) : StreamAct → Prop
  | .poll remaining budget => s.reader.Overwrites remaining budget
  | _ => False

/-- What has been read, with what is to come. -/
def account (s : HttpStream) : List UInt8 := s.written ++ s.reader.pendingBytes

theorem step_account (s : HttpStream) (e : StreamAct) (t : HttpStream) (h : s.step e = some t) :
    ∃ added, t.sent = s.sent ++ added ∧
      (¬s.Overwrites e ∧ t.account = s.account ++ added ∨
        s.Overwrites e ∧ t.account.length < s.account.length + added.length) := by
  cases e with
  | send msg =>
    unfold step at h
    simp only [Option.ite_none_right_eq_some, Option.some.injEq] at h
    obtain ⟨-, rfl⟩ := h
    exact ⟨msg, rfl, .inl ⟨id, by simp [account, pendingBytes, unread]⟩⟩
  | close =>
    obtain rfl := Option.some.inj h
    exact ⟨[], by simp, .inl ⟨id, by simp [account, pendingBytes, unread]⟩⟩
  | poll remaining budget =>
    obtain rfl := Option.some.inj h
    refine ⟨[], by simp, ?_⟩
    obtain ⟨hkeep, haccount⟩ | ⟨hlost, hless⟩ := s.reader.pollRead_account remaining budget
    · exact .inl ⟨hkeep, by simp [account, haccount]⟩
    · exact .inr ⟨hlost, by simpa [account] using hless⟩

/-- The bytes that have been read, the rest of the buffer and the messages in the channel are what
has been sent, and a read with room gives nothing at the end only, if and only if no read without
room has overwritten anything unread. -/
theorem stream_conserves_iff {es : List StreamAct} {s : HttpStream} (hs : es.foldlM step {} = some s) :
    (s.written ++ s.reader.unread ++ s.reader.rx.flatten = s.sent ∧
        ∀ remaining budget, remaining ≠ 0 → (s.reader.pollRead remaining budget).1 = .ready [] →
          s.reader.closed = true ∧ s.written = s.sent) ↔
      NeverIn step {} Overwrites es := by
  have haccount : s.account = s.sent ↔ NeverIn step {} Overwrites es := ledger_iff step_account rfl hs
  have hsplit : s.account = s.written ++ s.reader.unread ++ s.reader.rx.flatten :=
    (List.append_assoc ..).symm
  rw [← haccount, hsplit]
  refine ⟨fun h => h.1, fun h => ⟨h, fun remaining budget hroom hready => ?_⟩⟩
  obtain ⟨hclosed, -, hnone⟩ := pollRead_nothing hroom hready
  refine ⟨(pollRead_closed remaining budget s.reader).symm.trans hclosed, ?_⟩
  obtain ⟨-, hkeep⟩ | ⟨hlost, -⟩ := s.reader.pollRead_account remaining budget
  · rw [hready, hnone] at hkeep
    have hend : s.reader.pendingBytes = [] := hkeep.symm
    rw [← h, ← hsplit, account, hend, List.append_nil]
  · exact absurd hlost.1 hroom

/-- The offset stays in the buffer. -/
theorem bounded_run {es : List StreamAct} {s : HttpStream} (hs : es.foldlM step {} = some s) : s.reader.Bounded := by
  refine (Run.of_foldlM hs).invariant (P := fun s => s.reader.Bounded) nofun fun a e b hstep ha => ?_
  cases e with
  | send msg =>
    unfold step at hstep
    simp only [Option.ite_none_right_eq_some, Option.some.injEq] at hstep
    obtain ⟨-, rfl⟩ := hstep
    exact ha
  | close =>
    obtain rfl := Option.some.inj hstep
    exact ha
  | poll remaining budget =>
    obtain rfl := Option.some.inj hstep
    exact ha.pollRead remaining budget

/-- Two messages, the first of which is read in two parts. -/
theorem stream_conserves_two :
    ∃ s, [.send [104, 105], .send [33], .poll 1 10, .poll 8 10].foldlM step {} = some s ∧
      s.written = [104, 105] ∧ s.written ++ s.reader.unread ++ s.reader.rx.flatten = s.sent := by
  have hnever : NeverIn step {} Overwrites [.send [104, 105], .send [33], .poll 1 10, .poll 8 10] := by
    intro pre e post heq q hq hover
    have he : e ∈ ([.send [104, 105], .send [33], .poll 1 10, .poll 8 10] : List StreamAct) := by
      rw [heq]
      simp
    simp only [List.mem_cons, List.not_mem_nil, or_false] at he
    rcases he with rfl | rfl | rfl | rfl
    · exact hover
    · exact hover
    · exact absurd hover.1 Nat.one_ne_zero
    · exact absurd hover.1 (by decide)
  exact ⟨_, rfl, by decide, ((stream_conserves_iff rfl).mpr hnever).1⟩

/-- A read without room between two messages. -/
theorem stream_loses :
    ¬ ∀ (es : List StreamAct) (s : HttpStream), es.foldlM step {} = some s →
      s.written ++ s.reader.unread ++ s.reader.rx.flatten = s.sent := by
  intro h
  have hlost := h [.send [104, 105], .send [33], .poll 1 10, .poll 0 10] _ rfl
  exact absurd hlost (by decide)

end HttpStream
end Dllm
