import Mathlib.Algebra.GroupWithZero.Nat
import Mathlib.Data.List.Basic
import Mathlib.Data.Nat.Notation

/-! Decoding of UTF-8 that never fails: each maximal part of a character that cannot be completed
becomes U+FFFD, as does an unfinished one at the end. Where a decoding ends with another
character, it can be cut. And lengths and cuts of a text in bytes. -/

/-- Between two characters, or within one: the bits so far, how many bytes are missing, and the
bounds of the next one. -/
inductive Utf8State where
  | start
  | more (value need lo hi : ℕ)
deriving DecidableEq, Repr

namespace Utf8State

def REPLACEMENT : Char := '\uFFFD'

/-- The first byte of a character. -/
def lead (n : ℕ) : List Char × Utf8State :=
  if n < 0x80 then ([Char.ofNat n], start)
  else if 0xC2 ≤ n ∧ n ≤ 0xDF then ([], more (n - 0xC0) 1 0x80 0xBF)
  else if 0xE0 ≤ n ∧ n ≤ 0xEF then
    ([], more (n - 0xE0) 2 (if n = 0xE0 then 0xA0 else 0x80) (if n = 0xED then 0x9F else 0xBF))
  else if 0xF0 ≤ n ∧ n ≤ 0xF4 then
    ([], more (n - 0xF0) 3 (if n = 0xF0 then 0x90 else 0x80) (if n = 0xF4 then 0x8F else 0xBF))
  else ([REPLACEMENT], start)

/-- A byte that does not continue the character begins a new one. -/
def step (s : Utf8State) (b : UInt8) : List Char × Utf8State :=
  match s with
  | start => lead b.toNat
  | more value need lo hi =>
    if lo ≤ b.toNat ∧ b.toNat ≤ hi then
      let value := value * 64 + (b.toNat - 0x80)
      if need = 1 then ([Char.ofNat value], start) else ([], more value (need - 1) 0x80 0xBF)
    else
      let (chars, s) := lead b.toNat
      (REPLACEMENT :: chars, s)

def flush : Utf8State → List Char
  | start => []
  | more .. => [REPLACEMENT]

/-- The text of the bytes, from a state on. -/
def decode (s : Utf8State) : List UInt8 → List Char
  | [] => s.flush
  | b :: bs => (s.step b).1 ++ (s.step b).2.decode bs

def after (s : Utf8State) (bs : List UInt8) : Utf8State := bs.foldl (fun s b => (s.step b).2) s

theorem after_append (s : Utf8State) (as bs : List UInt8) : s.after (as ++ bs) = (s.after as).after bs :=
  List.foldl_append

/-- A decoding can be cut between two characters. -/
theorem decode_append {s : Utf8State} {as : List UInt8} (h : s.after as = start) (bs : List UInt8) :
    s.decode (as ++ bs) = s.decode as ++ start.decode bs := by
  induction as generalizing s with
  | nil =>
    obtain rfl : s = start := h
    rfl
  | cons a as ih =>
    simp only [List.cons_append, decode, List.append_assoc]
    rw [ih h]

/-- A decoding that stops within a character ends with the replacement of it. -/
theorem getLast?_decode {s : Utf8State} {bs : List UInt8} (h : s.after bs ≠ start) :
    (s.decode bs).getLast? = some REPLACEMENT := by
  induction bs generalizing s with
  | nil =>
    cases s with
    | start => exact absurd rfl h
    | more => rfl
  | cons b bs ih =>
    simp only [decode]
    rw [List.getLast?_append, ih h]
    rfl

theorem after_eq_start {s : Utf8State} {bs : List UInt8} {c : Char} (h : (s.decode bs).getLast? = some c)
    (hc : c ≠ REPLACEMENT) : s.after bs = start := by
  by_contra hne
  rw [getLast?_decode hne] at h
  exact hc (Option.some.inj h).symm

theorem toNat_ofNat_of_lt {n : ℕ} (h : n < 256) : (UInt8.ofNat n).toNat = n := by
  rw [UInt8.toNat_ofNat']
  exact Nat.mod_eq_of_lt h

theorem step_start {n : ℕ} (hn : n < 256) : start.step (UInt8.ofNat n) = lead n := by
  simp [step, toNat_ofNat_of_lt hn]

/-- A byte that continues a character. -/
theorem step_more {value need lo hi n : ℕ} (hn : n < 256) (hlo : lo ≤ n) (hhi : n ≤ hi) (hneed : need ≠ 1) :
    (more value need lo hi).step (UInt8.ofNat n) = ([], more (value * 64 + (n - 0x80)) (need - 1) 0x80 0xBF) := by
  simp [step, toNat_ofNat_of_lt hn, hlo, hhi, hneed]

theorem step_last {value lo hi n : ℕ} (hn : n < 256) (hlo : lo ≤ n) (hhi : n ≤ hi) :
    (more value 1 lo hi).step (UInt8.ofNat n) = ([Char.ofNat (value * 64 + (n - 0x80))], start) := by
  simp [step, toNat_ofNat_of_lt hn, hlo, hhi]

theorem lead_two {n : ℕ} (h : 0xC2 ≤ n) (h' : n ≤ 0xDF) : lead n = ([], more (n - 0xC0) 1 0x80 0xBF) := by
  unfold lead
  rw [if_neg (by omega), if_pos ⟨h, h'⟩]

theorem lead_three {n : ℕ} (h : 0xE0 ≤ n) (h' : n ≤ 0xEF) :
    lead n = ([], more (n - 0xE0) 2 (if n = 0xE0 then 0xA0 else 0x80) (if n = 0xED then 0x9F else 0xBF)) := by
  unfold lead
  rw [if_neg (by omega), if_neg (by omega), if_pos ⟨h, h'⟩]

theorem lead_four {n : ℕ} (h : 0xF0 ≤ n) (h' : n ≤ 0xF4) :
    lead n = ([], more (n - 0xF0) 3 (if n = 0xF0 then 0x90 else 0x80) (if n = 0xF4 then 0x8F else 0xBF)) := by
  unfold lead
  rw [if_neg (by omega), if_neg (by omega), if_neg (by omega), if_pos ⟨h, h'⟩]

/-- A character that is encoded is decoded to itself. -/
theorem decode_encodeChar (c : Char) (bs : List UInt8) :
    start.decode (String.utf8EncodeChar c ++ bs) = c :: start.decode bs := by
  have hvalid : c.val.toNat < 0xD800 ∨ (0xDFFF < c.val.toNat ∧ c.val.toNat < 0x110000) := c.valid
  have hchar : Char.ofNat c.val.toNat = c := Char.ofNat_toNat c
  generalize hv : c.val.toNat = v at hvalid hchar
  unfold String.utf8EncodeChar
  simp only [hv]
  split
  case isTrue h1 =>
    simp only [List.cons_append, List.nil_append, decode]
    rw [step_start (by omega), lead, if_pos (by omega), hchar]
    rfl
  case isFalse h1 =>
    split
    case isTrue h2 =>
      have hsum : (v / 64 % 32 + 0xc0 - 0xC0) * 64 + (v % 64 + 0x80 - 0x80) = v := by omega
      simp only [List.cons_append, List.nil_append, decode]
      rw [step_start (by omega), lead_two (by omega) (by omega)]
      simp only
      rw [step_last (by omega) (by omega) (by omega), hsum, hchar]
      rfl
    case isFalse h2 =>
      split
      case isTrue h3 =>
        have hsum : ((v / 4096 % 16 + 0xe0 - 0xE0) * 64 + (v / 64 % 64 + 0x80 - 0x80)) * 64 + (v % 64 + 0x80 - 0x80) = v := by
          omega
        simp only [List.cons_append, List.nil_append, decode]
        rw [step_start (by omega), lead_three (by omega) (by omega)]
        simp only
        rw [step_more (by omega) (by split <;> omega) (by split <;> omega) (by decide)]
        simp only
        rw [step_last (by omega) (by omega) (by omega), hsum, hchar]
        rfl
      case isFalse h3 =>
        have hsum : (((v / 262144 % 8 + 0xf0 - 0xF0) * 64 + (v / 4096 % 64 + 0x80 - 0x80)) * 64 +
            (v / 64 % 64 + 0x80 - 0x80)) * 64 + (v % 64 + 0x80 - 0x80) = v := by
          omega
        simp only [List.cons_append, List.nil_append, decode]
        rw [step_start (by omega), lead_four (by omega) (by omega)]
        simp only
        rw [step_more (by omega) (by split <;> omega) (by split <;> omega) (by decide)]
        simp only
        rw [step_more (by omega) (by omega) (by omega) (by decide)]
        simp only
        rw [step_last (by omega) (by omega) (by omega), hsum, hchar]
        rfl

end Utf8State

/-- The text of some bytes. -/
def decodeLossy (bs : List UInt8) : List Char := Utf8State.start.decode bs

/-- The encoding of a text decodes to the text. -/
theorem decodeLossy_encode (text : List Char) : decodeLossy (text.flatMap String.utf8EncodeChar) = text := by
  unfold decodeLossy
  induction text with
  | nil => rfl
  | cons c text ih => rw [List.flatMap_cons, Utf8State.decode_encodeChar, ih]

/-- Some bytes end between two characters. -/
def EndsClean (bs : List UInt8) : Prop := Utf8State.start.after bs = .start

theorem EndsClean.nil : EndsClean [] := rfl

theorem EndsClean.decodeLossy_append {as : List UInt8} (h : EndsClean as) (bs : List UInt8) :
    decodeLossy (as ++ bs) = decodeLossy as ++ decodeLossy bs :=
  Utf8State.decode_append h bs

theorem EndsClean.append_iff {as bs : List UInt8} (h : EndsClean as) : EndsClean (as ++ bs) ↔ EndsClean bs := by
  unfold EndsClean
  rw [Utf8State.after_append, h]

/-- The last character tells that a text can be cut at its end. -/
theorem EndsClean.of_getLast? {bs : List UInt8} {c : Char} (h : (decodeLossy bs).getLast? = some c)
    (hc : c ≠ Utf8State.REPLACEMENT) : EndsClean bs :=
  Utf8State.after_eq_start h hc

/-- `str::len`. -/
def byteLen (text : List Char) : ℕ := (text.map Char.utf8Size).sum

@[simp] theorem byteLen_append (as bs : List Char) : byteLen (as ++ bs) = byteLen as + byteLen bs := by
  simp [byteLen]

theorem byteLen_eq_zero {text : List Char} : byteLen text = 0 ↔ text = [] := by
  cases text with
  | nil => simp [byteLen]
  | cons c text =>
    have hpos := Char.utf8Size_pos c
    simp [byteLen]
    omega

/-- `str::split_at`; `none` is not on the boundary of a character. -/
def splitAtByte : List Char → ℕ → Option (List Char × List Char)
  | text, 0 => some ([], text)
  | [], _ + 1 => none
  | c :: text, n + 1 =>
    if c.utf8Size ≤ n + 1 then
      (splitAtByte text (n + 1 - c.utf8Size)).map fun parts => (c :: parts.1, parts.2)
    else none

theorem splitAtByte_append (as bs : List Char) : splitAtByte (as ++ bs) (byteLen as) = some (as, bs) := by
  induction as with
  | nil => cases bs <;> rfl
  | cons c as ih =>
    have hpos := Char.utf8Size_pos c
    have hlen : byteLen (c :: as) = c.utf8Size + byteLen as := by simp [byteLen]
    obtain ⟨n, hn⟩ : ∃ n, byteLen (c :: as) = n + 1 := ⟨byteLen (c :: as) - 1, by omega⟩
    rw [hn, List.cons_append, splitAtByte, if_pos (by omega)]
    have hrest : n + 1 - c.utf8Size = byteLen as := by omega
    rw [hrest, ih]
    rfl
