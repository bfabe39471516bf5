import Mathlib.Algebra.Group.Nat.Defs
import Mathlib.Logic.Function.Basic
import Mathlib.Data.Nat.Notation

/-! What the model takes from the source language: half-open ranges, the ways a
task can panic, the shared hash map of `crates/utils/src/shared_map.rs`, and
fixed-width arithmetic as a release build computes it (it wraps). -/

namespace Dllm

/-- `Range<u32>`; the source's `end` is `stop`. -/
structure Range where
  start : ℕ
  stop : ℕ
deriving DecidableEq, Repr

def Range.contains (r : Range) (l : ℕ) : Bool := r.start ≤ l && l < r.stop

@[simp] theorem Range.contains_iff (r : Range) (l : ℕ) :
    r.contains l = true ↔ r.start ≤ l ∧ l < r.stop := by
  simp [Range.contains]

/-- The layers of a range, as a loop over it meets them. -/
def Range.layers (r : Range) : List ℕ := List.range' r.start (r.stop - r.start)

theorem Range.mem_layers {r : Range} {l : ℕ} : l ∈ r.layers ↔ r.contains l = true := by
  rw [Range.contains_iff, Range.layers, List.mem_range'_1]
  omega

/-- The panics of the modelled code. -/
inductive Panic where
  | indexOutOfBounds
  | unwrapOnError
  | sliceLength
  | zeroChunkSize
  | assertFailed
deriving DecidableEq, Repr

/-- Addition on an unsigned integer of `w` bits. -/
def wrapAdd (w a b : ℕ) : ℕ := (a + b) % 2 ^ w

/-- Subtraction on an unsigned integer of `w` bits. -/
def wrapSub (w a b : ℕ) : ℕ := if b ≤ a then a - b else a + 2 ^ w - b

theorem wrapAdd_of_lt {w a b : ℕ} (h : a + b < 2 ^ w) : wrapAdd w a b = a + b :=
  Nat.mod_eq_of_lt h

theorem wrapSub_of_le {w a b : ℕ} (h : b ≤ a) : wrapSub w a b = a - b := if_pos h

/-- `SharedHashMap<K, V>`; only its pointwise content is observable through
`get_clone`, `insert` and `remove`. -/
def SharedHashMap (K V : Type) : Type := K → Option V

namespace SharedHashMap

variable {K V : Type} [DecidableEq K]

def new : SharedHashMap K V := fun _ => none

def getClone (m : SharedHashMap K V) (k : K) : Option V := m k

def insert (m : SharedHashMap K V) (k : K) (v : V) : SharedHashMap K V :=
  Function.update m k (some v)

def remove (m : SharedHashMap K V) (k : K) : SharedHashMap K V :=
  Function.update m k none

omit [DecidableEq K] in
@[ext] theorem ext {m m' : SharedHashMap K V} (h : ∀ k, m.getClone k = m'.getClone k) : m = m' := funext h

@[simp] theorem getClone_insert (m : SharedHashMap K V) (k k' : K) (v : V) :
    (m.insert k v).getClone k' = if k' = k then some v else m.getClone k' :=
  Function.update_apply ..

@[simp] theorem getClone_remove (m : SharedHashMap K V) (k k' : K) :
    (m.remove k).getClone k' = if k' = k then none else m.getClone k' :=
  Function.update_apply ..

end SharedHashMap
end Dllm
