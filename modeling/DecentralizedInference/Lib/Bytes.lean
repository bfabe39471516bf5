import Mathlib.Data.List.Basic
import Mathlib.Data.Nat.Notation
import Mathlib.Algebra.Order.Ring.Nat

/-! Little-endian integers and lists in byte strings, and cutting a list into chunks. -/

universe u

/-- The `k` low bytes of `n`, least significant first. -/
def leBytes : ℕ → ℕ → List UInt8
  | 0, _ => []
  | k + 1, n => UInt8.ofNat n :: leBytes k (n / 256)

/-- Read `k` bytes as an integer; the second component is what follows them. -/
def readLE : ℕ → List UInt8 → Option (ℕ × List UInt8)
  | 0, bs => some (0, bs)
  | _ + 1, [] => none
  | k + 1, b :: bs => (readLE k bs).map fun r => (b.toNat + 256 * r.1, r.2)

@[simp] theorem leBytes_length (k n : ℕ) : (leBytes k n).length = k := by
  induction k generalizing n with
  | zero => rfl
  | succ k ih => simp [leBytes, ih]

@[simp] theorem readLE_leBytes (k n : ℕ) (rest : List UInt8) :
    readLE k (leBytes k n ++ rest) = some (n % 256 ^ k, rest) := by
  induction k generalizing n with
  | zero => simp [leBytes, readLE, Nat.mod_one]
  | succ k ih =>
    have hb : (UInt8.ofNat n).toNat = n % 256 := by simp
    simp only [leBytes, readLE, List.cons_append, ih, Option.map_some, hb]
    rw [Nat.pow_succ, Nat.mul_comm (256 ^ k), Nat.mod_mul]

/-- A list with a mark before each element and another one behind the last. -/
def marked {α : Type u} (enc : α → List UInt8) : List α → List UInt8
  | [] => [0]
  | a :: as => 1 :: (enc a ++ marked enc as)

/-- Read a marked list of less than `k` elements. -/
def readMarked {α : Type u} (dec : List UInt8 → Option (α × List UInt8)) :
    ℕ → List UInt8 → Option (List α × List UInt8)
  | 0, _ => none
  | _ + 1, [] => none
  | k + 1, b :: bs =>
    if b = 0 then some ([], bs)
    else (dec bs).bind fun r => (readMarked dec k r.2).map fun rs => (r.1 :: rs.1, rs.2)

theorem readMarked_marked {α : Type u} {enc : α → List UInt8} {dec : List UInt8 → Option (α × List UInt8)}
    (hdec : ∀ a rest, dec (enc a ++ rest) = some (a, rest)) (as : List α) (rest : List UInt8) (k : ℕ)
    (hk : as.length < k) : readMarked dec k (marked enc as ++ rest) = some (as, rest) := by
  induction as generalizing k with
  | nil =>
    obtain ⟨k, rfl⟩ := Nat.exists_eq_add_of_lt hk
    rfl
  | cons a as ih =>
    obtain ⟨k, rfl⟩ := Nat.exists_eq_add_of_lt hk
    have hlt : as.length < as.length + 1 + k := by omega
    have hne : (1 : UInt8) ≠ 0 := by decide
    simp only [List.length_cons, marked, List.cons_append, List.append_assoc, readMarked, if_neg hne, hdec,
      Option.bind_some, ih _ hlt, Option.map_some]

theorem length_lt_marked {α : Type u} (enc : α → List UInt8) (as : List α) : as.length < (marked enc as).length := by
  induction as with
  | nil => simp [marked]
  | cons a as ih =>
    simp only [marked, List.length_cons, List.length_append]
    omega

namespace List

variable {α : Type u}

/-- The pieces of length `n` of a list, the last one possibly shorter. -/
def chunks (n : ℕ) (xs : List α) : List (List α) :=
  (List.range ((xs.length + n - 1) / n)).map fun i => (xs.drop (i * n)).take n

theorem flatten_map_range_chunks (n k : ℕ) (xs : List α) :
    ((List.range k).map fun i => (xs.drop (i * n)).take n).flatten = xs.take (k * n) := by
  induction k with
  | zero => simp
  | succ k ih =>
    rw [List.range_succ, List.map_append, List.flatten_append, ih, Nat.succ_mul, List.take_add]
    simp

theorem chunks_flatten {n : ℕ} (hn : 0 < n) (xs : List α) : (xs.chunks n).flatten = xs := by
  rw [chunks, flatten_map_range_chunks]
  apply List.take_of_length_le
  have h := Nat.div_add_mod (xs.length + n - 1) n
  have hlt := Nat.mod_lt (xs.length + n - 1) hn
  rw [Nat.mul_comm]
  omega

theorem length_of_mem_chunks {n : ℕ} {xs c : List α} (h : c ∈ xs.chunks n) : c.length ≤ n := by
  obtain ⟨i, -, rfl⟩ := List.mem_map.mp h
  exact List.length_take_le _ _

/-- A list longer than one piece has at least two. -/
theorem two_le_length_chunks {n : ℕ} (hn : 0 < n) {xs : List α} (h : n < xs.length) :
    2 ≤ (xs.chunks n).length := by
  rw [chunks, List.length_map, List.length_range, Nat.le_div_iff_mul_le hn]
  omega

theorem length_chunks_le {n k : ℕ} (hn : 0 < n) {xs : List α} (h : xs.length ≤ k * n) :
    (xs.chunks n).length ≤ k := by
  rw [chunks, List.length_map, List.length_range, ← Nat.lt_succ_iff, Nat.div_lt_iff_lt_mul hn,
    Nat.succ_mul]
  omega

end List
