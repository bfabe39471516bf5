import DecentralizedInference.Lib.Run
import DecentralizedInference.Spec.KvCache

/-! What the calls of a chat leave in the caches of its layers. If every call comes with the
position that the tokens before it end at, all caches hold the positions up to there, each once
and in order, and no position wraps around, since the tables of the layers end before that. -/

namespace Dllm

/-- The tokens that have been fed to the layers. -/
def fed (calls : List FedCall) : List UInt32 := calls.flatMap FedCall.ids

@[simp] theorem fed_nil : fed [] = [] := rfl

@[simp] theorem fed_append (calls calls' : List FedCall) : fed (calls ++ calls') = fed calls ++ fed calls' :=
  List.flatMap_append

@[simp] theorem fed_singleton (c : FedCall) : fed [c] = c.ids := List.append_nil _

/-- A call with the position that the tokens before it end at, to caches that hold the positions of
those. -/
structure FedCall.Follows (layers : ℕ) (before : List FedCall) (c : FedCall) : Prop where
  indexPos : c.indexPos.toNat = (fed before).length
  seqLen : c.seqLen.toNat = c.ids.length
  caches : c.caches = List.replicate layers (List.range (fed before).length)

def Aligned (layers : ℕ) (calls : List FedCall) : Prop :=
  ∀ before c after, calls = before ++ c :: after → c.Follows layers before

theorem Aligned.nil {layers : ℕ} : Aligned layers [] := fun before c after h => by simp at h

theorem Aligned.snoc {layers : ℕ} {calls : List FedCall} {c : FedCall} (h : Aligned layers calls)
    (hc : c.Follows layers calls) : Aligned layers (calls ++ [c]) :=
  (List.forall_split_snoc_iff (P := fun before (c : FedCall) => c.Follows layers before)).mpr ⟨h, hc⟩

theorem mapM_replicate_of_some {α β : Type} {f : α → Option β} {a : α} {b : β} (h : f a = some b) (n : ℕ) :
    (List.replicate n a).mapM f = some (List.replicate n b) := by
  induction n with
  | zero => rfl
  | succ n ih => simp [List.replicate_succ, h, ih]

theorem mapM_replicate_of_none {α β : Type} {f : α → Option β} {a : α} (h : f a = none) {n : ℕ} (hn : 0 < n) :
    (List.replicate n a).mapM f = none := by
  obtain ⟨n, rfl⟩ := Nat.exists_eq_succ_of_ne_zero (Nat.ne_of_gt hn)
  simp [List.replicate_succ, h]

/-- Caches that hold the first positions get those of the tokens that follow. -/
theorem forwardAttn_range {maxSeqLen : UInt32} {n seqLen : ℕ} (h : n + seqLen ≤ maxSeqLen.toNat) :
    forwardAttn maxSeqLen seqLen n (List.range n) = some (List.range (n + seqLen)) := by
  unfold forwardAttn
  rw [if_pos h, List.range_eq_range', List.range_eq_range', ← List.range'_append_1, Nat.zero_add]

/-- A chat between two calls of its layers. -/
structure CachesUpTo (cfg : LayersConfig) {σ : Type} (s : CachedState σ) : Prop where
  aligned : Aligned cfg.layers s.calls
  caches : s.caches = List.replicate cfg.layers (List.range (fed s.calls).length)
  le : (fed s.calls).length ≤ cfg.maxSeqLen.toNat

/-- The layers are given tokens at the position that they are fed at. The call fails where their
tables end, and otherwise the tokens are in all caches. -/
theorem forwardAttn_mapM {cfg : LayersConfig} {σ : Type} {s : CachedState σ} (hs : CachesUpTo cfg s)
    (input : List UInt32) :
    s.caches.mapM (forwardAttn cfg.maxSeqLen input.length (fed s.calls).length) =
      if (fed s.calls).length + input.length ≤ cfg.maxSeqLen.toNat then
        some (List.replicate cfg.layers (List.range ((fed s.calls).length + input.length)))
      else none := by
  rw [hs.caches]
  split
  case isTrue h => exact mapM_replicate_of_some (forwardAttn_range h) cfg.layers
  case isFalse h =>
    refine mapM_replicate_of_none ?_ cfg.layers_pos
    unfold forwardAttn
    rw [if_neg h]

namespace ChatParts

variable {σ E : Type} (m : ChatParts σ E) {cfg : LayersConfig} {s : ChatState (CachedState σ)}

/-- An inference leaves the variables of the loops alone. -/
theorem infer_vars {σ E : Type} (m : ChatParts σ E) (input : List UInt32) (step indexPos : UInt32)
    (penalized : List UInt32) (s : ChatState σ) :
    (m.infer input step indexPos penalized s).2.tokens = s.tokens ∧
      (m.infer input step indexPos penalized s).2.nextToken = s.nextToken ∧
      (m.infer input step indexPos penalized s).2.indexPos = s.indexPos := by
  unfold infer
  rcases m.pre input s.parts with ⟨_ | x, p⟩
  · exact ⟨rfl, rfl, rfl⟩
  · rcases hforward : m.forward step x indexPos p with ⟨_ | y, q⟩ <;> simp [hforward]

/-- An input at its position. It is fed to the layers if it gets there, and if a token comes out, it is
in all caches. -/
theorem withCaches_infer {input : List UInt32} (step : UInt32) {indexPos : UInt32} (penalized : List UInt32)
    (hs : CachesUpTo cfg s.parts) (hpos : indexPos.toNat = (fed s.parts.calls).length)
    (hlen : input.length < 2 ^ 32) :
    let result := (m.withCaches cfg).infer input step indexPos penalized s
    Aligned cfg.layers result.2.parts.calls ∧ fed result.2.parts.calls <+: fed s.parts.calls ++ input ∧
      (result.1 ≠ none → CachesUpTo cfg result.2.parts ∧ fed result.2.parts.calls = fed s.parts.calls ++ input) := by
  have hcall : Aligned cfg.layers (s.parts.calls ++
      [{ ids := input, seqLen := .ofNat input.length, indexPos, caches := s.parts.caches }]) :=
    hs.aligned.snoc ⟨hpos, UInt32.toNat_ofNat_of_lt' hlen, hs.caches⟩
  have hattn := forwardAttn_mapM hs input
  rw [← hpos] at hattn
  unfold infer
  rcases hpre : m.pre input s.parts.parts with ⟨_ | x, p⟩
  · simp only [withCaches, hpre, Option.map_none]
    exact ⟨hs.aligned, List.prefix_append _ _, fun h => absurd rfl h⟩
  · by_cases hfits : indexPos.toNat + input.length ≤ cfg.maxSeqLen.toNat
    · rw [if_pos hfits] at hattn
      rcases hforward : m.forward step x indexPos p with ⟨_ | y, q⟩
      · simp [withCaches, hpre, hattn, hforward, hcall]
      · simp only [withCaches, hpre, hattn, hforward, Option.map_some]
        refine ⟨hcall, by simp, fun _ => ⟨⟨hcall, ?_, ?_⟩, by simp⟩⟩
        · simp [hpos]
        · simp [← hpos, hfits]
    · rw [if_neg hfits] at hattn
      simp [withCaches, hpre, hattn, hcall]

end ChatParts
end Dllm
