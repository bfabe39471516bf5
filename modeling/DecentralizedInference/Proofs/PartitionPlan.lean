import DecentralizedInference.Sanity.ModelChain

/-! The containers that a successful START leaves along its chain cut the layers from its
first one to the end of the model into consecutive pieces, whatever the route tables of
the nodes say. -/

namespace Dllm

/-- The ranges follow each other without a gap from `f` to `l`, and none is empty. -/
def Tiles (f l : ℕ) : List Range → Prop
  | [] => f = l
  | r :: rs => r.start = f ∧ r.start < r.stop ∧ Tiles r.stop l rs

variable {Node S W : Type} {N : ℕ}

/-- The local range that is stored for a hop. -/
def Hop.localRange (h : Hop Node) : Option Range := h.container.bind fun c => c.localRange

/-- The request that a visit has sent to the next node. -/
def Visit.sent (v : Visit Node S W StartReq StartRes) : Option (Downstream Node StartReq) :=
  match v.progress with
  | .reply _ => none
  | .proceed _ _ next => next

theorem Plan.tiles {ranges : ℕ → Node → Range} {k : ℕ} {n : Node} {s : UInt64} {f : ℕ}
    {hs : List (Hop Node)} (h : Plan ranges N k n s f hs) : Tiles f N (hs.filterMap Hop.localRange) := by
  induction h with
  | last hstart hf hstop => exact ⟨rfl, hf, rfl⟩
  | handOver hstart hf hstop hrest ih => exact ⟨rfl, hf, ih⟩
  | relay hnot hf hrest ih => exact ih

theorem Plan.fromLayer_lt {ranges : ℕ → Node → Range} {k : ℕ} {n : Node} {s : UInt64} {f : ℕ}
    {hs : List (Hop Node)} (h : Plan ranges N k n s f hs) : f < N := by
  cases h with
  | last _ hf _ => exact hf
  | handOver _ hf hstop _ => exact hf.trans hstop
  | relay _ hf _ => exact hf

namespace World

variable [DecidableEq Node] {w : World Node S W N}

theorem start_in_bounds {fuel hop : ℕ} {n : Node} {req : StartReq} {net net' : Net Node S W}
    {res : StartRes} {vs : List (Visit Node S W StartReq StartRes)}
    (h : w.start fuel hop n req net = (.returned res, net', vs)) (hs : res.success = true) :
    ∀ v ∈ vs, v.req.fromLayer < N ∧ ∀ d ∈ v.sent, d.req.fromLayer < N := by
  induction fuel generalizing hop n req net net' res vs with
  | zero => cases h
  | succ fuel ih =>
    have hf := (start_plan h hs).fromLayer_lt
    obtain ⟨fuel', md, route, v, u, hfuel, -, rfl, rfl, hprog, -, -, hcase⟩ := start_success h hs
    cases hfuel
    rcases hcase with ⟨hnone, rfl, -⟩ | ⟨r, res', net₁, vs', hsome, hnext, hs', rfl, -⟩
    · intro v' hv'
      rw [List.mem_singleton.mp hv']
      refine ⟨hf, ?_⟩
      intro d hd
      simp [Visit.sent, hprog, hnone] at hd
    · intro v' hv'
      rcases List.mem_cons.mp hv' with rfl | hv'
      · refine ⟨hf, ?_⟩
        intro d hd
        simp only [Visit.sent, hprog, hsome, Option.map_some, Option.mem_some_iff] at hd
        rw [← hd]
        exact (start_plan hnext hs').fromLayer_lt
      · exact ih hnext hs' v' hv'

/-- A successful start is a partition plan: the local ranges stored along the chain, in
the order of the hops, are non-empty, consecutive, and together the layers from
`from_layer` to the end of the model; and no request on the way is about a layer the
model does not have. -/
theorem start_partitions {fuel : ℕ} {n : Node} {req : StartReq} {net net' : Net Node S W}
    {res : StartRes} {vs : List (Visit Node S W StartReq StartRes)}
    (h : w.start fuel 0 n req net = (.returned res, net', vs)) (hs : res.success = true) :
    Tiles req.fromLayer N ((vs.map Visit.hop).filterMap Hop.localRange) ∧
      ∀ v ∈ vs, v.req.fromLayer < N ∧ ∀ d ∈ v.sent, d.req.fromLayer < N :=
  ⟨(start_plan h hs).tiles, start_in_bounds h hs⟩

end World

/-- Two nodes for three layers: the first has layers 0 and 1 and knows the second for what
is left, the second has the layers of `r`. -/
def pairWorld (r : Range) : World Bool Unit LayerCaches 3 where
  usage _ := passthroughUsageService Unit
  worker _ := blockSessions
  router _ n :=
    if n then .new r
    else ⟨fun l => ⟨∅, if l.val = 2 then some (true, ⟨50, 0⟩) else none⟩, ⟨0, 2⟩⟩
  rand hop := .ofNat (hop + 100)
  fate _ := .answered

def emptyNet : Net Bool Unit LayerCaches := fun _ => ⟨.new, .new, ()⟩

def rootStart : StartReq := ⟨7, 7, 0, [], 0, 10⟩

theorem start_partitions_pair : ∃ net' vs,
    (pairWorld ⟨1, 3⟩).start 2 0 false rootStart emptyNet = (.returned ⟨true, []⟩, net', vs) ∧
      Tiles 0 3 ((vs.map Visit.hop).filterMap Hop.localRange) := by
  have h : (pairWorld ⟨1, 3⟩).start 2 0 false rootStart emptyNet = (.returned ⟨true, []⟩, _, _) := rfl
  exact ⟨_, _, h, (World.start_partitions h rfl).1⟩

end Dllm
