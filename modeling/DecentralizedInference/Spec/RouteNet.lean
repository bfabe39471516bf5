import DecentralizedInference.Lib.Run
import DecentralizedInference.Spec.RouteTable

/-! Networks of route tables, as `WorkerCommunication::recv` of
`crates/worker/src/communication.rs` drives them: every tick a node broadcasts
its `create_sync` and expires old entries, a received sync goes to `apply_sync`,
and a lost peer to `on_disconnected`. `RouteNet` lets syncs arrive in any order,
late, repeatedly or never; `LinkNet` keeps them in order on each link and lets
every link have its own round-trip time. -/

namespace Dllm

variable {Node : Type} {N : ℕ}

/-- The calls that change a route table. -/
inductive TableEvent (Node : Type) where
  | applySync (src : Node) (rtt : ℕ) (sync : RouteSync)
  | onTick (nowMs : ℕ)
  | onDisconnected (node : Node)

/-- A call together with the iteration orders its `update_best` calls meet. -/
abbrev TableCall (Node : Type) := TableEvent Node × (ℕ → RemoteOrder Node)

/-- The start of a hop that `ModelService::start` makes from layer `l` of a node:
the chosen remote and the layer its START carries. -/
def startHop (tables : Node → RouteTable Node N) (x : Node × ℕ) : Option (Node × ℕ) :=
  match (tables x.1).selectNext x.2 with
  | .ok (some p) => p.remote.map fun r => (r.dest, r.layers.start)
  | _ => none

/-- Where the START forwarding stands after `k` hops, if it gets that far. -/
def startWalk (tables : Node → RouteTable Node N) : ℕ → Node × ℕ → Option (Node × ℕ)
  | 0, x => some x
  | k + 1, x => (startHop tables x).bind (startWalk tables k)

variable [DecidableEq Node]

namespace RouteTable

def call (t : RouteTable Node N) : TableCall Node → RouteTable Node N
  | (.applySync src rtt sync, ord) => t.applySync ord src rtt sync
  | (.onTick nowMs, ord) => t.onTick ord nowMs
  | (.onDisconnected node, ord) => t.onDisconnected ord node

def exec (t : RouteTable Node N) (calls : List (TableCall Node)) : RouteTable Node N :=
  calls.foldl call t

/-- No addition that the call performs on this table overflows. -/
def Fits (t : RouteTable Node N) : TableEvent Node → Prop
  | .applySync _ rtt sync =>
    ∀ (l : Fin N) (i : LayerRemoteInfo), sync.layers[l.val]? = some (some i) → i.cost + rtt < 2 ^ 32
  | .onTick _ => ∀ (l : Fin N) (n : Node) (i : LayerRemoteInfo),
    (t.remoteLayers l).remotes.lookup n = some i → i.lastUpdated + ROUTE_TIMEOUT_MS < 2 ^ 64
  | .onDisconnected _ => True

/-- No addition overflows along the calls. -/
def NoOverflow (t : RouteTable Node N) : List (TableCall Node) → Prop
  | [] => True
  | c :: calls => t.Fits c.1 ∧ (t.call c).NoOverflow calls

end RouteTable

/-- `FAKE_RTT` in `WorkerCommunication::recv`. -/
def FAKE_RTT : ℕ := 50

/-- Observer data: which `create_sync` a piece of route information comes from,
and how many `apply_sync` calls it has gone through since. -/
structure Trail (Node : Type) where
  origin : Node
  createdMs : ℕ
  hops : ℕ

def Trail.hop (tr : Trail Node) : Trail Node := { tr with hops := tr.hops + 1 }

/-- A broadcast sync, with the trail of each layer it advertises. -/
structure SyncMsg (Node : Type) where
  src : Node
  sync : RouteSync
  trail : ℕ → Trail Node

/-- The tables of all nodes and every sync broadcast so far. `trail n l m` follows
the entry of `m` in layer `l` of `n`'s table. -/
structure RouteNet (Node : Type) (N : ℕ) where
  tables : Node → RouteTable Node N
  sent : List (SyncMsg Node)
  trail : Node → ℕ → Node → Trail Node

inductive NetEvent (Node : Type) where
  | broadcast (m : Node) (nowMs : ℕ)
  | deliver (n : Node) (i : ℕ)
  | tick (n : Node) (nowMs : ℕ)
  | disconnected (n m : Node)

namespace RouteNet

def init (ranges : Node → Range) : RouteNet Node N :=
  ⟨fun n => .new (ranges n), [], fun n _ _ => ⟨n, 0, 0⟩⟩

def call (σ : RouteNet Node N) (n : Node) (c : TableCall Node) : RouteNet Node N :=
  { σ with tables := Function.update σ.tables n ((σ.tables n).call c) }

/-- The trail of what `create_sync(nowMs)` of `m` advertises for layer `l`: new
where `m` finishes the model itself, else that of the entry it would use. -/
def advertisedTrail (σ : RouteNet Node N) (m : Node) (nowMs l : ℕ) : Trail Node :=
  match (σ.tables m).selectNext l with
  | .ok (some ⟨_, some r⟩) => σ.trail m r.layers.start r.dest
  | _ => ⟨m, nowMs, 0⟩

/-- A received sync replaces the trails of all entries of its sender. -/
def received (σ : RouteNet Node N) (n : Node) (msg : SyncMsg Node) : Node → ℕ → Node → Trail Node :=
  fun n' l m => if n' = n ∧ m = msg.src then (msg.trail l).hop else σ.trail n' l m

inductive Step : RouteNet Node N → NetEvent Node → RouteNet Node N → Prop
  | broadcast (σ : RouteNet Node N) (m : Node) (nowMs : ℕ) (s : RouteSync)
      (hs : (σ.tables m).createSync nowMs = .ok s) :
      Step σ (.broadcast m nowMs)
        { σ with sent := σ.sent ++ [⟨m, s, σ.advertisedTrail m nowMs⟩] }
  | deliver (σ : RouteNet Node N) (n : Node) (i : ℕ) (msg : SyncMsg Node)
      (ord : ℕ → RemoteOrder Node) (hmsg : σ.sent[i]? = some msg)
      (hfit : (σ.tables n).Fits (.applySync msg.src FAKE_RTT msg.sync)) :
      Step σ (.deliver n i)
        { σ.call n (.applySync msg.src FAKE_RTT msg.sync, ord) with trail := σ.received n msg }
  | tick (σ : RouteNet Node N) (n : Node) (nowMs : ℕ) (ord : ℕ → RemoteOrder Node)
      (hfit : (σ.tables n).Fits (.onTick nowMs)) :
      Step σ (.tick n nowMs) (σ.call n (.onTick nowMs, ord))
  | disconnected (σ : RouteNet Node N) (n m : Node) (ord : ℕ → RemoteOrder Node) :
      Step σ (.disconnected n m) (σ.call n (.onDisconnected m, ord))

end RouteNet

/-- The fixed part of a network with a link structure. -/
structure Topology (Node : Type) where
  ranges : Node → Range
  adj : Node → Node → Prop
  rtt : Node → Node → ℕ
  adj_symm : ∀ m n, adj m n → adj n m
  rtt_symm : ∀ m n, rtt m n = rtt n m

/-- Tables and links: `queue m n` holds the syncs on their way from `m` to `n`,
and `delivered m n` counts those that arrived. -/
structure LinkNet (Node : Type) (N : ℕ) where
  tables : Node → RouteTable Node N
  queue : Node → Node → List RouteSync
  delivered : Node → Node → ℕ

inductive LinkEvent (Node : Type) where
  | send (m n : Node) (nowMs : ℕ)
  | deliver (m n : Node)

namespace LinkNet

def init (ranges : Node → Range) : LinkNet Node N :=
  ⟨fun n => .new (ranges n), fun _ _ => [], fun _ _ => 0⟩

/-- Change what belongs to one directed link. -/
def setLink {α : Type} (f : Node → Node → α) (m n : Node) (a : α) : Node → Node → α :=
  fun m' n' => if m' = m ∧ n' = n then a else f m' n'

inductive Step (T : Topology Node) : LinkNet Node N → LinkEvent Node → LinkNet Node N → Prop
  | send (σ : LinkNet Node N) (m n : Node) (nowMs : ℕ) (s : RouteSync) (hadj : T.adj m n)
      (hs : (σ.tables m).createSync nowMs = .ok s) :
      Step T σ (.send m n nowMs) { σ with queue := setLink σ.queue m n (σ.queue m n ++ [s]) }
  | deliver (σ : LinkNet Node N) (m n : Node) (s : RouteSync) (rest : List RouteSync)
      (ord : ℕ → RemoteOrder Node) (hadj : T.adj m n) (hq : σ.queue m n = s :: rest)
      (hfit : (σ.tables n).Fits (.applySync m (T.rtt m n) s)) :
      Step T σ (.deliver m n)
        { tables := Function.update σ.tables n
            ((σ.tables n).call (.applySync m (T.rtt m n) s, ord))
          queue := setLink σ.queue m n rest
          delivered := setLink σ.delivered m n (σ.delivered m n + 1) }

/-- Between the two states a sync created in between went over every link. -/
def RoundDone (T : Topology Node) (σ σ' : LinkNet Node N) : Prop :=
  ∀ m n, T.adj m n → σ.delivered m n + (σ.queue m n).length < σ'.delivered m n

/-- States of a run from fresh tables that contains `k` rounds one after another. -/
inductive AfterRounds (T : Topology Node) : ℕ → LinkNet Node N → Prop
  | start {es : List (LinkEvent Node)} {σ : LinkNet Node N}
      (hrun : Run (Step T) (init T.ranges) es σ) : AfterRounds T 0 σ
  | round {k : ℕ} {σ σ' : LinkNet Node N} {es : List (LinkEvent Node)} (h : AfterRounds T k σ)
      (hrun : Run (Step T) σ es σ') (hround : RoundDone T σ σ') : AfterRounds T (k + 1) σ'

end LinkNet
end Dllm
