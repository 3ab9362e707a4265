import Klite.Store.Rules
import Klite.Xds.Builder

/-!
# One replica's xDS state (internal/xds/server.go, cmd/klited/main.go)

The engine calls back for every node whose snapshot changed, and klited puts the
rebuilt xDS snapshot into its cache under the engine's revision. A snapshot that
`BuildSnapshot` rejects leaves the previous one serving.
-/

namespace Klite
open Lib

-- A cached snapshot, and the `NetDesired` it was built from.
structure Cached where
  net : NetDesired
  snapshot : XdsSnapshot
  deriving DecidableEq

abbrev XdsCache := Std.ExtTreeMap String Cached

def setNodeSnapshot (cache : XdsCache) (node version : String) (net : NetDesired) : Except String XdsCache :=
  (buildSnapshot node version net).map fun snap => cache.insert node ⟨net, snap⟩

structure Replica where
  engine : Engine := {}
  cache : XdsCache := ∅

-- The callback of main.go:271. A rejected snapshot is logged only.
def onChange (e : Engine) (cache : XdsCache) (node : String) : XdsCache :=
  let snap := (e.snapshot node).getD {}
  match setNodeSnapshot cache node (toString snap.revision) snap.net with
  | .ok cache' => cache'
  | .error _ => cache

-- main.go:278
def onRemove (cache : XdsCache) (node : String) : XdsCache := cache.erase node

-- A failed list skips the pass.
def Replica.recompute (r : Replica) (listed : Except StoreErr Inputs) : Replica :=
  match listed with
  | .error _ => r
  | .ok inp =>
    let built := buildAll inp
    let e := r.engine.store built
    { engine := e
      cache := (r.engine.changed built).foldl (onChange e) ((r.engine.removed built).foldl onRemove r.cache) }

def inputsAt (s : Store) : Inputs :=
  inputsOf (s.listing .service) (s.listing .inst) (s.listing .node) (s.listing .networkPolicy)
    (s.listing .vipAllocation) (s.listing .ingressAllocation)

def Replica.after (states : List Store) : Replica :=
  states.foldl (fun r s => r.recompute (.ok (inputsAt s))) {}

/-- What the passes list when nothing is written meanwhile. -/
theorem listInputs_reads (w : World) :
    Solo (M := klited) (fun c => c.fault = .none) (fun r w' => r = .ok (inputsAt w.store) ∧ w' = w) listInputs w := by
  unfold listInputs
  refine solo_list ?_
  refine solo_list ?_
  refine solo_list ?_
  refine solo_list ?_
  refine solo_list ?_
  refine solo_list ?_
  exact ⟨rfl, rfl⟩

end Klite
