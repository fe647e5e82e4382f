import Causeway.Model.Step

/-!
# Status requests

`class_snapshot`: the parts of a snapshot are read under different locks, and the subscription generation is read again before the snapshot is returned.
-/

namespace Causeway

open Concurrent

/-- What one read of the published subscription tells. -/
structure SubscriptionView where
  generation : UInt64
  active : String
  availableNodes : List String
  availableSubscriptions : List SubscriptionSummary

def SubscriptionRuntime.view (runtime : SubscriptionRuntime) : SubscriptionView where
  generation := runtime.generation
  active := runtime.active
  availableNodes := runtime.nodes.map (·.name)
  availableSubscriptions := runtime.catalog.profileNames.map fun name =>
    ⟨name, if name = runtime.active then some runtime.nodes.length else none⟩

/-- What one read of the state tells. -/
structure StateView where
  cs : ClassState
  nodes : BTreeMap NodeStats
  classes : List ClassOverview

def StateFile.view (env : Env) (cls : String) (st : StateFile) : Option StateView :=
  (st.classes[cls]?).map fun cs =>
    { cs := cs
      nodes := st.nodes
      classes := env.cfg.classes.toList.map fun (name, class_) =>
        { name := name
          listen := class_.listen
          activeNode := (st.classes[name]?).bind (·.activeNode)
          generation := ((st.classes[name]?).map (·.generation)).getD 0
          selection := env.cfg.classSelectionSummary name } }

namespace Sup

/-- One attempt: nothing if the generation has changed in between. -/
def trySnapshot (env : Env) (cls : String) : Sup (Option (Option StatusSnapshot)) := do
  let txnBefore ← look (·.subscriptionTxnsInProgress)
  let subs ← look (·.subscriptions.view)
  match ← readState (StateFile.view env cls) with
  | none => return some none
  | some view =>
      if (← look (·.subscriptions.generation)) ≠ subs.generation then return none
      let txnAfter ← look (·.subscriptionTxnsInProgress)
      if (← look (·.subscriptions.generation)) ≠ subs.generation then return none
      let traffic ← look (·.traffic.nodes)
      let conns ← look (·.conns)
      return some (some {
        cls := cls
        activeNode := view.cs.activeNode
        socksPort := view.cs.socksPort
        httpPort := view.cs.httpPort
        generation := view.cs.generation
        nodes := view.nodes
        traffic := traffic
        activeConns := conns
        activeSubscription := some subs.active
        subscriptionGeneration := some subs.generation
        subscriptionTxnInProgress := some (txnBefore ≠ 0 || txnAfter ≠ 0)
        availableSubscriptions := subs.availableSubscriptions
        availableNodes := subs.availableNodes
        classes := view.classes })

/-- `class_snapshot`, with at most `retries` further attempts; nothing within them is no answer yet. -/
def classSnapshot (env : Env) (cls : String) : Nat → Sup (Option (Option StatusSnapshot))
  | 0 => trySnapshot env cls
  | retries + 1 => do
      match ← trySnapshot env cls with
      | none => classSnapshot env cls retries
      | answer => return answer

/-- The status reply; a snapshot that is still being retried is an empty reply. -/
def status (env : Env) (cls : String) (retries : Nat) : Sup Reply := do
  match ← classSnapshot env cls retries with
  | some (some snapshot) => return { ok := true, status := some snapshot }
  | some none => return .err ("unknown class " ++ cls.quote)
  | none => return { ok := true }

end Sup

end Causeway
