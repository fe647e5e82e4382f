import Causeway.Model.Basic

/-!
# Node scoring and selection

`score.rs`: the rolling statistics of one node, the ranking, and the hysteresis decision.
-/

namespace Causeway

structure NodeStats where
  successEma : ℚ
  rttEmaMs : Option ℚ
  recentRttsMs : List ℚ
  consecutiveHealthFailures : Nat
  /-- A `u64` of the source, which no number of probes fills. -/
  probeCount : Nat
  lastProbeUnix : Option Int
deriving DecidableEq

instance : Inhabited NodeStats where
  default :=
    { successEma := 0, rttEmaMs := none, recentRttsMs := [], consecutiveHealthFailures := 0,
      probeCount := 0, lastProbeUnix := none }

def rttHistory : Nat := 20

def successTieEps : ℚ := 1 / 10000

def successCmp (a b : ℚ) : Ordering := if |a - b| ≤ successTieEps then .eq else totalCmp a b

namespace NodeStats

/-- The first sample sets the success average directly; later samples blend in by `alpha`. -/
def recordProbe (stats : NodeStats) (rtt : Option ℚ) (alpha : ℚ) (now : Int) : NodeStats :=
  let sample : ℚ := if rtt.isSome then 1 else 0
  let success := if stats.probeCount = 0 then sample
    else alpha * sample + (1 - alpha) * stats.successEma
  let blended :=
    match rtt with
    | none => { stats with successEma := success }
    | some ms =>
        let recent := stats.recentRttsMs ++ [ms]
        { stats with
          successEma := success
          rttEmaMs := some (match stats.rttEmaMs with
            | none => ms
            | some prev => alpha * ms + (1 - alpha) * prev)
          recentRttsMs := if recent.length > rttHistory then recent.drop 1 else recent }
  { blended with probeCount := blended.probeCount + 1, lastProbeUnix := some now }

def isProbed (stats : NodeStats) : Bool := stats.probeCount > 0

@[simp] theorem recordProbe_probeCount (stats : NodeStats) (rtt : Option ℚ) (alpha : ℚ) (now : Int) :
    (stats.recordProbe rtt alpha now).probeCount = stats.probeCount + 1 := by
  cases rtt <;> rfl

end NodeStats

/-- Success rate first, smaller latency second; a node that never succeeded ranks below one that did. -/
def scoreCmp (a b : NodeStats) : Ordering :=
  match successCmp a.successEma b.successEma with
  | .eq =>
      match a.rttEmaMs, b.rttEmaMs with
      | some x, some y => totalCmp y x
      | some _, none => .gt
      | none, some _ => .lt
      | none, none => .eq
  | order => order

/-- Does the challenger beat the incumbent by a clear margin? -/
def challengerWins (challenger incumbent : NodeStats) (hysteresis : ℚ) : Bool :=
  if !challenger.isProbed then false
  else if !incumbent.isProbed then true
  else
    let margin := hysteresis * max incumbent.successEma (1 / 20)
    let ds := challenger.successEma - incumbent.successEma
    if |ds| > margin then ds > 0
    else
      match challenger.rttEmaMs, incumbent.rttEmaMs with
      | some c, some i => c * (1 + hysteresis) < i
      | some _, none => true
      | _, _ => false

end Causeway
