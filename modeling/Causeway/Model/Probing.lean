import Causeway.Model.Switching

/-!
# Probing

On-demand probe rounds, site probes and site switches. A round spawns one job per node; each job takes the reconfiguration read gate for its own test only.
-/

namespace Causeway

open Concurrent

def probeNowConcurrency : Nat := 8

/-- `classify_status` of a site's answer. -/
def classifyStatus (code : Nat) : SiteStatus :=
  if 200 ≤ code && code < 400 then .ok
  else if code = 401 || code = 403 || code = 429 || code = 451 then .blocked
  else .unknown

namespace Sup

/-! ### Rounds of jobs -/

def openRound (permits : Nat) : Sup Nat :=
  act fun _ w =>
    (w.nextRequest, { w with
      nextRequest := w.nextRequest + 1
      permits := Function.update w.permits w.nextRequest permits })

def spawn (jobs : List Job) : Sup Unit := modify fun w => { w with jobs := w.jobs ++ jobs }

def acquirePermit (request : Nat) : Sup Unit :=
  .atomic fun _ w =>
    if 0 < w.permits request then
      some ((), { w with permits := Function.update w.permits request (w.permits request - 1) })
    else none

/-- A permit for a probe; the answer is whether the task panics once it has it. -/
def enterProbe (request : Nat) : Sup Bool :=
  .atomic fun o w =>
    if 0 < w.permits request then
      some (o.panicked, { w with permits := Function.update w.permits request (w.permits request - 1) })
    else none

/-- A job's last step: its result is there and its permit is free again. -/
def finishJob (request index : Nat) (result : Option ProbeResult) : Sup Unit :=
  modify fun w => { w with
    finished := w.finished ++ [(request, index, result)]
    permits := Function.update w.permits request (w.permits request + 1) }

/-- `join_next` of one round: any of its finished jobs. -/
def joinNext (request : Nat) : Sup (Nat × Option ProbeResult) :=
  .atomic fun o w =>
    match w.finished[o.choice]? with
    | some (of, index, result) =>
        if of = request then some ((index, result), { w with finished := w.finished.eraseIdx o.choice })
        else none
    | none => none

/-- Collect the results of a round into their slots. -/
def joinAll (request : Nat) : Nat → List (Option ProbeResult) → Sup (List (Option ProbeResult))
  | 0, slots => return slots
  | count + 1, slots => do
      let (index, result) ← joinNext request
      joinAll request count (slots.set index result)

/-! ### End-to-end tests -/

def failedProbe (node : Node) (httpStatus : Option Nat) (error : Option String) : ProbeResult :=
  { node := node.name, ok := false, rttMs := none, httpStatus := httpStatus, error := error }

/-- `record_probe_result`: the statistics of the node's name in the active profile. -/
def recordProbeResult (env : Env) (node : Node) (rtt : Option ℚ) (takenAt readAt : Nat) : Sup Unit :=
  .atomic fun o w =>
    if w.locks .state = .free then
      some ((), { w with
        state := { w.state.updateStats node.name fun stats =>
          stats.recordProbe rtt env.cfg.selection.emaAlpha o.now with updatedUnix := o.now }
        trail := w.trail.note (.probeRecorded node.name readAt ⟨takenAt, readAt, w.trail.published⟩) })
    else none

/-- `test_node`: start, check, stop, and record if asked to. -/
def testNode (env : Env) (me : Nat) (healthUrl : String) (node : Node) (record : Bool)
    (takenAt readAt : Nat) : Sup ProbeResult := do
  match ← reserve node with
  | .error error => return failedProbe node none (some ("reserve adapter ports: " ++ error))
  | .ok spec =>
      match ← startPlane me spec with
      | .error error =>
          if record then recordProbeResult env node none takenAt readAt
          return failedProbe node none (some error)
      | .ok handle =>
          let checked ← checkStatusTimed healthUrl
          stopPlane handle.id
          match checked with
          | .ok (code, rtt) =>
              if isSuccess code then
                if record then recordProbeResult env node (some rtt) takenAt readAt
                return { node := node.name, ok := true, rttMs := some rtt, httpStatus := none, error := none }
              else
                if record then recordProbeResult env node none takenAt readAt
                return failedProbe node (some code) none
          | .error error =>
              observe fun _ => ((), .probeErred node.name)
              -- This arm records whether or not the target is the class's own.
              recordProbeResult env node none takenAt readAt
              return failedProbe node none (some error)

/-- `probe_now_node`: the era is checked again under the gate. -/
def probeNowNode (env : Env) (me : Nat) (node : Node) (era : UInt64) (healthUrl : String) (record : Bool)
    (takenAt readAt : Nat) : Sup ProbeResult :=
  withRead me .reconfiguration do
    if (← look (·.subscriptions.generation)) ≠ era then
      return failedProbe node none (some "skipped: subscription changed")
    testNode env me healthUrl node record takenAt readAt

/-- A spawned probe task: nothing if it panics before it tests its node. -/
def probeTask (env : Env) (me request : Nat) (node : Node) (era : UInt64) (cls : String) (takenAt readAt : Nat) :
    Sup (Option ProbeResult) := do
  if ← enterProbe request then return none
  let result ← probeNowNode env me node era (env.cfg.classHealthUrl cls)
    (env.cfg.classHealthOverride cls).isNone takenAt readAt
  return some result

/-- Its body, and what `join_next` finds of it. -/
def probeJob (env : Env) (me request index : Nat) (node : Node) (era : UInt64) (cls : String)
    (takenAt readAt : Nat) : Sup Unit := do
  let result ← probeTask env me request node era cls takenAt readAt
  finishJob request index result

/-- `probe_now_inner`: results in pool order, and the size of the pool. -/
def probeNowInner (cls : String) : Sup (List ProbeResult × Nat) := do
  let (nodes, takenAt) ← pool
  let total := nodes.length
  let (era, readAt) ← look fun w => (w.subscriptions.generation, w.trail.published)
  let request ← openRound (min probeNowConcurrency (max total 1))
  spawn (nodes.zipIdx.map fun (node, index) => .probe request index node era cls takenAt readAt)
  let slots ← joinAll request total (List.replicate total none)
  return (slots.filterMap id, total)

/-- `probe_now` and its part of `handle_control`. -/
def probeNow (env : Env) (me : Nat) (cls : String) : Sup Reply := do
  if cls ∉ env.classes then return .err ("unknown class " ++ cls.quote)
  let (results, total) ← probeNowInner cls
  saveState env me
  pushEvent fun o => .probed o.now "on-demand" (results.filter (·.ok)).length total
  return { ok := true, probe := some results }

/-! ### Site verdicts -/

def recordSiteVerdict (site node : String) (verdict : SiteVerdict) (takenAt gateAt : Nat) : Sup Stamp :=
  .atomic fun o w =>
    if w.locks .state = .free then
      let stamp : Stamp := ⟨takenAt, gateAt, w.trail.published⟩
      some (stamp, { w with
        state := { w.state.insertSiteVerdict site node verdict with updatedUnix := o.now }
        trail := { w.trail.note (.siteRecorded site node stamp) with
          stamps := Function.update w.trail.stamps site
            (Function.update (w.trail.stamps site) node (some stamp)) } })
    else none

/-- `fresh_verdict`: a verdict younger than the configured age. -/
def freshVerdict (env : Env) (site node : String) : Sup (Option (SiteVerdict × Option Stamp)) :=
  .atomic fun o w =>
    if w.locks .state = .free then
      let verdict := (w.state.siteVerdicts[site]?.bind fun all => all[node]?).filter fun verdict =>
        (max (o.now - verdict.checkedUnix) 0).toNat ≤ env.cfg.sites.verdictTtlSecs
      some (verdict.map fun verdict => (verdict, w.trail.stamps site node), w)
    else none

def unknownVerdict (now : Int) (detail : String) : SiteVerdict :=
  { status := .unknown, httpStatus := none, checkedUnix := now, detail := some detail }

/-- The measurement of `probe_site_node`, through a temporary data plane. -/
def measureSite (me : Nat) (node : Node) (url : String) (now : Int) : Sup SiteVerdict := do
  match ← reserve node with
  | .error error => return unknownVerdict now ("reserve adapter ports: " ++ error)
  | .ok spec =>
      match ← startPlane me spec with
      | .error error => return unknownVerdict now ("start data plane: " ++ error)
      | .ok handle =>
          let answer ← checkStatusTimed url
          stopPlane handle.id
          match answer with
          | .ok (code, _) => return ⟨classifyStatus code, some code, now, none⟩
          | .error error => return unknownVerdict now error

/-- `probe_site_node`: the gate covers the probe and the recording, not the taking of the node. -/
def probeSiteNode (me : Nat) (node : Node) (site url : String) (takenAt : Nat) :
    Sup (SiteVerdict × Stamp) :=
  withRead me .reconfiguration do
    let gateAt ← look (·.trail.published)
    let now ← ask (·.now)
    let verdict ← measureSite me node url now
    let stamp ← recordSiteVerdict site node.name verdict takenAt gateAt
    return (verdict, stamp)

def siteJob (me request : Nat) (node : Node) (site url : String) (takenAt : Nat) : Sup Unit := do
  acquirePermit request
  let _ ← probeSiteNode me node site url takenAt
  finishJob request 0 none

def unknownSite (env : Env) (site : String) : Reply :=
  .err ("unknown site " ++ site.quote ++ "; configured sites: " ++ toString env.cfg.sites.list.keys)

/-- The sites a request is about, with their targets: one, or all of them. -/
def chosenSites (env : Env) : Option String → Option (List (String × String))
  | some name => (env.cfg.sites.list[name]?).map fun target => [(name, target.url)]
  | none => some (env.cfg.sites.list.toList.map fun (name, target) => (name, target.url))

/-- `site_probe_request`: one site, or all of them, through every pool node. -/
def siteProbeRequest (env : Env) (me : Nat) (site : Option String) : Sup Reply := do
  match chosenSites env site with
  | none => return unknownSite env (site.getD "")
  | some [] => return .err "no sites configured under [sites.list]"
  | some sites =>
      let (nodes, takenAt) ← pool
      let request ← openRound probeNowConcurrency
      let jobs := sites.flatMap fun (name, url) =>
        nodes.map fun node => Job.site request node name url takenAt
      spawn jobs
      let _ ← joinAll request jobs.length []
      saveState env me
      let ok ← readState fun st =>
        (sites.filter fun (name, _) =>
          (st.siteVerdicts[name]?).any fun all => all.values.any fun verdict => verdict.status = .ok).length
      pushEvent fun o => .probed o.now ("site-probe:" ++ ",".intercalate (sites.map (·.1))) ok
        (sites.length * nodes.length)
      let matrix ← readState (·.siteVerdicts)
      return { ok := true, siteMatrix := some matrix }

/-! ### Site switches -/

def noteVerdict (me : Nat) (site node : String) (verdict : SiteVerdict) (stamp : Option Stamp) : Sup Unit :=
  observe fun w => ((), .siteVerdict me site node verdict.status stamp w.trail.published)

/-- The incumbent's verdict: a fresh one, or a new probe if it is still in the pool. -/
def incumbentVerdict (env : Env) (me : Nat) (site url current : String) : Sup SiteVerdict := do
  match ← freshVerdict env site current with
  | some (verdict, stamp) =>
      noteVerdict me site current verdict stamp
      return verdict
  | none =>
      let (nodes, takenAt) ← pool
      match nodes.find? fun node => node.name = current with
      | some node =>
          let (verdict, stamp) ← probeSiteNode me node site url takenAt
          noteVerdict me site current verdict (some stamp)
          return verdict
      | none =>
          let now ← ask (·.now)
          return unknownVerdict now "incumbent left the pool"

def siteOutcome (site action : String) (nodeBefore nodeAfter : Option String) (detail : String) : Reply :=
  { ok := true
    siteSwitch := some
      { site := site, action := action, nodeBefore := nodeBefore, nodeAfter := nodeAfter, detail := detail } }

/-- Probe candidates until one serves the site and can be switched to. -/
def tryForSite (env : Env) (me : Nat) (cls site url : String) (nodeBefore : Option String) (tried takenAt : Nat) :
    List Node → Sup Reply
  | [] => do
      saveState env me
      return siteOutcome site "no-candidate" nodeBefore nodeBefore
        ("no probed candidate served the site among " ++ toString tried ++ " tried; staying put")
  | node :: candidates => do
      let (verdict, stamp) ← probeSiteNode me node site url takenAt
      if verdict.status ≠ .ok then
        tryForSite env me cls site url nodeBefore tried takenAt candidates
      else
        noteVerdict me site node.name verdict (some stamp)
        match ← switchTo env me cls node.name (.site nodeBefore site (some stamp)) with
        | .ok _ =>
            saveState env me
            return siteOutcome site "switched" nodeBefore (some node.name)
              ("incumbent frozen; switched to a node the site serves (HTTP " ++
                toString verdict.httpStatus ++ ")")
        | .error _ => tryForSite env me cls site url nodeBefore tried takenAt candidates

/-- The candidate search of `switch_for_site`. -/
def searchForSite (env : Env) (me : Nat) (cls site url : String) (nodeBefore : Option String) :
    Sup Reply := do
  let (nodes, takenAt) ← pool
  let candidates ← readState fun st =>
    ((rankedCandidates nodes st []).filter fun node => some node.name ≠ nodeBefore).take
      env.cfg.sites.maxCandidates
  tryForSite env me cls site url nodeBefore candidates.length takenAt candidates

/-- `switch_for_site`: probe first, switch only on a failing verdict. -/
def switchForSite (env : Env) (me : Nat) (cls site : String) : Sup Reply := do
  match env.cfg.sites.list[site]? with
  | none => return unknownSite env site
  | some target =>
      if cls ∉ env.classes then return .err ("unknown class " ++ cls.quote)
      let nodeBefore ← withWrite me (.cls cls) (activeName cls)
      match nodeBefore with
      | none => searchForSite env me cls site target.url nodeBefore
      | some current =>
          let verdict ← incumbentVerdict env me site target.url current
          if verdict.status = .ok then
            return siteOutcome site "kept" nodeBefore nodeBefore
              ("incumbent serves the site (HTTP " ++ toString verdict.httpStatus ++ ")")
          searchForSite env me cls site target.url nodeBefore

end Sup

end Causeway
