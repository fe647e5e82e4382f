import Causeway.Model.System

/-!
# The bodies of the operations

A relation between the states before and after a step holds of every step of an operation if it holds of the few steps that change anything. The way through each body is walked here once, for any such relation.
-/

namespace Causeway

open Concurrent Prog

section

variable {R : World → World → Prop} {α : Type}

theorem within_atomic {act : Outside → World → Option (α × World)}
    (h : ∀ o s b t, act o s = some (b, t) → R s t) : (Prog.atomic act : Sup α).Within R :=
  ⟨h, fun _ => trivial⟩

theorem within_act {f : Outside → World → α × World} (h : ∀ o w, R w (f o w).2) : (Sup.act f).Within R :=
  within_atomic fun o s b t heq => by
    obtain rfl : (f o s).2 = t := by rw [Option.some.inj heq]
    exact h o s

theorem within_modify {f : World → World} (h : ∀ w, R w (f w)) : (Sup.modify f).Within R :=
  within_act (f := fun _ w => ((), f w)) fun _ => h

theorem within_lockState {f : Outside → StateFile → α × StateFile}
    (h : ∀ o w, R w { w with state := (f o w.state).2 }) : (Sup.lockState f).Within R := by
  refine within_atomic fun o s b t heq => ?_
  split at heq
  · cases heq
    exact h o s
  · cases heq

variable [Std.Refl R]

theorem within_look {f : World → α} : (Sup.look f).Within R := within_act fun _ w => Std.Refl.refl w

theorem within_ask {f : Outside → α} : (Sup.ask f).Within R := within_act fun _ w => Std.Refl.refl w

theorem within_readState {f : StateFile → α} : (Sup.readState f).Within R :=
  within_lockState fun _ w => Std.Refl.refl w

end

section

variable {R : World → World → Prop} {env : Env} {me : Nat} {cls : String} {α β : Type}

/-! ### Branches and loops -/

theorem within_if {c : Prop} [Decidable c] {p q : Sup α} (hp : p.Within R) (hq : q.Within R) :
    (if c then p else q).Within R := by
  split
  · exact hp
  · exact hq

/-- An early return. -/
theorem within_guard {p : Sup Bool} {q : Sup α} {value : α} (hp : p.Within R) (hq : q.Within R) :
    (p >>= fun ok => if !ok then pure value else q).Within R :=
  .bind hp fun _ => within_if trivial hq

theorem within_forEach {body : β → Sup Unit} (h : ∀ item, (body item).Within R) (items : List β) :
    (Sup.forEach body items).Within R := by
  induction items with
  | nil => trivial
  | cons item items ih => exact .bind (h item) fun _ => ih

theorem within_rounds {body : Sup Bool} (h : body.Within R) (count : Nat) : (Sup.rounds body count).Within R := by
  induction count with
  | zero => trivial
  | succ count ih => exact .bind h fun _ => within_if ih trivial

/-! ### Locks -/

theorem within_lockRoutes (hacquire : ∀ cls, (Sup.acquireWrite me (.route cls)).Within R) (classes : List String) :
    (Sup.lockRoutes me classes).Within R := by
  induction classes with
  | nil => trivial
  | cons cls classes ih => exact .bind (hacquire cls) fun _ => ih

theorem within_lockClasses (hacquire : ∀ cls, (Sup.acquireWriteBy me (.cls cls)).Within R) (classes : List String) :
    (Sup.lockClasses me classes).Within R := by
  induction classes with
  | nil => trivial
  | cons cls classes ih => exact .bind (hacquire cls) fun _ => within_if ih trivial

theorem within_releaseAll {names : List LockName} (hrelease : ∀ name ∈ names, (Sup.release me name).Within R) :
    (Sup.releaseAll me names).Within R := by
  induction names with
  | nil => trivial
  | cons name names ih =>
      obtain ⟨hname, hnames⟩ := List.forall_mem_cons.mp hrelease
      exact .bind hname fun _ => ih hnames

/-! ### Planes, files and lists -/

/-- What follows the spawn of a plane: it is ready, or it is stopped. -/
theorem within_settle (hstop : ∀ id, (Sup.stopPlane id).Within R) {handle : Handle} {failure : Option String} {done : α}
    {failed : String → α} :
    (match failure with
      | none => return done
      | some error => do
          Sup.stopPlane handle.id
          return failed error : Sup α).Within R := by
  cases failure with
  | none => trivial
  | some error => exact .bind (hstop handle.id) fun _ => trivial

theorem within_stopStaged (hstop : ∀ id, (Sup.stopPlane id).Within R) (staged : List ActiveNode) :
    (Sup.stopStaged staged).Within R := by
  induction staged with
  | nil => trivial
  | cons active staged ih => exact .bind (hstop active.handle.id) fun _ => ih

theorem within_drainAll (hdrain : ∀ active, (Sup.scheduleDrain active).Within R) (old : List ActiveNode) :
    (Sup.drainAll old).Within R := by
  induction old with
  | nil => trivial
  | cons active old ih => exact .bind (hdrain active) fun _ => ih

theorem within_drainPath {active : ActiveNode} (hawait : ∀ path timer enough, (Sup.awaitDrain path timer enough).Within R)
    (hend : ∀ w : World, R w { w with
      planes := Function.update w.planes active.handle.id none
      draining := w.draining - 1 }) : (Sup.drainPath active).Within R :=
  .bind (hawait _ _ _) fun _ => .bind (hawait _ _ _) fun _ => within_modify hend

theorem within_writeAll {inode fuel offset : Nat} {bytes : Bytes}
    (hwrite : ∀ offset bytes, (Sup.writeSome me inode offset bytes).Within R) :
    (Sup.writeAll me inode fuel offset bytes).Within R := by
  induction fuel generalizing offset bytes with
  | zero => cases bytes <;> trivial
  | succ fuel ih =>
      cases bytes with
      | nil => trivial
      | cons byte bytes =>
          refine .bind (hwrite _ _) fun count => ?_
          cases count with
          | none => trivial
          | some count => exact ih

theorem within_writeAllCache {inode fuel offset : Nat} {bytes : Bytes}
    (hwrite : ∀ offset bytes, (Sup.writeCache inode offset bytes).Within R) :
    (Sup.writeAllCache inode fuel offset bytes).Within R := by
  induction fuel generalizing offset bytes with
  | zero => cases bytes <;> trivial
  | succ fuel ih =>
      cases bytes with
      | nil => trivial
      | cons byte bytes =>
          refine .bind (hwrite _ _) fun count => ?_
          cases count with
          | none => trivial
          | some count => exact ih

theorem within_joinAll {request count : Nat} {slots : List (Option ProbeResult)} (hnext : (Sup.joinNext request).Within R) :
    (Sup.joinAll request count slots).Within R := by
  induction count generalizing slots with
  | zero => trivial
  | succ count ih => exact .bind hnext fun _ => ih

theorem within_subscriptionFailure {profile message : String} (hpush : ∀ f, (Sup.pushEvent f).Within R) :
    (Sup.subscriptionFailure profile message).Within R := .bind (hpush _) fun _ => trivial

theorem within_pushSwitched {now : Int} {refreshed : Bool} (hpush : ∀ f, (Sup.pushEvent f).Within R) (planned : List Planned) :
    (Sup.pushSwitched now refreshed planned).Within R := by
  induction planned with
  | nil => trivial
  | cons plan planned ih => exact .bind (hpush _) fun _ => ih

theorem within_stageFirst (htry : ∀ candidate, (Sup.tryActivate env me cls candidate true).Within R) (candidates : List Node) :
    (Sup.stageFirst env me cls candidates).Within R := by
  induction candidates with
  | nil => trivial
  | cons candidate candidates ih =>
      refine .bind (htry candidate) fun attempt => ?_
      cases attempt with
      | failed error => exact ih
      | elapsed => trivial
      | activated active => trivial

theorem within_publishClasses {target : String} {refreshed : Bool}
    (hpublish : ∀ plan, (Sup.publishClass me target refreshed plan).Within R) (planned : List Planned) :
    (Sup.publishClasses me target refreshed planned).Within R := by
  induction planned with
  | nil => trivial
  | cons plan planned ih => exact .bind (hpublish plan) fun _ => .bind ih fun _ => trivial

/-! ### Data planes -/

variable [Std.Refl R]

theorem within_fuse (fused : Bool) : (Sup.fuse fused).Within R := by
  cases fused with
  | true => exact within_ask
  | false => trivial

theorem within_startPlane {spec : Sup.StartSpec} (hspawn : (Sup.spawnPlane me spec).Within R)
    (hstop : ∀ id, (Sup.stopPlane id).Within R) : (Sup.startPlane me spec).Within R := by
  refine .bind hspawn fun spawned => ?_
  cases spawned with
  | error error => trivial
  | ok handle => exact .bind within_ask fun _ => within_settle hstop

theorem within_startFused {spec : Sup.StartSpec} {fused : Bool} (hspawn : (Sup.spawnPlane me spec).Within R)
    (hstop : ∀ id, (Sup.stopPlane id).Within R) : (Sup.startFused me spec fused).Within R := by
  refine .bind hspawn fun spawned => ?_
  cases spawned with
  | error error => trivial
  | ok handle =>
      refine .bind (within_fuse fused) fun elapsed => within_if ?_ ?_
      · exact .bind (hstop handle.id) fun _ => trivial
      · exact .bind within_ask fun _ => within_settle hstop

theorem within_tryActivate {node : Node} {fused : Bool} (hspawn : ∀ spec, (Sup.spawnPlane me spec).Within R)
    (hstop : ∀ id, (Sup.stopPlane id).Within R) (hobserve : ∀ f : World → Unit × Obs, (Sup.observe f).Within R) :
    (Sup.tryActivate env me cls node fused).Within R := by
  have hend {id : Nat} {attempt : Attempt} : (do
      Sup.stopPlane id
      return attempt : Sup Attempt).Within R := .bind (hstop id) fun _ => trivial
  refine .bind within_ask fun reserved => ?_
  cases reserved with
  | error error => trivial
  | ok spec =>
      refine .bind (within_startFused (hspawn spec) hstop) fun started => ?_
      rcases started with _ | error | handle
      · trivial
      · trivial
      refine .bind within_ask fun checked => .bind (within_fuse fused) fun elapsed => within_if hend ?_
      cases checked with
      | error error => exact .bind (hobserve _) fun _ => hend
      | ok answer => exact within_if (.bind (hobserve _) fun _ => trivial) (.bind (hobserve _) fun _ => hend)

theorem within_testNode {url : String} {node : Node} {record : Bool} {takenAt readAt : Nat}
    (hspawn : ∀ spec, (Sup.spawnPlane me spec).Within R) (hstop : ∀ id, (Sup.stopPlane id).Within R)
    (hobserve : ∀ f : World → Unit × Obs, (Sup.observe f).Within R)
    (hrecord : ∀ rtt, (Sup.recordProbeResult env node rtt takenAt readAt).Within R) :
    (Sup.testNode env me url node record takenAt readAt).Within R := by
  -- Every way out records or does not, and returns.
  have hend {rtt : Option ℚ} {result : ProbeResult} : (do
      if record then Sup.recordProbeResult env node rtt takenAt readAt
      return result : Sup ProbeResult).Within R :=
    within_if (.bind (hrecord rtt) fun _ => trivial) trivial
  refine .bind within_ask fun reserved => ?_
  cases reserved with
  | error error => trivial
  | ok spec =>
      refine .bind (within_startPlane (hspawn spec) hstop) fun started => ?_
      cases started with
      | error error => exact hend
      | ok handle =>
          refine .bind within_ask fun checked => .bind (hstop handle.id) fun _ => ?_
          cases checked with
          | error error => exact .bind (hobserve _) fun _ => .bind (hrecord none) fun _ => trivial
          | ok answer => exact within_if hend hend

theorem within_measureSite {node : Node} {url : String} {now : Int} (hspawn : ∀ spec, (Sup.spawnPlane me spec).Within R)
    (hstop : ∀ id, (Sup.stopPlane id).Within R) : (Sup.measureSite me node url now).Within R := by
  refine .bind within_ask fun reserved => ?_
  cases reserved with
  | error error => trivial
  | ok spec =>
      refine .bind (within_startPlane (hspawn spec) hstop) fun started => ?_
      cases started with
      | error error => trivial
      | ok handle =>
          refine .bind within_ask fun answer => .bind (hstop handle.id) fun _ => ?_
          cases answer <;> trivial

/-! ### Files -/

theorem within_saveSteps {kind : SaveKind} {content : Bytes} (hopen : (Sup.openTmp me).Within R)
    (hwrite : ∀ inode offset bytes, (Sup.writeSome me inode offset bytes).Within R)
    (hrename : (Sup.renameTmp me kind).Within R) : (Sup.saveSteps me kind content).Within R := by
  refine .bind hopen fun opened => ?_
  cases opened with
  | none => trivial
  | some inode =>
      refine within_guard within_ask (within_guard (within_writeAll (hwrite inode)) (within_guard within_ask ?_))
      exact within_guard hrename (.bind within_ask fun _ => within_if trivial trivial)

theorem within_saveAtomic {kind : SaveKind} {st : StateFile} (hbegin : ∀ content, (Sup.beginSave me kind st content).Within R)
    (hsteps : ∀ content, (Sup.saveSteps me kind content).Within R) (hend : ∀ ok, (Sup.endSave me kind ok).Within R) :
    (Sup.saveAtomic env me kind st).Within R := by
  refine within_guard within_ask ?_
  split
  · trivial
  · exact .bind (hbegin _) fun _ => .bind (hsteps _) fun outcome => .bind (hend _) fun _ => trivial

theorem within_commitPreparedCache {prepared : PreparedSubscription} {slot : Option String}
    (hcreate : Sup.createCacheTmp.Within R) (hwrite : ∀ inode offset bytes, (Sup.writeCache inode offset bytes).Within R)
    (hrename : ∀ inode path, (Sup.renameCache inode path).Within R) :
    (Sup.commitPreparedCache prepared slot).Within R := by
  have hsave {path : Path} {bytes : Bytes} : (Sup.savePrivateCache path bytes).Within R := by
    refine within_guard within_ask (.bind hcreate fun created => ?_)
    cases created with
    | none => trivial
    | some inode =>
        refine within_guard (within_writeAllCache (hwrite inode)) (within_guard within_ask ?_)
        exact within_guard (hrename _ _) within_ask
  have hcommit {fresh : PreparedProfile} : (Sup.commitCacheSlot fresh slot).Within R := by
    rw [Sup.commitCacheSlot]
    split
    · trivial
    split
    · trivial
    · exact .bind hsave fun _ => within_if trivial trivial
  cases prepared with
  | cached nodes => trivial
  | fresh fresh =>
      refine .bind hcommit fun committed => ?_
      cases committed <;> trivial

/-! ### Connections, drains and requests -/

theorem within_takeSamples {url : String} {samples : List Passage} {sampledAt : Option Nat} {count : Nat}
    (hcapture : (Sup.captureRoute me cls .http).Within R)
    (hrelease : ∀ route, (Sup.releaseConnection me route .http).Within R) :
    (Sup.takeSamples me cls url samples sampledAt count).Within R := by
  induction count generalizing samples sampledAt with
  | zero => trivial
  | succ count ih =>
      refine .bind within_look fun stopping => within_if trivial (.bind within_ask fun reached => within_if ?_ ?_)
      · refine .bind hcapture fun captured => .bind within_ask fun checked => .bind (hrelease _) fun _ => ?_
        cases checked with
        | error error => trivial
        | ok answer => exact within_if ih trivial
      · exact .bind within_look fun _ => trivial

theorem within_handleConn {proto : InboundProto} (hcount : ∀ f, (Sup.countConns f).Within R)
    (hcapture : (Sup.captureRoute me cls proto).Within R) (hrelease : ∀ route, (Sup.releaseConnection me route proto).Within R)
    (hadd : ∀ route up down capturedAt, (Sup.addTraffic route up down capturedAt).Within R) :
    (Sup.handleConn me cls proto).Within R := by
  refine .bind (hcount _) fun _ => .bind within_ask fun known => within_if (.bind hcapture fun captured => ?_) (hcount _)
  refine within_if (.bind within_ask fun connected => within_if (.bind within_ask fun relayed => ?_) ?_) (hcount _)
  · exact .bind (hadd _ _ _ _) fun _ => .bind (hrelease _) fun _ => hcount _
  · exact .bind (hrelease _) fun _ => hcount _

/-- A status request changes nothing. -/
theorem within_status {retries : Nat} : (Sup.status env cls retries).Within R := by
  have htry : (Sup.trySnapshot env cls).Within R := by
    refine .bind within_look fun _ => .bind within_look fun subs => .bind within_readState fun view => ?_
    cases view with
    | none => trivial
    | some view =>
        refine .bind within_look fun _ => within_if trivial (.bind within_look fun _ => .bind within_look fun _ => ?_)
        exact within_if trivial (.bind within_look fun _ => .bind within_look fun _ => trivial)
  have hsnapshot : (Sup.classSnapshot env cls retries).Within R := by
    induction retries with
    | zero => exact htry
    | succ retries ih =>
        refine .bind htry fun answer => ?_
        cases answer with
        | none => exact ih
        | some answer => trivial
  refine .bind hsnapshot fun answer => ?_
  rcases answer with _ | _ | snapshot <;> trivial

theorem within_recordHealthOutcome {ok : Bool} {sampled : Sup.Sampled}
    (hlock : ∀ node, (Sup.lockState fun _ st => ((), st.updateStats node fun stats => { stats with
      consecutiveHealthFailures := if ok then 0 else (stats.consecutiveHealthFailures + 1) % 2 ^ 32 })).Within R)
    (hbook : (Sup.bookVerdict cls ok sampled).Within R) (hpush : ∀ f, (Sup.pushEvent f).Within R) :
    (Sup.recordHealthOutcome env cls ok sampled).Within R := by
  refine .bind within_look fun active => ?_
  cases active with
  | none => exact .bind within_look fun _ => trivial
  | some node =>
      refine .bind (hlock node) fun _ => .bind hbook fun booked => ?_
      exact within_if (.bind (hpush _) fun _ => trivial) trivial

/-! ### The subscription transaction -/

theorem within_openTransaction {target : String} {catalog : SubscriptionsConfig} {allowCachedFallback isReload : Bool}
    (hpush : ∀ f, (Sup.pushEvent f).Within R)
    (hcatalog : ∀ w : World, R w { w with trail := { w.trail with catalog := some catalog } }) :
    (Sup.openTransaction env target catalog allowCachedFallback isReload).Within R := by
  have hfail {message : String} : (do
      return .error (← Sup.subscriptionFailure target message) : Sup (Except Reply Request)).Within R :=
    .bind (within_subscriptionFailure hpush) fun _ => trivial
  have hprepare {profile : SubscriptionProfileConfig} {cached : Bool} {slot : Option String} :
      (Sup.prepareSubscription env profile cached slot).Within R := by
    refine .bind within_ask fun fetched => ?_
    rcases fetched with _ | _ | prepared
    · trivial
    · refine within_if (.bind (within_act fun _ w => Std.Refl.refl w) fun nodes => ?_) trivial
      cases nodes <;> trivial
    · trivial
  rw [Sup.openTransaction]
  split
  · trivial
  split
  · trivial
  refine .bind (within_act fun _ w => hcatalog w) fun previous => .bind within_readState fun confirmed => ?_
  refine .bind hprepare fun prepared => ?_
  rcases prepared with _ | _ | prepared
  · exact hfail
  · exact hfail
  refine within_if hfail (within_if hfail (within_if (.bind within_look fun _ => ?_) trivial))
  exact within_if trivial trivial

theorem within_stagingCandidates {request : Request} {stats : Option (BTreeMap NodeStats)} :
    (Sup.stagingCandidates env request stats cls).Within R := by
  rw [Sup.stagingCandidates]
  split
  · exact .bind within_look fun _ => trivial
  · trivial

theorem within_stageClasses {request : Request} {stats : Option (BTreeMap NodeStats)}
    (htry : ∀ cls candidate, (Sup.tryActivate env me cls candidate true).Within R)
    (hstop : ∀ id, (Sup.stopPlane id).Within R) (classes : List String) (staged : List ActiveNode) :
    (Sup.stageClasses env me request stats classes staged).Within R := by
  induction classes generalizing staged with
  | nil => trivial
  | cons cls classes ih =>
      refine .bind within_stagingCandidates fun candidates => .bind (within_stageFirst (htry cls) _) fun attempt => ?_
      cases attempt with
      | activated active => exact ih _
      | elapsed => exact .bind (within_stopStaged hstop staged) fun _ => trivial
      | failed error => exact .bind (within_stopStaged hstop staged) fun _ => trivial

theorem within_planClasses (staged : List (String × ActiveNode)) : (Sup.planClasses staged).Within R := by
  induction staged with
  | nil => trivial
  | cons entry staged ih =>
      refine .bind (within_atomic fun o s b t heq => ?_) fun _ => .bind ih fun _ => trivial
      split at heq <;> cases heq
      exact Std.Refl.refl s

theorem within_stageTransaction {request : Request}
    (htry : ∀ cls candidate, (Sup.tryActivate env me cls candidate true).Within R)
    (hstop : ∀ id, (Sup.stopPlane id).Within R) (hcommit : ∀ prepared slot, (Sup.commitPreparedCache prepared slot).Within R) :
    (Sup.stageTransaction env me request).Within R := by
  have hend {staged : List ActiveNode} {message : String} : (do
      Sup.stopStaged staged
      return .error message : Sup (Except String (List ActiveNode × Sup.Prepared))).Within R :=
    .bind (within_stopStaged hstop staged) fun _ => trivial
  refine .bind within_readState fun stats => .bind (within_stageClasses htry hstop _ _) fun outcome => ?_
  cases outcome with
  | error message => trivial
  | ok staged =>
      refine .bind within_ask fun elapsed => within_if hend (.bind (hcommit _ _) fun committed => ?_)
      cases committed with
      | none => exact hend
      | some committed =>
          refine .bind within_ask fun now => .bind (within_planClasses _) fun planned => .bind within_readState fun ⟨cloned, next⟩ => ?_
          cases next with
          | none => exact hend
          | some next => trivial

end

end Causeway
