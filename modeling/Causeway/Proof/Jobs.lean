import Causeway.Concurrent.Ledger
import Causeway.Proof.Daemon
import Causeway.Proof.Tally

/-!
# Jobs in circulation

A job is spawned by a request, taken by a thread, and its result is joined. What each task does to this circulation is told by its own steps: only requests spawn, and only into a round they have opened; only a thread that runs a job takes one or ends one, and it ends the one it took. Counted along a run, no job is taken, ended or joined more often than it was spawned.
-/

namespace Causeway

open Concurrent Prog

/-! ### Measures -/

/-- What a job leaves to be joined: its round, its place in it, and its result. -/
abbrev JobResult := Nat × Nat × Option ProbeResult

/-- How many spawned jobs of this kind nobody has taken. -/
def waiting (kind : Job → Bool) (w : World) : Nat := w.rounds.jobs.countP kind

/-- How many results of this kind nobody has joined. -/
def ended (kind : JobResult → Bool) (w : World) : Nat := w.finished.countP kind

def opened (request : Nat) (w : World) : Nat := if request < w.nextRequest then 1 else 0

def Job.In (request : Nat) (job : Job) : Prop := ∃ index, job.slot = some (request, index)

def jobAt (request index : Nat) (job : Job) : Bool := job.slot = some (request, index)

def resultAt (request index : Nat) (entry : JobResult) : Bool := entry.1 = request ∧ entry.2.1 = index

@[simp] theorem jobAt_iff {request index : Nat} {job : Job} :
    jobAt request index job = true ↔ job.slot = some (request, index) := decide_eq_true_iff

@[simp] theorem resultAt_iff {request index : Nat} {entry : JobResult} :
    resultAt request index entry = true ↔ entry.1 = request ∧ entry.2.1 = index := decide_eq_true_iff

/-- The step takes a job with this place in the round. -/
def Takes (request index : Nat) (step : World × World) : Prop :=
  ∃ choice job, step.1.jobs[choice]? = some job ∧ job.slot = some (request, index) ∧
    step.2.jobs = step.1.jobs.eraseIdx choice

section

variable {s t : World} {request index choice : Nat} {job : Job} {kind : Job → Bool}

theorem rounds_jobs : s.rounds.jobs = s.jobs.filter (·.slot.isSome) := rfl

theorem waiting_pos (hjob : job ∈ s.jobs) (hslot : job.slot.isSome) (hkind : kind job = true) : 0 < waiting kind s :=
  List.countP_pos_iff.mpr ⟨job, List.mem_filter.mpr ⟨hjob, hslot⟩, hkind⟩

theorem fall_waiting (hjob : s.jobs[choice]? = some job) (hslot : job.slot.isSome) (hkind : kind job = true)
    (hjobs : t.jobs = s.jobs.eraseIdx choice) : fall (waiting kind) (s, t) = 1 := by
  obtain ⟨hlt, hget⟩ := List.getElem?_eq_some_iff.mp hjob
  have hperm := ((List.getElem_cons_eraseIdx_perm hlt).filter (·.slot.isSome)).countP_eq kind
  have hcons : (job :: s.jobs.eraseIdx choice).filter (·.slot.isSome) =
      job :: (s.jobs.eraseIdx choice).filter (·.slot.isSome) := List.filter_cons_of_pos hslot
  rw [hget, hcons, List.countP_cons_of_pos hkind] at hperm
  have hs : waiting kind s = (s.jobs.filter (·.slot.isSome)).countP kind := rfl
  have ht : waiting kind t = ((s.jobs.eraseIdx choice).filter (·.slot.isSome)).countP kind := by
    rw [← hjobs]
    rfl
  rw [fall_mk, hs, ht]
  omega

theorem Takes.fall {step : World × World} (h : Takes request index step) :
    fall (waiting (jobAt request index)) step = 1 := by
  obtain ⟨choice, job, hjob, hslot, hjobs⟩ := h
  exact fall_waiting hjob (by rw [hslot]; rfl) (jobAt_iff.mpr hslot) hjobs

end

/-! ### Steps -/

/-- No round opens, no job is spawned and none ends. -/
structure Inert (s t : World) : Prop where
  jobs : t.rounds.jobs.Sublist s.rounds.jobs
  finished : t.finished.Sublist s.finished
  next : t.nextRequest = s.nextRequest

theorem Inert.of_rounds {s t : World} (h : t.rounds = s.rounds) : Inert s t where
  jobs := by rw [h]
  finished := by
    have hfinished : t.finished = s.finished := congrArg Rounds.finished h
    rw [hfinished]
  next := congrArg Rounds.next h

instance : Std.Refl Inert := ⟨fun _ => .of_rounds rfl⟩

section

variable {s t : World} {request : Nat}

theorem rise_waiting_of_sublist (h : t.rounds.jobs.Sublist s.rounds.jobs) (kind : Job → Bool) :
    rise (waiting kind) (s, t) = 0 :=
  Nat.sub_eq_zero_of_le h.countP_le

theorem rise_ended_of_sublist (h : t.finished.Sublist s.finished) (kind : JobResult → Bool) :
    rise (ended kind) (s, t) = 0 :=
  Nat.sub_eq_zero_of_le h.countP_le

theorem Inert.rise_waiting (h : Inert s t) (kind : Job → Bool) : rise (waiting kind) (s, t) = 0 :=
  rise_waiting_of_sublist h.jobs kind

theorem Inert.rise_ended (h : Inert s t) (kind : JobResult → Bool) : rise (ended kind) (s, t) = 0 :=
  rise_ended_of_sublist h.finished kind

theorem rise_waiting_append {jobs : List Job} (h : t.jobs = s.jobs ++ jobs) (hslots : ∀ job ∈ jobs, job.slot.isSome)
    (kind : Job → Bool) : rise (waiting kind) (s, t) = jobs.countP kind := by
  have hall : jobs.filter (·.slot.isSome) = jobs := List.filter_eq_self.mpr hslots
  rw [rise_mk, waiting, waiting, rounds_jobs, rounds_jobs, h, List.filter_append, hall, List.countP_append]
  omega

theorem rise_opened (h : t.nextRequest = s.nextRequest + 1) :
    rise (opened request) (s, t) = if request = s.nextRequest then 1 else 0 := by
  rw [rise_mk, opened, opened, h]
  split <;> split <;> split <;> omega

theorem fall_opened (h : s.nextRequest ≤ t.nextRequest) : fall (opened request) (s, t) = 0 := by
  rw [fall_mk, opened, opened]
  split <;> split <;> omega

end

/-! ### Programs -/

/-- The program spawns jobs only into rounds it opens. -/
def SpawnsOwn {α : Type} (p : Sup α) : Prop :=
  ∀ steps q, Prog.Path p steps q → ∀ request kind, (∀ job, kind job = true → job.In request) →
    tally (rise (opened request)) steps = 0 → tally (rise (waiting kind)) steps = 0

section

variable {env : Env} {me : Nat} {cls : String} {α β : Type} {steps : List (World × World)}

theorem tally_rise_waiting (h : ∀ step ∈ steps, Inert step.1 step.2) (kind : Job → Bool) :
    tally (rise (waiting kind)) steps = 0 :=
  tally_eq_zero fun step hstep => (h step hstep).rise_waiting kind

theorem tally_rise_ended (h : ∀ step ∈ steps, Inert step.1 step.2) (kind : JobResult → Bool) :
    tally (rise (ended kind)) steps = 0 :=
  tally_eq_zero fun step hstep => (h step hstep).rise_ended kind

theorem SpawnsOwn.of_unspawned {p : Sup α} (h : p.Within fun s t => t.rounds.jobs.Sublist s.rounds.jobs) : SpawnsOwn p :=
  fun _ _ path _ kind _ _ => tally_eq_zero fun step hstep => rise_waiting_of_sublist ((h.path path).1 step hstep) kind

theorem SpawnsOwn.of_inert {p : Sup α} (h : p.Within Inert) : SpawnsOwn p := .of_unspawned (h.mono fun _ _ => Inert.jobs)

theorem SpawnsOwn.bind {p : Sup α} {k : α → Sup β} (hp : SpawnsOwn p) (hk : ∀ a, SpawnsOwn (k a)) :
    SpawnsOwn (p >>= k) := by
  intro steps q path request kind hkind hopened
  rcases path.split_bind with ⟨rest, hfirst⟩ | ⟨first, a, second, rfl, hfirst, hsecond⟩
  · exact hp steps rest hfirst request kind hkind hopened
  · rw [tally_append] at hopened ⊢
    rw [hp first _ hfirst request kind hkind (by omega), hk a second q hsecond request kind hkind (by omega)]

/-- A round opens, and its jobs are spawned. -/
theorem SpawnsOwn.open {permits : Nat} {jobs : Nat → List Job} {k : Nat → Unit → Sup α}
    (hjobs : ∀ request, ∀ job ∈ jobs request, job.In request) (hk : ∀ request, (k request ()).Within Inert) :
    SpawnsOwn (Sup.openRound permits >>= fun request => Sup.spawn (jobs request) >>= k request) := by
  intro steps q path request kind hkind hopened
  cases path with
  | nil => rfl
  | @cons _ _ _ _ s _ _ _ _ first path =>
      obtain ⟨rfl, rfl⟩ := Prod.mk.inj (Option.some.inj first)
      rw [tally_cons, rise_opened rfl] at hopened
      cases path with
      | nil => exact Nat.sub_self _
      | @cons _ _ _ _ u _ _ _ _ second path =>
          obtain ⟨rfl, rfl⟩ := Prod.mk.inj (Option.some.inj second)
          have hslots : ∀ job ∈ jobs s.nextRequest, job.slot.isSome := by
            intro job hjob
            obtain ⟨index, hslot⟩ := hjobs _ job hjob
            rw [hslot]
            rfl
          have hnone : (jobs s.nextRequest).countP kind = 0 := by
            rw [List.countP_eq_zero]
            intro job hjob hyes
            obtain ⟨index, hslot⟩ := hjobs _ job hjob
            obtain ⟨other, hother⟩ := hkind job hyes
            obtain ⟨rfl, -⟩ := Prod.mk.inj (Option.some.inj (hother.symm.trans hslot))
            rw [if_pos rfl] at hopened
            omega
          have hspawned := @rise_waiting_append u { u with jobs := u.jobs ++ jobs s.nextRequest } _ rfl hslots kind
          rw [tally_cons, tally_cons, hspawned, hnone, tally_rise_waiting ((hk _).path path).1]
          exact Nat.sub_self _

/-! ### Requests -/

theorem inert_of_calm {p : Sup α} (h : p.Within Calm) : p.Within Inert := h.mono fun _ _ hstep => .of_rounds hstep.rounds

theorem inert_of_minor {p : Sup α} (h : p.Within Minor) : p.Within Inert := inert_of_calm (calm_of_minor h)

theorem inert_joinNext {request : Nat} : (Sup.joinNext request).Within Inert := by
  refine within_atomic fun o s b t heq => ?_
  split at heq
  · split at heq <;> cases heq
    exact ⟨List.Sublist.refl _, List.eraseIdx_sublist _ _, rfl⟩
  · cases heq

theorem inert_joinAll {request count : Nat} {slots : List (Option ProbeResult)} :
    (Sup.joinAll request count slots).Within Inert :=
  within_joinAll inert_joinNext

/-- A step of a request: no job is taken up and none ends. -/
structure Asking (s t : World) : Prop where
  finished : t.finished.Sublist s.finished
  next : s.nextRequest ≤ t.nextRequest

theorem Inert.asking {s t : World} (h : Inert s t) : Asking s t := ⟨h.finished, Nat.le_of_eq h.next.symm⟩

theorem asking_of_inert {p : Sup α} (h : p.Within Inert) : p.Within Asking := h.mono fun _ _ => Inert.asking

theorem asking_openRound {permits : Nat} : (Sup.openRound permits).Within Asking :=
  within_act fun _ _ => ⟨List.Sublist.refl _, Nat.le_succ _⟩

theorem asking_spawn {jobs : List Job} : (Sup.spawn jobs).Within Asking :=
  within_modify fun _ => ⟨List.Sublist.refl _, Nat.le_refl _⟩

/-- A request that opens a round, spawns its jobs and goes on. -/
theorem asking_open {permits : Nat} {jobs : Nat → List Job} {k : Nat → Unit → Sup α}
    (hk : ∀ request, (k request ()).Within Inert) :
    (Sup.openRound permits >>= fun request => Sup.spawn (jobs request) >>= k request).Within Asking :=
  .bind asking_openRound fun request => .bind asking_spawn fun _ => asking_of_inert (hk request)

/-- The jobs of a request for a listing, one for each node of the pool. -/
def probeJobs (nodes : List Node) (request : Nat) (era : UInt64) (cls : String) (takenAt readAt : Nat) : List Job :=
  nodes.zipIdx.map fun (node, index) => .probe request index node era cls takenAt readAt

/-- The jobs of a site request, one for each site and node. -/
def siteJobs (sites : List (String × String)) (nodes : List Node) (takenAt request : Nat) : List Job :=
  sites.flatMap fun (name, url) => nodes.map fun node => .site request node name url takenAt

theorem probeNowInner_asks : (Sup.probeNowInner cls).Within Asking ∧ SpawnsOwn (Sup.probeNowInner cls) := by
  have hjobs : ∀ (nodes : List Node) (era : UInt64) (takenAt readAt request : Nat),
      ∀ job ∈ probeJobs nodes request era cls takenAt readAt, job.In request := by
    intro nodes era takenAt readAt request job hjob
    obtain ⟨⟨node, index⟩, _, rfl⟩ := List.mem_map.mp hjob
    exact ⟨index, rfl⟩
  have hjoin : ∀ {request count : Nat} {slots : List (Option ProbeResult)}
      {f : List (Option ProbeResult) → List ProbeResult × Nat},
      (Sup.joinAll request count slots >>= fun slots => pure (f slots) : Sup _).Within Inert :=
    .bind inert_joinAll fun _ => trivial
  rw [Sup.probeNowInner]
  constructor
  · exact .bind (asking_of_inert within_look) fun _ => .bind (asking_of_inert within_look) fun _ => asking_open fun _ => hjoin
  · exact .bind (.of_inert within_look) fun _ => .bind (.of_inert within_look) fun _ => .open (hjobs _ _ _ _) fun _ => hjoin

theorem probeNow_asks : (Sup.probeNow env me cls).Within Asking ∧ SpawnsOwn (Sup.probeNow env me cls) := by
  rw [Sup.probeNow]
  split
  · exact ⟨trivial, .of_inert trivial⟩
  · have hreport : ∀ outcome : List ProbeResult × Nat, (do
        Sup.saveState env me
        Sup.pushEvent fun o => .probed o.now "on-demand" (outcome.1.filter (·.ok)).length outcome.2
        return { ok := true, probe := some outcome.1 } : Sup Reply).Within Inert :=
      fun _ => .bind (inert_of_minor minor_saveState) fun _ => .bind (inert_of_minor minor_pushEvent) fun _ => trivial
    exact ⟨.bind probeNowInner_asks.1 fun _ => asking_of_inert (hreport _),
      .bind probeNowInner_asks.2 fun _ => .of_inert (hreport _)⟩

theorem siteProbeRequest_asks {site : Option String} :
    (Sup.siteProbeRequest env me site).Within Asking ∧ SpawnsOwn (Sup.siteProbeRequest env me site) := by
  rw [Sup.siteProbeRequest]
  split
  · exact ⟨trivial, .of_inert trivial⟩
  · exact ⟨trivial, .of_inert trivial⟩
  rename_i sites _ _
  have hjobs : ∀ (nodes : List Node) (takenAt request : Nat),
      ∀ job ∈ siteJobs sites nodes takenAt request, job.In request := by
    intro nodes takenAt request job hjob
    obtain ⟨_, _, hjob⟩ := List.mem_flatMap.mp hjob
    obtain ⟨_, _, rfl⟩ := List.mem_map.mp hjob
    exact ⟨0, rfl⟩
  have hreport : ∀ (request count : Nat) (ok : StateFile → Nat) (event : Nat → Outside → Event), (do
      let _ ← Sup.joinAll request count []
      Sup.saveState env me
      let ok ← Sup.readState ok
      Sup.pushEvent (event ok)
      let matrix ← Sup.readState (·.siteVerdicts)
      return { ok := true, siteMatrix := some matrix } : Sup Reply).Within Inert :=
    fun _ _ _ _ => .bind inert_joinAll fun _ => .bind (inert_of_minor minor_saveState) fun _ =>
      .bind within_readState fun _ => .bind (inert_of_minor minor_pushEvent) fun _ => .bind within_readState fun _ => trivial
  constructor
  · exact .bind (asking_of_inert within_look) fun _ => asking_open fun _ => hreport _ _ _ _
  · exact .bind (.of_inert within_look) fun _ => .open (hjobs _ _) fun _ => hreport _ _ _ _

/-- A task runs a job, or it asks for what is done. -/
theorem task_asks {task : Task} (h : task ≠ .job) :
    (task.prog env me).Within Asking ∧ SpawnsOwn (task.prog env me) := by
  have hinert : ∀ {p : Sup Reply}, p.Within Inert → p.Within Asking ∧ SpawnsOwn p :=
    fun hp => ⟨asking_of_inert hp, .of_inert hp⟩
  rcases @counted_or_calm env me task with ⟨body, hbody, heq⟩ | ⟨hrounds, -⟩ | hcalm
  · rw [heq]
    apply hinert
    refine .bind (within_modify fun _ => .of_rounds rfl) fun _ => ?_
    refine .bind (hbody.mono fun _ _ hstep => .of_rounds hstep.rounds) fun _ => ?_
    exact .bind (within_modify fun _ => .of_rounds rfl) fun _ => trivial
  · cases task with
    | probeNow cls => exact probeNow_asks
    | siteProbe site => exact siteProbeRequest_asks
    | job => exact absurd rfl h
    | _ => cases hrounds
  · exact hinert (inert_of_calm hcalm)

/-! ### Jobs -/

/-- A step of a thread that runs a job: no round opens and no job is spawned. -/
structure Working (s t : World) : Prop where
  jobs : t.rounds.jobs.Sublist s.rounds.jobs
  next : t.nextRequest = s.nextRequest

theorem working_of_inert {p : Sup α} (h : p.Within Inert) : p.Within Working :=
  h.mono fun _ _ hstep => ⟨hstep.jobs, hstep.next⟩

/-- What is run of a job before its result is there. -/
def Job.body (env : Env) (me : Nat) : Job → Sup (Option ProbeResult)
  | .probe request _ node era cls takenAt readAt => Sup.probeTask env me request node era cls takenAt readAt
  | .site request node name url takenAt => do
      Sup.acquirePermit request
      let _ ← Sup.probeSiteNode me node name url takenAt
      return none
  | .drain active => do
      Sup.drainPath active
      return none

/-- The result goes to the round of the job, if it has one. -/
def Job.finish (job : Job) (result : Option ProbeResult) : Sup Unit :=
  match job.slot with
  | some (request, index) => Sup.finishJob request index result
  | none => pure ()

theorem runJob_eq : Sup.runJob env me =
    Sup.takeJob me >>= fun job => job.body env me >>= fun result => job.finish result := by
  rw [Sup.runJob]
  congr
  funext job
  cases job with
  | probe request index node era cls takenAt readAt => rfl
  | site request node site url takenAt =>
      simp only [Job.body, Prog.bind_assoc, Prog.pure_bind]
      rfl
  | drain active =>
      simp only [Job.body, Job.finish, Job.slot, Prog.bind_assoc, Prog.pure_bind]
      exact (Prog.bind_pure _).symm

theorem inert_jobBody {job : Job} : (job.body env me).Within Inert := by
  cases job with
  | probe request index node era cls takenAt readAt => exact inert_of_calm calm_probeTask
  | site request node site url takenAt =>
      refine .bind (inert_of_minor minor_acquirePermit) fun _ => ?_
      exact .bind (inert_of_calm (calm_of_routine (@routine_probeSiteNode env me "" site node url takenAt))) fun _ => trivial
  | drain active => exact .bind (inert_of_calm (calm_of_plain plain_drainPath)) fun _ => trivial

theorem working_runJob : (Sup.runJob env me).Within Working := by
  rw [runJob_eq]
  refine .bind (within_atomic fun o s b t heq => ?_) fun job => .bind (working_of_inert inert_jobBody) fun result => ?_
  · obtain ⟨job, _, heq⟩ := Option.map_eq_some_iff.mp heq
    cases heq
    exact ⟨(List.eraseIdx_sublist _ _).filter _, rfl⟩
  · unfold Job.finish
    split
    · exact within_modify fun _ => ⟨List.Sublist.refl _, rfl⟩
    · trivial

def TakesJob (me : Nat) (job : Job) (step : World × World) : Prop :=
  ∃ choice, step.1.jobs[choice]? = some job ∧
    step.2 = { step.1 with jobs := step.1.jobs.eraseIdx choice, planes := job.run me step.1.planes }

/-- The result of the job is there, and its permit is free again. -/
def EndsJob (request index : Nat) (result : Option ProbeResult) (step : World × World) : Prop :=
  step.2 = { step.1 with
    finished := step.1.finished ++ [(request, index, result)]
    permits := Function.update step.1.permits request (step.1.permits request + 1) }

/-- A thread that runs a job takes one and ends at most that one, with what its body returns. -/
theorem runJob_steps {q : Sup Unit} (path : Prog.Path (Sup.runJob env me) steps q) :
    steps = [] ∨ ∃ taken rest job, steps = taken :: rest ∧ TakesJob me job taken ∧
      ((∀ step ∈ rest, Inert step.1 step.2) ∨
        ∃ request index body result finish, job.slot = some (request, index) ∧ rest = body ++ [finish] ∧
          (∀ step ∈ body, Inert step.1 step.2) ∧ Prog.Path (job.body env me) body (.done result) ∧
          EndsJob request index result finish) := by
  rw [runJob_eq, Sup.takeJob] at path
  cases path with
  | nil => exact .inl rfl
  | cons taken path =>
      obtain ⟨job, hjob, heq⟩ := Option.map_eq_some_iff.mp taken
      obtain ⟨rfl, rfl⟩ := Prod.mk.inj heq
      have hrest : Prog.Path (job.body env me >>= fun result => job.finish result) _ q := path
      refine .inr ⟨_, _, job, rfl, ⟨_, hjob, rfl⟩, ?_⟩
      rcases hrest.split_bind with ⟨left, hbody⟩ | ⟨body, result, last, rfl, hbody, hlast⟩
      · exact .inl (inert_jobBody.path hbody).1
      · have hinert := (inert_jobBody.path hbody).1
        unfold Job.finish at hlast
        split at hlast
        · rename_i request index hslot
          cases hlast with
          | nil => exact .inl (by simpa using hinert)
          | cons finish rest =>
              obtain ⟨rfl, rfl⟩ := Prod.mk.inj (Option.some.inj finish)
              rw [rest.of_done]
              exact .inr ⟨request, index, body, result, _, hslot, rfl, hinert, hbody, rfl⟩
        · rw [hlast.of_done, List.append_nil]
          exact .inl hinert

theorem job_steps {q : Sup Reply} (path : Prog.Path (Task.prog env me .job) steps q) :
    steps = [] ∨ ∃ taken rest job, steps = taken :: rest ∧ TakesJob me job taken ∧
      ((∀ step ∈ rest, Inert step.1 step.2) ∨
        ∃ request index body result finish, job.slot = some (request, index) ∧ rest = body ++ [finish] ∧
          (∀ step ∈ body, Inert step.1 step.2) ∧ Prog.Path (job.body env me) body (.done result) ∧
          EndsJob request index result finish) := by
  rw [Task.prog] at path
  rcases path.split_bind with ⟨left, hjob⟩ | ⟨first, a, second, rfl, hjob, hreply⟩
  · exact runJob_steps hjob
  · rw [hreply.of_done, List.append_nil]
    exact runJob_steps hjob

theorem TakesJob.rise_ended {job : Job} {step : World × World} (h : TakesJob me job step)
    (kind : JobResult → Bool) : rise (ended kind) step = 0 := by
  obtain ⟨choice, _, hstep⟩ := h
  have hfinished : step.2.finished = step.1.finished := by rw [hstep]
  exact rise_ended_of_sublist (s := step.1) (t := step.2) (by rw [hfinished]) kind

theorem TakesJob.takes {job : Job} {step : World × World} (h : TakesJob me job step) {request index : Nat}
    (hslot : job.slot = some (request, index)) : Takes request index step := by
  obtain ⟨choice, hjob, hstep⟩ := h
  exact ⟨choice, job, hjob, hslot, by rw [hstep]⟩

theorem EndsJob.rise_ended {request index : Nat} {result : Option ProbeResult} {step : World × World}
    (h : EndsJob request index result step) (kind : JobResult → Bool) :
    rise (ended kind) step = if kind (request, index, result) = true then 1 else 0 := by
  have hfinished : step.2.finished = step.1.finished ++ [(request, index, result)] := by rw [h]
  rw [rise, ended, ended, hfinished, List.countP_append, List.countP_singleton]
  omega

/-- A thread ends no more jobs of a place than it takes. -/
theorem job_balance {q : Sup Reply} (path : Prog.Path (Task.prog env me .job) steps q) (request index : Nat) :
    tally (rise (ended (resultAt request index))) steps ≤
      tally (fall (waiting (jobAt request index))) steps := by
  rcases job_steps path with rfl | ⟨taken, rest, job, rfl, htaken, hinert | hends⟩
  · exact Nat.le_refl 0
  · rw [tally_cons, htaken.rise_ended, tally_rise_ended hinert]
    exact Nat.zero_le _
  · obtain ⟨of, place, body, result, finish, hslot, rfl, hinert, -, hend⟩ := hends
    rw [tally_cons, tally_append, tally_cons, htaken.rise_ended, tally_rise_ended hinert, hend.rise_ended]
    split
    · rename_i hkind
      obtain ⟨rfl, rfl⟩ := resultAt_iff.mp hkind
      rw [tally_cons, (htaken.takes hslot).fall, tally_nil]
      omega
    · exact Nat.zero_le _

end

/-! ### Runs -/

section

variable {env : Env} {w : World} {tasks : Nat → Task} {moves : List (Move World)} {last : Pool World Outside Reply}
  {request index r j : Nat}

theorem Started.rounds (h : Started env w) : w.jobs = [] ∧ w.finished = [] ∧ w.nextRequest = 0 := by
  obtain ⟨_, _, _, _, _, _, _, _⟩ := h
  exact ⟨rfl, rfl, rfl⟩

theorem Started.waiting (h : Started env w) (kind : Job → Bool) : waiting kind w = 0 := by
  rw [Causeway.waiting, rounds_jobs, h.rounds.1]
  rfl

theorem Started.ended (h : Started env w) (kind : JobResult → Bool) : ended kind w = 0 := by
  rw [Causeway.ended, h.rounds.2.1]
  rfl

/-- A thread follows the program of its task. -/
theorem own_path {task : Task} (run : (daemon env tasks w).Run moves last) (hj : tasks j = task) :
    Prog.Path (task.prog env j) (Pool.own j moves) (last.thread j) := by
  subst hj
  exact run.path j

theorem next_moves (run : (daemon env tasks w).Run moves last) :
    ∀ step ∈ Pool.steps moves, step.1.nextRequest ≤ step.2.nextRequest := by
  intro step hstep
  obtain ⟨m, hm, rfl⟩ := List.mem_map.mp hstep
  have hown := Pool.mem_own hm
  have hpath := run.path m.thread
  by_cases hjob : tasks m.thread = .job
  · have hworking : ((tasks m.thread).prog env m.thread).Within Working := by
      rw [hjob]
      exact .bind working_runJob fun _ => trivial
    exact Nat.le_of_eq ((hworking.path hpath).1 _ hown).next.symm
  · exact (((task_asks hjob).1.path hpath).1 _ hown).next

/-- A round is opened once. -/
theorem opened_le_one (run : (daemon env tasks w).Run moves last) :
    tally (rise (opened request)) (Pool.steps moves) ≤ 1 := by
  have hbalance := run.balance (opened request)
  have hfalls : tally (fall (opened request)) (Pool.steps moves) = 0 :=
    tally_eq_zero fun step hstep => fall_opened (next_moves run step hstep)
  have hone : opened request last.shared ≤ 1 := by
    rw [opened]
    split <;> omega
  omega

theorem spawnsOwn_task (task : Task) : SpawnsOwn (task.prog env j) := by
  by_cases hjob : task = .job
  · subst hjob
    exact .of_unspawned (.bind (working_runJob.mono fun _ _ => Working.jobs) fun _ => trivial)
  · exact (task_asks hjob).2

/-- Only the thread that opens a round spawns jobs into it. -/
theorem spawned_by_opener (run : (daemon env tasks w).Run moves last)
    (hopener : 0 < tally (rise (opened request)) (Pool.own r moves)) {kind : Job → Bool}
    (hkind : ∀ job, kind job = true → job.In request) (hj : j ≠ r) :
    tally (rise (waiting kind)) (Pool.own j moves) = 0 := by
  have hboth := @Pool.own_add_own_le _ moves (rise (opened request)) j r hj
  have hone := @opened_le_one env w tasks moves last request run
  exact spawnsOwn_task (tasks j) _ _ (run.path j) request kind hkind (by omega)

/-- No more jobs of a kind are taken than the opener of their round spawns. -/
theorem taken_le_spawned (hstart : Started env w) (run : (daemon env tasks w).Run moves last)
    (hopener : 0 < tally (rise (opened request)) (Pool.own r moves)) {kind : Job → Bool}
    (hkind : ∀ job, kind job = true → job.In request) :
    tally (fall (waiting kind)) (Pool.steps moves) ≤ tally (rise (waiting kind)) (Pool.own r moves) := by
  have hbalance := run.balance (waiting kind)
  have hzero : waiting kind (daemon env tasks w).shared = 0 := hstart.waiting kind
  rw [Pool.tally_eq_own fun j hj => spawned_by_opener run hopener hkind hj] at hbalance
  omega

theorem ended_by_job (run : (daemon env tasks w).Run moves last) (hj : tasks j ≠ .job)
    (kind : JobResult → Bool) : tally (rise (ended kind)) (Pool.own j moves) = 0 :=
  tally_eq_zero fun step hstep =>
    rise_ended_of_sublist (((task_asks hj).1.path (run.path j)).1 step hstep).finished kind

/-- No more results of a place are joined than jobs of it are taken. -/
theorem joined_le_taken (hstart : Started env w) (run : (daemon env tasks w).Run moves last) (request index : Nat) :
    tally (fall (ended (resultAt request index))) (Pool.steps moves) ≤
      tally (fall (waiting (jobAt request index))) (Pool.steps moves) := by
  have hbalance := run.balance (ended (resultAt request index))
  have hzero := hstart.ended (resultAt request index)
  have hthreads : tally (rise (ended (resultAt request index))) (Pool.steps moves) ≤
      tally (fall (waiting (jobAt request index))) (Pool.steps moves) := by
    apply Pool.tally_le_tally
    intro j
    by_cases hj : tasks j = .job
    · exact job_balance (own_path run hj) request index
    · rw [ended_by_job run hj]
      exact Nat.zero_le _
  have hfirst : ended (resultAt request index) (daemon env tasks w).shared = 0 := hzero
  omega

/-- A job that is taken has been spawned by some thread. -/
theorem spawned_of_taken (hstart : Started env w) (run : (daemon env tasks w).Run moves last) {job : Job}
    (hslot : job.slot.isSome) {step : World × World} (hstep : step ∈ Pool.own j moves) (hjob : job ∈ step.1.jobs) :
    ∃ i, 0 < tally (rise (waiting fun other => other = job)) (Pool.own i moves) := by
  obtain ⟨s, t⟩ := step
  obtain ⟨steps, others, hown⟩ := List.append_of_mem hstep
  obtain ⟨before, after, rfl, -, -⟩ := Pool.own_eq_append hown
  obtain ⟨mid, hbefore, hafter⟩ := run.split
  have hbalance := hbefore.balance (waiting fun other => other = job)
  have hzero : waiting (fun other => other = job) (daemon env tasks w).shared = 0 := hstart.waiting _
  have hwaits : 0 < waiting (fun other => other = job) mid.shared := by
    rw [← hafter.before_eq]
    exact waiting_pos hjob hslot (decide_eq_true rfl)
  obtain ⟨i, hi⟩ := @Pool.exists_own_of_tally_pos _ before (rise (waiting fun other => other = job)) (by omega)
  refine ⟨i, ?_⟩
  rw [Pool.own_append, tally_append]
  omega

end

end Causeway
