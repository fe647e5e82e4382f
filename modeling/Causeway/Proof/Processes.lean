import Causeway.Proof.Estates

/-!
# Starting and stopping

Every way out of a start and of a stop gives back what was taken on the way in. Each part of the program has the estate it begins with, and those it may end with.
-/

namespace Causeway

open Concurrent Prog

namespace Plane

section

variable {plane : DispatchPlane} {node : Node} {i : Nat} {α β : Type} {k l : Estate} {G : α → Estate → Prop}
  {B : Estate → Prop}

/-- Every call of the part is a call of thread `i`, and it ends so or so. -/
def Runs (plane : DispatchPlane) (node : Node) (i : Nat) (p : Plane α) (k : Estate) (G : α → Estate → Prop)
    (B : Estate → Prop) : Prop :=
  Tries (Manages plane node i) p k G fun _ => B

/-- The estate after a call that may have failed. -/
def orElse (k : Estate) (l : α → Estate) : Except ErrorKind α → Estate
  | .ok a => l a
  | .error _ => k

namespace Runs

theorem pure {a : α} (h : G a k) : Runs plane node i (Pure.pure a) k G B := Tries.pure h

theorem fail {error : String} (h : B k) : Runs plane node i (Plane.fail error : Plane α) k G B := Tries.throw h

theorem bind {p : Plane α} {q : α → Plane β} {H : β → Estate → Prop} (hp : Runs plane node i p k G B)
    (hq : ∀ a l, G a l → Runs plane node i (q a) l H B) : Runs plane node i (p >>= q) k H B :=
  Tries.bind hp hq

theorem weaken {p : Plane α} {H : α → Estate → Prop} {C : Estate → Prop} (h : Runs plane node i p k G B)
    (hgood : ∀ a l, G a l → H a l) (hbad : ∀ l, B l → C l) : Runs plane node i p k H C :=
  Tries.weaken h hgood fun _ => hbad

theorem call {f : Answer → Plant → α × Plant} (F : α → Estate)
    (h : ∀ o w, Owns plane node i w k → Manages plane node i k w (f o w).2 (F (f o w).1)) :
    Runs plane node i (Plane.call f) k (fun a l => l = F a) B := by
  refine Tries.step fun o w r t hact => ?_
  cases hact
  by_cases hw : Owns plane node i w k
  · exact ⟨_, h o w hw, .ok rfl⟩
  · exact ⟨_, .impossible hw, .ok rfl⟩

theorem step {f : Answer → Plant → α × Plant}
    (h : ∀ o w, ∃ l, Manages plane node i k w (f o w).2 l ∧ G (f o w).1 l) :
    Runs plane node i (Plane.call f) k G B := by
  refine Tries.step fun o w r t hact => ?_
  cases hact
  obtain ⟨l, hstep, hl⟩ := h o w
  exact ⟨l, hstep, .ok hl⟩

theorem look {f : Answer → Plant → α × Plant} (h : ∀ o w, (f o w).2 = w) :
    Runs plane node i (Plane.call f) k (fun _ l => l = k) B :=
  .call (fun _ => k) fun o w _ => by
    rw [h]
    exact .still

theorem awaits {f : Answer → Plant → Option (α × Plant)} (F : α → Estate) (hdrop : B k)
    (h : ∀ o w a t, f o w = some (a, t) → Manages plane node i k w t (F a)) :
    Runs plane node i (Plane.awaits f) k (fun a l => l = F a) B := by
  refine Tries.step fun o w r t hact => ?_
  split at hact
  · cases hact
    exact ⟨k, .still, .error hdrop⟩
  · obtain ⟨⟨a, u⟩, hf, heq⟩ := Option.map_eq_some_iff.mp hact
    cases heq
    exact ⟨_, h o w a u hf, .ok rfl⟩

theorem check {context : String} {p : Plane (Except ErrorKind α)} {M : Except ErrorKind α → Estate → Prop}
    (hp : Runs plane node i p k M B) (hok : ∀ a l, M (.ok a) l → G a l) (herror : ∀ kind l, M (.error kind) l → B l) :
    Runs plane node i (Plane.check context p) k G B := by
  refine hp.bind fun r l hr => ?_
  cases r with
  | ok a => exact .pure (hok a l hr)
  | error kind => exact .fail (herror kind l hr)

theorem ensure {p : Prop} [Decidable p] {error : String} (hbad : B k) :
    Runs plane node i (Plane.ensure p error) k (fun _ l => l = k) B := by
  unfold Plane.ensure
  split
  · exact .pure rfl
  · exact .fail hbad

theorem orDrop {p : Plane α} {drop : Plane Unit} {M : Estate → Prop} (hp : Runs plane node i p k G M)
    (hdrop : ∀ l, M l → Runs plane node i drop l (fun _ => B) B) : Runs plane node i (p.orDrop drop) k G B :=
  Tries.tryCatch hp fun _ l hl => Tries.bind (hdrop l hl) fun _ _ h => Tries.throw h

theorem observing {p : Plane α} {M : Estate → Prop} {H : Except Halt α → Estate → Prop}
    (hp : Runs plane node i p k G M) (hok : ∀ a l, G a l → H (.ok a) l) (herror : ∀ x l, M l → H (.error x) l) :
    Runs plane node i p.observing k H B :=
  Tries.tryCatch (Tries.map hp hok) fun x l hl => Tries.pure (herror x l hl)

theorem checkCall {context : String} {f : Answer → Plant → Except ErrorKind α × Plant} {l : α → Estate} (hbad : B k)
    (h : ∀ o w, (∃ kind, f o w = (.error kind, w)) ∨
      ∃ a, (f o w).1 = .ok a ∧ Manages plane node i k w (f o w).2 (l a)) :
    Runs plane node i (Plane.check context (Plane.call f)) k (fun a m => m = l a) B := by
  refine .check (.call (orElse k l) fun o w _ => ?_) (fun a m hm => hm) fun kind m hm => ?_
  · rcases h o w with ⟨kind, hf⟩ | ⟨a, hok, hstep⟩
    · rw [hf]
      exact .still
    · rw [hok]
      exact hstep
  · rw [hm]
    exact hbad

end Runs

/-! ### Files -/

variable {before after : List (String × PrivateFile)} {entry : Option (String × PrivateFile)} {config : PrivateConfig}

/-- What a cleanup leaves of a file. -/
def Removes (result : Except String Unit) (entry rest : Option (String × PrivateFile)) : Prop :=
  (result = .ok () ∧ rest = none) ∨ ((∃ error, result = .error error) ∧ rest = entry)

theorem Removes.gone {result : Except String Unit} {entry rest : Option (String × PrivateFile)}
    (h : Removes result entry rest) (hgone : result = .ok () ∨ entry = none) : rest = none := by
  rcases h with ⟨-, hnone⟩ | ⟨⟨error, herror⟩, hsame⟩
  · exact hnone
  · rcases hgone with hok | hnone
    · cases herror.symm.trans hok
    · exact hsame.trans hnone

/-- What a cleanup makes of the estate: the file is gone, or nothing has changed. -/
def Cleaned (k : Estate) (before after : List (String × PrivateFile)) (entry : Option (String × PrivateFile))
    (result : Except String Unit) (path : Option String) (l : Estate) : Prop :=
  ∃ rest : Option (String × PrivateFile), l = { k with files := before ++ rest.toList ++ after } ∧
    path = rest.map Prod.fst ∧ Removes result entry rest

def afterRemoval (k : Estate) (files : List (String × PrivateFile)) : Except ErrorKind Unit → Estate
  | .ok () => { k with files := files }
  | .error kind => if kind = .notFound then { k with files := files } else k

theorem runs_cleanup (hk : k.held = none) (hfiles : k.files = before ++ entry.toList ++ after)
    (hpath : config.path = entry.map Prod.fst) :
    Runs plane node i (config.cleanup plane) k (fun r => Cleaned k before after entry r.1 r.2.path) B := by
  unfold PrivateConfig.cleanup
  cases entry with
  | none =>
      rw [hpath]
      exact .pure ⟨none, by rw [← hfiles], hpath, .inl ⟨rfl, rfl⟩⟩
  | some entry =>
      rw [hpath]
      dsimp only [Option.map_some]
      have hsplit : k.files = before ++ entry :: after := by
        rw [hfiles, Option.toList_some, List.append_assoc, List.singleton_append]
      have hgone : ∀ l, l = { k with files := before ++ after } →
          Cleaned k before after (some entry) (.ok ()) none l := by
        rintro _ rfl
        exact ⟨none, by simp, rfl, .inl ⟨rfl, rfl⟩⟩
      refine Runs.bind (.call (afterRemoval k (before ++ after)) fun o w hw => ?_) fun r l hl => ?_
      · have hthere := (hw.files.there entry (by rw [hsplit]; simp)).1
        unfold Plant.removeFile
        rw [hthere]
        cases o.error with
        | none => exact .removed hk hsplit
        | some kind =>
            have hother : (if kind = .notFound then .other else kind) ≠ ErrorKind.notFound := by
              split
              · rintro ⟨⟩
              · assumption
            dsimp only
            rw [afterRemoval, if_neg hother]
            exact .still
      · subst hl
        split
        · exact .pure (hgone _ rfl)
        · exact .pure (hgone _ (by rw [afterRemoval, if_pos rfl]))
        · rename_i hne
          rw [afterRemoval, if_neg hne]
          exact .pure ⟨some entry, by rw [← hfiles], hpath, .inr ⟨⟨_, rfl⟩, rfl⟩⟩

theorem runs_cleanupAcl {acl : Option PrivateConfig} (hk : k.held = none)
    (hfiles : k.files = before ++ entry.toList ++ after) (hpath : acl.bind (·.path) = entry.map Prod.fst) :
    Runs plane node i (AdapterHandle.cleanupAcl plane acl) k
      (fun r => Cleaned k before after entry r.1 (r.2.bind (·.path))) B := by
  cases acl with
  | none =>
      cases entry with
      | none => exact .pure ⟨none, by rw [← hfiles], rfl, .inl ⟨rfl, rfl⟩⟩
      | some entry => cases hpath
  | some acl => exact Runs.bind (runs_cleanup hk hfiles hpath) fun r l hr => .pure hr

/-- The estate after a file is dropped: it is gone, or named in the log. -/
def Dropped (k : Estate) (before after : List (String × PrivateFile)) (entry : Option (String × PrivateFile))
    (l : Estate) :
    Prop :=
  ∃ left, l = { k with files := before ++ after, left := left } ∧ (entry = none → left = k.left)

theorem runs_drop (hk : k.held = none) (hfiles : k.files = before ++ entry.toList ++ after)
    (hpath : config.path = entry.map Prod.fst) :
    Runs plane node i (config.drop plane) k (fun _ => Dropped k before after entry) B := by
  unfold PrivateConfig.drop
  refine Runs.bind (runs_cleanup hk hfiles hpath) fun r l hr => ?_
  obtain ⟨rest, rfl, -, ⟨hok, rfl⟩ | ⟨⟨error, herror⟩, rfl⟩⟩ := hr
  · rw [hok]
    exact .pure ⟨k.left, by simp, fun _ => rfl⟩
  · rw [herror, hpath]
    cases rest with
    | none => exact .pure ⟨k.left, by simp, fun _ => rfl⟩
    | some entry =>
        refine (Runs.call (fun _ => { k with files := before ++ after, left :=
          entry.1 :: k.left }) fun o w _ => ?_).weaken
          (fun _ m hm => ⟨_, hm, by rintro ⟨⟩⟩) fun _ h => h
        refine @Manages.warned plane node i { k with files := before ++ [entry] ++ after } w entry before after hk ?_
        rw [List.append_assoc, List.singleton_append]

theorem runs_dropAcl {acl : Option PrivateConfig} (hk : k.held = none)
    (hfiles : k.files = before ++ entry.toList ++ after) (hpath : acl.bind (·.path) = entry.map Prod.fst) :
    Runs plane node i (dropAcl plane acl) k (fun _ => Dropped k before after entry) B := by
  cases acl with
  | none =>
      cases entry with
      | none =>
          refine .pure ⟨k.left, ?_, fun _ => rfl⟩
          rw [Option.toList_none, List.append_nil] at hfiles
          rw [← hfiles]
      | some entry => cases hpath
  | some acl => exact runs_drop hk hfiles hpath

variable {adapter : String} {bytes : Bytes}

theorem answer_cases (o : Answer) (w : Plant) {γ : Type} (f : Except ErrorKind γ × Plant) :
    (∃ kind, o.attempt w f = (.error kind, w)) ∨ o.attempt w f = f := by
  unfold Answer.attempt
  split
  · exact .inl ⟨_, rfl⟩
  · exact .inr rfl

theorem runs_attempt {context : String} (hbad : B k) :
    Runs plane node i (.check context (.call fun o w => o.attempt w (.ok (), w))) k (fun _ l => l = k) B :=
  .checkCall hbad fun o w => (answer_cases o w _).imp_right fun h => ⟨(), by rw [h], by rw [h]; exact .still⟩

/-- The file that a start has made, under some name. -/
def Made (i : Nat) (k : Estate) (bytes : Bytes) (config : PrivateConfig) (l : Estate) : Prop :=
  ∃ name, config.path = some name ∧ l = { k with files := (name, ⟨bytes, 0o600, some i⟩) :: k.files }

/-- An estate with other files named in the log. -/
def Logged (k l : Estate) : Prop := ∃ left, l = { k with left := left }

theorem runs_drop_added {name : String} {file : PrivateFile} (hk : k.held = none) :
    Runs plane node i (PrivateConfig.drop plane ⟨some name⟩) (k.adding name file) (fun _ => Logged k) (Logged k) :=
  (@runs_drop plane node i (k.adding name file) _ [] k.files (some (name, file)) ⟨some name⟩ hk rfl rfl).weaken
    (fun _ _ ⟨left, hl, _⟩ => ⟨left, hl⟩) fun _ h => h

theorem runs_fill {name : String} {mode : UInt32} {secure write sync : String} (hk : k.held = none) :
    Runs plane node i (do
      .check secure (.call fun o w => w.setMode o name 0o600)
      .check write (.call fun o w => w.writeAll o name bytes)
      .check sync (.call fun o w => o.attempt w (.ok (), w))
      return ⟨some name⟩) (k.adding name ⟨[], mode, some i⟩) (Made i k bytes)
      (fun l => ∃ file, l = k.adding name file) := by
  have hprivate : (0o600 : UInt32) &&& 0o077 = 0 := by decide
  refine Runs.bind (.checkCall (l := fun _ => k.adding name ⟨[], 0o600, some i⟩) ⟨_, rfl⟩ fun o w => ?_) fun _ l hl => ?_
  · refine (answer_cases o w _).imp_right fun h => ⟨(), ?_⟩
    rw [Plant.setMode, h]
    exact ⟨rfl, .rewritten hk rfl fun _ => hprivate⟩
  subst hl
  refine Runs.bind (.check (.step (G := fun r l => ∃ content, l = k.adding name ⟨content, 0o600, some i⟩ ∧
    (r = .ok () → content = bytes)) fun o w => ?_) (G := fun _ l => l = k.adding name ⟨bytes, 0o600, some i⟩)
      (fun _ l hl => ?_) fun _ l hl => ?_) fun _ l hl => ?_
  · unfold Plant.writeAll
    cases o.error with
    | some kind =>
        refine ⟨_, .rewritten hk rfl fun _ => hprivate, _, rfl, ?_⟩
        rintro ⟨⟩
    | none => exact ⟨_, .rewritten hk rfl fun _ => hprivate, _, rfl, fun _ => rfl⟩
  · obtain ⟨content, rfl, hcontent⟩ := hl
    rw [hcontent rfl]
  · obtain ⟨content, rfl, -⟩ := hl
    exact ⟨_, rfl⟩
  subst hl
  refine Runs.bind (runs_attempt ⟨_, rfl⟩) fun _ l hl => ?_
  subst hl
  exact .pure ⟨name, rfl, rfl⟩

theorem runs_createWithin {attempts : Nat} (hk : k.held = none) :
    Runs plane node i (createWithin plane i adapter bytes attempts) k (Made i k bytes) (Logged k) := by
  induction attempts with
  | zero => exact .fail ⟨k.left, rfl⟩
  | succ attempts ih =>
      unfold createWithin
      refine Runs.bind (.call (fun _ => k) fun o w _ => .counted) fun sequence l hl => ?_
      subst hl
      generalize privateConfigName adapter plane.pid sequence = name
      refine Runs.bind (.step (G := fun r m =>
        if r = .ok () then ∃ mode, m = l.adding name ⟨[], mode, some i⟩ else m = l) fun o w => ?_) fun r m hm => ?_
      · unfold Plant.createNew
        rcases answer_cases o w _ with ⟨kind, h⟩ | h <;> rw [h]
        · exact ⟨l, .still, rfl⟩
        · cases hfree : w.files name with
          | some file => exact ⟨l, .still, rfl⟩
          | none =>
              refine ⟨_, .created hk hfree ?_, _, rfl⟩
              rw [UInt32.and_comm, ← UInt32.and_assoc, show (0o077 &&& 0o600 : UInt32) = 0 by decide, UInt32.zero_and]
      · split
        · obtain ⟨mode, rfl⟩ := hm
          refine .orDrop (runs_fill hk) fun m hm => ?_
          obtain ⟨file, rfl⟩ := hm
          exact runs_drop_added hk
        · rw [if_neg (by rintro ⟨⟩)] at hm
          subst hm
          exact ih
        · rename_i hne
          rw [if_neg (by rintro ⟨⟩)] at hm
          subst hm
          exact .fail ⟨m.left, rfl⟩

theorem runs_create (hk : k.held = none) :
    Runs plane node i (PrivateConfig.create plane i adapter bytes) k (Made i k bytes) (Logged k) := by
  unfold PrivateConfig.create
  refine Runs.bind (runs_attempt ⟨k.left, rfl⟩) fun _ l hl => ?_
  subst hl
  refine Runs.bind (runs_attempt ⟨l.left, rfl⟩) fun _ m hm => ?_
  subst hm
  exact runs_createWithin hk

/-! ### Children -/

variable {child : Child} {ward : Ward}

/-- The handle of a child, and what the estate has of it. -/
inductive Minds (k : Estate) (child : Child) : Prop
  | done (hdone : child.done = true) (none : k.child = none)
  | open' (hopen : child.done = false) {ward : Ward} (some : k.child = some ward) (pid : ward.pid = child.pid)

/-- An estate in which only the child may be another. -/
def OnlyChild (k l : Estate) : Prop := ∃ child, l = { k with child := child }

theorem runs_tryWait (hk : k.held = none) (hchild : Minds k child) :
    Runs plane node i child.tryWait k (fun r l =>
      (r = (.ok true, { child with done := true }) ∧ l = { k with child := none }) ∨
        (r.1 ≠ .ok true ∧ r.2 = child ∧ child.done = false ∧ l = k)) B := by
  unfold Child.tryWait
  cases hchild with
  | done hdone hnone =>
      rw [if_pos hdone]
      refine .pure (.inl ⟨?_, ?_⟩)
      · rw [← hdone]
      · rw [← hnone]
  | @open' hopen ward hsome hpid =>
      rw [if_neg (by rw [hopen]; decide)]
      refine Runs.bind (.call (fun r => if r = .ok true then { k with child := none } else k) fun o w _ => ?_)
        fun r l hl => ?_
      · unfold Plant.tryWait
        rcases answer_cases o w _ with ⟨kind, h⟩ | h <;> rw [h]
        · exact .still
        · cases w.processes child.pid with
          | none => exact .still
          | some entry =>
              dsimp only
              split
              · rw [← hpid]
                exact .waited hk hsome
              · exact .still
      · subst hl
        split
        · exact .pure (.inl ⟨rfl, rfl⟩)
        · rename_i hne
          rw [if_neg hne]
          exact .pure (.inr ⟨hne, rfl, hopen, rfl⟩)

theorem runs_kill (hk : k.held = none) (hsome : k.child = some ward) :
    Runs plane node i (.call fun _ w => w.kill ward.pid) k
      (fun _ l => l = { k with child := some { ward with felled := true } }) B := by
  refine .call (fun _ => { k with child := some { ward with felled := true } }) fun o w hw => ?_
  obtain ⟨entry, hentry, -⟩ := hw.child.there ward hsome
  unfold Plant.kill
  rw [hentry]
  dsimp only
  split
  · rename_i hkillable
    exact .spared hk hsome hentry (.inr (by simpa using hkillable))
  · split
    · exact .killed hk hsome
    · exact .spared hk hsome hentry (.inl ‹_›)

theorem runs_waitTimeout (hk : k.held = none) (hsome : k.child = some ward) (hpid : ward.pid = child.pid) :
    Runs plane node i child.waitTimeout k (fun r l =>
      (r = (some (.ok ()), { child with done := true }) ∧ l = { k with child := none }) ∨
        (r.1 ≠ some (.ok ()) ∧ r.2 = child ∧ l = k)) (· = k) := by
  unfold Child.waitTimeout
  refine Runs.bind (.awaits (fun r => if r = some (.ok ()) then { k with child := none } else k) rfl
    fun o w r t hact => ?_) fun r l hl => ?_
  · unfold Plant.waitTimeout at hact
    split at hact
    · cases hact
      exact .still
    · split at hact
      · cases hact
        exact .still
      · split at hact
        · cases hact
          rw [if_pos rfl, ← hpid]
          exact .waited hk hsome
        · cases hact
      · cases hact
        exact .still
  · subst hl
    split
    · exact .pure (.inl ⟨rfl, rfl⟩)
    · rename_i hne
      rw [if_neg hne]
      exact .pure (.inr ⟨hne, rfl, rfl⟩)

theorem runs_stopOwnedChild (hk : k.held = none) (hchild : Minds k child) :
    Runs plane node i (stopOwnedChild child adapter) k
      (fun r l => OnlyChild k l ∧ Minds l r.2 ∧ (r.1 = .ok () ∨ k.child = none → l.child = none))
      (fun l => child.done = false ∧ OnlyChild k l ∧ Minds l child) := by
  unfold stopOwnedChild
  refine Runs.bind (runs_tryWait hk hchild) fun r l hl => ?_
  rcases hl with ⟨rfl, rfl⟩ | ⟨hne, hsame, hopen, rfl⟩
  · exact .pure ⟨⟨none, rfl⟩, .done rfl rfl, fun _ => rfl⟩
  · obtain ⟨result, found⟩ := r
    dsimp only at hne hsame
    subst hsame
    cases hchild with
    | done hdone => exact absurd hdone (by rw [hopen]; decide)
    | @open' _ ward hsome hpid =>
        have hnever : ∀ {error : String} {m : Estate},
            (Except.error error : Except String Unit) = .ok () ∨ l.child = none → m.child = none := by
          intro error m hgone
          rcases hgone with hok | hnone
          · cases hok
          · cases hsome.symm.trans hnone
        split
        · rename_i heq
          cases heq
          exact absurd rfl hne
        · rename_i heq
          cases heq
          exact .pure ⟨⟨l.child, rfl⟩, .open' hopen hsome hpid, hnever⟩
        · rename_i heq
          cases heq
          have hkill : Runs plane node i found.startKill l
              (fun _ m => m = { l with child := some { ward with felled := true } })
              (fun m => found.done = false ∧ OnlyChild l m ∧ Minds m found) := by
            rw [Child.startKill, if_neg (by rw [hopen]; decide), ← hpid]
            exact runs_kill hk hsome
          refine Runs.bind hkill fun r m hm => ?_
          have hheld : m.held = none := by rw [hm]; exact hk
          have hchild : m.child = some { ward with felled := true } := by rw [hm]
          have honly : OnlyChild l m := ⟨_, hm⟩
          have hminds : Minds m found := .open' hopen hchild hpid
          split
          · exact .pure ⟨honly, hminds, hnever⟩
          · refine Runs.bind ((runs_waitTimeout hheld hchild hpid).weaken (fun _ _ h => h) fun m' hm' => ?_)
              fun r m' hm' => ?_
            · rw [hm']
              exact ⟨hopen, honly, hminds⟩
            · rcases hm' with ⟨rfl, rfl⟩ | ⟨hne, hsame, rfl⟩
              · refine .pure ⟨⟨none, ?_⟩, .done rfl rfl, fun _ => rfl⟩
                rw [hm]
              · obtain ⟨result, found⟩ := r
                dsimp only at hne hsame
                subst hsame
                split
                · rename_i heq
                  cases heq
                  exact absurd rfl hne
                · rename_i heq
                  cases heq
                  exact .pure ⟨honly, hminds, hnever⟩
                · rename_i heq
                  cases heq
                  exact .pure ⟨honly, hminds, hnever⟩

theorem runs_dropChild (hk : k.held = none) (hchild : Minds k child) :
    Runs plane node i child.drop k (fun _ l => ∃ orphan, l = { k with child := none, orphan := orphan } ∧
      (k.child = none → orphan = k.orphan)) B := by
  unfold Child.drop
  cases hchild with
  | done hdone hnone =>
      rw [if_pos hdone]
      refine .pure ⟨k.orphan, ?_, fun _ => rfl⟩
      rw [← hnone]
  | @open' hopen ward hsome hpid =>
      rw [if_neg (by rw [hopen]; decide), ← hpid]
      refine Runs.bind (runs_kill hk hsome) fun _ l hl => ?_
      subst hl
      refine (Runs.call (fun _ => { k with child := none, orphan := true }) fun o w _ => ?_).weaken
        (fun _ l hl => ⟨true, hl, fun h => by rw [hsome] at h; cases h⟩) fun _ h => h
      exact @Manages.orphaned plane node i { k with child := some { ward with felled := true } } w
        { ward with felled := true } hk rfl rfl

/-! ### Handles -/

variable {handle : AdapterHandle}

/-- The estate of a thread that has a handle and nothing else. -/
structure Tended (k : Estate) (handle : AdapterHandle) : Prop where
  files : ∃ config acl : Option (String × PrivateFile), k.files = config.toList ++ acl.toList ∧
    handle.config.path = config.map Prod.fst ∧ handle.aclConfig.bind (·.path) = acl.map Prod.fst
  child : Minds k handle.child
  sockets : k.sockets = []
  held : k.held = none
  left : k.left = []
  orphan : k.orphan = false

/-- Nothing is left to do. -/
structure Cleared (k : Estate) : Prop where
  files : k.files = []
  child : k.child = none
  sockets : k.sockets = []
  held : k.held = none

def Stopped (k : Estate) : Prop := k.files = [] ∧ k.child = none

/-- Nothing was left to others either. -/
def Spotless (k : Estate) : Prop := k.left = [] ∧ k.orphan = false

theorem ok_of_seq {a b c : Except String Unit} (h : (a *> b *> c) = .ok ()) : a = .ok () ∧ b = .ok () ∧ c = .ok () := by
  cases a with
  | error => cases h
  | ok =>
      cases b with
      | error => cases h
      | ok => exact ⟨rfl, rfl, h⟩

theorem runs_stop (h : Tended k handle) :
    Runs plane node i (handle.stop plane) k
      (fun r l => Tended l r.2 ∧ (r.1 = .ok () ∨ Stopped k → Stopped l))
      (fun l => handle.child.done = false ∧ Tended l handle) := by
  obtain ⟨config, acl, hfiles, hconfig, hacl⟩ := h.files
  unfold AdapterHandle.stop
  refine Runs.bind ((runs_stopOwnedChild h.held h.child).weaken (fun _ _ h => h) fun l hl => ?_) fun r l hl => ?_
  · obtain ⟨hopen, ⟨child, rfl⟩, hminds⟩ := hl
    exact ⟨hopen, h.files, hminds, h.sockets, h.held, h.left, h.orphan⟩
  obtain ⟨⟨child, rfl⟩, hminds, hstopped⟩ := hl
  have hfirst : ({ k with child := child } : Estate).files = [] ++ config.toList ++ acl.toList := hfiles
  refine Runs.bind (runs_cleanup h.held hfirst hconfig) fun r' l hl => ?_
  obtain ⟨left, rfl, hpath, hcleaned⟩ := hl
  have hsecond : ({ k with files := [] ++ left.toList ++ acl.toList, child := child } : Estate).files =
      left.toList ++ acl.toList ++ [] := (List.append_nil _).symm
  refine Runs.bind (runs_cleanupAcl h.held hsecond hacl) fun r'' l hl => ?_
  obtain ⟨rest, rfl, hrest, hcleared⟩ := hl
  refine .pure ⟨⟨⟨left, rest, List.append_nil _, hpath, hrest⟩, ?_, h.sockets, h.held, h.left, h.orphan⟩, fun hdone => ?_⟩
  · cases hminds with
    | done hdone hnone => exact .done hdone hnone
    | open' hopen hsome hpid => exact .open' hopen hsome hpid
  · have hgone : left = none ∧ rest = none ∧ (r.1 = .ok () ∨ k.child = none) := by
      rcases hdone with hok | ⟨hempty, hchild⟩
      · obtain ⟨hok, hok', hok''⟩ := ok_of_seq hok
        exact ⟨hcleaned.gone (.inl hok'), hcleared.gone (.inl hok''), .inl hok⟩
      · rw [hfiles, List.append_eq_nil_iff, Option.toList_eq_nil_iff, Option.toList_eq_nil_iff] at hempty
        exact ⟨hcleaned.gone (.inr hempty.1), hcleared.gone (.inr hempty.2), .inr hchild⟩
    rw [hgone.1, hgone.2.1]
    exact ⟨rfl, hstopped hgone.2.2⟩

theorem runs_dropHandle (h : Tended k handle) :
    Runs plane node i (handle.drop plane) k
      (fun _ l => Cleared l ∧ (k.files = [] → k.child = none → Spotless l)) B := by
  obtain ⟨config, acl, hfiles, hconfig, hacl⟩ := h.files
  unfold AdapterHandle.drop
  have hfirst : k.files = [] ++ config.toList ++ acl.toList := hfiles
  refine Runs.bind (runs_cleanup h.held hfirst hconfig) fun r l hl => ?_
  obtain ⟨left, rfl, hpath, hcleaned⟩ := hl
  have hsecond : ({ k with files := [] ++ left.toList ++ acl.toList } : Estate).files =
      left.toList ++ acl.toList ++ [] := (List.append_nil _).symm
  refine Runs.bind (runs_cleanupAcl h.held hsecond hacl) fun r' l hl => ?_
  obtain ⟨rest, rfl, hrest, hcleared⟩ := hl
  have hminds : Minds ({ k with files := left.toList ++ rest.toList ++ [] } : Estate) handle.child := by
    cases h.child with
    | done hdone hnone => exact .done hdone hnone
    | open' hopen hsome hpid => exact .open' hopen hsome hpid
  refine Runs.bind (runs_dropChild h.held hminds) fun _ l hl => ?_
  obtain ⟨orphan, rfl, horphan⟩ := hl
  refine Runs.bind (@runs_drop plane node i _ _ [] rest.toList left r.2 h.held (List.append_nil _) hpath) fun _ l hl => ?_
  obtain ⟨lost, rfl, hlost⟩ := hl
  have hthird : ({ k with files := [] ++ rest.toList, child := none, orphan := orphan, left := lost } : Estate).files =
      [] ++ rest.toList ++ [] := by simp
  refine Runs.weaken (runs_dropAcl h.held hthird hrest) (fun _ l hl => ?_) fun _ h => h
  obtain ⟨more, rfl, hmore⟩ := hl
  refine ⟨⟨rfl, rfl, h.sockets, h.held⟩, fun hempty hchild => ⟨?_, ?_⟩⟩
  · rw [hfiles, List.append_eq_nil_iff, Option.toList_eq_nil_iff, Option.toList_eq_nil_iff] at hempty
    have hleft : left = none := hcleaned.gone (.inr hempty.1)
    have hrest : rest = none := hcleared.gone (.inr hempty.2)
    exact ((hmore hrest).trans (hlost hleft)).trans h.left
  · exact (horphan hchild).trans h.orphan

end

end Plane

end Causeway
