import Causeway.Proof.Locking

/-!
# Saves keep the discipline

Every file-system step of a save is one of the thread's own `FileStep`s, and a save leaves everything else the thread knows as it was.
-/

namespace Causeway

open Concurrent History

/-- What a thread still knows inside its own save. -/
structure Saves (env : Env) (i : Nat) (s t : Core) : Prop extends StaysLocked env i s t where
  window : t.files.window i = s.files.window i

section

variable {env : Env} {i : Nat} {s t u : Core}

theorem Sees.saves (h : Sees env i s t) : Saves env i s t := ⟨h.staysLocked, h.window⟩

theorem Saves.trans (h : Saves env i s t) (g : Saves env i t u) : Saves env i s u :=
  ⟨h.toStaysLocked.trans g.toStaysLocked, g.window.trans h.window⟩

/-- Only the files differ. -/
def Refiled (s t : Core) : Prop := t = { s with files := t.files }

theorem Refiled.staysLocked (h : Refiled s t) : StaysLocked env i s t := by
  rw [h]
  exact {
    published := le_rfl
    hist := fun _ => List.suffix_rfl
    hold := fun _ _ => rfl
    cell := fun _ _ _ => rfl
    subs := fun _ => ⟨rfl, rfl⟩
    state := fun _ => rfl
    mutex := rfl
    bound := fun _ hb => ⟨hb.state, hb.traffic⟩ }

theorem Refiled.hold (h : Refiled s t) (name : LockName) : t.hold i name = s.hold i name := by
  rw [h]
  rfl

theorem Refiled.inv (h : Refiled s t) (hs : Inv env s) : Inv env t := by
  rw [h]
  exact ⟨fun cls hcls hfree => (hs.settled cls hcls hfree).congr rfl rfl, hs.route, hs.count, hs.history,
    hs.era, fun cls hcls hfree => (hs.epochs cls hcls hfree).congr rfl rfl rfl rfl, hs.reads, hs.log, hs.stamps, hs.jobs,
    fun hfree => ⟨(hs.bound hfree).state, (hs.bound hfree).traffic⟩, hs.replaced⟩

theorem SaveKind.window_of_ne {kind : SaveKind} {j : Nat} {pending : String → Option (String × Bool)}
    {window : Nat → Option (String × Bool)} (h : j ≠ i) : kind.window i pending window j = window j := by
  cases kind with
  | shared => rfl
  | cloned target commit => exact Function.update_of_ne h _ _

/-- A file step touches no other thread's save. -/
theorem FileStep.others {hold : LockName → Hold} {f g : Files} (h : FileStep env i hold f g) {j : Nat}
    (hj : j ≠ i) : g.saves j = f.saves j ∧ g.window j = f.window j := by
  cases h with
  | begin idle settled serialized guarded => exact ⟨Function.update_of_ne hj _ _, SaveKind.window_of_ne hj⟩
  | openTmp saving fresh unnamed => exact ⟨Function.update_of_ne hj _ _, rfl⟩
  | write saving opened unnamed next => exact ⟨Function.update_of_ne hj _ _, rfl⟩
  | rename saving opened done unnamed renamed => exact ⟨Function.update_of_ne hj _ _, rfl⟩
  | finish saving success => exact ⟨Function.update_of_ne hj _ _, SaveKind.window_of_ne hj⟩
  | publish idle => exact ⟨rfl, Function.update_of_ne hj _ _⟩

theorem Refiled.sees (h : Refiled s t) {hold : LockName → Hold} (hstep : FileStep env i hold s.files t.files)
    {j : Nat} (hj : j ≠ i) : Sees env j s t := by
  obtain ⟨hsave, hwindow⟩ := hstep.others hj
  have hstays : StaysLocked env j s t := h.staysLocked
  exact {
    hstays with
    hold := fun name => h.hold name
    era := fun _ => by rw [h]
    save := hsave
    window := hwindow
    counted := fun _ => by rw [h]
    selections := by rw [h]
    selected := fun _ => by rw [h] }

theorem Refiled.guar (h : Refiled s t) (hstep : FileStep env i (s.hold i) s.files t.files) :
    Guar env i s t := by
  refine ⟨fun _ hj => h.sees hstep hj, .step ?_ hstep, fun cls => .inl ?_, .inl ?_, .inl ?_, ?_⟩
  · rw [h]
  · rw [h]
    exact ⟨rfl, rfl⟩
  · rw [h]
  · rw [h]
  · rw [h]
    exact .still

end

section

variable {env : Env} {i : Nat} {α β : Type} {post : β → Core → Prop} {w : World}

theorem safe_fileStep {f : Outside → World → α × World} {k : α → Sup β}
    (hf : ∀ o (t : World), Sees env i w.core t.core →
      (f o t).2.core = t.core ∨ Refiled t.core (f o t).2.core ∧
        FileStep env i (t.core.hold i) t.core.files (f o t).2.core.files)
    (hk : ∀ o (t : World), Inv env t.core → Sees env i w.core t.core → Inv env (f o t).2.core →
      Refiled t.core (f o t).2.core → SafeFrom env i post (k (f o t).1) (f o t).2) :
    SafeFrom env i post (Sup.act f >>= k) w := by
  refine Discipline.Safe.atomic fun t ht hst o b u h => ?_
  obtain ⟨rfl, rfl⟩ := Prod.mk.inj (Option.some.inj h)
  rcases hf o t hst with hsame | ⟨hrefiled, hstep⟩
  · have hinv : Inv env (f o t).2.core := hsame.symm ▸ ht
    have hguar : Guar env i t.core (f o t).2.core := by
      rw [hsame]
      exact .refl
    refine ⟨hinv, hguar, hk o t ht hst hinv ?_⟩
    rw [hsame]
    rfl
  · have hinv := hrefiled.inv ht
    exact ⟨hinv, hrefiled.guar hstep, hk o t ht hst hinv hrefiled⟩

/-! ### The steps of a save -/

theorem safe_beginSave {kind : SaveKind} {st : StateFile} {content : Bytes} {k : Unit → Sup β}
    (hidle : w.core.Idle i) (hcontent : env.serialize st = some content)
    (hguarded : kind.Guarded (w.core.hold i) st)
    (hk : ∀ u : World, Inv env u.core → StaysLocked env i w.core u.core →
      u.core.files.saves i = some ⟨kind, content, none, 0, false⟩ →
      u.core.files.window i = kind.window i (fun target => some (target, false)) w.core.files.window i →
      SafeFrom env i post (k ()) u) :
    SafeFrom env i post (Sup.beginSave i kind st content >>= k) w := by
  refine safe_fileStep ?_ ?_
  · intro o t hst
    refine .inr ⟨rfl, ?_⟩
    have hguarded' : kind.Guarded (t.core.hold i) st := by
      have : t.core.hold i = w.core.hold i := funext hst.hold
      rwa [this]
    have hstep := FileStep.begin (hst.idle hidle).1 (hst.idle hidle).2 hcontent hguarded'
    cases kind <;> exact hstep
  · intro o t ht hst hu hrefiled
    refine hk _ hu (hst.staysLocked.trans hrefiled.staysLocked) ?_ ?_
    · exact Function.update_self _ _ _
    · cases kind with
      | shared => exact hst.window
      | cloned target commit => simp [World.core, SaveKind.window]

theorem safe_endSave {kind : SaveKind} {ok : Bool} {save : Save} {k : Unit → Sup β}
    (hsave : w.core.files.saves i = some save) (hkind : save.kind = kind)
    (hrenamed : ok = true → save.renamed = true)
    (hk : ∀ u : World, Inv env u.core → StaysLocked env i w.core u.core → u.core.files.saves i = none →
      u.core.files.window i =
        kind.window i (fun target => if ok then some (target, true) else none) w.core.files.window i →
      SafeFrom env i post (k ()) u) :
    SafeFrom env i post (Sup.endSave i kind ok >>= k) w := by
  refine safe_fileStep ?_ ?_
  · intro o t hst
    refine .inr ⟨rfl, ?_⟩
    have hstep : FileStep env i (t.core.hold i) t.core.files _ :=
      FileStep.finish (hst.save.trans hsave) hrenamed
    subst hkind
    cases hk : save.kind <;> rw [hk] at hstep <;> exact hstep
  · intro o t ht hst hu hrefiled
    refine hk _ hu (hst.staysLocked.trans hrefiled.staysLocked) ?_ ?_
    · exact Function.update_self _ _ _
    · cases kind with
      | shared => exact hst.window
      | cloned target commit => simp [World.core, SaveKind.window]

theorem safe_openTmp {save : Save} {k : Option Nat → Sup β} (hsave : w.core.files.saves i = some save)
    (hfresh : save.inode = none) (hunnamed : save.renamed = false)
    (hno : ∀ u : World, Inv env u.core → Saves env i w.core u.core →
      u.core.files.saves i = some save → SafeFrom env i post (k none) u)
    (hk : ∀ inode (u : World), Inv env u.core → Saves env i w.core u.core →
      u.core.files.saves i = some { save with inode := some inode, written := 0 } →
      SafeFrom env i post (k (some inode)) u) :
    SafeFrom env i post (Sup.openTmp i >>= k) w := by
  refine safe_fileStep ?_ ?_
  · intro o t hst
    have hsaving : t.trail.saves i = some save := hst.save.trans hsave
    split
    · refine .inr ⟨rfl, ?_⟩
      have hstep : FileStep env i (t.core.hold i) t.core.files _ := .openTmp hsaving hfresh hunnamed
      simpa [World.core, Trail.updateSave, hsaving] using hstep
    · exact .inl rfl
  · intro o t ht hst hu hrefiled
    have hsaving : t.trail.saves i = some save := hst.save.trans hsave
    cases ho : o.ok with
    | false =>
        simp only [ho] at hu ⊢
        exact hno _ hu hst.saves hsaving
    | true =>
        simp only [ho, if_true] at hu hrefiled ⊢
        refine hk _ _ hu (hst.saves.trans ⟨hrefiled.staysLocked, rfl⟩) ?_
        simp [World.core, Trail.updateSave, hsaving]

theorem safe_writeSome {save : Save} {inode : Nat} {bytes : Bytes} {k : Option Nat → Sup β}
    (hsave : w.core.files.saves i = some save) (hopened : save.inode = some inode)
    (hunnamed : save.renamed = false) (hbytes : save.content.drop save.written = bytes)
    (hne : bytes ≠ [])
    (hno : ∀ u : World, Inv env u.core → Saves env i w.core u.core →
      u.core.files.saves i = some save → SafeFrom env i post (k none) u)
    (hk : ∀ count (u : World), 0 < count → count ≤ bytes.length → Inv env u.core →
      Saves env i w.core u.core →
      u.core.files.saves i = some { save with written := save.written + count } →
      SafeFrom env i post (k (some count)) u) :
    SafeFrom env i post (Sup.writeSome i inode save.written bytes >>= k) w := by
  have hlen : 0 < bytes.length := List.length_pos_iff.mpr hne
  refine safe_fileStep ?_ ?_
  · intro o t hst
    have hsaving : t.trail.saves i = some save := hst.save.trans hsave
    split
    · refine .inr ⟨rfl, ?_⟩
      have hchunk : bytes.take (max 1 (min o.count bytes.length)) <+: save.content.drop save.written :=
        hbytes ▸ List.take_prefix _ _
      have hcount : (bytes.take (max 1 (min o.count bytes.length))).length =
          max 1 (min o.count bytes.length) := by
        rw [List.length_take]
        omega
      have hstep : FileStep env i (t.core.hold i) t.core.files _ :=
        .write hsaving hopened hunnamed hchunk
      rw [hcount] at hstep
      simpa [World.core, Trail.updateSave, hsaving] using hstep
    · exact .inl rfl
  · intro o t ht hst hu hrefiled
    have hsaving : t.trail.saves i = some save := hst.save.trans hsave
    cases ho : o.ok with
    | false =>
        simp only [ho] at hu ⊢
        exact hno _ hu hst.saves hsaving
    | true =>
        simp only [ho, if_true] at hu hrefiled ⊢
        refine hk _ _ (by omega) (by omega) hu (hst.saves.trans ⟨hrefiled.staysLocked, rfl⟩) ?_
        simp [World.core, Trail.updateSave, hsaving]

theorem safe_renameTmp {kind : SaveKind} {save : Save} {k : Bool → Sup β}
    (hsave : w.core.files.saves i = some save) (hopened : save.inode ≠ none)
    (hunnamed : save.renamed = false) (hdone : save.written = save.content.length)
    (hno : ∀ u : World, Inv env u.core → Saves env i w.core u.core →
      u.core.files.saves i = some save → SafeFrom env i post (k false) u)
    (hk : ∀ u : World, Inv env u.core → Saves env i w.core u.core →
      u.core.files.saves i = some { save with renamed := true } → SafeFrom env i post (k true) u) :
    SafeFrom env i post (Sup.renameTmp i kind >>= k) w := by
  refine safe_fileStep ?_ ?_
  · intro o t hst
    have hsaving : t.trail.saves i = some save := hst.save.trans hsave
    split
    · rename_i dir _ hdir
      refine .inr ⟨rfl, ?_⟩
      have hstep : FileStep env i (t.core.hold i) t.core.files _ :=
        .rename hsaving hopened hdone hunnamed hdir
      simpa [World.core, Trail.updateSave, hsaving] using hstep
    · exact .inl rfl
  · intro o t ht hst hu hrefiled
    have hsaving : t.trail.saves i = some save := hst.save.trans hsave
    cases ho : o.ok with
    | false =>
        simp only [ho] at hu ⊢
        exact hno _ hu hst.saves hsaving
    | true =>
        cases hdir : t.stateDir.renameTmp with
        | none =>
            simp only [ho, hdir] at hu ⊢
            exact hno _ hu hst.saves hsaving
        | some dir =>
            simp only [ho, hdir] at hu hrefiled ⊢
            refine hk _ hu (hst.saves.trans ⟨hrefiled.staysLocked, rfl⟩) ?_
            simp [World.core, Trail.updateSave, hsaving]

end

/-! ### Whole saves -/

section

variable {env : Env} {i : Nat} {w : World}

/-- A save of this kind and content is in progress, and what it has written so far is known. -/
structure InSave (i : Nat) (kind : SaveKind) (content : Bytes) (save : Save) (c : Core) : Prop where
  saving : c.files.saves i = some save
  kind : save.kind = kind
  content : save.content = content

/-- How writing ends: the save is still in progress, and after success everything is written. -/
def Written (env : Env) (i : Nat) (kind : SaveKind) (content : Bytes) (inode : Nat) (s : Core) (ok : Bool)
    (v : Core) : Prop :=
  Saves env i s v ∧ ∃ last, InSave i kind content last v ∧ last.inode = some inode ∧
    last.renamed = false ∧ (ok = true → last.written = content.length)

private theorem safe_stopWriting {kind : SaveKind} {content : Bytes} {inode : Nat} {save : Save} (ok : Bool)
    (hsave : InSave i kind content save w.core) (hopened : save.inode = some inode)
    (hunnamed : save.renamed = false) (hok : ok = true → save.written = content.length) :
    SafeFrom env i (Written env i kind content inode w.core) (pure ok) w :=
  safe_pure fun _ hst => ⟨hst.saves, save, ⟨hst.save.trans hsave.saving, hsave.kind, hsave.content⟩,
    hopened, hunnamed, hok⟩

theorem safe_writeAll {kind : SaveKind} {content : Bytes} {inode fuel : Nat} {bytes : Bytes} {save : Save}
    (hw : Inv env w.core) (hsave : InSave i kind content save w.core) (hopened : save.inode = some inode)
    (hunnamed : save.renamed = false) (hbytes : content.drop save.written = bytes)
    (hle : save.written ≤ content.length) :
    SafeFrom env i (Written env i kind content inode w.core)
      (Sup.writeAll i inode fuel save.written bytes) w := by
  induction fuel generalizing bytes save w with
  | zero =>
      cases bytes with
      | nil =>
          rw [Sup.writeAll]
          exact safe_stopWriting _ hsave hopened hunnamed
            fun _ => le_antisymm hle (List.drop_eq_nil_iff.mp hbytes)
      | cons byte bytes =>
          rw [Sup.writeAll]
          · exact safe_stopWriting _ hsave hopened hunnamed fun h => nomatch h
          · simp
  | succ fuel ih =>
      cases bytes with
      | nil =>
          rw [Sup.writeAll]
          exact safe_stopWriting _ hsave hopened hunnamed
            fun _ => le_antisymm hle (List.drop_eq_nil_iff.mp hbytes)
      | cons byte bytes =>
          rw [Sup.writeAll]
          · refine safe_writeSome hsave.saving hopened hunnamed (hsave.content ▸ hbytes) (by simp) ?_ ?_
            · intro u _ hwu hsaving
              have hstop : SafeFrom env i (Written env i kind content inode u.core) (pure false) u :=
                safe_stopWriting false ⟨hsaving, hsave.kind, hsave.content⟩ hopened hunnamed
                  fun h => nomatch h
              exact hstop.weaken fun ok v hv => ⟨hwu.trans hv.1, hv.2⟩
            · intro count u _ hcount hu hwu hsaving
              have hlen : content.length - save.written = (byte :: bytes).length := by
                rw [← hbytes, List.length_drop]
              have hrest := ih hu
                (show InSave i kind content { save with written := save.written + count } u.core from
                  ⟨hsaving, hsave.kind, hsave.content⟩) hopened hunnamed
                (show content.drop (save.written + count) = (byte :: bytes).drop count by
                  rw [← hbytes, List.drop_drop]) (by simp only; omega)
              exact hrest.weaken fun ok v hv => ⟨hwu.trans hv.1, hv.2⟩
          · simp

/-- How the steps of a save end: it is still in progress, and after success it was renamed. -/
def Stepped (env : Env) (i : Nat) (kind : SaveKind) (s : Core) (outcome : Option SaveOutcome) (v : Core) :
    Prop :=
  Saves env i s v ∧ ∃ last, v.files.saves i = some last ∧ last.kind = kind ∧
    (outcome.isSome = true → last.renamed = true)

private theorem safe_stopSaving {kind : SaveKind} {save : Save} {s : Core} (outcome : Option SaveOutcome)
    (hsw : Saves env i s w.core) (hsave : w.core.files.saves i = some save) (hkind : save.kind = kind)
    (hrenamed : outcome.isSome = true → save.renamed = true) :
    SafeFrom env i (Stepped env i kind s) (pure outcome) w :=
  safe_pure fun _ hst => ⟨hsw.trans hst.saves, save, hst.save.trans hsave, hkind, hrenamed⟩

theorem safe_saveSteps {kind : SaveKind} {content : Bytes}
    (hsave : w.core.files.saves i = some ⟨kind, content, none, 0, false⟩) :
    SafeFrom env i (Stepped env i kind w.core) (Sup.saveSteps i kind content) w := by
  have hfail : ∀ {u : World} {save : Save}, Saves env i w.core u.core → u.core.files.saves i = some save →
      save.kind = kind → SafeFrom env i (Stepped env i kind w.core) (pure none) u :=
    fun hwu hsaving hkind => safe_stopSaving none hwu hsaving hkind fun h => nomatch h
  rw [Sup.saveSteps]
  refine safe_openTmp hsave rfl rfl (fun u _ hwu hsaving => hfail hwu hsaving rfl) ?_
  intro inode u hu hwu hsaving
  refine safe_ask fun ok => ?_
  cases ok with
  | false => exact hfail hwu hsaving rfl
  | true =>
      have hwrite := @safe_writeAll env i u kind content inode content.length content
        ⟨kind, content, some inode, 0, false⟩ hu ⟨hsaving, rfl, rfl⟩ rfl rfl rfl (Nat.zero_le _)
      refine hwrite.bind hu ?_
      rintro written v hv ⟨huv, last, hlast, hopened, hunnamed, hdone⟩
      have hwv := hwu.trans huv
      cases written with
      | false => exact hfail hwv hlast.saving hlast.kind
      | true =>
          refine safe_ask fun ok => ?_
          cases ok with
          | false => exact hfail hwv hlast.saving hlast.kind
          | true =>
              refine safe_renameTmp hlast.saving (by simp [hopened]) hunnamed
                (hlast.content ▸ hdone rfl) ?_ ?_
              · exact fun x _ hvx hsaving => hfail (hwv.trans hvx) hsaving hlast.kind
              · intro x _ hvx hsaving
                refine safe_ask fun ok => ?_
                cases ok with
                | false => exact safe_stopSaving _ (hwv.trans hvx) hsaving hlast.kind fun _ => rfl
                | true => exact safe_stopSaving _ (hwv.trans hvx) hsaving hlast.kind fun _ => rfl

theorem safe_saveAtomic {kind : SaveKind} {st : StateFile} (hidle : w.core.Idle i)
    (hguarded : kind.Guarded (w.core.hold i) st) :
    SafeFrom env i (fun outcome v => StaysLocked env i w.core v ∧ v.files.saves i = none ∧
        v.files.window i = kind.window i
          (fun target => if outcome.isSome then some (target, true) else none) w.core.files.window i)
      (Sup.saveAtomic env i kind st) w := by
  have hfail : SafeFrom env i (fun outcome v => StaysLocked env i w.core v ∧ v.files.saves i = none ∧
      v.files.window i = kind.window i
        (fun target => if outcome.isSome then some (target, true) else none) w.core.files.window i)
      (pure (none : Option SaveOutcome)) w := by
    refine safe_pure fun t hst => ⟨hst.staysLocked, hst.save.trans hidle.1, hst.window.trans ?_⟩
    cases kind with
    | shared => rfl
    | cloned target commit => simp [SaveKind.window, hidle.2]
  rw [Sup.saveAtomic]
  refine safe_ask fun ok => ?_
  cases ok with
  | false => exact hfail
  | true =>
      cases hcontent : env.serialize st with
      | none => exact hfail
      | some content =>
          refine safe_beginSave hidle hcontent hguarded ?_
          intro u hu hwu hsave hwindow
          refine (safe_saveSteps hsave).bind hu ?_
          rintro outcome v _ ⟨huv, last, hlast, hkind, hrenamed⟩
          refine safe_endSave hlast hkind hrenamed ?_
          intro x _ hvx hnone hwindow'
          refine safe_pure fun t hxt => ?_
          refine ⟨(hwu.trans huv.toStaysLocked).trans (hvx.trans hxt.staysLocked), hxt.save.trans hnone, ?_⟩
          · rw [hxt.window, hwindow']
            cases kind with
            | shared => exact huv.window.trans hwindow
            | cloned target commit => simp [SaveKind.window]

theorem safe_saveState (hidle : w.core.Idle i) :
    SafeFrom env i (fun _ v => Stays env i w.core v ∧ v.Idle i) (Sup.saveState env i) w := by
  rw [Sup.saveState]
  refine safe_acquireWrite (.of_idle hidle) ?_
  intro t u ht hwt hfree htu hhold hu
  have hstays : Stays env i w.core u.core := hwt.stays.trans htu.stays
  have hbound : u.core.Bound := htu.bound (ht.bound hfree)
  have hidle' : u.core.Idle i := htu.idle (hwt.idle hidle)
  refine safe_look fun x _ _ => ?_
  refine (safe_saveAtomic hidle' (show SaveKind.Guarded _ x.state .shared from hhold)).bind hu ?_
  rintro outcome v _ ⟨huv, hsave, hwindow⟩
  have hidle'' : v.core.Idle i := ⟨hsave, hwindow.trans hidle'.2⟩
  refine safe_release (k := pure) (.of_idle hidle'') ?_ ?_ (fun _ _ => huv.bound hhold hbound) ?_
  · exact fun _ _ _ _ hn => nomatch hn
  · exact fun _ _ _ _ hn => nomatch hn
  · intro x y _ hvx hxy _ _
    refine safe_pure fun z hyz => ⟨?_, hyz.idle (hxy.idle (hvx.idle hidle''))⟩
    exact (hstays.trans huv.toStays).trans ((hvx.stays.trans hxy.stays).trans hyz.stays)

end

end Causeway
