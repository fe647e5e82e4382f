import Causeway.Proof.Stock

/-!
# Filing

A save by the holder of the transaction mutex: until the rename the state file is as it was, and after it the file names the slots of the saved state.
-/

namespace Causeway

open Concurrent Prog

theorem openTmp_file {dir : StateDir} : dir.openTmp.2.file = dir.file := by
  unfold StateDir.openTmp
  cases dir.tmp <;> rfl

section

variable {env : Env} {tasks : Nat → Task} {i : Nat} {w : World} {b : Stock}

/-- The thread holds the mutex; the state file and all beside it are as they were. -/
structure Filing (i : Nat) (b : Stock) (w : World) : Prop where
  mutex : w.Transacting i
  ok : w.stock.Ok
  same : w.stock = { b with dir := w.stateDir }
  file : w.stateDir.file = b.dir.file
  bytes : w.stateDir.bytes = b.dir.bytes

theorem Filing.inv (h : Filing i b w) : (stockroom env tasks).inv w := World.Transacting.inv h.mutex h.ok

theorem Filing.undisturbed {u : World} (h : Filing i b w) (hwu : Shielded i w u) : Filing i b u := by
  have hstock := hwu.stock h.mutex
  have hdir : u.stateDir = w.stateDir := congrArg Stock.dir hstock
  exact ⟨hwu.transacting h.mutex, hstock ▸ h.ok, by rw [hstock, hdir]; exact h.same, hdir ▸ h.file, hdir ▸ h.bytes⟩

/-- The temporary file holds this much. -/
structure Drafted (inode : Nat) (content : Bytes) (dir : StateDir) : Prop where
  tmp : dir.tmp = some inode
  content : dir.inodes.content inode = content

theorem Filing.step {α : Type} {post : α → World → Prop} {p : Sup α} {t u : World} (hw : Filing i b w) (ht : t.stock.Ok)
    (hst : t.stock = w.stock) (hsame : u.stock = { t.stock with dir := u.stateDir }) (hok : u.stateDir.Ok)
    (hfile : u.stateDir.file = t.stateDir.file) (hbytes : u.stateDir.bytes = t.stateDir.bytes)
    (hp : Filing i b u → Stows env tasks i post p u) :
    u.stock.Ok ∧ Stocked env ((tasks i).target t.stock.active) t.stock u.stock ∧
      (u.Transacting i → Stows env tasks i post p u) := by
  have hdir : t.stateDir = w.stateDir := congrArg Stock.dir hst
  have hu : u.stock.Ok := by
    rw [hsame]
    exact ⟨hok, ht.cache, ht.state⟩
  refine ⟨hu, ?_, fun hmutex => hp ⟨hmutex, hu, ?_, ?_, ?_⟩⟩
  · rw [hsame]
    exact .aside rfl hfile hbytes rfl fun _ => rfl
  · rw [hsame, hst, hw.same]
  · rw [hfile, hdir, hw.file]
  · rw [hbytes, hdir, hw.bytes]

theorem Stows.openTmp {α : Type} {post : α → World → Prop} {k : Option Nat → Sup α} (hw : Filing i b w)
    (hno : Stows env tasks i post (k none) w)
    (hk : ∀ inode (u : World), Filing i b u → Drafted inode [] u.stateDir → Stows env tasks i post (k (some inode)) u) :
    Stows env tasks i post (Sup.openTmp i >>= k) w := by
  refine .own hw.mutex fun o t u a hact hst ht => ?_
  cases hok : o.ok with
  | false =>
      simp only [hok] at hact
      cases hact
      refine ⟨rfl, ht, .aside rfl rfl rfl rfl fun _ => rfl, fun hu => hno.mono ⟨?_, fun _ => hst⟩⟩
      exact hu.trans hw.mutex.symm
  | true =>
      simp only [hok, if_true] at hact
      cases hact
      obtain ⟨hdir, hbytes, htmp, hempty⟩ := openTmp_ok ht.dir
      exact ⟨rfl, hw.step ht hst rfl hdir openTmp_file hbytes fun hu => hk _ _ hu ⟨htmp, hempty⟩⟩

theorem Stows.writeSome {α : Type} {post : α → World → Prop} {k : Option Nat → Sup α} {inode offset : Nat}
    {content bytes : Bytes} (hw : Filing i b w) (hfile : Drafted inode (content.take offset) w.stateDir)
    (hbytes : content.drop offset = bytes) (hne : bytes ≠ []) (hno : Stows env tasks i post (k none) w)
    (hk : ∀ count (u : World), Filing i b u → Drafted inode (content.take (offset + count)) u.stateDir →
      Stows env tasks i post (k (some count)) u) :
    Stows env tasks i post (Sup.writeSome i inode offset bytes >>= k) w := by
  have hlen : 0 < bytes.length := List.length_pos_iff.mpr hne
  refine .own hw.mutex fun o t u a hact hst ht => ?_
  have hdir : t.stateDir = w.stateDir := congrArg Stock.dir hst
  cases hok : o.ok with
  | false =>
      simp only [hok] at hact
      cases hact
      refine ⟨rfl, ht, .aside rfl rfl rfl rfl fun _ => rfl, fun hu => hno.mono ⟨?_, fun _ => hst⟩⟩
      exact hu.trans hw.mutex.symm
  | true =>
      simp only [hok, if_true] at hact
      generalize hcount : max 1 (min o.count bytes.length) = count at hact
      cases hact
      rw [← hdir] at hfile
      refine ⟨rfl, hw.step ht hst rfl ⟨ht.dir.tmp, ht.dir.file, ht.dir.apart⟩ rfl ?_
        fun hu => hk count _ hu ⟨hfile.tmp, ?_⟩⟩
      · cases hnamed : t.stateDir.file with
        | none => simp [StateDir.bytes, StateDir.write, hnamed]
        | some file =>
            have hapart : file ≠ inode := by
              rintro rfl
              exact ht.dir.apart file hfile.tmp hnamed
            simp [StateDir.bytes, StateDir.write, Inodes.write, hnamed, Function.update_of_ne hapart]
      · have hprefix : bytes.take count <+: content.drop offset := hbytes ▸ List.take_prefix _ _
        have hoffset : offset ≤ content.length := by
          have hdrop := congrArg List.length hbytes
          rw [List.length_drop] at hdrop
          omega
        have hchunk : (bytes.take count).length = count := by
          rw [List.length_take]
          omega
        show Function.update _ _ _ _ = _
        rw [Function.update_self, hfile.content, writeAt_end hoffset hprefix, hchunk]

theorem stows_writeAll {content : Bytes} {inode fuel offset : Nat} {bytes : Bytes} (hw : Filing i b w)
    (hfile : Drafted inode (content.take offset) w.stateDir) (hbytes : content.drop offset = bytes) :
    Stows env tasks i (fun ok u => Filing i b u ∧ (ok = true → Drafted inode content u.stateDir))
      (Sup.writeAll i inode fuel offset bytes) w := by
  have hdone : ∀ {u : World} {offset : Nat}, Filing i b u → Drafted inode (content.take offset) u.stateDir →
      content.drop offset = [] →
      Stows env tasks i (fun ok u => Filing i b u ∧ (ok = true → Drafted inode content u.stateDir)) (pure true) u := by
    intro u offset hu hfile hnil
    rw [List.take_of_length_le (List.drop_eq_nil_iff.mp hnil)] at hfile
    refine .pure fun v huv => ⟨hu.undisturbed huv, fun _ => ?_⟩
    have hdir : v.stateDir = u.stateDir := congrArg Stock.dir (huv.stock hu.mutex)
    rwa [hdir]
  have hfail : ∀ {u : World}, Filing i b u →
      Stows env tasks i (fun ok u => Filing i b u ∧ (ok = true → Drafted inode content u.stateDir)) (pure false) u :=
    fun hu => .pure fun v huv => ⟨hu.undisturbed huv, fun h => nomatch h⟩
  induction fuel generalizing offset bytes w with
  | zero =>
      cases bytes with
      | nil =>
          rw [Sup.writeAll]
          exact hdone hw hfile hbytes
      | cons byte bytes =>
          rw [Sup.writeAll]
          · exact hfail hw
          · simp
  | succ fuel ih =>
      cases bytes with
      | nil =>
          rw [Sup.writeAll]
          exact hdone hw hfile hbytes
      | cons byte bytes =>
          rw [Sup.writeAll]
          · refine .writeSome hw hfile hbytes (by simp) (hfail hw) fun count u hu hfile => ?_
            exact ih hu hfile (by rw [← hbytes, List.drop_drop])
          · simp

/-- Every slot that the new content names rests on its file: as before, or as this save records. -/
def Resting (env : Env) (b : Stock) (kind : SaveKind) (content : Bytes) : Prop :=
  b.Faithful env → ∀ name slot, env.namedSlot (some content) name = some slot →
    env.namedSlot b.dir.bytes name = some slot ∧ Sup.saveRecord kind b.recorded name = b.recorded name ∨
      Stock.Rests { b with recorded := Sup.saveRecord kind b.recorded } name slot

/-- How a save leaves the stock: the state file as it was, or replaced. -/
inductive Filed (i : Nat) (b : Stock) (kind : SaveKind) (content : Bytes) : Option SaveOutcome → World → Prop
  | failed {u : World} (filing : Filing i b u) : Filed i b kind content none u
  | saved {outcome : SaveOutcome} {u : World} (mutex : u.Transacting i) (ok : u.stock.Ok)
      (same : u.stock = { b with dir := u.stateDir, recorded := Sup.saveRecord kind b.recorded })
      (bytes : u.stateDir.bytes = some content) : Filed i b kind content (some outcome) u

theorem Filed.undisturbed {kind : SaveKind} {content : Bytes} {outcome : Option SaveOutcome} {u : World}
    (h : Filed i b kind content outcome w) (hwu : Shielded i w u) : Filed i b kind content outcome u := by
  cases h with
  | failed filing => exact .failed (filing.undisturbed hwu)
  | saved mutex ok same bytes =>
      have hstock := hwu.stock mutex
      have hdir : u.stateDir = w.stateDir := congrArg Stock.dir hstock
      exact .saved (hwu.transacting mutex) (hstock ▸ ok) (by rw [hstock, hdir]; exact same) (hdir ▸ bytes)

theorem Stows.renameTmp {α : Type} {post : α → World → Prop} {k : Bool → Sup α} {kind : SaveKind} {inode : Nat}
    {content : Bytes} (hw : Filing i b w) (hfile : Drafted inode content w.stateDir) (hrests : Resting env b kind content)
    (hno : Stows env tasks i post (k false) w)
    (hk : ∀ u : World, (∀ outcome, Filed i b kind content (some outcome) u) → Stows env tasks i post (k true) u) :
    Stows env tasks i post (Sup.renameTmp i kind >>= k) w := by
  refine .own hw.mutex fun o t u a hact hst ht => ?_
  have hdir : t.stateDir = w.stateDir := congrArg Stock.dir hst
  have hbase : t.stock = { b with dir := t.stateDir } := by
    rw [hst, hdir]
    exact hw.same
  have hbytes : t.stateDir.bytes = b.dir.bytes := by rw [hdir, hw.bytes]
  cases hok : o.ok with
  | false =>
      simp only [hok] at hact
      cases hact
      refine ⟨rfl, ht, .aside rfl rfl rfl rfl fun _ => rfl, fun hu => hno.mono ⟨?_, fun _ => hst⟩⟩
      exact hu.trans hw.mutex.symm
  | true =>
      rw [← hdir] at hfile
      simp only [hok, StateDir.renameTmp, hfile.tmp, Option.map_some] at hact
      cases hact
      have hcontent : StateDir.bytes { t.stateDir with tmp := none, file := some inode } = some content :=
        congrArg some hfile.content
      have hrecorded : t.trail.recorded = b.recorded := congrArg Stock.recorded hbase
      have hcache : t.cacheDir = b.cache := congrArg Stock.cache hbase
      have hpassed : t.trail.passed = b.passed := congrArg Stock.passed hbase
      have hok : StateDir.Ok { t.stateDir with tmp := none, file := some inode } := by
        refine ⟨by simp, ?_, by simp⟩
        rintro _ ⟨⟩
        exact ht.dir.tmp inode hfile.tmp
      refine ⟨rfl, ⟨hok, ht.cache, ht.state⟩, .saved rfl ?_ fun hfaithful name slot hnamed => ?_, fun hhold => ?_⟩
      · exact fun h => ht.dir.apart inode hfile.tmp h.symm
      · have hold := hrests (fun st hst => hfaithful st (hpassed.symm ▸ hst)) name slot (hcontent ▸ hnamed)
        rw [← hbytes] at hold
        rcases hold with ⟨hnamed, hsame⟩ | ⟨base, path, bytes, hpath, hrecord, hcached⟩
        · refine .inl ⟨hnamed, ?_⟩
          show Sup.saveRecord kind t.trail.recorded name = t.trail.recorded name
          rw [hrecorded]
          exact hsame
        · refine .inr ⟨base, path, bytes, hpath, ?_, ?_⟩
          · show Sup.saveRecord kind t.trail.recorded name = _
            rw [hrecorded]
            exact hrecord
          · show t.cacheDir.bytes path = _
            rw [hcache]
            exact hcached
      · refine hk _ fun outcome => .saved hhold ⟨hok, ht.cache, ht.state⟩ ?_ hcontent
        exact congrArg (fun s : Stock => { s with
          dir := { t.stateDir with tmp := none, file := some inode }
          recorded := Sup.saveRecord kind s.recorded }) hbase

theorem stows_saveSteps {kind : SaveKind} {content : Bytes} (hw : Filing i b w) (hrests : Resting env b kind content) :
    Stows env tasks i (Filed i b kind content) (Sup.saveSteps i kind content) w := by
  have hfailed : ∀ {u : World}, Filing i b u → Stows env tasks i (Filed i b kind content) (pure none) u :=
    fun hu => .pure fun v huv => .failed (hu.undisturbed huv)
  refine .openTmp hw (hfailed hw) fun inode u hu hfile => ?_
  refine .offhand within_ask fun ok => ?_
  cases ok
  · exact hfailed hu
  have hempty : Drafted inode (content.take 0) u.stateDir := hfile
  refine (stows_writeAll hu hempty rfl).bind hu.inv fun ok v hv hwritten => ?_
  cases ok
  · exact hfailed hwritten.1
  refine .offhand within_ask fun ok => ?_
  cases ok
  · exact hfailed hwritten.1
  refine .renameTmp hwritten.1 (hwritten.2 rfl) hrests (hfailed hwritten.1) fun u hu => ?_
  refine .offhand within_ask fun ok => ?_
  cases ok
  · exact .pure fun v huv => (hu _).undisturbed huv
  · exact .pure fun v huv => (hu _).undisturbed huv

/-- The content of a save that is not refused names the slots of the saved state. -/
theorem namedSlot_serialized {st : StateFile} {content : Bytes} (hst : st.Sound)
    (hcontent : env.serialize st = some content) (hfaithful : env.Faithful st) (name : String) :
    env.namedSlot (some content) name = st.subscriptionCacheSlots[name]? := by
  have hrefused : ¬ st.Refused := by
    intro hrefused
    rw [serialize_none hrefused] at hcontent
    cases hcontent
  obtain ⟨other, hother, hload⟩ := load_serialized hst hrefused hfaithful
  cases hcontent.symm.trans hother
  rw [Env.namedSlot, hload]

/-- A save has returned: the state file names the slots of the saved state, or what it named before. -/
structure Stored (env : Env) (i : Nat) (b : Stock) (st : StateFile) (outcome : Option SaveOutcome) (u : World) :
    Prop where
  mutex : u.Transacting i
  ok : u.stock.Ok
  same : u.stock = { b with dir := u.stateDir, recorded := u.trail.recorded, passed := u.trail.passed }
  faithful : u.stock.Faithful env → b.Faithful env
  named : u.stock.Faithful env → ∀ name, env.namedSlot u.stateDir.bytes name =
    if outcome.isSome then st.subscriptionCacheSlots[name]? else env.namedSlot b.dir.bytes name

theorem Stored.undisturbed {st : StateFile} {outcome : Option SaveOutcome} {u : World}
    (h : Stored env i b st outcome w) (hwu : Shielded i w u) : Stored env i b st outcome u := by
  have hstock := hwu.stock h.mutex
  have hdir : u.stateDir = w.stateDir := congrArg Stock.dir hstock
  have hrecorded : u.trail.recorded = w.trail.recorded := congrArg Stock.recorded hstock
  have hpassed : u.trail.passed = w.trail.passed := congrArg Stock.passed hstock
  refine ⟨hwu.transacting h.mutex, hstock ▸ h.ok, ?_, hstock ▸ h.faithful, ?_⟩
  · rw [hstock, hdir, hrecorded, hpassed]
    exact h.same
  · rw [hstock, hdir]
    exact h.named

/-- From here the state counts among the saved ones. -/
theorem Stows.beginSave {α : Type} {post : α → World → Prop} {k : Unit → Sup α} {kind : SaveKind} {st : StateFile}
    {content : Bytes} (hw : w.Transacting i)
    (hk : ∀ u : World, Filing i { w.stock with passed := st :: w.trail.passed } u → Stows env tasks i post (k ()) u) :
    Stows env tasks i post (Sup.beginSave i kind st content >>= k) w := by
  refine .own hw fun o t u a hact hst ht => ?_
  cases hact
  refine ⟨rfl, ⟨ht.dir, ht.cache, ht.state⟩, .aside rfl rfl rfl rfl fun _ => rfl, fun hhold => hk _ ?_⟩
  have hdir : t.stateDir = w.stateDir := congrArg Stock.dir hst
  refine ⟨hhold, ⟨ht.dir, ht.cache, ht.state⟩, ?_, congrArg StateDir.file hdir, congrArg StateDir.bytes hdir⟩
  exact congrArg (fun s : Stock => { s with dir := t.stateDir, passed := st :: s.passed }) hst

theorem Filed.stored {kind : SaveKind} {st : StateFile} {content : Bytes} {outcome : Option SaveOutcome} {u : World}
    (h : Filed i { b with passed := st :: b.passed } kind content outcome u) (hst : st.Sound)
    (hcontent : env.serialize st = some content) : Stored env i b st outcome u := by
  have hfaithful : u.stock.passed = st :: b.passed → u.stock.Faithful env → b.Faithful env :=
    fun hpassed h other hother => h other (hpassed ▸ List.mem_cons_of_mem _ hother)
  cases h with
  | failed filing =>
      have hpassed : u.trail.passed = st :: b.passed := congrArg Stock.passed filing.same
      have hrecorded : u.trail.recorded = b.recorded := congrArg Stock.recorded filing.same
      refine ⟨filing.mutex, filing.ok, ?_, hfaithful hpassed, fun _ name => ?_⟩
      · rw [hpassed, hrecorded]
        exact filing.same
      · rw [filing.bytes]
        rfl
  | saved mutex ok same bytes =>
      have hpassed : u.trail.passed = st :: b.passed := congrArg Stock.passed same
      have hrecorded : u.trail.recorded = Sup.saveRecord kind b.recorded := congrArg Stock.recorded same
      refine ⟨mutex, ok, ?_, hfaithful hpassed, fun h name => ?_⟩
      · rw [hpassed, hrecorded]
        exact same
      · rw [bytes]
        have hmem : st ∈ u.trail.passed := by
          rw [hpassed]
          exact List.mem_cons_self
        exact namedSlot_serialized hst hcontent (h st hmem) name

theorem stows_saveAtomic {kind : SaveKind} {st : StateFile} (hw : w.Transacting i) (hok : w.stock.Ok) (hst : st.Sound)
    (hslots : w.stock.Faithful env → ∀ name slot, st.subscriptionCacheSlots[name]? = some slot →
      env.namedSlot w.stateDir.bytes name = some slot ∧
        Sup.saveRecord kind w.trail.recorded name = w.trail.recorded name ∨
      Stock.Rests { w.stock with recorded := Sup.saveRecord kind w.trail.recorded } name slot) :
    Stows env tasks i (Stored env i w.stock st) (Sup.saveAtomic env i kind st) w := by
  have hrefused : Stows env tasks i (Stored env i w.stock st) (pure none) w := by
    refine .pure fun u hwu => Stored.undisturbed ⟨hw, hok, rfl, id, fun _ _ => rfl⟩ hwu
  refine .offhand within_ask fun ok => ?_
  cases ok
  · exact hrefused
  cases hcontent : env.serialize st with
  | none => exact hrefused
  | some content =>
      refine .beginSave hw fun u hu => ?_
      have hrests : Resting env { w.stock with passed := st :: w.trail.passed } kind content := by
        intro hfaithful name slot hnamed
        rw [namedSlot_serialized hst hcontent (hfaithful st List.mem_cons_self)] at hnamed
        exact hslots (fun other hother => hfaithful other (List.mem_cons_of_mem _ hother)) name slot hnamed
      refine (stows_saveSteps hu hrests).bind hu.inv fun outcome v hv hfiled => ?_
      have hstored : Stored env i w.stock st outcome v := Filed.stored hfiled hst hcontent
      exact .offhand (within_modify fun _ => ⟨rfl, rfl⟩) fun _ => .pure fun x hvx => hstored.undisturbed hvx

end

end Causeway
