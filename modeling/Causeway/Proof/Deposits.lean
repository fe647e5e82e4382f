import Causeway.Proof.Stock

/-!
# Deposits

The commit of a fetched manifest: written to a file that only its writer knows, then renamed to the slot that the state in memory does not name.
-/

namespace Causeway

open Concurrent Prog

theorem CacheDir.rename_self (dir : CacheDir) {inode : Nat} {path : Path} :
    (dir.rename inode path).bytes path = some (dir.inodes.content inode) := by
  simp [CacheDir.rename, CacheDir.bytes]

theorem CacheDir.rename_of_ne (dir : CacheDir) {inode : Nat} {path other : Path} (h : other ≠ path) :
    (dir.rename inode path).bytes other = dir.bytes other := by
  simp [CacheDir.rename, CacheDir.bytes, Function.update_of_ne h]

section

variable {env : Env} {tasks : Nat → Task} {i : Nat} {w : World} {b : Stock}

/-- The thread holds the mutex, and only the cache has changed. -/
structure Caching (i : Nat) (b : Stock) (w : World) : Prop where
  mutex : w.Transacting i
  ok : w.stock.Ok
  same : w.stock = { b with cache := w.cacheDir }

theorem Caching.undisturbed {u : World} (h : Caching i b w) (hwu : Shielded i w u) : Caching i b u := by
  have hstock := hwu.stock h.mutex
  have hcache : u.cacheDir = w.cacheDir := congrArg Stock.cache hstock
  exact ⟨hwu.transacting h.mutex, hstock ▸ h.ok, by rw [hstock, hcache]; exact h.same⟩

theorem Caching.inv (h : Caching i b w) : (stockroom env tasks).inv w := World.Transacting.inv h.mutex h.ok

/-- A file that only its writer knows holds this much. -/
structure Private (inode : Nat) (content : Bytes) (cache : CacheDir) : Prop where
  unnamed : ∀ path, cache.files path ≠ some inode
  exists_ : inode < cache.inodes.next
  content : cache.inodes.content inode = content

theorem Caching.step {α : Type} {post : α → World → Prop} {p : Sup α} {t u : World} (hw : Caching i b w)
    (ht : t.stock.Ok) (hst : t.stock = w.stock) (hsame : u.stock = { t.stock with cache := u.cacheDir })
    (hfiles : u.cacheDir.files = t.cacheDir.files) (hnext : t.cacheDir.inodes.next ≤ u.cacheDir.inodes.next)
    (hcontent : ∀ path inode, t.cacheDir.files path = some inode →
      u.cacheDir.inodes.content inode = t.cacheDir.inodes.content inode)
    (hp : Caching i b u → Stows env tasks i post p u) :
    u.stock.Ok ∧ Stocked env ((tasks i).target t.stock.active) t.stock u.stock ∧
      (u.Transacting i → Stows env tasks i post p u) := by
  have hbytes : ∀ path, u.cacheDir.bytes path = t.cacheDir.bytes path := by
    intro path
    rw [CacheDir.bytes, CacheDir.bytes, hfiles]
    cases hfile : t.cacheDir.files path with
    | none => rfl
    | some inode => exact congrArg some (hcontent path inode hfile)
  have hu : u.stock.Ok := by
    rw [hsame]
    exact ⟨ht.dir, fun path inode hfile => (ht.cache path inode (hfiles ▸ hfile)).trans_le hnext, ht.state⟩
  refine ⟨hu, ?_, fun hmutex => hp ⟨hmutex, hu, by rw [hsame, hst, hw.same]⟩⟩
  rw [hsame]
  exact .aside rfl rfl rfl hfiles hbytes

theorem Stows.createCacheTmp {α : Type} {post : α → World → Prop} {k : Option Nat → Sup α} (hw : Caching i b w)
    (hno : Stows env tasks i post (k none) w)
    (hk : ∀ inode (u : World), Caching i b u → Private inode [] u.cacheDir → Stows env tasks i post (k (some inode)) u) :
    Stows env tasks i post (Sup.createCacheTmp >>= k) w := by
  refine .own hw.mutex fun o t u a hact hst ht => ?_
  have hthen : Shielded i w t → Caching i b t := hw.undisturbed
  cases hok : o.ok with
  | false =>
      simp only [hok] at hact
      cases hact
      refine ⟨rfl, ht, .aside rfl rfl rfl rfl fun _ => rfl, fun hu => hno.mono ⟨?_, fun _ => hst⟩⟩
      exact hu.trans hw.mutex.symm
  | true =>
      simp only [hok, if_true] at hact
      cases hact
      have hne : ∀ path inode, t.cacheDir.files path = some inode → inode ≠ t.cacheDir.inodes.next :=
        fun path inode hfile => (ht.cache path inode hfile).ne
      have hprivate : Private t.cacheDir.inodes.next [] { t.cacheDir with inodes := t.cacheDir.inodes.create.2 } :=
        ⟨fun path hfile => hne path _ hfile rfl, Nat.lt_succ_self _, Function.update_self _ _ _⟩
      exact ⟨rfl, hw.step ht hst rfl rfl (Nat.le_succ _)
        (fun path inode hfile => Function.update_of_ne (hne path inode hfile) _ _) fun hu => hk _ _ hu hprivate⟩

theorem Stows.writeCache {α : Type} {post : α → World → Prop} {k : Option Nat → Sup α} {inode offset : Nat}
    {content bytes : Bytes} (hw : Caching i b w) (hfile : Private inode (content.take offset) w.cacheDir)
    (hbytes : content.drop offset = bytes) (hne : bytes ≠ []) (hno : Stows env tasks i post (k none) w)
    (hk : ∀ count (u : World), 0 < count → count ≤ bytes.length → Caching i b u →
      Private inode (content.take (offset + count)) u.cacheDir → Stows env tasks i post (k (some count)) u) :
    Stows env tasks i post (Sup.writeCache inode offset bytes >>= k) w := by
  have hlen : 0 < bytes.length := List.length_pos_iff.mpr hne
  refine .own hw.mutex fun o t u a hact hst ht => ?_
  have hcache : t.cacheDir = w.cacheDir := congrArg Stock.cache hst
  cases hok : o.ok with
  | false =>
      simp only [hok] at hact
      cases hact
      refine ⟨rfl, ht, .aside rfl rfl rfl rfl fun _ => rfl, fun hu => hno.mono ⟨?_, fun _ => hst⟩⟩
      exact hu.trans hw.mutex.symm
  | true =>
      simp only [hok, if_true] at hact
      generalize hcount : max 1 (min o.count bytes.length) = count at hact
      cases hact
      rw [← hcache] at hfile
      refine ⟨rfl, hw.step ht hst rfl rfl le_rfl (fun path other hother => ?_)
        fun hu => hk count _ (by omega) (by omega) hu ⟨hfile.unnamed, hfile.exists_, ?_⟩⟩
      · exact Function.update_of_ne (by rintro rfl; exact hfile.unnamed path hother) _ _
      have hprefix : bytes.take count <+: content.drop offset := hbytes ▸ List.take_prefix _ _
      have hoffset : offset ≤ content.length := by
        have hdrop := congrArg List.length hbytes
        rw [List.length_drop] at hdrop
        omega
      have hchunk : (bytes.take count).length = count := by
        rw [List.length_take]
        omega
      show Function.update _ _ _ _ = _
      rw [Function.update_self, hfile.content, writeAt_end hoffset hprefix, hchunk]

theorem stows_writeAllCache {content : Bytes} {inode fuel offset : Nat} {bytes : Bytes} (hw : Caching i b w)
    (hfile : Private inode (content.take offset) w.cacheDir) (hbytes : content.drop offset = bytes) :
    Stows env tasks i (fun ok u => Caching i b u ∧ (ok = true → Private inode content u.cacheDir))
      (Sup.writeAllCache inode fuel offset bytes) w := by
  have hdone : ∀ {u : World} {offset : Nat}, Caching i b u → Private inode (content.take offset) u.cacheDir →
      content.drop offset = [] → Stows env tasks i (fun ok u => Caching i b u ∧ (ok = true →
        Private inode content u.cacheDir))
        (pure true) u := by
    intro u offset hu hfile hnil
    rw [List.take_of_length_le (List.drop_eq_nil_iff.mp hnil)] at hfile
    refine .pure fun v huv => ⟨hu.undisturbed huv, fun _ => ?_⟩
    have hcache : v.cacheDir = u.cacheDir := congrArg Stock.cache (huv.stock hu.mutex)
    rwa [hcache]
  have hfail : ∀ {u : World}, Caching i b u →
      Stows env tasks i (fun ok u => Caching i b u ∧ (ok = true → Private inode content u.cacheDir)) (pure false) u :=
    fun hu => .pure fun v huv => ⟨hu.undisturbed huv, fun h => nomatch h⟩
  induction fuel generalizing offset bytes w with
  | zero =>
      cases bytes with
      | nil =>
          rw [Sup.writeAllCache]
          exact hdone hw hfile hbytes
      | cons byte bytes =>
          rw [Sup.writeAllCache]
          · exact hfail hw
          · simp
  | succ fuel ih =>
      cases bytes with
      | nil =>
          rw [Sup.writeAllCache]
          exact hdone hw hfile hbytes
      | cons byte bytes =>
          rw [Sup.writeAllCache]
          · refine .writeCache hw hfile hbytes (by simp) (hfail hw) fun count u _ _ hu hfile => ?_
            exact ih hu hfile (by rw [← hbytes, List.drop_drop])
          · simp

/-- The private file becomes the file of the slot that memory does not name. -/
theorem Stows.renameCache {α : Type} {post : α → World → Prop} {k : Bool → Sup α} {inode : Nat} {content : Bytes}
    {name : String} {catalog : SubscriptionsConfig} {base path : Path} (hw : Caching i b w)
    (hfile : Private inode content w.cacheDir) (htarget : (tasks i).target b.active = some name)
    (hbegun : b.catalog = some catalog) (hconfigured : (catalog.profile name).bind (·.cacheFile) = some base)
    (hchosen : cacheSlotPath base (nextSlot b.state.subscriptionCacheSlots[name]?) = some path)
    (hno : Stows env tasks i post (k false) w)
    (hk : ∀ u : World, Caching i b u → u.cacheDir.bytes path = some content → Stows env tasks i post (k true) u) :
    Stows env tasks i post (Sup.renameCache inode path >>= k) w := by
  refine .own hw.mutex fun o t u a hact hst ht => ?_
  have hcache : t.cacheDir = w.cacheDir := congrArg Stock.cache hst
  have hbase : t.stock = { b with cache := w.cacheDir } := hst.trans hw.same
  have hstate : t.stock.state = b.state := by rw [hbase]
  have hactive : t.stock.active = b.active := by rw [hbase]
  have hcatalog : t.stock.catalog = b.catalog := by rw [hbase]
  cases hok : o.ok with
  | false =>
      simp only [hok] at hact
      cases hact
      refine ⟨rfl, ht, .aside rfl rfl rfl rfl fun _ => rfl, fun hu => hno.mono ⟨?_, fun _ => hst⟩⟩
      exact hu.trans hw.mutex.symm
  | true =>
      simp only [hok, if_true] at hact
      cases hact
      rw [← hcache] at hfile
      have hself : (t.cacheDir.rename inode path).files path = some inode := Function.update_self _ _ _
      have hu : Stock.Ok (World.stock { t with cacheDir := t.cacheDir.rename inode path }) := by
        refine ⟨ht.dir, fun other named hnamed => ?_, ht.state⟩
        by_cases hother : other = path
        · subst hother
          cases hself.symm.trans hnamed
          exact hfile.exists_
        · exact ht.cache other named ((Function.update_of_ne hother _ _).symm.trans hnamed)
      refine ⟨rfl, hu, .placed name catalog base path (hactive ▸ htarget) (hcatalog.trans hbegun) hconfigured
        (hstate ▸ hchosen) rfl ?_ fun other hother => ?_,
        fun hhold => hk _ ⟨hhold, hu, ?_⟩ ?_⟩
      · exact fun h => hfile.unnamed path (h.symm.trans hself)
      · exact CacheDir.rename_of_ne t.cacheDir hother
      · exact congrArg (fun s : Stock => { s with cache := t.cacheDir.rename inode path }) hbase
      · exact (CacheDir.rename_self t.cacheDir).trans (congrArg some hfile.content)

/-- A cache write has ended; if it is reported to have succeeded the file is there. -/
structure Deposited (i : Nat) (b : Stock) (path : Path) (bytes : Bytes) (ok : Bool) (u : World) : Prop where
  caching : Caching i b u
  bytes : ok = true → u.cacheDir.bytes path = some bytes

theorem stows_failed {path : Path} {bytes : Bytes} (hw : Caching i b w) :
    Stows env tasks i (Deposited i b path bytes) (pure false) w :=
  .pure fun _ hwu => ⟨hw.undisturbed hwu, fun h => nomatch h⟩

theorem stows_savePrivateCache {name : String} {catalog : SubscriptionsConfig} {base path : Path} {bytes : Bytes}
    (hw : Caching i b w) (htarget : (tasks i).target b.active = some name) (hbegun : b.catalog = some catalog)
    (hconfigured : (catalog.profile name).bind (·.cacheFile) = some base)
    (hchosen : cacheSlotPath base (nextSlot b.state.subscriptionCacheSlots[name]?) = some path) :
    Stows env tasks i (Deposited i b path bytes) (Sup.savePrivateCache path bytes) w := by
  refine .offhand within_ask fun ok => ?_
  cases ok
  · exact stows_failed hw
  refine .createCacheTmp hw (stows_failed hw) fun inode u hu hfile => ?_
  have hempty : Private inode (bytes.take 0) u.cacheDir := hfile
  refine (stows_writeAllCache hu hempty rfl).bind hu.inv fun ok v hv hwritten => ?_
  cases ok
  · exact stows_failed hwritten.1
  refine .offhand within_ask fun ok => ?_
  cases ok
  · exact stows_failed hwritten.1
  refine .renameCache hwritten.1 (hwritten.2 rfl) htarget hbegun hconfigured hchosen (stows_failed hwritten.1) fun u hu hbytes => ?_
  refine .offhand within_ask fun ok => .pure fun v huv => ⟨hu.undisturbed huv, fun _ => ?_⟩
  have hcache : v.cacheDir = u.cacheDir := congrArg Stock.cache (huv.stock hu.mutex)
  rwa [hcache]

/-- The committed slot and its record: none for a pool that was not fetched. -/
inductive Committed (cache : CacheDir) (slot : Option String) (commit : Option (Path × Bytes)) : Prop
  | local_ (slot_eq : slot = none) (commit_eq : commit = none)
  | placed (base path : Path) (bytes : Bytes) (chosen : String) (slot_eq : slot = some chosen)
      (commit_eq : commit = some (path, bytes)) (path_eq : cacheSlotPath base chosen = some path)
      (cached : cache.bytes path = some bytes)

/-- The commit of the cache has returned. -/
structure CacheCommitted (i : Nat) (b : Stock) (r : Option (PreparedSubscription × Option (Path × Bytes))) (u : World) :
    Prop where
  caching : Caching i b u
  committed : ∀ prepared commit, r = some (prepared, commit) → Committed u.cacheDir prepared.committedSlot commit

/-- Nothing is committed yet, and what waits to be committed is for the profile's cache file. -/
structure Sourced (profile : SubscriptionProfileConfig) (prepared : PreparedSubscription) : Prop where
  uncommitted : prepared.committedSlot = none
  pending : ∀ fresh base bytes, prepared = .fresh fresh → fresh.pendingCache = some (base, bytes) →
    profile.cacheFile = some base

theorem stows_commitPreparedCache {name : String} {catalog : SubscriptionsConfig} {profile : SubscriptionProfileConfig}
    {prepared : PreparedSubscription} (hw : Caching i b w) (htarget : (tasks i).target b.active = some name)
    (hbegun : b.catalog = some catalog) (hprofile : catalog.profile name = some profile)
    (hsourced : Sourced profile prepared) :
    Stows env tasks i (CacheCommitted i b)
      (Sup.commitPreparedCache prepared b.state.subscriptionCacheSlots[name]?) w := by
  have hfailed : ∀ {u : World}, Caching i b u → Stows env tasks i (CacheCommitted i b) (pure none) u :=
    fun hu => .pure fun v huv => ⟨hu.undisturbed huv, fun _ _ h => nomatch h⟩
  cases prepared with
  | cached nodes =>
      refine .pure fun u hwu => ⟨hw.undisturbed hwu, fun _ _ h => ?_⟩
      cases h
      exact .local_ rfl rfl
  | fresh fresh =>
      rw [Sup.commitPreparedCache]
      cases hcache : fresh.pendingCache with
      | none =>
          simp only [Sup.commitCacheSlot, hcache, Prog.pure_bind, Option.bind_none]
          refine .pure fun u hwu => ⟨hw.undisturbed hwu, fun _ _ h => ?_⟩
          cases h
          exact .local_ hsourced.uncommitted rfl
      | some pending =>
          obtain ⟨base, bytes⟩ := pending
          simp only [Sup.commitCacheSlot, hcache, Option.bind_some]
          cases hpath : cacheSlotPath base (nextSlot b.state.subscriptionCacheSlots[name]?) with
          | none => exact hfailed hw
          | some path =>
              simp only [Prog.bind_assoc]
              have hconfigured : (catalog.profile name).bind (·.cacheFile) = some base := by
                rw [hprofile, Option.bind_some, hsourced.pending fresh base bytes rfl hcache]
              refine (stows_savePrivateCache hw htarget hbegun hconfigured hpath).bind hw.inv fun ok u hu hsaved => ?_
              cases ok
              · exact hfailed hsaved.caching
              refine .pure fun v huv => ⟨hsaved.caching.undisturbed huv, fun _ _ h => ?_⟩
              have hdir : v.cacheDir = u.cacheDir := congrArg Stock.cache (huv.stock hsaved.caching.mutex)
              cases h
              exact .placed base path bytes _ rfl rfl hpath (hdir ▸ hsaved.bytes rfl)

end

end Causeway
