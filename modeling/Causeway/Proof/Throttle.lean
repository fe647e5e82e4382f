import Causeway.Model.Throttle

/-!
# Throttled warnings

A warning is written for the errors that begin a window. The windows of one stretch are apart, but a kind that returns after another one begins a stretch of its own.
-/

namespace Causeway

open Windows

variable {throttle : AcceptErrorThrottle} {start count : Nat} {error first seen : AcceptError}
    {errors earlier between : List AcceptError}

/-! ### The throttle -/

/-- The throttle is in a window that an error began, with some more errors since. -/
structure Tracks (throttle : AcceptErrorThrottle) (first : AcceptError) (count : Nat) : Prop where
  kind : throttle.lastKind = some first.kind
  log : throttle.lastLog = first.time
  suppressed : throttle.suppressed.toNat = min count (2 ^ 64 - 1)

theorem interval_pos : 0 < acceptErrorLogInterval := by decide

/-- What is within the window is suppressed. -/
theorem acceptFailed_within (h : Tracks throttle first count) (hwithin : Within acceptErrorLogInterval first error) :
    acceptFailed throttle error = (none, { throttle with suppressed := saturatingSucc throttle.suppressed }) := by
  have helapsed : ¬ acceptErrorLogInterval ≤ error.time - throttle.lastLog := by
    rw [h.log]
    have hlt := hwithin.2
    have hpos := interval_pos
    omega
  unfold acceptFailed AcceptErrorThrottle.observe
  rw [if_pos ⟨by rw [h.kind, hwithin.1], helapsed⟩]
  rfl

theorem acceptFailed_expired (h : Tracks throttle first count) (hkind : error.kind = first.kind)
    (hover : first.time + acceptErrorLogInterval ≤ error.time) : acceptFailed throttle error =
      (some ⟨error.kind, if 0 < throttle.suppressed then some throttle.suppressed else none⟩,
        { lastKind := some error.kind, suppressed := 0, lastLog := error.time }) := by
  have helapsed : acceptErrorLogInterval ≤ error.time - throttle.lastLog := by
    rw [h.log]
    omega
  have hsame : throttle.lastKind = some error.kind := by rw [h.kind, hkind]
  unfold acceptFailed AcceptErrorThrottle.observe
  dsimp only
  rw [if_neg (by simp [helapsed]), if_pos hsame]
  rfl

/-- Another kind is written at once. -/
theorem acceptFailed_changed (h : throttle.lastKind ≠ some error.kind) : acceptFailed throttle error =
    (some ⟨error.kind, none⟩, { lastKind := some error.kind, suppressed := 0, lastLog := error.time }) := by
  unfold acceptFailed AcceptErrorThrottle.observe
  dsimp only
  rw [if_neg (by simp [h]), if_neg h]
  rfl

theorem tracks_new (error : AcceptError) :
    Tracks { lastKind := some error.kind, suppressed := 0, lastLog := error.time } error 0 := by
  constructor <;> simp

theorem toNat_saturatingSucc (n : UInt64) : (saturatingSucc n).toNat = min (n.toNat + 1) (2 ^ 64 - 1) := by
  have hn := n.toNat_lt
  unfold saturatingSucc
  split
  · rename_i hlt
    rw [UInt64.toNat_add, UInt64.toNat_one, Nat.mod_eq_of_lt hlt]
    omega
  · omega

/-- In a window the throttle holds its beginning and the number of errors since. -/
theorem tracks_throttleAfter (hopens : Opens acceptErrorLogInterval (first :: earlier))
    (hwithin : ∀ past ∈ between, Within acceptErrorLogInterval first past) :
    Tracks (throttleAfter start (between ++ first :: earlier)) first between.length := by
  apply window_induction (P := fun errors first count => Tracks (throttleAfter start errors) first count)
    ?_ ?_ ?_ ?_ hopens hwithin
  · intro seen
    rw [throttleAfter, acceptFailed_changed (by simp [throttleAfter, AcceptErrorThrottle.new])]
    exact tracks_new seen
  · intro seen errors first count htracks hkind
    rw [throttleAfter, acceptFailed_changed (by rw [htracks.kind]; simpa using hkind.symm)]
    exact tracks_new seen
  · intro seen errors first count htracks hkind hover
    rw [throttleAfter, acceptFailed_expired htracks hkind hover]
    exact tracks_new seen
  · intro seen errors first count htracks hseen
    rw [throttleAfter, acceptFailed_within htracks hseen]
    refine ⟨htracks.kind, htracks.log, ?_⟩
    rw [toNat_saturatingSucc, htracks.suppressed]
    omega

/-! ### Warnings -/

theorem warningAfter_within (hopens : Opens acceptErrorLogInterval (first :: earlier))
    (hbetween : ∀ past ∈ between, Within acceptErrorLogInterval first past)
    (hwithin : Within acceptErrorLogInterval first error) :
    warningAfter start (between ++ first :: earlier) error = none := by
  rw [warningAfter, acceptFailed_within (tracks_throttleAfter hopens hbetween) hwithin]

theorem warningAfter_expired (hopens : Opens acceptErrorLogInterval (first :: earlier))
    (hbetween : ∀ past ∈ between, Within acceptErrorLogInterval first past) (hkind : error.kind = first.kind)
    (hover : first.time + acceptErrorLogInterval ≤ error.time) :
    ∃ warning, warningAfter start (between ++ first :: earlier) error = some warning ∧
      warning.count.toNat = min between.length (2 ^ 64 - 1) := by
  have htracks := @tracks_throttleAfter start _ _ _ hopens hbetween
  rw [warningAfter, acceptFailed_expired htracks hkind hover]
  refine ⟨_, rfl, ?_⟩
  rw [← htracks.suppressed]
  unfold AcceptFailed.count
  split
  · rfl
  · rename_i hzero
    rw [UInt64.lt_iff_toNat_lt, Nat.not_lt] at hzero
    exact (Nat.le_zero.mp hzero).symm

theorem warningAfter_stretch (hkind : ∀ last ∈ earlier.head?, error.kind ≠ last.kind) :
    (warningAfter start earlier error).isSome = true := by
  have hchanged : (throttleAfter start earlier).lastKind ≠ some error.kind := by
    by_cases hnil : earlier = []
    · rw [hnil]
      simp [throttleAfter, AcceptErrorThrottle.new]
    · obtain ⟨between, first, older, rfl, hopens, hwithin⟩ := @exists_window _ acceptErrorLogInterval _ hnil
      obtain ⟨last, hlast⟩ : ∃ last, last ∈ (between ++ first :: older).head? := by
        cases between <;> simp
      rw [(tracks_throttleAfter hopens hwithin).kind, ← head_kind hwithin hlast]
      simpa using (hkind last hlast).symm
  rw [warningAfter, acceptFailed_changed hchanged]
  rfl

/-- A warning is written for the errors that begin a window, and for no others. -/
theorem warningAfter_isSome : (warningAfter start earlier error).isSome = true ↔
    Opens acceptErrorLogInterval (error :: earlier) := by
  constructor
  · intro h
    by_cases hnil : earlier = []
    · exact .stretch (by simp [hnil])
    · obtain ⟨between, first, older, rfl, hopens, hwithin⟩ := @exists_window _ acceptErrorLogInterval _ hnil
      by_cases hkind : error.kind = first.kind
      · by_cases hover : first.time + acceptErrorLogInterval ≤ error.time
        · exact .expired hopens hwithin hkind hover
        · rw [warningAfter_within hopens hwithin ⟨hkind, by omega⟩] at h
          cases h
      · apply Opens.stretch
        intro last hlast
        rwa [head_kind hwithin hlast]
  · intro h
    cases h with
    | stretch hkind => exact warningAfter_stretch hkind
    | expired hopens hwithin hkind hover =>
        obtain ⟨warning, hwarning, -⟩ := @warningAfter_expired start _ _ _ _ hopens hwithin hkind hover
        rw [hwarning]
        rfl

/-! ### Sequences of errors -/

/-- Two warnings of one kind are an interval apart. -/
def WarningsSpaced (start : Nat) (errors : List AcceptError) : Prop :=
  ∀ later second between first earlier, errors = later ++ second :: (between ++ first :: earlier) →
    second.kind = first.kind →
    (warningAfter start earlier first).isSome = true →
      (warningAfter start (between ++ first :: earlier) second).isSome = true →
      first.time + acceptErrorLogInterval ≤ second.time

def FirstsWarned (start : Nat) (errors : List AcceptError) : Prop :=
  ∀ later error earlier, errors = later ++ error :: earlier → (∀ past ∈ earlier, past.kind ≠ error.kind) →
    (warningAfter start earlier error).isSome = true

/-- Between two warnings with no other kind and no warning in between, all errors were suppressed, and the later warning reports them. -/
def SuppressedReported (start : Nat) (errors : List AcceptError) : Prop :=
  ∀ later second between first earlier warning, errors = later ++ second :: (between ++ first :: earlier) →
    second.kind = first.kind → (∀ past ∈ between, past.kind = first.kind) →
      (warningAfter start earlier first).isSome = true →
      (∀ after past before, between = after ++ past :: before →
        warningAfter start (before ++ first :: earlier) past = none) →
        warningAfter start (between ++ first :: earlier) second = some warning → warning.count.toNat = between.length

/-- No kind returns, after another one, in a window of its own. -/
def ReturnsLate (errors : List AcceptError) : Prop :=
  ∀ later second between first earlier, errors = later ++ second :: (between ++ first :: earlier) →
    Opens acceptErrorLogInterval (first :: earlier) → second.kind = first.kind →
      (∃ other ∈ between, other.kind ≠ first.kind) →
      first.time + acceptErrorLogInterval ≤ second.time

/-- The errors of a window that another one follows in its stretch can be counted in 64 bits. -/
def WindowsCountable (errors : List AcceptError) : Prop :=
  ∀ later second between first earlier, errors = later ++ second :: (between ++ first :: earlier) →
    Opens acceptErrorLogInterval (first :: earlier) → (∀ past ∈ between, Within acceptErrorLogInterval first past) →
      second.kind = first.kind → first.time + acceptErrorLogInterval ≤ second.time → between.length < 2 ^ 64

theorem firstsWarned : FirstsWarned start errors := by
  intro later error earlier _ hnew
  apply warningAfter_stretch
  intro last hlast heq
  exact hnew last (List.mem_of_mem_head? hlast) heq.symm

theorem warningsSpaced_iff (htimes : errors.Pairwise fun later earlier => earlier.time ≤ later.time) :
    WarningsSpaced start errors ↔ ReturnsLate errors := by
  constructor
  · intro h later second between first earlier herrors hopens hkind ⟨other, hother, hne⟩
    -- The stretch in which the kind returns begins with a warning.
    obtain ⟨after, again, last, before, hsplit, hagain, hlast⟩ :=
      @exists_return _ second between ⟨other, hother, by rwa [hkind]⟩
    have hstretch : Opens acceptErrorLogInterval (again :: (last :: before ++ first :: earlier)) := by
      apply Opens.stretch
      intro head hhead
      cases hhead
      rw [hagain]
      exact Ne.symm hlast
    have hrecord : errors = (later ++ after) ++ again :: ((last :: before) ++ first :: earlier) := by
      rw [herrors, ← List.cons_append, hsplit]
      simp
    have hspaced := h _ again _ first earlier hrecord (hagain.trans hkind) (warningAfter_isSome.mpr hopens)
      (warningAfter_isSome.mpr hstretch)
    have hlater : again.time ≤ second.time := by
      cases after with
      | nil =>
          cases hsplit
          exact Nat.le_refl _
      | cons head after =>
          cases hsplit
          rw [herrors, List.pairwise_append] at htimes
          exact (List.pairwise_cons.mp htimes.2.1).1 again (by simp)
    exact Nat.le_trans hspaced hlater
  · intro h later second between first earlier herrors hkind hfirst hsecond
    have hopens := warningAfter_isSome.mp hfirst
    by_cases hsame : ∀ past ∈ between, past.kind = first.kind
    · apply over_of_opens hopens hsame hkind ?_ (warningAfter_isSome.mp hsecond)
      intro past hpast
      rw [herrors, List.pairwise_append, List.pairwise_cons, List.pairwise_append] at htimes
      exact htimes.2.1.2.2.2 past hpast first List.mem_cons_self
    · simp only [not_forall] at hsame
      obtain ⟨other, hother, hne⟩ := hsame
      exact h later second between first earlier herrors hopens hkind ⟨other, hother, hne⟩

theorem suppressedReported_iff : SuppressedReported start errors ↔ WindowsCountable errors := by
  constructor
  · intro h later second between first earlier herrors hopens hwithin hkind hover
    obtain ⟨warning, hwarning, hcount⟩ := @warningAfter_expired start _ _ _ _ hopens hwithin hkind hover
    have hreported := h later second between first earlier warning herrors hkind (fun past hpast => (hwithin past hpast).1)
      (warningAfter_isSome.mpr hopens) ?_ hwarning
    · rw [← hreported]
      exact warning.count.toNat_lt
    · intro after past before hbetween
      apply warningAfter_within hopens
      · intro error herror
        exact hwithin error (by simp [hbetween, herror])
      · exact hwithin past (by simp [hbetween])
  · intro h later second between first earlier warning herrors hkind hsame hfirst hnone hsecond
    have hopens := warningAfter_isSome.mp hfirst
    have hwithin : ∀ past ∈ between, Within acceptErrorLogInterval first past := by
      apply within_of_not_opens hopens hsame
      intro after past before hbetween hpast
      have hsome : (warningAfter start (before ++ first :: earlier) past).isSome = true := warningAfter_isSome.mpr hpast
      rw [hnone after past before hbetween] at hsome
      cases hsome
    have hover : first.time + acceptErrorLogInterval ≤ second.time := by
      by_contra hlt
      rw [warningAfter_within hopens hwithin ⟨hkind, by omega⟩] at hsecond
      cases hsecond
    obtain ⟨other, hother, hcount⟩ := @warningAfter_expired start _ _ _ _ hopens hwithin hkind hover
    rw [hsecond] at hother
    cases hother
    have hlength := h later second between first earlier herrors hopens hwithin hkind hover
    omega

/-- The warnings are throttled kind by kind if and only if no kind returns too early, and no count overflows. -/
theorem accept_warnings_throttled_iff (start : Nat) (errors : List AcceptError)
    (htimes : errors.Pairwise fun later earlier => earlier.time ≤ later.time) :
    WarningsSpaced start errors ∧ FirstsWarned start errors ∧ SuppressedReported start errors ↔
      ReturnsLate errors ∧ WindowsCountable errors := by
  rw [warningsSpaced_iff htimes, suppressedReported_iff]
  simp only [firstsWarned, true_and]

namespace Sample

/-- A storm of two kinds in turn. -/
def alternating : List AcceptError := [⟨.uncategorized, 2⟩, ⟨.connectionAborted, 1⟩, ⟨.uncategorized, 0⟩]

end Sample

theorem accept_warnings_alternate : ¬ ∀ start errors, errors.Pairwise (fun later earlier => earlier.time ≤ later.time) →
    WarningsSpaced start errors ∧ FirstsWarned start errors ∧ SuppressedReported start errors := by
  intro h
  have hspaced := (h 0 Sample.alternating (by decide)).1 [] ⟨.uncategorized, 2⟩ [⟨.connectionAborted, 1⟩]
    ⟨.uncategorized, 0⟩ [] rfl rfl (by decide) (by decide)
  revert hspaced
  decide

theorem accept_warnings_throttled_iff_alternating : ¬ (WarningsSpaced 0 Sample.alternating ∧
    FirstsWarned 0 Sample.alternating ∧
    SuppressedReported 0 Sample.alternating) := by
  rw [accept_warnings_throttled_iff 0 Sample.alternating (by decide)]
  intro ⟨hreturns, _⟩
  have hlate := hreturns [] ⟨.uncategorized, 2⟩ [⟨.connectionAborted, 1⟩] ⟨.uncategorized, 0⟩ [] rfl
    (.stretch (by simp)) rfl ⟨_, List.mem_cons_self, by decide⟩
  revert hlate
  decide

end Causeway
