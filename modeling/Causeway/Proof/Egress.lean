import Causeway.Model.Egress
import Causeway.Timing.Debounce

/-!
# Egress signatures and their transitions

A signature is decided by the best up default routes of either family, and a transition is delivered for a signature that has been seen long enough, outside every cooldown.
-/

namespace Causeway

/-! ### Signatures -/

theorem sortedLT_preferred {routes : List DefaultRoute} : (preferred routes).SortedLT := by
  unfold preferred
  split
  · rename_i hnone
    simp [List.map_eq_nil_iff.mp (List.min?_eq_none_iff.mp hnone), List.sortedLT_iff_pairwise]
  · exact Distinct.sortedLT_sortDedup

theorem mem_preferred {routes : List DefaultRoute} {route : DefaultRoute} :
    route ∈ preferred routes ↔ Distinct.Least DefaultRoute.metric routes route := by
  unfold preferred
  split
  · rename_i hnone
    simp [Distinct.Least, List.map_eq_nil_iff.mp (List.min?_eq_none_iff.mp hnone)]
  · rename_i metric hmin
    rw [Distinct.mem_sortDedup, Distinct.mem_filter_min hmin]

/-- A line of the IPv4 table for a default route that is up: interface, destination, gateway, flags, reference count, uses, metric and mask. -/
inductive Ipv4Default (line : List Char) : DefaultRoute → Prop where
  | mk (interface gateway flags refCnt use metric : List Char) (more : List (List Char)) (bits cost : Nat)
    (fields : splitWhitespace line = interface :: "00000000".toList :: gateway :: flags :: refCnt :: use :: metric ::
      "00000000".toList :: more)
    (flagged : u32FromStrRadix flags 16 = some bits) (isUp : bits % 2 = 1) (measured : u32FromStrRadix metric 10 = some cost) :
    Ipv4Default line ⟨String.ofList interface, String.ofList (toAsciiLowercase gateway), cost⟩

/-- The same of the IPv6 table: destination, source, gateway, metric, reference count, uses, flags and interface. -/
inductive Ipv6Default (line : List Char) : DefaultRoute → Prop where
  | mk (gateway metric refCnt use flags interface : List Char) (more : List (List Char)) (bits cost : Nat)
    (fields : splitWhitespace line = "00000000000000000000000000000000".toList :: "00".toList ::
      "00000000000000000000000000000000".toList :: "00".toList :: gateway :: metric :: refCnt :: use :: flags ::
      interface :: more)
    (flagged : u32FromStrRadix flags 16 = some bits) (isUp : bits % 2 = 1) (measured : u32FromStrRadix metric 16 = some cost) :
    Ipv6Default line ⟨String.ofList interface, String.ofList (toAsciiLowercase gateway), cost⟩

section

variable {layout : RouteLayout} {line : List Char} {route : DefaultRoute}

theorem RouteLayout.route_eq_some : layout.route line = some route ↔
    layout.fields ≤ (splitWhitespace line).length ∧
    (∀ zero ∈ layout.zero, (splitWhitespace line).getD zero.1 [] = zero.2.toList) ∧
    ∃ bits cost, u32FromStrRadix ((splitWhitespace line).getD layout.flags []) 16 = some bits ∧ bits % 2 = 1 ∧
      u32FromStrRadix ((splitWhitespace line).getD layout.metric []) layout.metricRadix = some cost ∧
      route = ⟨String.ofList ((splitWhitespace line).getD layout.interface []),
        String.ofList (toAsciiLowercase ((splitWhitespace line).getD layout.gateway [])), cost⟩ := by
  unfold RouteLayout.route
  dsimp only
  split
  · rename_i hbad
    constructor
    · simp
    · rintro ⟨henough, hdefault, -⟩
      rcases hbad with hshort | ⟨zero, hmem, hne⟩
      · exact absurd henough (by omega)
      · exact absurd (hdefault zero hmem) hne
  · rename_i hgood
    push Not at hgood
    constructor
    · intro h
      obtain ⟨bits, hbits, h⟩ := Option.bind_eq_some_iff.mp h
      rw [Nat.and_one_is_mod] at h
      split at h
      · cases h
      · rename_i hup
        obtain ⟨cost, hcost, heq⟩ := Option.bind_eq_some_iff.mp h
        exact ⟨hgood.1, hgood.2, bits, cost, hbits, by omega, hcost, (Option.some.inj heq).symm⟩
    · rintro ⟨-, -, bits, cost, hbits, hup, hcost, rfl⟩
      have hodd : bits &&& 1 ≠ 0 := by
        rw [Nat.and_one_is_mod, hup]
        decide
      rw [hbits, Option.bind_eq_bind, Option.bind_some, if_neg hodd, hcost]
      rfl

theorem route_ipv4Layout : ipv4Layout.route line = some route ↔ Ipv4Default line route := by
  rw [RouteLayout.route_eq_some]
  constructor
  · rintro ⟨henough, hdefault, bits, cost, hbits, hup, hcost, rfl⟩
    match hfields : splitWhitespace line, henough with
    | interface :: destination :: gateway :: flags :: refCnt :: use :: metric :: mask :: more, _ =>
        rw [hfields] at hdefault hbits hcost
        obtain rfl : destination = _ := hdefault (1, "00000000") List.mem_cons_self
        obtain rfl : mask = _ := hdefault (7, "00000000") (List.mem_cons_of_mem _ List.mem_cons_self)
        exact .mk interface gateway flags refCnt use metric more bits cost hfields hbits hup hcost
  · rintro ⟨interface, gateway, flags, refCnt, use, metric, more, bits, cost, hfields, hbits, hup, hcost⟩
    rw [hfields]
    refine ⟨Nat.le_add_left _ _, ?_, bits, cost, hbits, hup, hcost, rfl⟩
    simp [ipv4Layout]

theorem route_ipv6Layout : ipv6Layout.route line = some route ↔ Ipv6Default line route := by
  rw [RouteLayout.route_eq_some]
  constructor
  · rintro ⟨henough, hdefault, bits, cost, hbits, hup, hcost, rfl⟩
    match hfields : splitWhitespace line, henough with
    | destination :: length :: source :: sourceLength :: gateway :: metric :: refCnt :: use :: flags :: interface :: more, _ =>
        rw [hfields] at hdefault hbits hcost
        obtain rfl : destination = _ := hdefault (0, "00000000000000000000000000000000") (by simp [ipv6Layout])
        obtain rfl : length = _ := hdefault (1, "00") (by simp [ipv6Layout])
        obtain rfl : source = _ := hdefault (2, "00000000000000000000000000000000") (by simp [ipv6Layout])
        obtain rfl : sourceLength = _ := hdefault (3, "00") (by simp [ipv6Layout])
        exact .mk gateway metric refCnt use flags interface more bits cost hfields hbits hup hcost
  · rintro ⟨gateway, metric, refCnt, use, flags, interface, more, bits, cost, hfields, hbits, hup, hcost⟩
    rw [hfields]
    refine ⟨Nat.le_add_left _ _, ?_, bits, cost, hbits, hup, hcost, rfl⟩
    simp [ipv6Layout]

end

namespace RouteTable

-- The two tables differ only in which lines give a default route.
variable {gives : List Char → DefaultRoute → Prop} {layout : RouteLayout} {lines lines' : List (List Char)}
  {route : DefaultRoute}

/-- A default route of the lines that is up, and none is better. -/
def Preferred (gives : List Char → DefaultRoute → Prop) (lines : List (List Char)) (route : DefaultRoute) : Prop :=
  (∃ line ∈ lines, gives line route) ∧ ∀ line ∈ lines, ∀ other, gives line other → route.metric ≤ other.metric

/-- Changes of a table that touch no preferred route. -/
inductive Immaterial (gives : List Char → DefaultRoute → Prop) (lines lines' : List (List Char)) : Prop where
  /-- The same lines in another order, each any number of times. -/
  | rearranged (h : ∀ line, line ∈ lines ↔ line ∈ lines')
  /-- The lines that differ are malformed, or of a route that is down or no default. -/
  | unusable (h : ∀ line, (∃ route, gives line route) → (line ∈ lines ↔ line ∈ lines'))
  /-- The routes that differ are worse than the best one. -/
  | backups (best : DefaultRoute) (hbest : Preferred gives lines best)
      (h : ∀ line route, gives line route → route.metric ≤ best.metric → (line ∈ lines ↔ line ∈ lines'))

theorem mem_filterMap_route (hgives : ∀ {line route}, layout.route line = some route ↔ gives line route) :
    route ∈ lines.filterMap layout.route ↔ ∃ line ∈ lines, gives line route := by
  simp only [List.mem_filterMap, hgives]

theorem least_iff (hgives : ∀ {line route}, layout.route line = some route ↔ gives line route) :
    Distinct.Least DefaultRoute.metric (lines.filterMap layout.route) route ↔ Preferred gives lines route := by
  rw [Distinct.Least, Preferred, mem_filterMap_route hgives]
  refine and_congr_right fun _ => ?_
  simp only [mem_filterMap_route hgives]
  exact ⟨fun h line hline other hother => h other ⟨line, hline, hother⟩,
    fun h other ⟨line, hline, hother⟩ => h line hline other hother⟩

theorem preferred_eq_iff (hgives : ∀ {line route}, layout.route line = some route ↔ gives line route) :
    preferred (lines.filterMap layout.route) = preferred (lines'.filterMap layout.route) ↔
    ∀ route, Preferred gives lines route ↔ Preferred gives lines' route := by
  constructor
  · intro h route
    rw [← least_iff hgives, ← least_iff hgives, ← mem_preferred, h, mem_preferred]
  · intro h
    apply sortedLT_preferred.eq_of_mem_iff sortedLT_preferred
    intro route
    rw [mem_preferred, mem_preferred, least_iff hgives, least_iff hgives]
    exact h route

theorem exists_gives_congr (h : ∀ line, gives line route → (line ∈ lines ↔ line ∈ lines')) :
    (∃ line ∈ lines, gives line route) ↔ ∃ line ∈ lines', gives line route := by
  constructor
  · intro ⟨line, hline, hroute⟩
    exact ⟨line, (h line hroute).mp hline, hroute⟩
  · intro ⟨line, hline, hroute⟩
    exact ⟨line, (h line hroute).mpr hline, hroute⟩

theorem preferred_congr (h : ∀ line, (∃ route, gives line route) → (line ∈ lines ↔ line ∈ lines')) :
    Preferred gives lines route ↔ Preferred gives lines' route := by
  refine and_congr (exists_gives_congr fun line hline => h line ⟨_, hline⟩) ?_
  constructor
  · intro hall line hline other hother
    exact hall line ((h line ⟨other, hother⟩).mpr hline) other hother
  · intro hall line hline other hother
    exact hall line ((h line ⟨other, hother⟩).mp hline) other hother

theorem Immaterial.preferred (h : Immaterial gives lines lines')
    (hgives : ∀ {line route}, layout.route line = some route ↔ gives line route) (route : DefaultRoute) :
    Preferred gives lines route ↔ Preferred gives lines' route := by
  cases h with
  | rearranged h => exact preferred_congr fun line _ => h line
  | unusable h => exact preferred_congr h
  | backups best hbest h =>
      rw [← least_iff hgives, ← least_iff hgives]
      apply Distinct.least_congr ((mem_filterMap_route hgives).mpr hbest.1)
      intro other hle
      rw [mem_filterMap_route hgives, mem_filterMap_route hgives]
      exact exists_gives_congr fun line hline => h line other hline hle

end RouteTable

open RouteTable (Preferred Immaterial)

/-- The best up default routes of either family decide the signature, and no other line of a table counts. -/
theorem parseSignature_eq_iff (ipv4 ipv4' ipv6 ipv6' : List Char) :
    (parseSignature ipv4 ipv6 = parseSignature ipv4' ipv6' ↔
      (∀ route, Preferred Ipv4Default ((textLines ipv4).drop 1) route ↔
        Preferred Ipv4Default ((textLines ipv4').drop 1) route) ∧
      ∀ route, Preferred Ipv6Default (textLines ipv6) route ↔ Preferred Ipv6Default (textLines ipv6') route) ∧
    (Immaterial Ipv4Default ((textLines ipv4).drop 1) ((textLines ipv4').drop 1) →
      Immaterial Ipv6Default (textLines ipv6) (textLines ipv6') → parseSignature ipv4 ipv6 = parseSignature ipv4' ipv6') := by
  have hiff : parseSignature ipv4 ipv6 = parseSignature ipv4' ipv6' ↔
      (∀ route, Preferred Ipv4Default ((textLines ipv4).drop 1) route ↔
        Preferred Ipv4Default ((textLines ipv4').drop 1) route) ∧
      ∀ route, Preferred Ipv6Default (textLines ipv6) route ↔ Preferred Ipv6Default (textLines ipv6') route := by
    rw [← RouteTable.preferred_eq_iff route_ipv4Layout, ← RouteTable.preferred_eq_iff route_ipv6Layout]
    simp [parseSignature, parseIpv4Defaults, parseIpv6Defaults]
  exact ⟨hiff, fun hipv4 hipv6 => hiff.mpr ⟨hipv4.preferred route_ipv4Layout, hipv6.preferred route_ipv6Layout⟩⟩

/-! ### The observer -/

namespace StableEgressObserver

open Debounce (Observation Delays CoolingDown SeenSince Stable Settles Due Faithful)

variable {observer : StableEgressObserver} {delays : Delays} {record : List (Observation EgressSignature)}
  {signature other : EgressSignature} {now time : Nat}

/-- The signature has a default route. -/
def Live (signature : EgressSignature) : Prop := signature.hasDefaultRoute = true

/-- The observer after the calls, the newest first, and their record. -/
def observeAll (delays : Delays) : List (EgressSignature × Nat) → StableEgressObserver × List (Observation EgressSignature)
  | [] => (new delays.stableFor delays.cooldown, [])
  | (signature, now) :: calls =>
      let (observer, record) := observeAll delays calls
      let (emitted, observer) := observer.observe signature now
      (observer, ⟨signature, now, emitted⟩ :: record)

structure LastDelivery (record : List (Observation EgressSignature)) (last : Option Nat) : Prop where
  delivered : ∀ time, last = some time → ∃ seen ∈ record, seen.emitted.isSome ∧ seen.time = time
  latest : ∀ seen ∈ record, seen.emitted.isSome → ∃ time, last = some time ∧ seen.time ≤ time

/-- The signature that may become the baseline, with the first time it was seen. -/
structure Pends (delays : Delays) (record : List (Observation EgressSignature)) (candidate : Option (EgressSignature × Nat)) :
    Prop where
  seen : ∀ signature time, candidate = some (signature, time) → SeenSince delays record signature time
  pending : ∀ signature time, SeenSince delays record signature time →
    Debounce.baseline delays Live record ≠ some signature → ∃ first ≤ time, candidate = some (signature, first)

structure Tracks (delays : Delays) (record : List (Observation EgressSignature)) (observer : StableEgressObserver) : Prop where
  stableFor : observer.stableFor = delays.stableFor
  cooldown : observer.cooldown = delays.cooldown
  baseline : observer.baseline = Debounce.baseline delays Live record
  transition : LastDelivery record observer.lastTransition
  candidate : Pends delays record observer.candidate

/-! ### One call -/

/-- A signature other than the baseline, outside a cooldown. -/
structure Changed (observer : StableEgressObserver) (signature : EgressSignature) (now : Nat) : Prop where
  old : observer.baseline ≠ none
  new : observer.baseline ≠ some signature
  ready : ∀ last, observer.lastTransition = some last → observer.cooldown ≤ now - last

/-- What `observe` can do, with the tests that decide it. -/
inductive Observes (observer : StableEgressObserver) (signature : EgressSignature) (now : Nat) :
    Option EgressSignature → StableEgressObserver → Prop where
  | first (h : observer.baseline = none) : Observes observer signature now none { observer with baseline := some signature }
  | unchanged (h : observer.baseline = some signature) : Observes observer signature now none { observer with candidate := none }
  | absorbed (hold : observer.baseline ≠ none) (last : Nat) (hlast : observer.lastTransition = some last)
      (hcooling : now - last < observer.cooldown) :
      Observes observer signature now none { observer with baseline := some signature, candidate := none }
  | started (h : Changed observer signature now) (hcandidate : ∀ time, observer.candidate ≠ some (signature, time)) :
      Observes observer signature now none { observer with candidate := some (signature, now) }
  | waiting (h : Changed observer signature now) (time : Nat) (hcandidate : observer.candidate = some (signature, time))
      (hshort : now - time < observer.stableFor) : Observes observer signature now none observer
  | delivered (h : Changed observer signature now) (time : Nat) (hcandidate : observer.candidate = some (signature, time))
      (hlong : observer.stableFor ≤ now - time) (hlive : Live signature) : Observes observer signature now (some signature)
        { observer with baseline := some signature, candidate := none, lastTransition := some now }
  | silent (h : Changed observer signature now) (time : Nat) (hcandidate : observer.candidate = some (signature, time))
      (hlong : observer.stableFor ≤ now - time) (hdead : ¬ Live signature) :
      Observes observer signature now none { observer with baseline := some signature, candidate := none }

theorem observes : Observes observer signature now (observer.observe signature now).1 (observer.observe signature now).2 := by
  unfold observe
  split
  · rename_i hnone
    exact .first hnone
  · rename_i old hold
    split
    · rename_i hsame
      exact .unchanged (hsame ▸ hold)
    · rename_i hne
      split
      · rename_i hcooling
        rw [Option.any_eq_true] at hcooling
        obtain ⟨last, hlast, hcooling⟩ := hcooling
        exact .absorbed (by simp [hold]) last hlast (of_decide_eq_true hcooling)
      · rename_i hready
        have hchanged : Changed observer signature now := by
          refine ⟨by simp [hold], by simp [hold, hne], fun last hlast => ?_⟩
          simpa [hlast] using hready
        split
        · rename_i hfilter
          apply Observes.started hchanged
          intro time htime
          simp [htime] at hfilter
        · rename_i confirmed firstSeen hfilter
          obtain ⟨hcandidate, heq⟩ := Option.filter_eq_some_iff.mp hfilter
          obtain rfl : confirmed = signature := by simpa using heq
          split
          · rename_i hshort
            exact .waiting hchanged firstSeen hcandidate hshort
          · rename_i hlong
            rw [Nat.not_lt] at hlong
            split
            · rename_i hlive
              exact .delivered hchanged firstSeen hcandidate hlong hlive
            · rename_i hdead
              exact .silent hchanged firstSeen hcandidate hlong hdead

/-! ### The record of all calls -/

section

variable {seen : Observation EgressSignature} {last : Option Nat} {candidate : Option (EgressSignature × Nat)}

theorem LastDelivery.quiet (h : LastDelivery record last) (hquiet : seen.emitted = none) : LastDelivery (seen :: record) last := by
  constructor
  · intro time htime
    obtain ⟨past, hpast, hemitted⟩ := h.delivered time htime
    exact ⟨past, List.mem_cons_of_mem _ hpast, hemitted⟩
  · intro past hpast hemitted
    rcases List.mem_cons.mp hpast with rfl | hpast
    · simp [hquiet] at hemitted
    · exact h.latest past hpast hemitted

theorem LastDelivery.renew (hemitted : seen.emitted.isSome) (htimes : ∀ past ∈ record, past.time ≤ seen.time) :
    LastDelivery (seen :: record) (some seen.time) := by
  constructor
  · intro time htime
    exact ⟨seen, List.mem_cons_self, hemitted, Option.some.inj htime⟩
  · intro past hpast _
    refine ⟨seen.time, rfl, ?_⟩
    rcases List.mem_cons.mp hpast with rfl | hpast
    · exact le_rfl
    · exact htimes past hpast

theorem LastDelivery.coolingDown_iff (h : LastDelivery record last) (htimes : ∀ past ∈ record, past.time ≤ now) :
    CoolingDown delays record now ↔ ∃ time, last = some time ∧ now - time < delays.cooldown := by
  constructor
  · intro ⟨past, hpast, hemitted, hlt⟩
    obtain ⟨time, rfl, hle⟩ := h.latest past hpast hemitted
    have := htimes past hpast
    exact ⟨time, rfl, by omega⟩
  · intro ⟨time, hlast, hlt⟩
    obtain ⟨past, hpast, hemitted, rfl⟩ := h.delivered time hlast
    exact ⟨past, hpast, hemitted, by omega⟩

/-- Once its signature is settled, an observation leaves nothing pending. -/
theorem Pends.settled (hbaseline : Debounce.baseline delays Live (seen :: record) = some seen.value) :
    Pends delays (seen :: record) none := by
  constructor
  · intro signature time h
    cases h
  · intro signature time hsince hne
    rw [Debounce.seenSince_cons] at hsince
    exact absurd (hsince.1 ▸ hbaseline) hne

theorem Pends.started (seen : Observation EgressSignature) (h : Pends delays record candidate) (hready : ¬ CoolingDown delays record seen.time)
    (hcandidate : ∀ time, candidate ≠ some (seen.value, time)) (hbaseline : Debounce.baseline delays Live (seen :: record) =
      Debounce.baseline delays Live record) : Pends delays (seen :: record) (some (seen.value, seen.time)) := by
  constructor
  · intro signature time heq
    obtain ⟨rfl, rfl⟩ := Prod.mk.inj (Option.some.inj heq)
    exact Debounce.seenSince_cons.mpr ⟨rfl, .inl ⟨rfl, hready⟩⟩
  · intro signature time hsince hne
    obtain ⟨rfl, ⟨rfl, -⟩ | hsince⟩ := Debounce.seenSince_cons.mp hsince
    · exact ⟨seen.time, le_rfl, rfl⟩
    · obtain ⟨first, -, hfirst⟩ := h.pending _ _ hsince (hbaseline ▸ hne)
      exact absurd hfirst (hcandidate first)

theorem Pends.waiting (seen : Observation EgressSignature) (h : Pends delays record candidate) (htimes : ∀ past ∈ record, past.time ≤ seen.time)
    (hcandidate : candidate = some (seen.value, time)) (hbaseline : Debounce.baseline delays Live (seen :: record) =
      Debounce.baseline delays Live record) : Pends delays (seen :: record) candidate := by
  have hsince := h.seen _ _ hcandidate
  constructor
  · intro signature time' heq
    obtain ⟨rfl, rfl⟩ := Prod.mk.inj (Option.some.inj (hcandidate.symm.trans heq))
    exact Debounce.seenSince_cons.mpr ⟨rfl, .inr hsince⟩
  · intro signature time' hsince' hne
    obtain ⟨rfl, ⟨rfl, -⟩ | hsince'⟩ := Debounce.seenSince_cons.mp hsince'
    · obtain ⟨first, hfirst, rfl⟩ := hsince.mem
      exact ⟨first.time, htimes first hfirst, hcandidate⟩
    · exact h.pending _ _ hsince' (hbaseline ▸ hne)

namespace Tracks

variable {observer' : StableEgressObserver} {emitted : Option EgressSignature}

theorem record_ne_nil (h : Tracks delays record observer) (hold : observer.baseline ≠ none) : record ≠ [] := by
  rw [h.baseline] at hold
  exact fun hnil => hold (Debounce.baseline_eq_none.mpr hnil)

theorem stable_iff (h : Tracks delays record observer) (htimes : ∀ past ∈ record, past.time ≤ now)
    (hnew : observer.baseline ≠ some signature) :
    Stable delays record signature now ↔
      ∃ time, observer.candidate = some (signature, time) ∧ observer.stableFor ≤ now - time := by
  rw [h.baseline] at hnew
  rw [h.stableFor]
  constructor
  · intro ⟨time, hsince, hlong⟩
    obtain ⟨first, hfirst, hcandidate⟩ := h.candidate.pending _ _ hsince hnew
    exact ⟨first, hcandidate, by omega⟩
  · intro ⟨time, hcandidate, hlong⟩
    have hsince := h.candidate.seen _ _ hcandidate
    obtain ⟨first, hfirst, rfl⟩ := hsince.mem
    have := htimes first hfirst
    exact ⟨first.time, hsince, by omega⟩

theorem not_coolingDown (h : Tracks delays record observer) (htimes : ∀ past ∈ record, past.time ≤ now)
    (hchanged : Changed observer signature now) : ¬ CoolingDown delays record now := by
  rw [h.transition.coolingDown_iff htimes]
  intro ⟨last, hlast, hlt⟩
  have hle := hchanged.ready last hlast
  rw [h.cooldown] at hle
  omega

/-- A call delivers the signature exactly when it is due. -/
theorem emits (h : Tracks delays record observer) (htimes : ∀ past ∈ record, past.time ≤ now)
    (hcall : Observes observer signature now emitted observer') :
    emitted = some other ↔ other = signature ∧ Due delays Live record ⟨signature, now, emitted⟩ := by
  have hnone : ∀ {emitted}, emitted = none → ¬ Due delays Live record ⟨signature, now, emitted⟩ →
      (emitted = some other ↔ other = signature ∧ Due delays Live record ⟨signature, now, emitted⟩) := by
    intro emitted hemitted hdue
    simp [hemitted ▸ hdue, hemitted]
  cases hcall with
  | first hbaseline =>
      apply hnone rfl
      intro hdue
      obtain ⟨time, hsince, -⟩ := hdue.stable
      rw [h.baseline] at hbaseline
      rw [Debounce.baseline_eq_none.mp hbaseline] at hsince
      exact Debounce.not_seenSince_nil hsince
  | unchanged hbaseline => exact hnone rfl fun hdue => hdue.changed (h.baseline ▸ hbaseline)
  | absorbed hold last hlast hcooling =>
      apply hnone rfl
      intro hdue
      exact hdue.ready ((h.transition.coolingDown_iff htimes).mpr ⟨last, hlast, h.cooldown ▸ hcooling⟩)
  | started hchanged hcandidate =>
      apply hnone rfl
      intro hdue
      obtain ⟨time, htime, -⟩ := (h.stable_iff htimes hchanged.new).mp hdue.stable
      exact hcandidate time htime
  | waiting hchanged time hcandidate hshort =>
      apply hnone rfl
      intro hdue
      obtain ⟨time', htime, hlong⟩ := (h.stable_iff htimes hchanged.new).mp hdue.stable
      obtain ⟨-, rfl⟩ := Prod.mk.inj (Option.some.inj (hcandidate.symm.trans htime))
      omega
  | delivered hchanged time hcandidate hlong hlive =>
      have hdue : Due delays Live record ⟨signature, now, some signature⟩ :=
        ⟨hlive, h.baseline ▸ hchanged.new, h.not_coolingDown htimes hchanged,
          (h.stable_iff htimes hchanged.new).mpr ⟨time, hcandidate, hlong⟩⟩
      simp [hdue, eq_comm]
  | silent hchanged time hcandidate hlong hdead => exact hnone rfl fun hdue => hdead hdue.alive

/-- Before its time has come, a new signature settles nothing. -/
theorem unsettled (h : Tracks delays record observer) (htimes : ∀ past ∈ record, past.time ≤ now)
    (hchanged : Changed observer signature now)
    (hshort : ∀ time, observer.candidate = some (signature, time) → now - time < observer.stableFor) :
    Debounce.baseline delays Live (⟨signature, now, none⟩ :: record) = Debounce.baseline delays Live record := by
  apply Debounce.baseline_unsettled
  intro hsettles
  cases hsettles with
  | first hnil => exact h.record_ne_nil hchanged.old hnil
  | cooldown hcooling => exact h.not_coolingDown htimes hchanged hcooling
  | dead hstable _ =>
      obtain ⟨time, hcandidate, hlong⟩ := (h.stable_iff htimes hchanged.new).mp hstable
      have := hshort time hcandidate
      omega
  | emitted hemitted => simp at hemitted

theorem settle (seen : Observation EgressSignature) (h : Tracks delays record observer)
    (hbaseline : Debounce.baseline delays Live (seen :: record) = some seen.value)
    (htransition : LastDelivery (seen :: record) last) :
    Tracks delays (seen :: record)
      { observer with baseline := some seen.value, candidate := none, lastTransition := last } where
  stableFor := h.stableFor
  cooldown := h.cooldown
  baseline := hbaseline.symm
  transition := htransition
  candidate := .settled hbaseline

theorem step (h : Tracks delays record observer) (htimes : ∀ past ∈ record, past.time ≤ now)
    (hcall : Observes observer signature now emitted observer') : Tracks delays (⟨signature, now, emitted⟩ :: record) observer' := by
  cases hcall with
  | first hnone =>
      rw [h.baseline] at hnone
      have hnil := Debounce.baseline_eq_none.mp hnone
      have hcandidate : observer.candidate = none := by
        cases hsome : observer.candidate with
        | none => rfl
        | some pair =>
            have hsince := h.candidate.seen _ _ hsome
            rw [hnil] at hsince
            exact absurd hsince Debounce.not_seenSince_nil
      have hsettled := h.settle ⟨signature, now, none⟩ (Debounce.baseline_settled (.first hnil)) (h.transition.quiet rfl)
      rwa [← hcandidate] at hsettled
  | unchanged hsame =>
      have hbaseline : Debounce.baseline delays Live (⟨signature, now, none⟩ :: record) = some signature :=
        @Debounce.baseline_append _ _ _ record [⟨signature, now, none⟩] _ (h.baseline ▸ hsame) (by simp)
      have hsettled := h.settle ⟨signature, now, none⟩ hbaseline (h.transition.quiet rfl)
      rwa [← hsame] at hsettled
  | absorbed hold last hlast hcooling =>
      have hcooling : CoolingDown delays record now :=
        (h.transition.coolingDown_iff htimes).mpr ⟨last, hlast, h.cooldown ▸ hcooling⟩
      exact h.settle ⟨signature, now, none⟩ (Debounce.baseline_settled (.cooldown hcooling)) (h.transition.quiet rfl)
  | started hchanged hcandidate =>
      have hbaseline := h.unsettled htimes hchanged fun time htime => absurd htime (hcandidate time)
      exact ⟨h.stableFor, h.cooldown, h.baseline.trans hbaseline.symm, h.transition.quiet rfl,
        h.candidate.started ⟨signature, now, none⟩ (h.not_coolingDown htimes hchanged) hcandidate hbaseline⟩
  | waiting hchanged time hcandidate hshort =>
      have hbaseline := h.unsettled htimes hchanged fun time' htime => by
        obtain ⟨-, rfl⟩ := Prod.mk.inj (Option.some.inj (hcandidate.symm.trans htime))
        exact hshort
      exact ⟨h.stableFor, h.cooldown, h.baseline.trans hbaseline.symm, h.transition.quiet rfl,
        h.candidate.waiting ⟨signature, now, none⟩ htimes hcandidate hbaseline⟩
  | delivered hchanged time hcandidate hlong hlive =>
      exact h.settle ⟨signature, now, some signature⟩ (Debounce.baseline_settled (.emitted rfl)) (.renew rfl htimes)
  | silent hchanged time hcandidate hlong hdead =>
      have hstable := (h.stable_iff htimes hchanged.new).mpr ⟨time, hcandidate, hlong⟩
      exact h.settle ⟨signature, now, none⟩ (Debounce.baseline_settled (.dead hstable hdead)) (h.transition.quiet rfl)

end Tracks

end

variable {calls : List (EgressSignature × Nat)}

theorem mem_observeAll {seen : Observation EgressSignature} (h : seen ∈ (observeAll delays calls).2) :
    (seen.value, seen.time) ∈ calls := by
  induction calls with
  | nil => simp [observeAll] at h
  | cons call calls ih =>
      rcases List.mem_cons.mp h with rfl | h
      · exact List.mem_cons_self
      · exact List.mem_cons_of_mem _ (ih h)

theorem observeAll_times {call : EgressSignature × Nat}
    (h : (call :: calls).Pairwise fun later earlier => earlier.2 ≤ later.2) :
    ∀ past ∈ (observeAll delays calls).2, past.time ≤ call.2 :=
  fun _ hpast => List.rel_of_pairwise_cons h (mem_observeAll hpast)

theorem tracks_observeAll (h : calls.Pairwise fun later earlier => earlier.2 ≤ later.2) :
    Tracks delays (observeAll delays calls).2 (observeAll delays calls).1 := by
  induction calls with
  | nil => exact ⟨rfl, rfl, rfl, ⟨by simp [observeAll, new], by simp [observeAll]⟩,
      ⟨by simp [observeAll, new], fun _ _ hsince => absurd hsince Debounce.not_seenSince_nil⟩⟩
  | cons call calls ih => exact (ih h.of_cons).step (observeAll_times h) observes

theorem faithful_observeAll (h : calls.Pairwise fun later earlier => earlier.2 ≤ later.2) :
    Faithful delays Live (observeAll delays calls).2 := by
  induction calls with
  | nil => exact .nil
  | cons call calls ih =>
      exact .cons (ih h.of_cons) (observeAll_times h) fun _ => (tracks_observeAll h.of_cons).emits (observeAll_times h) observes

/-- A signature is delivered exactly when it is due; deliveries are both delays apart, what is gone before its time is not delivered, and what comes up in a cooldown is not delivered later unless another signature has been settled in between. -/
theorem observer_debounces (delays : Delays) (calls : List (EgressSignature × Nat))
    (htimes : calls.Pairwise fun later earlier => earlier.2 ≤ later.2) (later earlier : List (Observation EgressSignature))
    (now : Observation EgressSignature) (hrecord : (observeAll delays calls).2 = later ++ now :: earlier) :
    (∀ signature, now.emitted = some signature ↔ signature = now.value ∧ Due delays Live earlier now) ∧
    (now.emitted.isSome → ∀ past ∈ earlier, past.emitted.isSome →
      past.time + delays.cooldown + delays.stableFor ≤ now.time) ∧
    (∀ transient steady before, earlier = transient ++ steady :: before →
      Debounce.baseline delays Live (steady :: before) = some steady.value →
      (∀ seen ∈ transient, now.time < seen.time + delays.stableFor) → ∀ seen ∈ transient, seen.emitted = none) ∧
    (∀ between seen before, earlier = between ++ seen :: before → CoolingDown delays before seen.time →
      now.emitted = some seen.value → ∃ since settled past, between = since ++ settled :: past ∧ settled.value ≠ seen.value ∧
        Settles delays Live (past ++ seen :: before) settled) := by
  have hfaithful : Faithful delays Live (observeAll delays calls).2 := faithful_observeAll htimes
  rw [hrecord] at hfaithful
  refine ⟨fun signature => hfaithful.emits, ?_, ?_, ?_⟩
  · intro hnow past hpast hemitted
    obtain ⟨between, before, rfl⟩ := List.append_of_mem hpast
    exact hfaithful.apart hnow hemitted
  · rintro transient steady before rfl hbaseline hshort seen hseen
    have hordered := hfaithful.of_append.times
    rw [← List.singleton_append, ← List.append_assoc] at hfaithful
    apply hfaithful.transient hbaseline _ hseen
    intro first hfirst last hlast
    have := hshort first hfirst
    have := hordered last (List.mem_append_left _ hlast)
    omega
  · rintro between seen before rfl hcooling hnow
    exact hfaithful.absorbed hcooling hnow

/-- A signature with one IPv4 route. -/
def via (interface : String) : EgressSignature := ⟨[⟨interface, "0100000a", 100⟩], []⟩

/-- The first calls of `observer_requires_stability_and_cooldown`, the newest first. -/
def sampleCalls : List (EgressSignature × Nat) :=
  [(via "new", 16), (via "new", 15), (via "new", 6), (via "old", 5), (via "transient", 2), (via "old", 0)]

theorem sample_delivers : Due ⟨10, 30⟩ Live (observeAll ⟨10, 30⟩ sampleCalls).2.tail ⟨via "new", 16, some (via "new")⟩ :=
  (((observer_debounces ⟨10, 30⟩ sampleCalls (by decide +kernel) [] (observeAll ⟨10, 30⟩ sampleCalls).2.tail
    ⟨via "new", 16, some (via "new")⟩ (by decide +kernel)).1 (via "new")).mp rfl).2

end StableEgressObserver

end Causeway
