import Mathlib.Algebra.Ring.Nat
import Mathlib.Data.List.Basic
import Mathlib.Tactic.Common

/-!
# Windows

A record of events of several kinds, with its newest event first, falls into stretches of one kind, and each stretch into windows of some length: the first begins with the stretch, and each further one with the first event that is outside the one before.
-/

namespace Windows

structure Event (κ : Type) where
  kind : κ
  time : Nat
deriving DecidableEq

variable {κ : Type} {length : Nat}

/-- An event of the kind of another, less than the length after it. -/
def Within (length : Nat) (first seen : Event κ) : Prop := seen.kind = first.kind ∧ seen.time < first.time + length

/-- The newest event begins a window. -/
inductive Opens (length : Nat) : List (Event κ) → Prop where
  | stretch {seen : Event κ} {earlier : List (Event κ)} (hkind : ∀ last ∈ earlier.head?, seen.kind ≠ last.kind) :
      Opens length (seen :: earlier)
  | expired {seen first : Event κ} {between earlier : List (Event κ)} (hopens : Opens length (first :: earlier))
      (hwithin : ∀ past ∈ between, Within length first past) (hkind : seen.kind = first.kind)
      (hover : first.time + length ≤ seen.time) : Opens length (seen :: (between ++ first :: earlier))

variable {seen first last : Event κ} {record between earlier : List (Event κ)}

theorem head_kind (hwithin : ∀ past ∈ between, Within length first past)
    (h : last ∈ (between ++ first :: earlier).head?) :
    last.kind = first.kind := by
  cases between with
  | nil =>
      cases h
      rfl
  | cons past between =>
      cases h
      exact (hwithin last List.mem_cons_self).1

/-- The newest event is in a window. -/
theorem exists_window (h : record ≠ []) : ∃ between first earlier, record = between ++ first :: earlier ∧
    Opens length (first :: earlier) ∧ ∀ past ∈ between, Within length first past := by
  induction record with
  | nil => exact absurd rfl h
  | cons seen record ih =>
      by_cases hnil : record = []
      · exact ⟨[], seen, record, rfl, .stretch (by simp [hnil]), by simp⟩
      · obtain ⟨between, first, earlier, rfl, hopens, hwithin⟩ := ih hnil
        by_cases hkind : seen.kind = first.kind
        · by_cases hover : first.time + length ≤ seen.time
          · exact ⟨[], seen, _, rfl, .expired hopens hwithin hkind hover, by simp⟩
          · refine ⟨seen :: between, first, earlier, rfl, hopens, ?_⟩
            simp only [List.mem_cons, forall_eq_or_imp]
            exact ⟨⟨hkind, by omega⟩, hwithin⟩
        · refine ⟨[], seen, _, rfl, .stretch fun last hlast heq => hkind ?_, by simp⟩
          rw [heq, head_kind hwithin hlast]

/-- What holds when a stretch begins and is kept from event to event holds of every window, with its first event and the number of
further ones. -/
theorem window_induction {P : List (Event κ) → Event κ → Nat → Prop} (hfirst : ∀ seen, P [seen] seen 0)
    (hchanged : ∀ seen record first count, P record first count → seen.kind ≠ first.kind → P (seen :: record) seen 0)
    (hexpired : ∀ seen record first count, P record first count → seen.kind = first.kind →
      first.time + length ≤ seen.time →
      P (seen :: record) seen 0)
    (hwithin : ∀ seen record first count, P record first count → Within length first seen →
      P (seen :: record) first (count + 1))
    (hopens : Opens length (first :: earlier)) (hbetween : ∀ past ∈ between, Within length first past) :
    P (between ++ first :: earlier) first between.length := by
  induction hlength : (between ++ first :: earlier).length using Nat.strongRecOn generalizing between first earlier with
  | ind n ih =>
      subst hlength
      cases between with
      | cons seen between =>
          apply hwithin
          · exact ih _ (by simp) hopens (fun past hpast => hbetween past (List.mem_cons_of_mem _ hpast)) rfl
          · exact hbetween seen List.mem_cons_self
      | nil =>
          cases hopens with
          | expired hold holdWithin hkind hover => exact hexpired _ _ _ _ (ih _ (by simp) hold holdWithin rfl) hkind hover
          | stretch hkind =>
              by_cases hnil : earlier = []
              · rw [hnil]
                exact hfirst first
              · obtain ⟨between, old, older, rfl, hold, holdWithin⟩ := @exists_window _ length _ hnil
                apply hchanged _ _ _ _ (ih _ (by simp) hold holdWithin rfl)
                obtain ⟨last, hlast⟩ : ∃ last, last ∈ (between ++ old :: older).head? := by
                  cases between <;> simp
                rw [← head_kind holdWithin hlast]
                exact hkind last hlast

/-- Events of one kind that begin no window are in the window of the one before them. -/
theorem within_of_not_opens (hopens : Opens length (first :: earlier)) (hkind : ∀ past ∈ between, past.kind = first.kind)
    (hnone : ∀ after past before, between = after ++ past :: before →
      ¬ Opens length (past :: (before ++ first :: earlier))) :
    ∀ past ∈ between, Within length first past := by
  induction between with
  | nil => simp
  | cons seen between ih =>
      have htail : ∀ past ∈ between, Within length first past := by
        apply ih fun past hpast => hkind past (List.mem_cons_of_mem _ hpast)
        intro after past before hbetween
        exact hnone (seen :: after) past before (by rw [hbetween, List.cons_append])
      have hseen := hkind seen List.mem_cons_self
      have hlt : seen.time < first.time + length := by
        by_contra hover
        exact hnone [] seen between rfl (.expired hopens htail hseen (by omega))
      simp only [List.mem_cons, forall_eq_or_imp]
      exact ⟨⟨hseen, hlt⟩, htail⟩

/-- Two windows of a record are the same or one is over before the other begins. -/
theorem split_windows {between' earlier' : List (Event κ)} {first' : Event κ}
    (h : between ++ first :: earlier = between' ++ first' :: earlier') :
    (first = first' ∧ between = between') ∨ (∃ older, earlier = older ++ first' :: earlier' ∧
      between' = between ++ first :: older) ∨
      ∃ newer, earlier' = newer ++ first :: earlier ∧ between = between' ++ first' :: newer := by
  rcases List.append_eq_append_iff.mp h with ⟨rest, rfl, hrest⟩ | ⟨rest, rfl, hrest⟩
  · cases rest with
    | nil =>
        obtain ⟨rfl, -⟩ := List.cons.inj hrest
        simp
    | cons head rest =>
        obtain ⟨rfl, rfl⟩ := List.cons.inj hrest
        exact .inr (.inl ⟨rest, rfl, rfl⟩)
  · cases rest with
    | nil =>
        obtain ⟨rfl, -⟩ := List.cons.inj hrest
        simp
    | cons head rest =>
        obtain ⟨rfl, rfl⟩ := List.cons.inj hrest
        exact .inr (.inr ⟨rest, rfl, rfl⟩)

/-- No window begins within another. -/
theorem not_opens_of_within (hopens : Opens length (first :: earlier))
    (hbetween : ∀ past ∈ between, Within length first past)
    (hwithin : Within length first seen) : ¬ Opens length (seen :: (between ++ first :: earlier)) := by
  induction hlength : (between ++ first :: earlier).length using Nat.strongRecOn generalizing seen first between earlier with
  | ind n ih =>
      subst hlength
      intro h
      generalize hrecord : seen :: (between ++ first :: earlier) = record at h
      cases h with
      | stretch hkind =>
          obtain ⟨rfl, rfl⟩ := List.cons.inj hrecord
          obtain ⟨last, hlast⟩ : ∃ last, last ∈ (between ++ first :: earlier).head? := by
            cases between <;> simp
          exact hkind last hlast (by rw [hwithin.1, head_kind hbetween hlast])
      | expired hopens' hbetween' hkind' hover' =>
          obtain ⟨rfl, hrest⟩ := List.cons.inj hrecord
          rcases split_windows hrest with ⟨rfl, rfl⟩ | ⟨older, rfl, rfl⟩ | ⟨newer, rfl, rfl⟩
          · have hlt := hwithin.2
            omega
          · -- The window would begin within the one of the other beginning.
            have holder : ∀ past ∈ older, Within length _ past := fun past hpast => hbetween' past (by simp [hpast])
            have hfirst := hbetween' first (by simp)
            refine ih _ ?_ hopens' holder hfirst rfl hopens
            simp only [List.length_append, List.length_cons]
            omega
          · have hnewer : ∀ past ∈ newer, Within length first past := fun past hpast => hbetween past (by simp [hpast])
            have hfirst := hbetween _ (List.mem_append_right _ List.mem_cons_self)
            refine ih _ ?_ hopens hnewer hfirst rfl hopens'
            simp only [List.length_append, List.length_cons]
            omega

/-- In a stretch, a window begins when the ones before it are over. -/
theorem over_of_opens (hopens : Opens length (first :: earlier)) (hkind : ∀ past ∈ between, past.kind = first.kind)
    (hseen : seen.kind = first.kind) (htimes : ∀ past ∈ between, first.time ≤ past.time)
    (h : Opens length (seen :: (between ++ first :: earlier))) : first.time + length ≤ seen.time := by
  generalize hrecord : seen :: (between ++ first :: earlier) = record at h
  cases h with
  | stretch hne =>
      obtain ⟨rfl, rfl⟩ := List.cons.inj hrecord
      exfalso
      cases between with
      | nil => exact hne first (by simp) hseen
      | cons past between => exact hne past (by simp) (by rw [hseen, hkind past List.mem_cons_self])
  | expired hopens' hbetween' hkind' hover' =>
      obtain ⟨rfl, hrest⟩ := List.cons.inj hrecord
      rcases split_windows hrest with ⟨rfl, rfl⟩ | ⟨older, rfl, rfl⟩ | ⟨newer, rfl, rfl⟩
      · exact hover'
      · exfalso
        have holder : ∀ past ∈ older, Within length _ past := fun past hpast => hbetween' past (by simp [hpast])
        exact not_opens_of_within hopens' holder (hbetween' first (by simp)) hopens
      · have hlater := htimes _ (List.mem_append_right _ List.mem_cons_self)
        omega

/-- A kind that is seen again after another one begins a stretch. -/
theorem exists_return (hseen : ∃ other ∈ between, other.kind ≠ seen.kind) :
    ∃ after again last before, seen :: between = after ++ again :: last :: before ∧ again.kind = seen.kind ∧
      last.kind ≠ seen.kind := by
  induction between generalizing seen with
  | nil => simp at hseen
  | cons past between ih =>
      by_cases hpast : past.kind = seen.kind
      · obtain ⟨other, hother, hne⟩ := hseen
        have hmem : other ∈ between := by
          rcases List.mem_cons.mp hother with rfl | hmem
          · exact absurd hpast hne
          · exact hmem
        obtain ⟨after, again, last, before, hsplit, hagain, hlast⟩ := @ih past ⟨other, hmem, by rwa [hpast]⟩
        exact ⟨seen :: after, again, last, before, by rw [hsplit, List.cons_append], by rw [hagain, hpast],
          by rwa [← hpast]⟩
      · exact ⟨[], seen, past, between, rfl, rfl, hpast⟩

end Windows
