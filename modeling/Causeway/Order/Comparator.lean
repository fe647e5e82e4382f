import Mathlib.Data.List.Sort
import Mathlib.Data.Set.Basic

/-!
# Comparison functions

What a sort may expect of a comparison function on the values it is given: that it is the reverse of itself with its arguments exchanged, and that `lt` and `eq` are transitive. Two sorts of the same values then agree up to ties. Nothing here is said about values outside the set.
-/

namespace Comparator

variable {α β : Type} {cmp : α → α → Ordering} {S : Set α} {a b c : α} {l l' : List α}

/-- The function orders the values of the set weakly. -/
structure WeakOn (cmp : α → α → Ordering) (S : Set α) : Prop where
  swap : ∀ a ∈ S, ∀ b ∈ S, cmp b a = (cmp a b).swap
  lt_trans : ∀ a ∈ S, ∀ b ∈ S, ∀ c ∈ S, cmp a b = .lt → cmp b c = .lt → cmp a c = .lt
  eq_trans : ∀ a ∈ S, ∀ b ∈ S, ∀ c ∈ S, cmp a b = .eq → cmp b c = .eq → cmp a c = .eq

/-- The two values tie, pair by pair. -/
def Ties (cmp : α → α → Ordering) : List α → List α → Prop := List.Forall₂ fun a b => cmp a b = .eq

/-- A value before none. -/
def someFirst (cmp : α → α → Ordering) : Option α → Option α → Ordering
  | some a, some b => cmp a b
  | some _, none => .lt
  | none, some _ => .gt
  | none, none => .eq

namespace WeakOn

theorem mono {T : Set α} (h : WeakOn cmp S) (hT : T ⊆ S) : WeakOn cmp T :=
  ⟨fun a ha b hb => h.swap a (hT ha) b (hT hb),
    fun a ha b hb c hc => h.lt_trans a (hT ha) b (hT hb) c (hT hc),
    fun a ha b hb c hc => h.eq_trans a (hT ha) b (hT hb) c (hT hc)⟩

/-- The values are compared by a key. -/
theorem comap (h : WeakOn cmp S) (f : β → α) : WeakOn (fun a b => cmp (f a) (f b)) (Set.preimage f S) :=
  ⟨fun _ ha _ hb => h.swap _ ha _ hb, fun _ ha _ hb _ hc => h.lt_trans _ ha _ hb _ hc,
    fun _ ha _ hb _ hc => h.eq_trans _ ha _ hb _ hc⟩

theorem eq_comm (h : WeakOn cmp S) (ha : a ∈ S) (hb : b ∈ S) (hab : cmp a b = .eq) : cmp b a = .eq := by
  rw [h.swap a ha b hb, hab]
  rfl

theorem gt_iff (h : WeakOn cmp S) (ha : a ∈ S) (hb : b ∈ S) : cmp b a = .gt ↔ cmp a b = .lt := by
  rw [h.swap a ha b hb]
  cases cmp a b <;> simp

/-- The order from highest to lowest. -/
theorem flip (h : WeakOn cmp S) : WeakOn (fun a b => cmp b a) S :=
  ⟨fun a ha b hb => h.swap b hb a ha, fun a ha b hb c hc hab hbc => h.lt_trans c hc b hb a ha hbc hab,
    fun a ha b hb c hc hab hbc => h.eq_trans c hc b hb a ha hbc hab⟩

theorem refl (h : WeakOn cmp S) (ha : a ∈ S) : cmp a a = .eq := by
  have hswap := h.swap a ha a ha
  cases hcmp : cmp a a with
  | lt => simp [hcmp] at hswap
  | eq => rfl
  | gt => simp [hcmp] at hswap

theorem lt_of_lt_of_eq (h : WeakOn cmp S) (ha : a ∈ S) (hb : b ∈ S) (hc : c ∈ S) (hab : cmp a b = .lt)
    (hbc : cmp b c = .eq) : cmp a c = .lt := by
  cases hac : cmp a c with
  | lt => rfl
  | eq =>
      have hlast := h.eq_trans a ha c hc b hb hac (h.eq_comm hb hc hbc)
      simp [hab] at hlast
  | gt =>
      have hlast := h.lt_trans c hc a ha b hb ((h.gt_iff hc ha).mp hac) hab
      rw [h.swap b hb c hc, hbc] at hlast
      cases hlast

theorem lt_of_eq_of_lt (h : WeakOn cmp S) (ha : a ∈ S) (hb : b ∈ S) (hc : c ∈ S) (hab : cmp a b = .eq)
    (hbc : cmp b c = .lt) : cmp a c = .lt := by
  have hba := h.eq_comm ha hb hab
  cases hac : cmp a c with
  | lt => rfl
  | eq =>
      have hlast := h.eq_trans b hb a ha c hc hba hac
      simp [hbc] at hlast
  | gt =>
      have hlast := h.lt_trans b hb c hc a ha hbc ((h.gt_iff hc ha).mp hac)
      simp [hba] at hlast

theorem not_gt_trans (h : WeakOn cmp S) (ha : a ∈ S) (hb : b ∈ S) (hc : c ∈ S) (hab : cmp a b ≠ .gt)
    (hbc : cmp b c ≠ .gt) : cmp a c ≠ .gt := by
  cases hab' : cmp a b with
  | gt => exact absurd hab' hab
  | lt =>
      cases hbc' : cmp b c with
      | gt => exact absurd hbc' hbc
      | lt => simp [h.lt_trans a ha b hb c hc hab' hbc']
      | eq => simp [h.lt_of_lt_of_eq ha hb hc hab' hbc']
  | eq =>
      cases hbc' : cmp b c with
      | gt => exact absurd hbc' hbc
      | lt => simp [h.lt_of_eq_of_lt ha hb hc hab' hbc']
      | eq => simp [h.eq_trans a ha b hb c hc hab' hbc']

/-- It is enough that "not above" is transitive. -/
theorem of_not_gt_trans (hswap : ∀ a ∈ S, ∀ b ∈ S, cmp b a = (cmp a b).swap)
    (htrans : ∀ a ∈ S, ∀ b ∈ S, ∀ c ∈ S, cmp a b ≠ .gt → cmp b c ≠ .gt → cmp a c ≠ .gt) : WeakOn cmp S := by
  refine ⟨hswap, fun a ha b hb c hc hab hbc => ?_, fun a ha b hb c hc hab hbc => ?_⟩
  · cases hac : cmp a c with
    | lt => rfl
    | eq =>
        refine absurd ?_ (htrans c hc a ha b hb (by simp [hswap a ha c hc, hac]) (by simp [hab]))
        simp [hswap b hb c hc, hbc]
    | gt => exact absurd hac (htrans a ha b hb c hc (by simp [hab]) (by simp [hbc]))
  · cases hac : cmp a c with
    | eq => rfl
    | lt =>
        refine absurd ?_ (htrans c hc b hb a ha (by simp [hswap b hb c hc, hbc]) (by simp [hswap a ha b hb, hab]))
        simp [hswap a ha c hc, hac]
    | gt => exact absurd hac (htrans a ha b hb c hc (by simp [hab]) (by simp [hbc]))

theorem of_transCmp [Std.TransCmp cmp] : WeakOn cmp Set.univ :=
  ⟨fun _ _ _ _ => Std.OrientedCmp.eq_swap, fun _ _ _ _ _ _ => Std.TransCmp.lt_trans,
    fun _ _ _ _ _ _ => Std.TransCmp.eq_trans⟩

theorem someFirst (h : WeakOn cmp S) : WeakOn (Comparator.someFirst cmp) {o | ∀ a, o = some a → a ∈ S} := by
  constructor
  · intro o ho p hp
    cases o with
    | none => cases p <;> rfl
    | some a =>
        cases p with
        | none => rfl
        | some b => exact h.swap a (ho a rfl) b (hp b rfl)
  · intro o ho p hp q hq hop hpq
    cases o with
    | none => cases p <;> cases hop
    | some a =>
        cases q with
        | none => rfl
        | some c =>
            cases p with
            | none => cases hpq
            | some b => exact h.lt_trans a (ho a rfl) b (hp b rfl) c (hq c rfl) hop hpq
  · intro o ho p hp q hq hop hpq
    cases p with
    | none =>
        cases o with
        | none => exact hpq
        | some a => cases hop
    | some b =>
        cases o with
        | none => cases hop
        | some a =>
            cases q with
            | none => cases hpq
            | some c => exact h.eq_trans a (ho a rfl) b (hp b rfl) c (hq c rfl) hop hpq

/-- The second function decides the ties of the first. -/
theorem thenWith (h : WeakOn cmp S) (h' : WeakOn cmp' S) : WeakOn (fun a b => (cmp a b).then (cmp' a b)) S := by
  constructor
  · intro a ha b hb
    rw [h.swap a ha b hb, h'.swap a ha b hb, Ordering.swap_then]
  · intro a ha b hb c hc hab hbc
    rw [Ordering.then_eq_lt] at hab hbc ⊢
    rcases hab with hab | ⟨hab, hab'⟩
    · rcases hbc with hbc | ⟨hbc, -⟩
      · exact .inl (h.lt_trans a ha b hb c hc hab hbc)
      · exact .inl (h.lt_of_lt_of_eq ha hb hc hab hbc)
    · rcases hbc with hbc | ⟨hbc, hbc'⟩
      · exact .inl (h.lt_of_eq_of_lt ha hb hc hab hbc)
      · exact .inr ⟨h.eq_trans a ha b hb c hc hab hbc, h'.lt_trans a ha b hb c hc hab' hbc'⟩
  · intro a ha b hb c hc hab hbc
    rw [Ordering.then_eq_eq] at hab hbc ⊢
    exact ⟨h.eq_trans a ha b hb c hc hab.1 hbc.1, h'.eq_trans a ha b hb c hc hab.2 hbc.2⟩

/-! ### Sorting -/

theorem orderedInsert_pairwise (h : WeakOn cmp S) (ha : a ∈ S) (hl : ∀ b ∈ l, b ∈ S)
    (hsorted : l.Pairwise fun a b => cmp a b ≠ .gt) :
    (l.orderedInsert (fun a b => cmp a b ≠ .gt) a).Pairwise fun a b => cmp a b ≠ .gt := by
  induction l with
  | nil => simp
  | cons b l ih =>
      obtain ⟨hb, hl⟩ := List.forall_mem_cons.mp hl
      obtain ⟨hhead, htail⟩ := List.pairwise_cons.mp hsorted
      by_cases hab : cmp a b ≠ .gt
      · rw [List.orderedInsert, if_pos hab]
        refine List.pairwise_cons.mpr ⟨fun c hc => ?_, hsorted⟩
        rcases List.mem_cons.mp hc with rfl | hc
        · exact hab
        · exact h.not_gt_trans ha hb (hl c hc) hab (hhead c hc)
      · rw [List.orderedInsert, if_neg hab]
        have hba : cmp b a ≠ .gt := by
          simp [(h.gt_iff hb ha).mp (not_not.mp hab)]
        refine List.pairwise_cons.mpr ⟨fun c hc => ?_, ih hl htail⟩
        rcases (List.mem_orderedInsert _).mp hc with rfl | hc
        · exact hba
        · exact hhead c hc

theorem insertionSort_pairwise (h : WeakOn cmp S) (hl : ∀ a ∈ l, a ∈ S) :
    (l.insertionSort fun a b => cmp a b ≠ .gt).Pairwise fun a b => cmp a b ≠ .gt := by
  induction l with
  | nil => simp
  | cons a l ih =>
      obtain ⟨ha, hl⟩ := List.forall_mem_cons.mp hl
      refine h.orderedInsert_pairwise ha (fun b hb => hl b ?_) (ih hl)
      exact (List.mem_insertionSort _).mp hb

/-- How many values of the list are below one of them. -/
def rank (cmp : α → α → Ordering) (l : List α) (a : α) : Nat := l.countP fun b => cmp b a = .lt

theorem rank_lt (h : WeakOn cmp S) (hl : ∀ a ∈ l, a ∈ S) (ha : a ∈ l) (hb : b ∈ l) (hab : cmp a b = .lt) :
    rank cmp l a < rank cmp l b := by
  have hbelow : ∀ c ∈ l, cmp c a = .lt → cmp c b = .lt := fun c hc hca =>
    h.lt_trans c (hl c hc) a (hl a ha) b (hl b hb) hca hab
  have hself := h.refl (hl a ha)
  obtain ⟨before, after, rfl⟩ := List.append_of_mem ha
  have hfirst := List.countP_mono_left (p := fun c => decide (cmp c a = .lt)) (q := fun c => decide (cmp c b = .lt))
    (l := before) fun c hc => by simpa using hbelow c (by simp [hc])
  have hsecond := List.countP_mono_left (p := fun c => decide (cmp c a = .lt)) (q := fun c => decide (cmp c b = .lt))
    (l := after) fun c hc => by simpa using hbelow c (by simp [hc])
  simp only [rank, List.countP_append, List.countP_cons, hself, hab]
  simp
  omega

theorem rank_eq (h : WeakOn cmp S) (hl : ∀ a ∈ l, a ∈ S) (ha : a ∈ l) (hb : b ∈ l) (hab : cmp a b = .eq) :
    rank cmp l a = rank cmp l b := by
  refine List.countP_congr fun c hc => ?_
  rw [decide_eq_true_eq, decide_eq_true_eq]
  constructor
  · exact fun hca => h.lt_of_lt_of_eq (hl c hc) (hl a ha) (hl b hb) hca hab
  · exact fun hcb => h.lt_of_lt_of_eq (hl c hc) (hl b hb) (hl a ha) hcb (h.eq_comm (hl a ha) (hl b hb) hab)

/-- The ranks of two values tell how they compare. -/
theorem rank_le_iff (h : WeakOn cmp S) (hl : ∀ a ∈ l, a ∈ S) (ha : a ∈ l) (hb : b ∈ l) :
    rank cmp l a ≤ rank cmp l b ↔ cmp a b ≠ .gt := by
  cases hab : cmp a b with
  | lt => simpa using (h.rank_lt hl ha hb hab).le
  | eq => simpa using (h.rank_eq hl ha hb hab).le
  | gt => simpa using h.rank_lt hl hb ha ((h.gt_iff (hl b hb) (hl a ha)).mp hab)

/-- Two sorted lists of the same values agree up to ties. -/
theorem ties_of_perm (h : WeakOn cmp S) (hl : ∀ a ∈ l, a ∈ S) (hperm : l.Perm l')
    (hsorted : l.Pairwise fun a b => cmp a b ≠ .gt) (hsorted' : l'.Pairwise fun a b => cmp a b ≠ .gt) :
    Ties cmp l l' := by
  have hranked : ∀ {k : List α}, (∀ a ∈ k, a ∈ l) → k.Pairwise (fun a b => cmp a b ≠ .gt) →
      (k.map (rank cmp l)).Pairwise (· ≤ ·) := by
    intro k hk hsorted
    rw [List.pairwise_map]
    exact hsorted.imp_of_mem fun ha hb hab => (h.rank_le_iff hl (hk _ ha) (hk _ hb)).mpr hab
  have hsame : l.map (rank cmp l) = l'.map (rank cmp l) :=
    (hperm.map _).eq_of_pairwise (fun a b _ _ => Nat.le_antisymm) (hranked (fun _ ha => ha) hsorted)
      (hranked (fun a ha => hperm.mem_iff.mpr ha) hsorted')
  refine List.forall₂_iff_get.mpr ⟨hperm.length_eq, fun n hn hn' => ?_⟩
  have ha := List.get_mem l ⟨n, hn⟩
  have hb := hperm.mem_iff.mpr (List.get_mem l' ⟨n, hn'⟩)
  have hrank : rank cmp l (l.get ⟨n, hn⟩) = rank cmp l (l'.get ⟨n, hn'⟩) := by
    have hget := congrArg (·[n]?) hsame
    simpa [hn, hn'] using hget
  have hle := (h.rank_le_iff hl ha hb).mp hrank.le
  have hge := (h.rank_le_iff hl hb ha).mp hrank.ge
  cases hab : cmp (l.get ⟨n, hn⟩) (l'.get ⟨n, hn'⟩) with
  | lt => exact absurd ((h.gt_iff (hl _ ha) (hl _ hb)).mpr hab) hge
  | eq => rfl
  | gt => exact absurd hab hle

end WeakOn

end Comparator
