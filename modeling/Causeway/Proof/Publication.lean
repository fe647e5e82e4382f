import Causeway.Proof.Daemon

/-!
# What a class publishes

In every state that any interleaving reaches, a class whose lock is free shows its active path: in its route, in the state file and in the pool of the active subscription.
-/

namespace Causeway

open Concurrent History

/-- Every class with a free lock shows its active path, every install raises the class's generation by one and nothing else touches the route, and every node is installed under the publication it was chosen from. -/
theorem class_publication {env : Env} {w : World} (hstart : Started env w) {tasks : Nat → Task}
    {moves : List (Move World)} {last : Pool World Outside Reply} (run : (daemon env tasks w).Run moves last) :
    (∀ cls ∈ env.classes, last.shared.locks (.cls cls) = .free →
      ∀ active, (last.shared.runtime cls).active = some active → Shown cls active last.shared.core) ∧
    (∀ m ∈ moves, ∀ cls ∈ env.classes,
      (m.after.route cls = m.before.route cls ∧
        installs (m.after.trail.hist cls) = installs (m.before.trail.hist cls)) ∨
      ((m.after.route cls).generation = (m.before.route cls).generation + 1 ∧
        installs (m.after.trail.hist cls) = installs (m.before.trail.hist cls) + 1)) ∧
    ∀ thread cls node chosenAt installedAt,
      .installed thread cls node chosenAt installedAt ∈ last.shared.trail.log → chosenAt = installedAt := by
  have hinv := reachable_inv hstart run
  refine ⟨fun cls hcls hfree => ?_, fun m hm cls hcls => ?_, fun _ _ _ _ _ hobs => hinv.log _ hobs⟩
  · exact (hinv.settled cls hcls (World.free hfree)).shown
  · obtain ⟨hbefore, hafter, hguar⟩ := reachable_moves hstart run m hm
    rcases hguar.routes cls with hsame | hinstalled
    · exact .inl hsame
    · refine .inr ⟨?_, hinstalled⟩
      have hcount : (m.after.route cls).generation = UInt64.ofNat (installs (m.after.trail.hist cls)) :=
        hafter.count cls hcls
      have hcount' : (m.before.route cls).generation = UInt64.ofNat (installs (m.before.trail.hist cls)) :=
        hbefore.count cls hcls
      have hinstalled' : installs (m.after.trail.hist cls) = installs (m.before.trail.hist cls) + 1 := hinstalled
      rw [hcount, hcount', hinstalled', UInt64.ofNat_add]
      rfl

/-- After an initial activation the class shows the path it is on. -/
theorem class_publication_activated : ∃ moves last active,
    (daemon (Sample.env Sample.web) (Sample.assign [.activateInitial "web"]) (Sample.world Sample.web)).Run
      moves last ∧ (last.shared.runtime "web").active = some active ∧ Shown "web" active last.shared.core := by
  obtain ⟨moves, last, run, _, hlast⟩ := Pool.exec_reaches (Sample.steps 0 28 Sample.fine)
    (daemon (Sample.env Sample.web) (Sample.assign [.activateInitial "web"]) (Sample.world Sample.web))
    (fun pool => pool.shared.locks (.cls "web") = .free && (pool.shared.runtime "web").active.isSome)
    (by decide +kernel)
  simp only [Bool.and_eq_true, decide_eq_true_eq] at hlast
  obtain ⟨active, hactive⟩ := Option.isSome_iff_exists.mp hlast.2
  have hmem : "web" ∈ (Sample.env Sample.web).classes := by decide +kernel
  exact ⟨moves, last, active, run, hactive,
    (class_publication (Sample.started Sample.web) run).1 "web" hmem hlast.1 active hactive⟩

end Causeway
