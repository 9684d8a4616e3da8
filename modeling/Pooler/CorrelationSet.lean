import Pooler.Concurrent
import Mathlib.Data.Fin.VecNotation

/-!
# What the shared correlation set guarantees

Every interleaving of the turns of one aggregator keeps `Cluster.Inv`. From it: an aggregate
bundles messages of its own epoch covering exactly the required projects; once a turn of every
required project has finished, the join has fired; and a complete correlation set always has a
turn at work on it. `join_needs_its_assumptions` shows that each assumption this takes is
needed.

The cleanup deletes by score, not by member. Whatever the turns and the start set, a message
added while another turn at its score is between its complete read and its cleanup can be
deleted without being bundled; only such a raced message is lost.
-/

set_option autoImplicit false

namespace Pooler

open Cluster

/-! ## Consequences of the invariant -/

section Join
variable {n : Nat} {R : List String} {messages : Fin n → PowerloomSnapshotFinalizedMessage}
  {c : Cluster n}

/-- Before its epoch's first aggregate, a finished turn of a required project stopped at an
incomplete read. -/
theorem Cluster.Inv.incomplete_of_completed (hinv : Inv messages R c) {i : Fin n}
    (hne : ¬ c.emitted (messages i).epochId) (hreq : (messages i).projectId ∈ R)
    (hi : (c.pc i).completed) : ∃ seen, c.pc i = .incomplete seen := by
  cases hpc : c.pc i with
  | skipped => exact absurd hreq (hinv.skipped i hpc)
  | noEvents => exact absurd (hinv.finished i (.inl hpc)) hne
  | raised => exact absurd hpc (hinv.notRaised i)
  | done => exact absurd (hinv.finished i (.inr hpc)) hne
  | incomplete seen => exact ⟨seen, rfl⟩
  | _ => simp [hpc, Pc.completed] at hi

/-- The last incomplete read of an epoch saw every project that finished before it, so they
cannot all have finished without an aggregate. -/
theorem Cluster.Inv.emitted_of_completed (hinv : Inv messages R c) (hR : R ≠ []) (k : Int)
    (hall : ∀ r ∈ R, ∃ i, (messages i).epochId = k ∧ (messages i).projectId = r ∧
      (c.pc i).completed) :
    c.emitted k := by
  by_contra hne
  have hinc : ∀ r ∈ R, ∃ i seen, (messages i).epochId = k ∧ (messages i).projectId = r ∧
      c.pc i = .incomplete seen := fun r hr => by
    obtain ⟨i, hik, hir, hi⟩ := hall r hr
    obtain ⟨seen, hseen⟩ := hinv.incomplete_of_completed (hik ▸ hne) (hir ▸ hr) hi
    exact ⟨i, seen, hik, hir, hseen⟩
  obtain ⟨r, hr⟩ := List.exists_mem_of_ne_nil R hR
  obtain ⟨i, seen, hik, -, hi⟩ := hinc r hr
  obtain ⟨i', seen', -, hi', hcover⟩ := hinv.witness k hne i seen hik hi
  have hsub := hinv.incomplete i' seen' hi'
  refine hsub.2 (Finset.Subset.antisymm hsub.1 fun r hr => ?_)
  obtain ⟨j, seenj, hjk, rfl, hj⟩ := hinc r (List.mem_toFinset.mp hr)
  exact hcover j seenj hjk hj

theorem Cluster.Inv.projectIds_ssubset_of_idle (hinv : Inv messages R c) (hR : R ≠ [])
    (hidle : ∀ i, (c.pc i).inProgress = false) (k : Int) : projectIds (readAt c.z k) ⊂ R.toFinset := by
  refine Finset.ssubset_iff_subset_ne.mpr ⟨hinv.projectIds_readAt_subset k, fun h => ?_⟩
  obtain ⟨i, -, hi⟩ := hinv.complete hR k h
  simp [hidle i] at hi

/-- Under any interleaving of the turns of an aggregator waiting for a non-empty `R` alone on
its set, with every epoch held exactly by a double, from a set of its own finalized messages
with no complete score: aggregates are exact, a join is never lost (it may fire more than
once), and an idle correlation set is incomplete. -/
theorem join_exact_and_never_lost {z₀ : ZSet} (hR : R ≠ [])
    (hbound : ∀ i, (messages i).epochId.natAbs ≤ 2 ^ 53)
    (hz₀ : ∀ e ∈ z₀.entries, ∃ m, e = (Member.finalized m, m.epochId) ∧ m.projectId ∈ R)
    (hfull : ∀ k, projectIds (readAt z₀ k) ≠ R.toFinset)
    (hc : Reachable (fun _ => R) messages z₀ c) :
    (∀ p ∈ c.published, (∀ x ∈ p.2, x.epochId = p.1) ∧ projectIds p.2 = R.toFinset) ∧
    (∀ k, (∀ r ∈ R, ∃ i, (messages i).epochId = k ∧ (messages i).projectId = r ∧
      (c.pc i).completed) → c.emitted k) ∧
    ((∀ i, (c.pc i).inProgress = false) → ∀ k, projectIds (readAt c.z k) ⊂ R.toFinset) :=
  have hinv := hc.inv hbound hz₀ hfull
  ⟨hinv.published, hinv.emitted_of_completed hR, hinv.projectIds_ssubset_of_idle hR⟩

/-- Under any interleaving of the turns on one set, whatever each waits for and whatever the set
held, a message a turn added is bundled, or still stored at its score, or was added while
another turn at its score held a complete read. -/
theorem zadded_message_bundled_or_stored_unless_raced {required : Fin n → List String} {z₀ : ZSet}
    (hc : Reachable required messages z₀ c) (i : Fin n) (hi : (c.pc i).zadded) :
    c.bundled (messages i) ∨ c.raced i = true ∨
      (Member.finalized (messages i), nearestDouble (messages i).epochId) ∈ c.z.entries :=
  (hc.keptInv.kept i hi).imp_right (Or.imp_right And.left)

end Join

/-! ## Runs at one epoch -/

/-- Snapshots of projects `A` and `B` at epoch 1, and a second snapshot of `A`. -/
def epochOneMessages : Fin 3 → PowerloomSnapshotFinalizedMessage :=
  ![⟨1, "A", "cidA", "b0"⟩, ⟨1, "B", "cidB", "b1"⟩, ⟨1, "A", "cidA2", "b2"⟩]

/-- A correlation set holding `members` at score 1. -/
def storedAtOne (members : List Member) : ZSet :=
  members.foldl (fun z member => z.zadd member 1) .empty

/-- The handlers of `A` and `B` both read the complete set before either cleans up: the
join fires twice. -/
theorem two_readers_join_twice :
    ∃ c, Reachable (fun _ => ["A", "B"]) epochOneMessages .empty c ∧ c.published.length = 2 ∧
      (∀ p ∈ c.published,
        (∀ x ∈ p.2, x.epochId = p.1) ∧ projectIds p.2 = (["A", "B"] : List String).toFinset) ∧
      (∀ k, (∀ r ∈ ["A", "B"], ∃ i, (epochOneMessages i).epochId = k ∧
        (epochOneMessages i).projectId = r ∧ (c.pc i).completed) → c.emitted k) ∧
      ((∀ i, (c.pc i).inProgress = false) → ∀ k,
        projectIds (readAt c.z k) ⊂ (["A", "B"] : List String).toFinset) := by
  have hc : Reachable (fun _ => ["A", "B"]) epochOneMessages .empty _ :=
    Reachable.of_run .init [0, 1, 0, 1, 0, 0, 1, 1] (by rfl)
  exact ⟨_, hc, rfl, join_exact_and_never_lost (by decide) (by decide) (by simp [ZSet.empty])
    (fun _ => by simpa [readAt, ZSet.empty, ZSet.zrangebyscore, projectIds] using
      (Finset.insert_ne_empty _ _).symm) hc⟩

/-- Runs that break the join when one assumption of `join_exact_and_never_lost` is dropped, in
the order it takes them. With nothing required every turn skips. Epochs `2 ^ 53` and
`2 ^ 53 + 1` share a score. An aggregator waiting for `A` alone on the same set deletes `A`
before the one waiting for `A` and `B` sees `B`. The start set holds a processing log, a
message of epoch 2 at score 1, a message of project `C`, or every required project. -/
theorem join_needs_its_assumptions :
    (∃ c, Reachable (fun _ => []) epochOneMessages .empty c ∧ (∀ i, (c.pc i).completed) ∧
      ¬ c.emitted 1 ∧ ¬ projectIds (readAt c.z 1) ⊂ ([] : List String).toFinset) ∧
    (∃ c, Reachable (fun _ => ["A", "B"])
      ![⟨2 ^ 53, "A", "cidA", "b0"⟩, ⟨2 ^ 53 + 1, "B", "cidB", "b1"⟩] .empty c ∧
      ∃ p ∈ c.published, ∃ x ∈ p.2, x.epochId ≠ p.1) ∧
    (∃ c, Reachable ![["A", "B"], ["A"], ["A", "B"], ["A"]]
      ![epochOneMessages 0, epochOneMessages 0, epochOneMessages 1, epochOneMessages 1] .empty c ∧
      (c.pc 0).completed ∧ (c.pc 2).completed ∧ c.emitted 1 ∧
      ∀ p ∈ c.published, projectIds p.2 ≠ (["A", "B"] : List String).toFinset) ∧
    (∃ c, Reachable (fun _ => ["A", "B"]) epochOneMessages
      (storedAtOne [.updateLog ⟨"w", "r", "e", .snapshotFinalized (epochOneMessages 0)⟩]) c ∧
      (c.pc 0).completed ∧ (c.pc 1).completed ∧ ¬ c.emitted 1) ∧
    (∃ c, Reachable (fun _ => ["A", "B"]) epochOneMessages
      (storedAtOne [.finalized ⟨2, "A", "cidA", "b0"⟩]) c ∧
      ∃ p ∈ c.published, ∃ x ∈ p.2, x.epochId ≠ p.1) ∧
    (∃ c, Reachable (fun _ => ["A", "B"]) epochOneMessages
      (storedAtOne [.finalized ⟨1, "C", "cidC", "b3"⟩]) c ∧
      (c.pc 0).completed ∧ (c.pc 1).completed ∧ ¬ c.emitted 1) ∧
    (∃ c, Reachable (fun _ => ["A", "B"]) epochOneMessages
      (storedAtOne [.finalized (epochOneMessages 0), .finalized (epochOneMessages 1)]) c ∧
      (∀ i, (c.pc i).inProgress = false) ∧
      ¬ projectIds (readAt c.z 1) ⊂ (["A", "B"] : List String).toFinset) :=
  ⟨⟨_, .of_run .init [0, 1, 2] (by rfl), by decide, by decide, by decide⟩,
    ⟨_, .of_run .init [0, 0, 1, 1, 1, 1] (by rfl), by decide⟩,
    ⟨_, .of_run .init [0, 0, 1, 1, 1, 1, 2, 2, 3] (by rfl), by decide⟩,
    ⟨_, .of_run .init [0, 0, 1, 1] (by rfl), by decide⟩,
    ⟨_, .of_run .init [1, 1, 1, 1] (by rfl), by decide⟩,
    ⟨_, .of_run .init [0, 0, 1, 1] (by rfl), by decide⟩,
    ⟨_, .init, by decide⟩⟩

/-- In the run where the join fires twice, the message of `B` was added and is bundled. -/
theorem two_readers_keep_every_message :
    ∃ c, Reachable (fun _ => ["A", "B"]) epochOneMessages .empty c ∧ (c.pc 1).zadded ∧
      (c.bundled (epochOneMessages 1) ∨ c.raced 1 = true ∨
        (Member.finalized (epochOneMessages 1), nearestDouble (epochOneMessages 1).epochId) ∈
          c.z.entries) := by
  have hc : Reachable (fun _ => ["A", "B"]) epochOneMessages .empty _ :=
    Reachable.of_run .init [0, 1, 0, 1, 0, 0, 1, 1] (by rfl)
  exact ⟨_, hc, rfl, zadded_message_bundled_or_stored_unless_raced hc 1 rfl⟩

/-- The second snapshot of `A` is added between the complete read of the handler of `A` and
its cleanup, which deletes it unread: every handler finishes, and it is neither bundled nor
stored. -/
theorem raced_zadd_deleted_unbundled :
    ∃ c, Reachable (fun _ => ["A", "B"]) epochOneMessages .empty c ∧ (∀ i, (c.pc i).completed) ∧
      (c.pc 2).zadded ∧ ¬ c.bundled (epochOneMessages 2) ∧
      (Member.finalized (epochOneMessages 2), nearestDouble (epochOneMessages 2).epochId) ∉ c.z.entries ∧
      c.raced 2 = true := by
  have hc : Reachable (fun _ => ["A", "B"]) epochOneMessages .empty _ :=
    Reachable.of_run .init [0, 1, 0, 2, 0, 0, 2, 1] (by rfl)
  exact ⟨_, hc, by decide⟩

end Pooler
