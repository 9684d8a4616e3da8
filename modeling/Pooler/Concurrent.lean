import Pooler.Aggregation
import Mathlib.Data.Fintype.Basic

/-! Concurrent distributor instances on one correlation set.

One aggregator's turn in the handler of a `SnapshotFinalized` delivery runs the
multi-project branch of `_distribute_callbacks_aggregate` as four store operations, each
atomic on its own: `zadd`, `zrangebyscore`, the publish of the aggregate, and
`zremrangebyscore`. The turns of any number of instances interleave these operations in any
order on the one sorted set. Each turn waits for its own aggregator's projects, so the
aggregators of one project type, which share the set, are turns of one cluster.

`Cluster.KeptInv` holds in every cluster some interleaving reaches from any set.
`Cluster.Inv` holds in every cluster of one aggregator reached from a set of its own
finalized messages with no complete score, when a double holds every epoch exactly. `aggregateFor_eq_handlerRun` shows that the four steps
taken with no other turn in between are what `aggregateFor` does.
-/

set_option autoImplicit false

namespace Pooler

/-- Where a turn is. The data is what the Python locals hold there: `event_project_ids`
after an incomplete read, `finalized_messages` after a complete one. At `raised` a stored
member did not parse, and the `ValidationError` left the handler. -/
inductive Pc where
  | start
  | skipped
  | added
  | noEvents
  | raised
  | incomplete (eventProjectIds : Finset String)
  | toPublish (finalizedMessages : List PowerloomSnapshotFinalizedMessage)
  | toClean (finalizedMessages : List PowerloomSnapshotFinalizedMessage)
  | done
  deriving DecidableEq

namespace Pc

/-- Between the `zadd` and the end of the turn. -/
def inProgress : Pc → Bool
  | .added | .toPublish _ | .toClean _ => true
  | _ => false

def zadded : Pc → Bool
  | .start | .skipped => false
  | _ => true

def completed : Pc → Bool
  | .skipped | .noEvents | .raised | .incomplete _ | .done => true
  | _ => false

/-- What a turn holds between its complete `zrangebyscore` and its `zremrangebyscore`. -/
def window : Pc → Option (List PowerloomSnapshotFinalizedMessage)
  | .toPublish finalizedMessages | .toClean finalizedMessages => some finalizedMessages
  | _ => none

end Pc

/-- The finalized messages stored at the double score of `k`. -/
def readAt (z : ZSet) (k : Int) : List PowerloomSnapshotFinalizedMessage :=
  (z.zrangebyscore k k).filterMap Member.finalizedMessage

/-- The distinct project ids of some messages, `event_project_ids`. -/
def projectIds (messages : List PowerloomSnapshotFinalizedMessage) : Finset String :=
  (messages.map (·.projectId)).toFinset

theorem mem_readAt {z : ZSet} {k : Int} {m : PowerloomSnapshotFinalizedMessage} :
    m ∈ readAt z k ↔ (Member.finalized m, nearestDouble k) ∈ z.entries := by
  simp only [readAt, List.mem_filterMap, Member.finalizedMessage_eq_some, exists_eq_right,
    ZSet.mem_zrangebyscore]
  constructor
  · rintro ⟨s, he, hks, hsk⟩
    rwa [le_antisymm hsk hks] at he
  · exact fun he => ⟨_, he, le_rfl, le_rfl⟩

theorem mem_projectIds {messages : List PowerloomSnapshotFinalizedMessage} {p : String} :
    p ∈ projectIds messages ↔ ∃ m ∈ messages, m.projectId = p := by
  simp [projectIds]

section Handler
variable (required : List String) (processUnit : PowerloomSnapshotFinalizedMessage)

/-- One atomic step of the turn of `processUnit` for the aggregator waiting for `required`:
its next control point, the sorted set after the step, and the aggregate it publishes. -/
def handlerStep : Pc → ZSet → Option (Pc × ZSet × Option (List PowerloomSnapshotFinalizedMessage))
  | .start, z =>
    if processUnit.projectId ∉ required then some (.skipped, z, none)
    else some (.added, z.zadd (.finalized processUnit) processUnit.epochId, none)
  | .added, z =>
    let events := z.zrangebyscore processUnit.epochId processUnit.epochId
    if events = [] then some (.noEvents, z, none) else
    match events.mapM Member.parseFinalized with
    | .error _ => some (.raised, z, none)
    | .ok finalizedMessages =>
      if projectIds finalizedMessages = required.toFinset then some (.toPublish finalizedMessages, z, none)
      else some (.incomplete (projectIds finalizedMessages), z, none)
  | .toPublish finalizedMessages, z => some (.toClean finalizedMessages, z, some finalizedMessages)
  | .toClean _, z => some (.done, z.zremrangebyscore processUnit.epochId processUnit.epochId, none)
  | _, _ => none

/-- The steps `handlerStep` takes, one per branch of the handler; a read that parses gives
`readAt`. -/
inductive Moves : Pc → ZSet → Pc → ZSet → Option (List PowerloomSnapshotFinalizedMessage) → Prop
  | skip {z : ZSet} : processUnit.projectId ∉ required → Moves .start z .skipped z none
  | zadd {z : ZSet} : processUnit.projectId ∈ required →
      Moves .start z .added (z.zadd (.finalized processUnit) processUnit.epochId) none
  | noEvents {z : ZSet} : z.zrangebyscore processUnit.epochId processUnit.epochId = [] →
      Moves .added z .noEvents z none
  | raised {z : ZSet} :
      (∃ x ∈ z.zrangebyscore processUnit.epochId processUnit.epochId, ∀ m, x ≠ .finalized m) →
      Moves .added z .raised z none
  | incomplete {z : ZSet} : z.zrangebyscore processUnit.epochId processUnit.epochId ≠ [] →
      (∀ x ∈ z.zrangebyscore processUnit.epochId processUnit.epochId, ∃ m, x = .finalized m) →
      projectIds (readAt z processUnit.epochId) ≠ required.toFinset →
      Moves .added z (.incomplete (projectIds (readAt z processUnit.epochId))) z none
  | complete {z : ZSet} : z.zrangebyscore processUnit.epochId processUnit.epochId ≠ [] →
      (∀ x ∈ z.zrangebyscore processUnit.epochId processUnit.epochId, ∃ m, x = .finalized m) →
      projectIds (readAt z processUnit.epochId) = required.toFinset →
      Moves .added z (.toPublish (readAt z processUnit.epochId)) z none
  | publish {z : ZSet} {finalizedMessages : List PowerloomSnapshotFinalizedMessage} :
      Moves (.toPublish finalizedMessages) z (.toClean finalizedMessages) z (some finalizedMessages)
  | clean {z : ZSet} {finalizedMessages : List PowerloomSnapshotFinalizedMessage} :
      Moves (.toClean finalizedMessages) z .done (z.zremrangebyscore processUnit.epochId processUnit.epochId) none

/-- The turn taken with no other turn in between, for at most `fuel` steps: where it stops,
the set it leaves, and the aggregates it publishes. -/
def handlerRun : Nat → Pc → ZSet → Pc × ZSet × List (List PowerloomSnapshotFinalizedMessage)
  | 0, pc, z => (pc, z, [])
  | fuel + 1, pc, z =>
    match handlerStep required processUnit pc z with
    | none => (pc, z, [])
    | some (pc', z', out) =>
      let rest := handlerRun fuel pc' z'
      (rest.1, rest.2.1, out.toList ++ rest.2.2)

variable {required processUnit}

theorem Moves.of_handlerStep {pc pc' : Pc} {z z' : ZSet} {out : Option (List PowerloomSnapshotFinalizedMessage)}
    (h : handlerStep required processUnit pc z = some (pc', z', out)) :
    Moves required processUnit pc z pc' z' out := by
  cases pc with
  | start =>
    simp only [handlerStep, ite_not] at h
    split_ifs at h with hreq <;> simp only [Option.some.injEq, Prod.mk.injEq] at h <;>
      obtain ⟨rfl, rfl, rfl⟩ := h
    exacts [.zadd hreq, .skip hreq]
  | added =>
    simp only [handlerStep] at h
    split_ifs at h with hevents
    · simp only [Option.some.injEq, Prod.mk.injEq] at h
      obtain ⟨rfl, rfl, rfl⟩ := h
      exact .noEvents hevents
    split at h
    · rename_i err herr
      simp only [Option.some.injEq, Prod.mk.injEq] at h
      obtain ⟨rfl, rfl, rfl⟩ := h
      refine .raised ?_
      by_contra hall
      push_neg at hall
      rw [mapM_parseFinalized _ hall] at herr
      cases herr
    · rename_i finalizedMessages hok
      have hall := finalized_of_mapM_parseFinalized hok
      have hread : finalizedMessages = readAt z processUnit.epochId :=
        Except.ok.inj (hok.symm.trans (mapM_parseFinalized _ hall))
      subst hread
      split_ifs at h with hcomplete <;> simp only [Option.some.injEq, Prod.mk.injEq] at h <;>
        obtain ⟨rfl, rfl, rfl⟩ := h
      exacts [.complete hevents hall hcomplete, .incomplete hevents hall hcomplete]
  | toPublish => cases h; exact .publish
  | toClean => cases h; exact .clean
  | skipped | noEvents | raised | incomplete | done => cases h

/-- Only a cleanup deletes, and only at the turn's own score. -/
theorem Moves.mem_after {p pc : Pc} {z z' : ZSet} {out : Option (List PowerloomSnapshotFinalizedMessage)}
    (hmove : Moves required processUnit p z pc z' out) {x : Member} {s : Int} (hx : (x, s) ∈ z.entries)
    (hscored : x = .finalized processUnit → s = nearestDouble processUnit.epochId) :
    (x, s) ∈ z'.entries ∨ (∃ msgs, p = .toClean msgs) ∧ s = nearestDouble processUnit.epochId := by
  cases hmove with
  | zadd => exact .inl (ZSet.mem_zadd_of_mem hx hscored)
  | clean =>
    by_cases hk : s = nearestDouble processUnit.epochId
    · exact .inr ⟨⟨_, rfl⟩, hk⟩
    · exact .inl (ZSet.mem_zremrangebyscore.mpr ⟨hx, fun h => hk (le_antisymm h.2 h.1)⟩)
  | _ => exact .inl hx

end Handler

/-! ## Interleaved turns -/

/-- The shared correlation set and the turns of every instance, turn `i` handling
`messages i` for an aggregator waiting for `required i`; `published` pairs each aggregate
with its turn's epoch. `raced i` is ghost state: whether, when `i` ran its `zadd`, a turn at
the same score was in its window. -/
structure Cluster (n : Nat) where
  z : ZSet
  pc : Fin n → Pc
  published : List (Int × List PowerloomSnapshotFinalizedMessage)
  raced : Fin n → Bool

namespace Cluster
variable {n : Nat} (required : Fin n → List String) (messages : Fin n → PowerloomSnapshotFinalizedMessage)

/-- No turn has started, on the set `z`. -/
def init (z : ZSet) : Cluster n := ⟨z, fun _ => .start, [], fun _ => false⟩

/-- Some turn whose epoch has the double score of `k` is in its window. -/
def windowOpen (c : Cluster n) (k : Int) : Bool :=
  decide (∃ j, (c.pc j).window.isSome ∧ nearestDouble (messages j).epochId = nearestDouble k)

/-- The cluster after turn `i` moved to `pc`, leaving the set `z` and publishing `out`. -/
def after (c : Cluster n) (i : Fin n) (pc : Pc) (z : ZSet)
    (out : Option (List PowerloomSnapshotFinalizedMessage)) : Cluster n :=
  { z
    pc := Function.update c.pc i pc
    published := c.published ++ out.toList.map ((messages i).epochId, ·)
    raced := if c.pc i = .start then Function.update c.raced i (c.windowOpen messages (messages i).epochId)
      else c.raced }

/-- Turn `i` takes its next step, if it has one. -/
def step (c : Cluster n) (i : Fin n) : Option (Cluster n) :=
  (handlerStep (required i) (messages i) (c.pc i) c.z).map fun (pc, z, out) => c.after messages i pc z out

/-- The clusters some interleaving reaches from the set `z₀`. -/
inductive Reachable (z₀ : ZSet) : Cluster n → Prop
  | init : Reachable z₀ (init z₀)
  | step {c c' : Cluster n} (i : Fin n) : Reachable z₀ c → c.step required messages i = some c' → Reachable z₀ c'

/-- Some aggregate was published by a turn of epoch `k`. -/
def emitted (c : Cluster n) (k : Int) : Prop := ∃ p ∈ c.published, p.1 = k

/-- The message is among the messages of a published aggregate. -/
def bundled (c : Cluster n) (m : PowerloomSnapshotFinalizedMessage) : Prop := ∃ p ∈ c.published, m ∈ p.2

instance (c : Cluster n) (k : Int) : Decidable (c.emitted k) :=
  inferInstanceAs (Decidable (∃ p ∈ c.published, p.1 = k))

instance (c : Cluster n) (m : PowerloomSnapshotFinalizedMessage) : Decidable (c.bundled m) :=
  inferInstanceAs (Decidable (∃ p ∈ c.published, m ∈ p.2))

/-- The cluster after the turns of `schedule` take one step each, in order. -/
def run (c : Cluster n) : List (Fin n) → Option (Cluster n)
  | [] => some c
  | i :: schedule => (c.step required messages i).bind fun c' => run c' schedule

variable {required messages}

theorem Reachable.of_run {z₀ : ZSet} {c c' : Cluster n} (hc : Reachable required messages z₀ c)
    (schedule : List (Fin n)) (h : c.run required messages schedule = some c') :
    Reachable required messages z₀ c' := by
  induction schedule generalizing c with
  | nil => exact Option.some.inj h ▸ hc
  | cons i schedule ih =>
    obtain ⟨c₁, h₁, h₂⟩ := Option.bind_eq_some.mp h
    exact ih (.step i hc h₁) h₂

theorem step_eq_some {c c' : Cluster n} {i : Fin n} (h : c.step required messages i = some c') :
    ∃ pc z out, Moves (required i) (messages i) (c.pc i) c.z pc z out ∧ c' = c.after messages i pc z out := by
  obtain ⟨⟨pc, z, out⟩, hstep, rfl⟩ := Option.map_eq_some'.mp h
  exact ⟨pc, z, out, .of_handlerStep hstep, rfl⟩

section After
variable {c : Cluster n} {i : Fin n} {pc : Pc} {z : ZSet} {out : Option (List PowerloomSnapshotFinalizedMessage)}

@[simp] theorem after_z : (c.after messages i pc z out).z = z := rfl

@[simp] theorem after_pc_self : (c.after messages i pc z out).pc i = pc := Function.update_same _ _ _

theorem after_pc_of_ne {j : Fin n} (hj : j ≠ i) : (c.after messages i pc z out).pc j = c.pc j :=
  Function.update_noteq hj _ _

@[simp] theorem after_published :
    (c.after messages i pc z out).published = c.published ++ out.toList.map ((messages i).epochId, ·) := rfl

/-- Only a turn's own `zadd` sets its ghost flag. -/
theorem after_raced_of_not_start {j : Fin n} (hj : ¬ (j = i ∧ c.pc i = .start)) :
    (c.after messages i pc z out).raced j = c.raced j := by
  unfold after
  split_ifs with hi
  · exact Function.update_noteq (fun h => hj ⟨h, hi⟩) _ _
  · rfl

theorem emitted.after {k : Int} (h : c.emitted k) : (c.after messages i pc z out).emitted k :=
  let ⟨p, hp, hk⟩ := h; ⟨p, List.mem_append_left _ hp, hk⟩

theorem bundled.after {m : PowerloomSnapshotFinalizedMessage} (h : c.bundled m) :
    (c.after messages i pc z out).bundled m :=
  let ⟨p, hp, hm⟩ := h; ⟨p, List.mem_append_left _ hp, hm⟩

variable {R : List String}

theorem zadded_of_after {p : Pc} (hp : c.pc i = p) (hmove : Moves R (messages i) p c.z pc z out)
    {j : Fin n} (hfresh : ¬ (j = i ∧ p = .start)) (hj : ((c.after messages i pc z out).pc j).zadded) :
    (c.pc j).zadded := by
  by_cases hji : j = i
  · subst hji
    rw [hp]
    cases hmove <;> first | rfl | exact absurd ⟨rfl, rfl⟩ hfresh
  · rwa [after_pc_of_ne hji] at hj

theorem mem_window_after {p : Pc} (hp : c.pc i = p) (hmove : Moves R (messages i) p c.z pc z out)
    {j : Fin n} {msgs : List PowerloomSnapshotFinalizedMessage}
    (hmsgs : msgs ∈ ((c.after messages i pc z out).pc j).window) :
    msgs ∈ (c.pc j).window ∨ j = i ∧ p = .added ∧ msgs = readAt c.z (messages i).epochId := by
  by_cases hji : j = i
  · subst hji
    rw [after_pc_self] at hmsgs
    cases hmove with
    | complete =>
      simp only [Pc.window, Option.mem_def, Option.some.injEq] at hmsgs
      exact .inr ⟨rfl, rfl, hmsgs.symm⟩
    | publish => exact .inl (by rw [hp]; exact hmsgs)
    | _ => simp [Pc.window] at hmsgs
  · exact .inl (by rwa [after_pc_of_ne hji] at hmsgs)

end After

end Cluster

/-! ## The sorted set read at one score -/

theorem projectIds_congr {messages messages' : List PowerloomSnapshotFinalizedMessage}
    (h : ∀ m, m ∈ messages ↔ m ∈ messages') : projectIds messages = projectIds messages' :=
  Finset.ext fun _ => by simp only [mem_projectIds, h]

theorem projectIds_nil_ne {required : List String} (hR : required ≠ []) :
    projectIds [] ≠ required.toFinset :=
  fun h => hR ((List.toFinset_eq_empty_iff _).mp h.symm)

theorem mem_readAt_zadd_of_ne {z : ZSet} {m x : PowerloomSnapshotFinalizedMessage} {k : Int}
    (hscored : ∀ s, (Member.finalized m, s) ∈ z.entries → s = nearestDouble m.epochId)
    (hk : nearestDouble k ≠ nearestDouble m.epochId) :
    x ∈ readAt (z.zadd (.finalized m) m.epochId) k ↔ x ∈ readAt z k := by
  rw [mem_readAt, mem_readAt, ZSet.mem_zadd]
  constructor
  · rintro (⟨-, h⟩ | ⟨-, he⟩)
    exacts [absurd h hk, he]
  · intro he
    refine .inr ⟨fun hx => hk ?_, he⟩
    cases hx
    exact hscored _ he

theorem mem_readAt_zremrangebyscore_of_ne {z : ZSet} {x : PowerloomSnapshotFinalizedMessage} {k k' : Int}
    (hk : nearestDouble k ≠ nearestDouble k') : x ∈ readAt (z.zremrangebyscore k' k') k ↔ x ∈ readAt z k := by
  rw [mem_readAt, mem_readAt, ZSet.mem_zremrangebyscore]
  exact and_iff_left fun h => hk (le_antisymm h.2 h.1)

theorem readAt_congr {z : ZSet} {k k' : Int} (h : nearestDouble k = nearestDouble k') :
    readAt z k = readAt z k' := by
  simp only [readAt, ZSet.zrangebyscore, h]

/-! ## What every interleaving keeps, whatever the set and the aggregators -/

namespace Cluster
variable {n : Nat} (messages : Fin n → PowerloomSnapshotFinalizedMessage)

/-- An added message is bundled, raced, or still stored and read by every window at its
score; a turn about to clean up has published what it read. -/
structure KeptInv (c : Cluster n) : Prop where
  cleaning : ∀ i msgs, c.pc i = .toClean msgs → ((messages i).epochId, msgs) ∈ c.published
  kept : ∀ i, (c.pc i).zadded → c.bundled (messages i) ∨ c.raced i = true ∨
    ((Member.finalized (messages i), nearestDouble (messages i).epochId) ∈ c.z.entries ∧
      ∀ j, nearestDouble (messages j).epochId = nearestDouble (messages i).epochId →
        ∀ msgs ∈ (c.pc j).window, messages i ∈ msgs)

theorem keptInv_init (z : ZSet) : KeptInv messages (init z) where
  cleaning := by simp [init]
  kept := by simp [init, Pc.zadded]

variable {messages}

section Step
variable {c : Cluster n} (hinv : KeptInv messages c) {R : List String} {i : Fin n} {p pc : Pc} {z : ZSet}
  {out : Option (List PowerloomSnapshotFinalizedMessage)}
  (hp : c.pc i = p) (hmove : Moves R (messages i) p c.z pc z out)
include hinv hp hmove

theorem KeptInv.cleaning_after : ∀ j msgs, (c.after messages i pc z out).pc j = .toClean msgs →
    ((messages j).epochId, msgs) ∈ (c.after messages i pc z out).published := by
  intro j msgs hj
  by_cases hji : j = i
  · subst hji
    rw [after_pc_self] at hj
    subst hj
    cases hmove with
    | publish => simp
  · exact List.mem_append_left _ (hinv.cleaning j msgs (by rwa [after_pc_of_ne hji] at hj))

theorem KeptInv.kept_after : ∀ j, ((c.after messages i pc z out).pc j).zadded →
    (c.after messages i pc z out).bundled (messages j) ∨ (c.after messages i pc z out).raced j = true ∨
    ((Member.finalized (messages j), nearestDouble (messages j).epochId) ∈ (c.after messages i pc z out).z.entries ∧
      ∀ j', nearestDouble (messages j').epochId = nearestDouble (messages j).epochId →
        ∀ msgs ∈ ((c.after messages i pc z out).pc j').window, messages j ∈ msgs) := by
  intro j hj
  by_cases hfresh : j = i ∧ p = .start
  · -- the message just added is raced exactly when a window at its score is open
    obtain ⟨rfl, rfl⟩ := hfresh
    cases hmove with
    | skip => simp [Pc.zadded] at hj
    | zadd hreq =>
      by_cases hopen : c.windowOpen messages (messages j).epochId
      · exact .inr (.inl (by simp [after, hp, hopen]))
      · refine .inr (.inr ⟨ZSet.mem_zadd.mpr (.inl ⟨rfl, rfl⟩), fun j' hj'k msgs hmsgs => ?_⟩)
        rcases mem_window_after hp (.zadd hreq) hmsgs with hmsgs | ⟨-, h, -⟩
        · exact absurd (decide_eq_true ⟨j', Option.isSome_iff_exists.mpr ⟨msgs, hmsgs⟩, hj'k⟩) hopen
        · cases h
  · rcases hinv.kept j (zadded_of_after hp hmove hfresh hj) with hb | hr | ⟨hstored, hwinj⟩
    · exact .inl hb.after
    · exact .inr (.inl ((after_raced_of_not_start (by rwa [hp])).trans hr))
    · rcases hmove.mem_after hstored (fun h => by rw [Member.finalized.inj h]) with hstored' | ⟨⟨msgs, rfl⟩, hk⟩
      · refine .inr (.inr ⟨hstored', fun j' hj'k msgs hmsgs => ?_⟩)
        rcases mem_window_after hp hmove hmsgs with hmsgs | ⟨rfl, -, rfl⟩
        · exact hwinj j' hj'k msgs hmsgs
        · exact mem_readAt.mpr (hj'k ▸ hstored)
      · -- the cleanup at its score deletes it only after publishing it
        exact .inl ⟨_, List.mem_append_left _ (hinv.cleaning _ _ hp),
          hwinj i hk.symm _ (by simp [hp, Pc.window])⟩

theorem KeptInv.after : KeptInv messages (c.after messages i pc z out) :=
  ⟨hinv.cleaning_after hp hmove, hinv.kept_after hp hmove⟩

end Step

theorem KeptInv.step {required : Fin n → List String} {c c' : Cluster n} {i : Fin n}
    (hinv : KeptInv messages c) (h : c.step required messages i = some c') : KeptInv messages c' := by
  obtain ⟨pc, z, out, hmove, rfl⟩ := step_eq_some h
  exact hinv.after rfl hmove

theorem Reachable.keptInv {required : Fin n → List String} {z₀ : ZSet} {c : Cluster n}
    (h : Reachable required messages z₀ c) : KeptInv messages c := by
  induction h with
  | init => exact keptInv_init messages z₀
  | step _ _ hstep ih => exact ih.step hstep

end Cluster

/-! ## What every interleaving of one aggregator's turns keeps -/

namespace Cluster
variable {n : Nat} (messages : Fin n → PowerloomSnapshotFinalizedMessage) (R : List String)

/-- The facts every cluster of the aggregator waiting for `R` satisfies, when a double holds
every epoch exactly. -/
structure Inv (c : Cluster n) extends KeptInv messages c : Prop where
  /-- Stored entries are finalized messages of required projects, each at its own epoch. -/
  scored : ∀ e ∈ c.z.entries, ∃ m, e = (Member.finalized m, m.epochId) ∧ m.projectId ∈ R
  skipped : ∀ i, c.pc i = .skipped → (messages i).projectId ∉ R
  notRaised : ∀ i, c.pc i ≠ .raised
  /-- A turn in its window holds messages of its epoch covering the required projects. -/
  window : ∀ i, ∀ msgs ∈ (c.pc i).window,
    (∀ x ∈ msgs, x.epochId = (messages i).epochId) ∧ projectIds msgs = R.toFinset
  published : ∀ p ∈ c.published, (∀ x ∈ p.2, x.epochId = p.1) ∧ projectIds p.2 = R.toFinset
  /-- A turn that ended finding nothing, or by cleaning up, ended after an aggregate of its epoch. -/
  finished : ∀ i, c.pc i = .noEvents ∨ c.pc i = .done → c.emitted (messages i).epochId
  /-- Before the first aggregate of an epoch, nothing of that epoch is deleted. -/
  stored : ∀ i, (c.pc i).zadded → ¬ c.emitted (messages i).epochId →
    (Member.finalized (messages i), (messages i).epochId) ∈ c.z.entries
  incomplete : ∀ i seen, c.pc i = .incomplete seen → seen ⊆ R.toFinset ∧ seen ≠ R.toFinset
  /-- Before the first aggregate of an epoch, one incomplete read of the epoch saw the
  project of every incomplete read of it. -/
  witness : ∀ k, ¬ c.emitted k → ∀ i seen, (messages i).epochId = k → c.pc i = .incomplete seen →
    ∃ i' seen', (messages i').epochId = k ∧ c.pc i' = .incomplete seen' ∧
      ∀ j seenj, (messages j).epochId = k → c.pc j = .incomplete seenj → (messages j).projectId ∈ seen'
  /-- A complete correlation set has a turn at work on it. -/
  complete : R ≠ [] → ∀ k, projectIds (readAt c.z k) = R.toFinset →
    ∃ i, (messages i).epochId = nearestDouble k ∧ (c.pc i).inProgress

/-- A set the aggregator can start from: finalized messages of its projects, each at its own
epoch, with no score holding every project (the empty set, for one). -/
theorem init_inv {z₀ : ZSet}
    (hz₀ : ∀ e ∈ z₀.entries, ∃ m, e = (Member.finalized m, m.epochId) ∧ m.projectId ∈ R)
    (hfull : ∀ k, projectIds (readAt z₀ k) ≠ R.toFinset) : Inv messages R (init z₀) where
  toKeptInv := keptInv_init messages _
  scored := hz₀
  skipped := by simp [init]
  notRaised := by simp [init]
  window := by simp [init, Pc.window]
  published := by simp [init]
  finished := by simp [init]
  stored := by simp [init, Pc.zadded]
  incomplete := by simp [init]
  witness := by simp [init]
  complete _ k h := absurd h (hfull k)

variable {messages R}

section Step
variable {c : Cluster n} (hinv : Inv messages R c) (hbound : ∀ i, (messages i).epochId.natAbs ≤ 2 ^ 53)
include hinv

theorem Inv.of_mem_entries {m : PowerloomSnapshotFinalizedMessage} {s : Int}
    (he : (Member.finalized m, s) ∈ c.z.entries) : s = m.epochId ∧ m.projectId ∈ R := by
  obtain ⟨m', he', hm'⟩ := hinv.scored _ he
  simp only [Prod.mk.injEq, Member.finalized.injEq] at he'
  obtain ⟨rfl, rfl⟩ := he'
  exact ⟨rfl, hm'⟩

theorem Inv.epochId_of_mem_readAt {k : Int} {x : PowerloomSnapshotFinalizedMessage}
    (hx : x ∈ readAt c.z k) : x.epochId = nearestDouble k :=
  (hinv.of_mem_entries (mem_readAt.mp hx)).1.symm

theorem Inv.projectIds_readAt_subset (k : Int) : projectIds (readAt c.z k) ⊆ R.toFinset := by
  intro p hp
  obtain ⟨x, hx, rfl⟩ := mem_projectIds.mp hp
  exact List.mem_toFinset.mpr (hinv.of_mem_entries (mem_readAt.mp hx)).2

theorem Inv.finalized_of_mem_zrangebyscore {k : Int} {x : Member} (hx : x ∈ c.z.zrangebyscore k k) :
    ∃ m, x = .finalized m := by
  obtain ⟨s, he, -⟩ := ZSet.mem_zrangebyscore.mp hx
  obtain ⟨m, he', -⟩ := hinv.scored _ he
  exact ⟨m, (Prod.mk.inj he').1⟩

variable {i : Fin n} {p pc : Pc} {z : ZSet} {out : Option (List PowerloomSnapshotFinalizedMessage)}
  (hp : c.pc i = p) (hmove : Moves R (messages i) p c.z pc z out)
include hp hmove

include hbound in
theorem Inv.scored_after :
    ∀ e ∈ (c.after messages i pc z out).z.entries, ∃ m, e = (Member.finalized m, m.epochId) ∧ m.projectId ∈ R := by
  rw [after_z]
  cases hmove with
  | zadd hreq =>
    rintro ⟨x, s⟩ he
    rcases ZSet.mem_zadd.mp he with ⟨rfl, rfl⟩ | ⟨-, he⟩
    exacts [⟨_, by rw [nearestDouble_of_natAbs_le (hbound i)], hreq⟩, hinv.scored _ he]
  | clean => exact fun ⟨_, _⟩ he => hinv.scored _ (ZSet.mem_zremrangebyscore.mp he).1
  | _ => exact hinv.scored

theorem Inv.skipped_after :
    ∀ j, (c.after messages i pc z out).pc j = .skipped → (messages j).projectId ∉ R := by
  intro j hj
  by_cases hji : j = i
  · subst hji
    rw [after_pc_self] at hj
    subst hj
    cases hmove with
    | skip hreq => exact hreq
  · exact hinv.skipped j (by rwa [after_pc_of_ne hji] at hj)

theorem Inv.notRaised_after : ∀ j, (c.after messages i pc z out).pc j ≠ .raised := by
  intro j hj
  by_cases hji : j = i
  · subst hji
    rw [after_pc_self] at hj
    subst hj
    cases hmove with
    | raised hbad =>
      obtain ⟨x, hx, hnot⟩ := hbad
      obtain ⟨m, rfl⟩ := hinv.finalized_of_mem_zrangebyscore hx
      exact hnot m rfl
  · exact hinv.notRaised j (by rwa [after_pc_of_ne hji] at hj)

include hbound in
theorem Inv.window_after : ∀ j, ∀ msgs ∈ ((c.after messages i pc z out).pc j).window,
    (∀ x ∈ msgs, x.epochId = (messages j).epochId) ∧ projectIds msgs = R.toFinset := by
  intro j msgs hmsgs
  by_cases hji : j = i
  · subst hji
    rw [after_pc_self] at hmsgs
    cases hmove with
    | complete _ _ hcomplete =>
      simp only [Pc.window, Option.mem_def, Option.some.injEq] at hmsgs
      subst hmsgs
      exact ⟨fun x hx => (hinv.epochId_of_mem_readAt hx).trans (nearestDouble_of_natAbs_le (hbound j)),
        hcomplete⟩
    | publish => exact hinv.window _ msgs (by rw [hp]; exact hmsgs)
    | _ => simp [Pc.window] at hmsgs
  · exact hinv.window j msgs (by rwa [after_pc_of_ne hji] at hmsgs)

theorem Inv.published_after : ∀ q ∈ (c.after messages i pc z out).published,
    (∀ x ∈ q.2, x.epochId = q.1) ∧ projectIds q.2 = R.toFinset := by
  intro q hq
  rw [after_published, List.mem_append] at hq
  rcases hq with hq | hq
  · exact hinv.published q hq
  · cases hmove with
    | publish =>
      simp only [Option.toList_some, List.map_cons, List.map_nil, List.mem_singleton] at hq
      subst hq
      exact hinv.window i _ (by simp [hp, Pc.window])
    | _ => simp at hq

include hbound in
theorem Inv.finished_after : ∀ j, (c.after messages i pc z out).pc j = .noEvents ∨
    (c.after messages i pc z out).pc j = .done → (c.after messages i pc z out).emitted (messages j).epochId := by
  intro j hj
  by_cases hji : j = i
  · subst hji
    rw [after_pc_self] at hj
    cases hmove with
    | noEvents hevents =>
      by_contra hne
      have hmem := hinv.stored _ (by simp [hp, Pc.zadded]) fun h => hne h.after
      have hexact := nearestDouble_of_natAbs_le (hbound j)
      exact List.ne_nil_of_mem (ZSet.mem_zrangebyscore.mpr ⟨_, hmem, hexact.le, hexact.ge⟩) hevents
    | clean => exact emitted.after ⟨_, hinv.cleaning _ _ hp, rfl⟩
    | _ => simp at hj
  · rw [after_pc_of_ne hji] at hj
    exact (hinv.finished j hj).after

include hbound in
theorem Inv.stored_after : ∀ j, ((c.after messages i pc z out).pc j).zadded →
    ¬ (c.after messages i pc z out).emitted (messages j).epochId →
    (Member.finalized (messages j), (messages j).epochId) ∈ (c.after messages i pc z out).z.entries := by
  intro j hj hne
  have hne' : ¬ c.emitted (messages j).epochId := fun h => hne h.after
  rw [after_z]
  by_cases hfresh : j = i ∧ p = .start
  · obtain ⟨rfl, rfl⟩ := hfresh
    cases hmove with
    | skip => simp [Pc.zadded] at hj
    | zadd => exact ZSet.mem_zadd.mpr (.inl ⟨rfl, (nearestDouble_of_natAbs_le (hbound j)).symm⟩)
  · rcases hmove.mem_after (hinv.stored j (zadded_of_after hp hmove hfresh hj) hne')
      (fun h => by rw [Member.finalized.inj h, nearestDouble_of_natAbs_le (hbound i)]) with hmem | ⟨⟨msgs, rfl⟩, hk⟩
    · exact hmem
    · rw [nearestDouble_of_natAbs_le (hbound i)] at hk
      exact absurd (hk ▸ ⟨_, hinv.cleaning _ _ hp, rfl⟩) hne'

theorem Inv.incomplete_after : ∀ j seen, (c.after messages i pc z out).pc j = .incomplete seen →
    seen ⊆ R.toFinset ∧ seen ≠ R.toFinset := by
  intro j seen hj
  by_cases hji : j = i
  · subst hji
    rw [after_pc_self] at hj
    subst hj
    cases hmove with
    | incomplete _ _ hincomplete => exact ⟨hinv.projectIds_readAt_subset _, hincomplete⟩
  · exact hinv.incomplete j seen (by rwa [after_pc_of_ne hji] at hj)

include hbound in
theorem Inv.witness_after : ∀ k, ¬ (c.after messages i pc z out).emitted k → ∀ j seen,
    (messages j).epochId = k → (c.after messages i pc z out).pc j = .incomplete seen →
    ∃ i' seen', (messages i').epochId = k ∧ (c.after messages i pc z out).pc i' = .incomplete seen' ∧
      ∀ j' seenj, (messages j').epochId = k → (c.after messages i pc z out).pc j' = .incomplete seenj →
        (messages j').projectId ∈ seen' := by
  intro k hne j seen hk hj
  have hne' : ¬ c.emitted k := fun h => hne h.after
  by_cases hfresh : ∃ seen₀, pc = .incomplete seen₀ ∧ (messages i).epochId = k
  · -- the read just made saw every turn of the epoch that got this far
    obtain ⟨seen₀, rfl, rfl⟩ := hfresh
    cases hmove with
    | incomplete =>
      refine ⟨i, _, rfl, after_pc_self, fun j' seenj hj'k hj' =>
        mem_projectIds.mpr ⟨messages j', mem_readAt.mpr ?_, rfl⟩⟩
      rw [nearestDouble_of_natAbs_le (hbound i), ← hj'k]
      by_cases hj'i : j' = i
      · subst hj'i
        exact hinv.stored _ (by simp [hp, Pc.zadded]) hne'
      · rw [after_pc_of_ne hj'i] at hj'
        exact hinv.stored j' (by simp [hj', Pc.zadded]) (hj'k ▸ hne')
  · have hold : ∀ j' seenj, (messages j').epochId = k →
        (c.after messages i pc z out).pc j' = .incomplete seenj → c.pc j' = .incomplete seenj := by
      intro j' seenj hj'k hj'
      by_cases hj'i : j' = i
      · subst hj'i
        rw [after_pc_self] at hj'
        exact absurd ⟨seenj, hj', hj'k⟩ hfresh
      · rwa [after_pc_of_ne hj'i] at hj'
    obtain ⟨i', seen', hi'k, hi', hall⟩ := hinv.witness k hne' j seen hk (hold j seen hk hj)
    have hi'i : i' ≠ i := fun h => by
      rw [h, hp] at hi'
      subst hi'
      cases hmove
    exact ⟨i', seen', hi'k, by rwa [after_pc_of_ne hi'i],
      fun j' seenj hj'k hj' => hall j' seenj hj'k (hold j' seenj hj'k hj')⟩

include hbound in
theorem Inv.complete_after : R ≠ [] → ∀ k,
    projectIds (readAt (c.after messages i pc z out).z k) = R.toFinset →
    ∃ j, (messages j).epochId = nearestDouble k ∧ ((c.after messages i pc z out).pc j).inProgress := by
  intro hR k hk
  rw [after_z] at hk
  have other : ∀ j, (messages j).epochId = nearestDouble k → (c.pc j).inProgress → j ≠ i →
      ∃ j, (messages j).epochId = nearestDouble k ∧ ((c.after messages i pc z out).pc j).inProgress :=
    fun j hjk hj hji => ⟨j, hjk, by rwa [after_pc_of_ne hji]⟩
  have hscore : ∀ k', nearestDouble k' ≠ nearestDouble (messages i).epochId →
      (messages i).epochId ≠ nearestDouble k' :=
    fun k' h h' => h (by rw [← h', nearestDouble_of_natAbs_le (hbound i)])
  cases hmove with
  | skip =>
    obtain ⟨j, hjk, hj⟩ := hinv.complete hR k hk
    exact other j hjk hj fun h => by subst h; simp [hp, Pc.inProgress] at hj
  | zadd =>
    by_cases hki : nearestDouble k = nearestDouble (messages i).epochId
    · exact ⟨i, by rw [hki, nearestDouble_of_natAbs_le (hbound i)], by simp [Pc.inProgress]⟩
    · obtain ⟨j, hjk, hj⟩ := hinv.complete hR k (by
        rwa [projectIds_congr fun _ => mem_readAt_zadd_of_ne (fun _ he => (hinv.of_mem_entries he).1.trans
          (nearestDouble_of_natAbs_le (hbound i)).symm) hki] at hk)
      exact other j hjk hj fun h => by subst h; simp [hp, Pc.inProgress] at hj
  | noEvents hevents =>
    obtain ⟨j, hjk, hj⟩ := hinv.complete hR k hk
    refine other j hjk hj fun h => projectIds_nil_ne hR ?_
    subst h
    rw [← hk, readAt_congr ((nearestDouble_of_natAbs_le (hbound j)).trans hjk).symm, readAt, hevents,
      List.filterMap_nil]
  | raised hbad =>
    obtain ⟨x, hx, hnot⟩ := hbad
    obtain ⟨m, rfl⟩ := hinv.finalized_of_mem_zrangebyscore hx
    exact absurd rfl (hnot m)
  | incomplete _ _ hincomplete =>
    obtain ⟨j, hjk, hj⟩ := hinv.complete hR k hk
    refine other j hjk hj fun h => hincomplete ?_
    subst h
    rwa [readAt_congr ((nearestDouble_of_natAbs_le (hbound j)).trans hjk).symm] at hk
  | complete | publish =>
    obtain ⟨j, hjk, hj⟩ := hinv.complete hR k hk
    by_cases hji : j = i
    · exact ⟨j, hjk, by simp [hji, Pc.inProgress]⟩
    · exact other j hjk hj hji
  | clean =>
    by_cases hki : nearestDouble k = nearestDouble (messages i).epochId
    · have hempty : readAt (c.z.zremrangebyscore (messages i).epochId (messages i).epochId) k = [] :=
        List.eq_nil_iff_forall_not_mem.mpr fun _ hx =>
          (ZSet.mem_zremrangebyscore.mp (mem_readAt.mp hx)).2 ⟨hki.ge, hki.le⟩
      exact absurd (by rwa [hempty] at hk) (projectIds_nil_ne hR)
    · obtain ⟨j, hjk, hj⟩ := hinv.complete hR k
        (by rwa [projectIds_congr fun _ => mem_readAt_zremrangebyscore_of_ne hki] at hk)
      exact other j hjk hj fun h => hscore k hki (h ▸ hjk)

include hbound in
theorem Inv.after : Inv messages R (c.after messages i pc z out) where
  toKeptInv := hinv.toKeptInv.after hp hmove
  scored := hinv.scored_after hbound hp hmove
  skipped := hinv.skipped_after hp hmove
  notRaised := hinv.notRaised_after hp hmove
  window := hinv.window_after hbound hp hmove
  published := hinv.published_after hp hmove
  finished := hinv.finished_after hbound hp hmove
  stored := hinv.stored_after hbound hp hmove
  incomplete := hinv.incomplete_after hp hmove
  witness := hinv.witness_after hbound hp hmove
  complete := hinv.complete_after hbound hp hmove

end Step

theorem Inv.step {c c' : Cluster n} {i : Fin n} (hinv : Inv messages R c)
    (hbound : ∀ i, (messages i).epochId.natAbs ≤ 2 ^ 53)
    (h : c.step (fun _ => R) messages i = some c') : Inv messages R c' := by
  obtain ⟨pc, z, out, hmove, rfl⟩ := step_eq_some h
  exact hinv.after hbound rfl hmove

theorem Reachable.inv {z₀ : ZSet} {c : Cluster n} (hbound : ∀ i, (messages i).epochId.natAbs ≤ 2 ^ 53)
    (hz₀ : ∀ e ∈ z₀.entries, ∃ m, e = (Member.finalized m, m.epochId) ∧ m.projectId ∈ R)
    (hfull : ∀ k, projectIds (readAt z₀ k) ≠ R.toFinset)
    (h : Reachable (fun _ => R) messages z₀ c) : Inv messages R c := by
  induction h with
  | init => exact init_inv messages R hz₀ hfull
  | step _ _ hstep ih => exact ih.step hbound hstep

end Cluster

/-! ## The turn of `_distribute_callbacks_aggregate` is four atomic steps -/

section Faithful
variable (cfg : Config) (now : Int) (processUnit : PowerloomSnapshotFinalizedMessage)

/-- The multi-project turn of `aggregateFor` is the handler's four steps taken with no other
turn in between: it leaves the correlation set as they do and publishes what they publish. -/
theorem aggregateFor_eq_handlerRun (type_ : String) (required : List String) (self : Distributor)
    (wf : AggregatorKeysWF self.store) :
    ∃ next evs, aggregateFor cfg now processUnit ⟨type_, .multiProject required⟩ self = .ok next ∧
      next.channel = self.channel ++ evs ∧
      next.store (aggregatorEvents type_) =
        (handlerRun required processUnit 4 .start (self.store (aggregatorEvents type_))).2.1 ∧
      aggregatesOn (cfg.settings.callbackKey "CalculateAggregate" type_) evs =
        (handlerRun required processUnit 4 .start (self.store (aggregatorEvents type_))).2.2 ∧
      (handlerRun required processUnit 4 .start (self.store (aggregatorEvents type_))).1.completed := by
  simp only [aggregateFor, Distributor.zrangebyscore]
  by_cases hwait : processUnit.projectId ∈ required
  swap
  · rw [if_pos hwait]
    exact ⟨self, [], rfl, by simp, by simp [handlerRun, handlerStep, hwait],
      by simp [handlerRun, handlerStep, hwait, aggregatesOn], by simp [handlerRun, handlerStep, hwait, Pc.completed]⟩
  rw [if_neg (not_not.mpr hwait)]
  set z := (self.store (aggregatorEvents type_)).zadd (.finalized processUnit) processUnit.epochId with hz
  have hstore : (self.zadd (aggregatorEvents type_) (.finalized processUnit) processUnit.epochId).store
      (aggregatorEvents type_) = z := by simp [Distributor.zadd, hz]
  have hevents : z.zrangebyscore processUnit.epochId processUnit.epochId ≠ [] :=
    List.ne_nil_of_mem (ZSet.mem_zrangebyscore.mpr ⟨_, ZSet.mem_zadd.mpr (.inl ⟨rfl, rfl⟩), le_rfl, le_rfl⟩)
  have hfin : ∀ m ∈ z.zrangebyscore processUnit.epochId processUnit.epochId, ∃ x, m = .finalized x :=
    fun m hm => by
      obtain ⟨s, he, -⟩ := ZSet.mem_zrangebyscore.mp hm
      obtain ⟨x, hx⟩ := wf.zadd_finalized (aggregatorEvents type_) processUnit processUnit.epochId type_ _
        (hstore ▸ he)
      exact ⟨x, hx⟩
  have hparse := mapM_parseFinalized _ hfin
  rw [hstore, if_neg hevents, hparse]
  simp only [bind, Except.bind, Distributor.uuid4]
  have hrun : handlerRun required processUnit 4 .start (self.store (aggregatorEvents type_)) =
      handlerRun required processUnit 3 .added z := by
    simp [handlerRun, handlerStep, hwait, hz]
  rw [hrun]
  set events := z.zrangebyscore processUnit.epochId processUnit.epochId
  by_cases hcomplete : ((events.filterMap Member.finalizedMessage).map (·.projectId)).toFinset =
      required.toFinset
  · have hdone : handlerRun required processUnit 3 .added z =
        (.done, z.zremrangebyscore processUnit.epochId processUnit.epochId,
          [events.filterMap Member.finalizedMessage]) := by
      simp only [handlerRun, handlerStep, if_neg hevents, hparse, projectIds, if_pos hcomplete]
      rfl
    rw [if_pos hcomplete, hdone]
    simp only [sendMessageForProcessing, Body.broadcastId]
    refine ⟨_, _, rfl, rfl, ?_, ?_, rfl⟩ <;>
      simp [aggregatesOn, Event.aggregateOn, Distributor.zremrangebyscore, Distributor.zadd,
        Function.update_noteq (cbBroadcastProcessingLogsZset_ne_aggregatorEvents _ _ type_).symm, hz]
  · have hstop : handlerRun required processUnit 3 .added z =
        (.incomplete (projectIds (events.filterMap Member.finalizedMessage)), z, []) := by
      simp only [handlerRun, handlerStep, if_neg hevents, hparse, projectIds, if_neg hcomplete]
      rfl
    rw [if_neg hcomplete, hstop]
    exact ⟨_, [], rfl, by simp, hstore, rfl, rfl⟩

/-- The turn of `p`'s first snapshot for an aggregator joining `p` and `q`, on the empty
store. -/
theorem aggregateFor_eq_handlerRun_first :
    ∃ next evs, aggregateFor ⟨⟨"ns", "0", 1, "callbacks", "commit"⟩, "distributor", [], []⟩ 0
        ⟨1, "p", "cid", "x"⟩ ⟨"pairs", .multiProject ["p", "q"]⟩ ⟨Store.empty, [], 0⟩ = .ok next ∧
      next.channel = [] ++ evs ∧
      next.store (aggregatorEvents "pairs") =
        (handlerRun ["p", "q"] ⟨1, "p", "cid", "x"⟩ 4 .start (Store.empty (aggregatorEvents "pairs"))).2.1 ∧
      aggregatesOn (Settings.callbackKey ⟨"ns", "0", 1, "callbacks", "commit"⟩ "CalculateAggregate" "pairs")
          evs =
        (handlerRun ["p", "q"] ⟨1, "p", "cid", "x"⟩ 4 .start (Store.empty (aggregatorEvents "pairs"))).2.2 ∧
      (handlerRun ["p", "q"] ⟨1, "p", "cid", "x"⟩ 4 .start (Store.empty (aggregatorEvents "pairs"))).1.completed :=
  aggregateFor_eq_handlerRun _ 0 _ "pairs" ["p", "q"] ⟨Store.empty, [], 0⟩ AggregatorKeysWF.empty

end Faithful

end Pooler
