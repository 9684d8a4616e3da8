import Pooler.EpochDetector

/-! The epoch detector's main thread and its publisher thread, interleaved, with crashes.

`_broadcast_epoch` puts the report on `_rabbitmq_queue` and writes the checkpoint; the
publisher thread sends queued reports to the broker later. A crash loses the queue and
the in-memory checkpoint; the restarted loop reloads the stored checkpoint.
-/

set_option autoImplicit false

namespace Pooler

open EpochDetectorProcess

/-- The detector with its publisher thread: `pending` holds what the current pass has
still to broadcast, `writing` the epoch whose `r.set` the main thread runs next, `halted`
that the main loop has raised, and `published` what the publisher sent to the broker. -/
structure Detector where
  process : EpochDetectorProcess
  pending : List Epoch
  writing : Option Epoch
  halted : Bool
  published : List Epoch
  deriving DecidableEq, Repr

/-- One atomic step of either thread, or a crash followed by a restart. -/
inductive Action where
  | poll (response : Response)
  | enqueue
  | persist (saved : Bool)
  | publish
  | crash
  deriving DecidableEq, Repr

namespace Detector

def init (stored : Option Epoch) : Detector := ⟨EpochDetectorProcess.init stored, [], none, false, []⟩

/-- `none` when the action is not enabled. `enqueue` and `persist` are the two halves of
`_broadcast_epoch`: the queue put with the in-memory checkpoint, then the store write. -/
def step (consensus : Consensus) (d : Detector) : Action → Option Detector
  | .poll response =>
    if d.pending = [] ∧ d.writing = none ∧ d.halted = false then
      match d.process.plan consensus response with
      | (.sleep, p) => some { d with process := p }
      | (.exit, p) | (.error, p) => some { d with process := p, halted := true }
      | (.broadcast epochs, p) => some { d with process := p, pending := epochs }
    else none
  | .enqueue =>
    match d.pending, d.writing with
    | epoch :: rest, none => some { d with
        process := { d.process with
          rabbitmqQueue := d.process.rabbitmqQueue ++ [epoch], lastProcessedEpoch := some epoch }
        pending := rest, writing := some epoch }
    | _, _ => none
  | .persist saved =>
    match d.writing with
    | some epoch => some { d with
        process := { d.process with stored := if saved then some epoch else d.process.stored }
        writing := none }
    | none => none
  | .publish =>
    match d.process.rabbitmqQueue with
    | epoch :: rest => some { d with
        process := { d.process with rabbitmqQueue := rest }, published := d.published ++ [epoch] }
    | [] => none
  | .crash => some { d with
      process := { d.process with rabbitmqQueue := [], lastProcessedEpoch := none }
      pending := [], writing := none, halted := false }

/-- The two halves of `_broadcast_epoch` run back to back are `broadcastEpoch`. -/
theorem step_enqueue_persist (consensus : Consensus) (d : Detector) (epoch : Epoch)
    (rest : List Epoch) (saved : Bool) (hpending : d.pending = epoch :: rest)
    (hwriting : d.writing = none) :
    (d.step consensus .enqueue).bind (step consensus · (.persist saved)) =
      some { d with process := d.process.broadcastEpoch saved epoch, pending := rest } := by
  simp [step, hpending, hwriting, broadcastEpoch]

/-- States reached from a fresh process by actions satisfying `allowed`. -/
inductive Reachable (consensus : Consensus) (allowed : Action → Prop) : Detector → Prop where
  | init (stored : Option Epoch) : Reachable consensus allowed (init stored)
  | step {d d' : Detector} {a : Action} : Reachable consensus allowed d → allowed a →
      d.step consensus a = some d' → Reachable consensus allowed d'

/-- Every height from the begin of the first of `epochs` to the stored checkpoint's end
lies in one of `epochs`. -/
def CoveredToStored (d : Detector) (epochs : List Epoch) : Prop :=
  ∀ first ∈ epochs.head?, ∀ c ∈ d.process.stored, ∀ h, first.begin ≤ h → h ≤ c.end →
    ∃ e ∈ epochs, e.begin ≤ h ∧ h ≤ e.end

/-! ## Crash-free runs -/

/-- The broadcasts so far: the published ones, then those still queued. -/
def broadcasts (d : Detector) : List Epoch := d.published ++ d.process.rabbitmqQueue

/-- Every height from the first of `epochs` up to `x`'s end lies in one of `epochs`. -/
def Reaches (epochs : List Epoch) (x : Epoch) : Prop :=
  ∀ first ∈ epochs.head?, ∀ h, first.begin ≤ h → h ≤ x.end → ∃ e ∈ epochs, e.begin ≤ h ∧ h ≤ e.end

theorem Reaches.append {epochs : List Epoch} {x : Epoch} (reaches : Reaches epochs x)
    (more : List Epoch) (hx : ∀ p ∈ more.head?, x.end ≤ p.end) : Reaches (epochs ++ more) x := by
  intro first hfirst h hlow hhigh
  cases epochs with
  | nil =>
    cases more with
    | nil => cases hfirst
    | cons p rest =>
      cases hfirst
      exact ⟨_, List.mem_cons_self _ _, hlow, hhigh.trans (hx _ rfl)⟩
  | cons g rest =>
    cases hfirst
    obtain ⟨e, he, hbounds⟩ := reaches first rfl h hlow hhigh
    exact ⟨e, List.mem_append_left _ he, hbounds⟩

theorem Reaches.enqueue {epochs : List Epoch} {m p : Epoch} (reaches : Reaches epochs m)
    (follows : Follows m.range p.range) : Reaches (epochs ++ [p]) p := by
  intro first hfirst h hlow hhigh
  by_cases hm : h ≤ m.end
  · cases epochs with
    | nil =>
      cases hfirst
      exact ⟨_, List.mem_singleton_self _, hlow, hhigh⟩
    | cons g rest =>
      cases hfirst
      obtain ⟨e, he, hbounds⟩ := reaches first rfl h hlow hm
      exact ⟨e, List.mem_append_left _ he, hbounds⟩
  · exact ⟨p, List.mem_append_right _ (List.mem_singleton_self _),
      by simp only [Follows, Epoch.range] at follows; omega, hhigh⟩

/-- The invariant of crash-free runs: everything checkpointed, being written or held in
memory is covered by the broadcasts, the pass's remaining epochs follow the in-memory
checkpoint, and nothing has been broadcast while memory is empty. -/
structure Inv (d : Detector) : Prop where
  stored : ∀ c ∈ d.process.stored, Reaches d.broadcasts c
  writing : ∀ w ∈ d.writing, Reaches d.broadcasts w
  memory : ∀ m ∈ d.process.lastProcessedEpoch, Reaches d.broadcasts m
  pending : ((d.process.lastProcessedEpoch.toList ++ d.pending).map Epoch.range).Chain' Follows
  behind : ∀ x ∈ d.process.stored.toList ++ d.writing.toList,
    ∀ m ∈ d.process.lastProcessedEpoch, x.end ≤ m.end
  empty : d.process.lastProcessedEpoch = none →
    d.broadcasts = [] ∧ d.writing = none ∧ (d.pending = [] ∨ d.process.stored = none)

theorem Inv.init (stored : Option Epoch) : Inv (init stored) :=
  ⟨fun _ _ _ h => (by cases h), nofun, nofun, List.chain'_nil, fun _ _ _ h => (by cases h),
    fun _ => ⟨rfl, rfl, .inl rfl⟩⟩

section
variable {consensus : Consensus} {d d' : Detector}

theorem Inv.poll {response : Response} (inv : Inv d)
    (h : d.step consensus (.poll response) = some d') : Inv d' := by
  obtain ⟨decision, p, hplan⟩ : ∃ decision p, d.process.plan consensus response = (decision, p) :=
    ⟨_, _, rfl⟩
  obtain ⟨hqueue, hstored, hmem, hchain⟩ := plan_spec consensus d.process response decision p hplan
  simp only [step, hplan] at h
  split_ifs at h with hguard
  obtain ⟨hpending, hwriting, -⟩ := hguard
  obtain ⟨pend, halted, rfl, hpend⟩ : ∃ pend halted,
      d' = { d with process := p, pending := pend, halted := halted } ∧
        (pend = [] ∨ decision = .broadcast pend) := by
    cases decision <;> cases h <;> exact ⟨_, _, rfl, by simp [hpending]⟩
  have hbroadcasts : broadcasts { d with process := p, pending := pend, halted := halted } =
      d.broadcasts := by simp [broadcasts, hqueue]
  have hm : ∀ m ∈ p.lastProcessedEpoch, m ∈ d.process.lastProcessedEpoch ∨
      (d.process.lastProcessedEpoch = none ∧ m ∈ d.process.stored) := fun m hm' => by
    rcases hmem with hmem | hmem <;> rw [hmem] at hm'
    exacts [.inl hm', mem_checkpoint hm']
  refine ⟨?_, ?_, ?_, ?_, ?_, fun hnone => ?_⟩
  · rw [hbroadcasts, hstored]; exact inv.stored
  · rw [hbroadcasts]; exact inv.writing
  · rw [hbroadcasts]
    intro m hm'
    rcases hm m hm' with hm' | ⟨-, hm'⟩
    exacts [inv.memory m hm', inv.stored m hm']
  · rcases hpend with rfl | hpend
    · cases p.lastProcessedEpoch <;> simp
    · exact (hchain pend hpend).2
  · intro x hx m hm'
    simp only [hstored, hwriting, Option.toList_none, List.append_nil] at hx
    rcases hm m hm' with hm' | ⟨-, hm'⟩
    · exact inv.behind x (by simpa [hwriting] using hx) m hm'
    · simp_all
  · have hold : d.process.lastProcessedEpoch = none := by
      rcases hmem with hmem | hmem <;> rw [hmem] at hnone
      · exact hnone
      · cases hmem' : d.process.lastProcessedEpoch <;> simp_all [checkpoint]
    obtain ⟨hempty, hw, -⟩ := inv.empty hold
    refine ⟨hbroadcasts.trans hempty, hw, ?_⟩
    rcases hpend with rfl | hpend
    · exact .inl rfl
    · have := (hchain pend hpend).1
      rw [hnone] at this
      simp only [checkpoint, hold, Option.none_or] at this
      exact .inr (hstored.trans this.symm)

theorem Inv.enqueue (inv : Inv d) (h : d.step consensus .enqueue = some d') : Inv d' := by
  obtain ⟨p, rest, hpending, hwriting, rfl⟩ : ∃ p rest, d.pending = p :: rest ∧ d.writing = none ∧
      d' = { d with
        process := { d.process with
          rabbitmqQueue := d.process.rabbitmqQueue ++ [p], lastProcessedEpoch := some p }
        pending := rest, writing := some p } := by
    simp only [step] at h
    split at h
    · cases h; exact ⟨_, _, ‹_›, ‹_›, rfl⟩
    · cases h
  have hbroadcasts : broadcasts { d with
      process := { d.process with
        rabbitmqQueue := d.process.rabbitmqQueue ++ [p], lastProcessedEpoch := some p }
      pending := rest, writing := some p } = d.broadcasts ++ [p] := by simp [broadcasts]
  have hchain := inv.pending
  rw [hpending] at hchain
  have hp : Reaches (d.broadcasts ++ [p]) p ∧ ∀ c ∈ d.process.stored, c.end ≤ p.end := by
    cases hm : d.process.lastProcessedEpoch with
    | none =>
      obtain ⟨hempty, -, hstored⟩ := inv.empty hm
      refine ⟨?_, fun c hc => ?_⟩
      · rw [hempty]
        intro first hfirst h hlow hhigh
        cases hfirst
        exact ⟨_, List.mem_singleton_self _, hlow, hhigh⟩
      · simp_all
    | some m =>
      simp only [hm, Option.toList_some, List.singleton_append, List.map_cons,
        List.chain'_cons] at hchain
      refine ⟨(inv.memory m hm).enqueue hchain.1, fun c hc => ?_⟩
      have := inv.behind c (by simp [hc]) m hm
      have := hchain.1.2
      simp only [Epoch.range] at this
      omega
  refine ⟨fun c hc => ?_, fun w hw => ?_, fun m hm => ?_, ?_, fun x hx m hm => ?_, nofun⟩
  · rw [hbroadcasts]
    exact (inv.stored c hc).append [p] fun q hq => by cases hq; exact hp.2 c hc
  · cases hw; rw [hbroadcasts]; exact hp.1
  · cases hm; rw [hbroadcasts]; exact hp.1
  · cases hm : d.process.lastProcessedEpoch <;>
      simp only [hm, Option.toList_some, Option.toList_none, List.nil_append, List.singleton_append,
        List.map_cons, List.chain'_cons'] at hchain ⊢
    · exact hchain
    · exact hchain.2
  · cases hm
    simp only [Option.toList_some, List.mem_append, List.mem_singleton] at hx
    rcases hx with hx | rfl
    exacts [hp.2 x (Option.mem_toList.mp hx), le_rfl]

theorem Inv.of_broadcasts_eq (inv : Inv d) (hprocess : d'.process = { d.process with
      rabbitmqQueue := d'.process.rabbitmqQueue })
    (hpending : d'.pending = d.pending) (hwriting : d'.writing = d.writing)
    (hbroadcasts : d'.broadcasts = d.broadcasts) : Inv d' := by
  obtain ⟨⟨mem, queue, stored, uuids⟩, pending, writing, halted, published⟩ := d'
  simp only [EpochDetectorProcess.mk.injEq] at hprocess
  obtain ⟨rfl, -, rfl, rfl⟩ := hprocess
  subst hpending hwriting
  exact ⟨hbroadcasts ▸ inv.stored, hbroadcasts ▸ inv.writing, hbroadcasts ▸ inv.memory,
    inv.pending, inv.behind, fun hnone => hbroadcasts ▸ inv.empty hnone⟩

theorem Inv.persist {saved : Bool} (inv : Inv d)
    (h : d.step consensus (.persist saved) = some d') : Inv d' := by
  obtain ⟨w, hwriting, rfl⟩ : ∃ w, d.writing = some w ∧
      d' = { d with
        process := { d.process with stored := if saved then some w else d.process.stored }
        writing := none } := by
    simp only [step] at h
    split at h
    · cases h; exact ⟨_, ‹_›, rfl⟩
    · cases h
  refine ⟨fun c hc => ?_, nofun, inv.memory, inv.pending, fun x hx m hm => ?_, fun hnone => ?_⟩
  · cases saved
    · exact inv.stored c hc
    · cases hc; exact inv.writing w hwriting
  · cases saved
    · exact inv.behind x (List.mem_append_left _ (by simpa using hx)) m hm
    · simp only [if_true, Option.toList_some, Option.toList_none, List.append_nil,
        List.mem_singleton] at hx
      subst hx
      exact inv.behind _ (by simp [hwriting]) m hm
  · simp [(inv.empty hnone).2.1] at hwriting

theorem Inv.publish (inv : Inv d) (h : d.step consensus .publish = some d') : Inv d' := by
  simp only [step] at h
  split at h
  · cases h
    refine inv.of_broadcasts_eq rfl rfl rfl ?_
    simp [broadcasts, *]
  · cases h

/-- Every action but a crash keeps the invariant. -/
theorem Inv.step {a : Action} (inv : Inv d) (ha : a ≠ .crash) (h : d.step consensus a = some d') :
    Inv d' := by
  cases a with
  | poll response => exact inv.poll h
  | enqueue => exact inv.enqueue h
  | persist saved => exact inv.persist h
  | publish => exact inv.publish h
  | crash => exact absurd rfl ha

theorem Reachable.inv (reach : Reachable consensus (· ≠ .crash) d) : Inv d := by
  induction reach with
  | init stored => exact Inv.init stored
  | step _ ha h ih => exact ih.step ha h

/-- Without crashes, every height from the first broadcast's begin up to the stored
checkpoint's end lies in some broadcast already published or still on `_rabbitmq_queue`. -/
theorem stored_covered_without_crash (reach : Reachable consensus (· ≠ .crash) d) :
    CoveredToStored d (d.published ++ d.process.rabbitmqQueue) :=
  fun _ hfirst c hc => reach.inv.stored c hc _ hfirst

end

/-- A sequence of actions, each run in the state the previous one left. -/
def steps (consensus : Consensus) : List Action → Detector → Option Detector
  | [], d => some d
  | a :: rest, d => (d.step consensus a).bind (steps consensus rest)

theorem Reachable.steps {consensus : Consensus} {allowed : Action → Prop} {d d' : Detector} :
    ∀ (actions : List Action), Reachable consensus allowed d →
      (∀ a ∈ actions, allowed a) → d.steps consensus actions = some d' →
      Reachable consensus allowed d'
  | [], reach, _, h => by cases h; exact reach
  | a :: rest, reach, hallowed, h => by
    obtain ⟨mid, hmid, hrest⟩ := Option.bind_eq_some.mp h
    exact Reachable.steps rest (.step reach (hallowed a (.head _)) hmid)
      (fun b hb => hallowed b (.tail _ hb)) hrest

/-- The first epoch checkpointed while the publisher has not yet sent it. -/
theorem stored_covered_before_publish :
    Reachable ⟨1000⟩ (· ≠ .crash) ⟨⟨some ⟨1, 10, 0⟩, [⟨1, 10, 0⟩], some ⟨1, 10, 0⟩, 1⟩, [], none, false, []⟩ ∧
      CoveredToStored ⟨⟨some ⟨1, 10, 0⟩, [⟨1, 10, 0⟩], some ⟨1, 10, 0⟩, 1⟩, [], none, false, []⟩
        ([] ++ [⟨1, 10, 0⟩]) :=
  have reach : Reachable ⟨1000⟩ (· ≠ .crash)
      ⟨⟨some ⟨1, 10, 0⟩, [⟨1, 10, 0⟩], some ⟨1, 10, 0⟩, 1⟩, [], none, false, []⟩ :=
    (Reachable.init none).steps [.poll (.status 200 ⟨1, 10⟩), .enqueue, .persist true]
      (by simp) rfl
  ⟨reach, stored_covered_without_crash reach⟩

/-- Two polls, the second one's first chunk checkpointed but lost in a crash before the
publisher sent it, then a third poll after the restart. -/
def crashRun : List Action :=
  [.poll (.status 200 ⟨1, 10⟩), .enqueue, .persist true, .publish,
    .poll (.status 200 ⟨11, 20⟩), .enqueue, .persist true, .crash,
    .poll (.status 200 ⟨21, 30⟩), .enqueue, .persist true, .publish, .enqueue, .persist true,
    .publish]

/-- The stored checkpoint runs ahead of the broker: along `crashRun` the chunk `10..19` is
checkpointed, then lost with the queue, and the restarted loop resumes from its end, so
heights `11..18` below the stored checkpoint's end reach the broker in no broadcast. -/
theorem checkpoint_ahead_of_broker :
    ∃ d, Reachable ⟨1000⟩ (fun _ => True) d ∧ ¬ CoveredToStored d d.published := by
  refine ⟨_, (Reachable.init none).steps crashRun (fun _ _ => trivial) rfl, ?_⟩
  intro covered
  obtain ⟨e, he, hlow, hhigh⟩ := covered _ rfl _ rfl 11 (by decide) (by decide)
  revert e
  decide

end Detector

end Pooler
