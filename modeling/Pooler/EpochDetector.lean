import Pooler.Messages
import Pooler.Chunks

/-! `EpochDetectorProcess.run` of `system_epoch_detector.py`.

One pass of the polling loop is `plan` (fetch, recover the checkpoint, compare, chunk)
followed by one `_broadcast_epoch` per planned epoch. `runWithCleanup` wraps the loop in
`@rabbitmq_and_redis_cleanup`. The publisher thread that drains `_rabbitmq_queue` is a
separate actor, modelled in `Pooler.Checkpoint`; here the queue only grows. Sleeps,
logging and signals are not modelled.
-/

set_option autoImplicit false

namespace Pooler

/-- The epoch dict `run` builds, `{'begin', 'end', 'broadcast_id'}`. Its `broadcast_id` is
`str(uuid4())`; the model keeps the draw number of that uuid, so draws are distinct. -/
structure Epoch where
  begin : Int
  «end» : Int
  broadcastId : Nat
  deriving DecidableEq, Repr

/-- `SystemEpochStatusReport(**epoch)`. -/
def Epoch.report (epoch : Epoch) : SystemEpochStatusReport :=
  { begin := epoch.begin, «end» := epoch.end, broadcastId := toString epoch.broadcastId }

/-- The block range of an epoch. -/
def Epoch.range (epoch : Epoch) : Int × Int := (epoch.begin, epoch.end)

/-- `EpochInfo(**response.json())` of a response from the epoch tracker. -/
structure EpochInfo where
  epochStartBlockHeight : Int
  epochEndBlockHeight : Int
  deriving DecidableEq, Repr

/-- What `requests.get(consensus_epoch_tracker_url)` gives one pass of the loop. -/
inductive Response where
  | failed
  | status (statusCode : Nat) (info : EpochInfo)
  deriving DecidableEq, Repr

/-- `settings.CONSENSUS` as far as the loop reads it; the sleep lengths are not modelled. -/
structure Consensus where
  fallBehindResetNumBlocks : Int

/-- The state of `EpochDetectorProcess` the loop reads and writes, with the store value
under `epoch_detector_last_processed_epoch` and the number of uuids drawn so far. The
detector imports that key from a top-level `redis_keys` module the sources do not contain;
no definition here depends on its text. -/
structure EpochDetectorProcess where
  lastProcessedEpoch : Option Epoch
  rabbitmqQueue : List Epoch
  stored : Option Epoch
  uuids : Nat
  deriving DecidableEq, Repr

namespace EpochDetectorProcess

/-- `_broadcast_epoch`: enqueue the report, advance the in-memory checkpoint, then try the
store write, whose failure is logged and swallowed; `saved` is whether `r.set` succeeded. -/
def broadcastEpoch (saved : Bool) (epoch : Epoch) (self : EpochDetectorProcess) :
    EpochDetectorProcess :=
  { self with
    rabbitmqQueue := self.rabbitmqQueue ++ [epoch]
    lastProcessedEpoch := some epoch
    stored := if saved then some epoch else self.stored }

/-- The checkpoint a pass works from: the in-memory one, else the one `r.get` returns. -/
def checkpoint (self : EpochDetectorProcess) : Option Epoch :=
  self.lastProcessedEpoch.or self.stored

/-- What one pass of the `while True` body decides before it broadcasts: `exit` is
`raise GenericExitOnSignal`, `error` the `ValueError` that `range` raises on a zero epoch
height. -/
inductive Plan where
  | sleep
  | exit
  | error
  | broadcast (epochs : List Epoch)
  deriving DecidableEq, Repr

/-- The epochs of the chunks, each with the next uuid draw from `first` on. -/
def epochsOfChunks (first : Nat) : List (Int × Int × Nat) → List Epoch
  | [] => []
  | (b, e, _) :: rest => ⟨b, e, first⟩ :: epochsOfChunks (first + 1) rest

/-- The decisions of the loop body; `sleep` is a `continue` branch. -/
def plan (consensus : Consensus) (self : EpochDetectorProcess) : Response → Plan × EpochDetectorProcess
  | .failed => (.sleep, self)
  | .status statusCode info =>
    if statusCode ≠ 200 then (.sleep, self) else
    let current : Epoch := ⟨info.epochStartBlockHeight, info.epochEndBlockHeight, self.uuids⟩
    let loaded := { self with uuids := self.uuids + 1, lastProcessedEpoch := self.checkpoint }
    match loaded.lastProcessedEpoch with
    | none => (.broadcast [current], loaded)
    | some last =>
      if last.end = current.end then (.sleep, loaded)
      else if current.end - last.end > consensus.fallBehindResetNumBlocks then (.exit, loaded)
      else if last.end > current.end then (.exit, loaded)
      else match chunks last.end current.end (current.end - current.begin + 1) with
        | none => (.error, loaded)
        | some cs =>
          (.broadcast (epochsOfChunks loaded.uuids cs), { loaded with uuids := loaded.uuids + cs.length })

/-- `_broadcast_epoch` for each epoch in order; `saved` gives each store write's outcome
by the epoch's uuid draw. -/
def broadcastAll (saved : Nat → Bool) : List Epoch → EpochDetectorProcess → EpochDetectorProcess
  | [], self => self
  | epoch :: rest, self => broadcastAll saved rest (self.broadcastEpoch (saved epoch.broadcastId) epoch)

/-- One pass of the loop body of `run`. -/
def loopBody (consensus : Consensus) (saved : Nat → Bool) (self : EpochDetectorProcess)
    (response : Response) : Plan × EpochDetectorProcess :=
  match self.plan consensus response with
  | (.broadcast epochs, loaded) => (.broadcast epochs, broadcastAll saved epochs loaded)
  | other => other

/-- `run` over a sequence of responses, stopping at the first pass that raises. -/
def run (consensus : Consensus) (saved : Nat → Bool) :
    List Response → EpochDetectorProcess → EpochDetectorProcess
  | [], self => self
  | response :: rest, self =>
    match self.loopBody consensus saved response with
    | (.exit, next) | (.error, next) => next
    | (_, next) => run consensus saved rest next

/-- A fresh process whose store holds `stored`. -/
def init (stored : Option Epoch) : EpochDetectorProcess := ⟨none, [], stored, 0⟩

/-- What `rabbitmq_and_redis_cleanup` does on `GenericExitOnSignal` before its
`sys.exit(0)`: join the publisher thread, then write the in-memory checkpoint, if there is
one, to the store; `saved` is whether that `r.set` succeeded. `joined` is whether the join
returns: the publisher's `run()` blocks until the interactor is stopped, which only the
signal handler does, and a signal during the join raises past the write. `none` is a process
waiting in the join. -/
def rabbitmqAndRedisCleanup (joined saved : Bool) (self : EpochDetectorProcess) :
    Option EpochDetectorProcess :=
  if joined then
    some (match self.lastProcessedEpoch with
      | some epoch => { self with stored := if saved then some epoch else self.stored }
      | none => self)
  else none

/-- `run` under `@rabbitmq_and_redis_cleanup`: the passes up to the first that raises, then
the cleanup for `GenericExitOnSignal`, or only the log for another exception, and
`sys.exit(0)`. -/
def runWithCleanup (consensus : Consensus) (saved : Nat → Bool) (joined savedAtExit : Bool) :
    List Response → EpochDetectorProcess → Option EpochDetectorProcess
  | [], self => some self
  | response :: rest, self =>
    match self.loopBody consensus saved response with
    | (.exit, next) => rabbitmqAndRedisCleanup joined savedAtExit next
    | (.error, next) => some next
    | (_, next) => runWithCleanup consensus saved joined savedAtExit rest next

/-! ## Broadcasting a pass's epochs -/

section
variable (saved : Nat → Bool)

@[simp] theorem broadcastAll_rabbitmqQueue :
    ∀ (epochs : List Epoch) (self : EpochDetectorProcess),
      (broadcastAll saved epochs self).rabbitmqQueue = self.rabbitmqQueue ++ epochs
  | [], _ => by simp [broadcastAll]
  | _ :: rest, _ => by simp [broadcastAll, broadcastAll_rabbitmqQueue rest, broadcastEpoch]

@[simp] theorem broadcastAll_uuids :
    ∀ (epochs : List Epoch) (self : EpochDetectorProcess),
      (broadcastAll saved epochs self).uuids = self.uuids
  | [], _ => rfl
  | _ :: rest, _ => (broadcastAll_uuids rest _).trans rfl

theorem broadcastAll_lastProcessedEpoch :
    ∀ (epochs : List Epoch) (self : EpochDetectorProcess),
      (broadcastAll saved epochs self).lastProcessedEpoch = epochs.getLast?.or self.lastProcessedEpoch
  | [], _ => by simp [broadcastAll]
  | [_], _ => rfl
  | _ :: e :: rest, self => by
    obtain ⟨x, hx⟩ : ∃ x, (e :: rest).getLast? = some x :=
      ⟨_, List.getLast?_eq_getLast _ (List.cons_ne_nil _ _)⟩
    rw [broadcastAll, broadcastAll_lastProcessedEpoch (e :: rest), List.getLast?_cons_cons, hx]
    rfl

theorem broadcastAll_stored_of_saved :
    ∀ (epochs : List Epoch) (self : EpochDetectorProcess),
      ∀ last ∈ epochs.getLast?, saved last.broadcastId = true →
        (broadcastAll saved epochs self).stored = some last
  | [], _ => by simp
  | [e], _ => by simp_all [broadcastAll, broadcastEpoch]
  | _ :: e :: rest, _ => fun last hlast hsaved =>
    broadcastAll_stored_of_saved (e :: rest) _ last
      (by simpa [List.getLast?_cons_cons] using hlast) hsaved

end

theorem epochsOfChunks_ranges :
    ∀ (first : Nat) (cs : List (Int × Int × Nat)),
      (epochsOfChunks first cs).map Epoch.range = blockRanges cs
  | _, [] => rfl
  | first, (_, _, _) :: rest => by
    simp only [epochsOfChunks, List.map_cons, epochsOfChunks_ranges (first + 1) rest, blockRanges,
      Epoch.range]

theorem epochsOfChunks_ids :
    ∀ (first : Nat) (cs : List (Int × Int × Nat)),
      (epochsOfChunks first cs).map (·.broadcastId) = List.range' first cs.length
  | _, [] => rfl
  | first, (_, _, _) :: rest => by
    simp [epochsOfChunks, epochsOfChunks_ids (first + 1) rest, List.range'_succ]

/-! ## What one pass does -/

theorem mem_checkpoint {self : EpochDetectorProcess} {m : Epoch} (h : m ∈ self.checkpoint) :
    m ∈ self.lastProcessedEpoch ∨ (self.lastProcessedEpoch = none ∧ m ∈ self.stored) := by
  cases hmem : self.lastProcessedEpoch <;> simp_all [checkpoint]

/-- A pass's decisions leave the queue and the store alone, keep the in-memory checkpoint or
recover it from the store, and plan epochs that follow one another from the checkpoint on. -/
theorem plan_spec (consensus : Consensus) (self : EpochDetectorProcess) (response : Response)
    (decision : Plan) (next : EpochDetectorProcess)
    (hplan : self.plan consensus response = (decision, next)) :
    next.rabbitmqQueue = self.rabbitmqQueue ∧ next.stored = self.stored ∧
    (next.lastProcessedEpoch = self.lastProcessedEpoch ∨ next.lastProcessedEpoch = self.checkpoint) ∧
    ∀ epochs, decision = .broadcast epochs →
      next.lastProcessedEpoch = self.checkpoint ∧
      ((next.lastProcessedEpoch.toList ++ epochs).map Epoch.range).Chain' Follows := by
  have kept : next.rabbitmqQueue = self.rabbitmqQueue ∧ next.stored = self.stored ∧
      (next.lastProcessedEpoch = self.lastProcessedEpoch ∨
        next.lastProcessedEpoch = self.checkpoint) := by
    cases response with
    | failed => cases hplan; exact ⟨rfl, rfl, .inl rfl⟩
    | status code info =>
      simp only [plan] at hplan
      split_ifs at hplan
      · cases hplan; exact ⟨rfl, rfl, .inl rfl⟩
      all_goals repeat' split at hplan
      all_goals cases hplan; exact ⟨rfl, rfl, .inr rfl⟩
  refine ⟨kept.1, kept.2.1, kept.2.2, fun epochs hbroadcast => ?_⟩
  cases response with
  | failed => cases hplan; cases hbroadcast
  | status code info =>
    simp only [plan] at hplan
    split_ifs at hplan with hcode
    · cases hplan; cases hbroadcast
    split at hplan
    · rename_i hnone
      cases hplan; cases hbroadcast
      exact ⟨rfl, by simp [hnone]⟩
    · rename_i last hlast
      split_ifs at hplan with heq hgt hlt
      all_goals try (cases hplan; cases hbroadcast)
      split at hplan
      · cases hplan; cases hbroadcast
      · rename_i cs hcs
        cases hplan; cases hbroadcast
        refine ⟨rfl, ?_⟩
        simp only [hlast, Option.toList_some, List.singleton_append, List.map_cons,
          epochsOfChunks_ranges]
        exact chunks_follow (by omega) hcs _ rfl

/-! ## A pass behind the network -/

/-- Broadcast ids drawn anew: pairwise distinct, and none among the `before` earlier draws. -/
def FreshIds (before : Nat) (epochs : List Epoch) : Prop :=
  (epochs.map (·.broadcastId)).Nodup ∧ ∀ e ∈ epochs, before ≤ e.broadcastId

theorem epochsOfChunks_fresh (before : Nat) (cs : List (Int × Int × Nat)) :
    FreshIds before (epochsOfChunks (before + 1) cs) := by
  refine ⟨by rw [epochsOfChunks_ids]; exact List.nodup_range' _ _, fun e he => ?_⟩
  have hmem : e.broadcastId ∈ (epochsOfChunks (before + 1) cs).map (·.broadcastId) :=
    List.mem_map_of_mem _ he
  rw [epochsOfChunks_ids, List.mem_range'_1] at hmem
  omega

theorem plan_behind (consensus : Consensus) (self : EpochDetectorProcess) {c : Epoch}
    (info : EpochInfo) (hc : self.checkpoint = some c) (hbehind : c.end < info.epochEndBlockHeight) :
    self.plan consensus (.status 200 info) =
      let loaded := { self with uuids := self.uuids + 1, lastProcessedEpoch := some c }
      if info.epochEndBlockHeight - c.end > consensus.fallBehindResetNumBlocks then (.exit, loaded)
      else match chunks c.end info.epochEndBlockHeight
          (info.epochEndBlockHeight - info.epochStartBlockHeight + 1) with
        | none => (.error, loaded)
        | some cs => (.broadcast (epochsOfChunks (self.uuids + 1) cs),
            { loaded with uuids := self.uuids + 1 + cs.length }) := by
  have hne : c.end ≠ info.epochEndBlockHeight := ne_of_lt hbehind
  have hng : ¬ c.end > info.epochEndBlockHeight := not_lt_of_gt hbehind
  simp only [plan, hc, hne, hng, if_false, ne_eq, not_true_eq_false]

/-- One pass that finds the network ahead of the checkpoint `c`. Past the fall-behind threshold
it raises without publishing, and the process goes no further than the cleanup. Otherwise it
publishes, with fresh ids, ranges of one network epoch's span tiling `c.end` to the network's
end, leaves the checkpoint on the last of them, and polls again. -/
theorem loopBody_behind_checkpoint (consensus : Consensus) (saved : Nat → Bool)
    (self : EpochDetectorProcess) (c : Epoch) (info : EpochInfo)
    (hc : self.checkpoint = some c)
    (hinfo : info.epochStartBlockHeight ≤ info.epochEndBlockHeight)
    (hbehind : c.end < info.epochEndBlockHeight) :
    (info.epochEndBlockHeight - c.end > consensus.fallBehindResetNumBlocks →
      ∃ next, self.loopBody consensus saved (.status 200 info) = (.exit, next) ∧
        next.rabbitmqQueue = self.rabbitmqQueue ∧ next.checkpoint = some c ∧
        next.stored = self.stored ∧
        ∀ joined savedAtExit more, runWithCleanup consensus saved joined savedAtExit
          (.status 200 info :: more) self = rabbitmqAndRedisCleanup joined savedAtExit next) ∧
    (info.epochEndBlockHeight - c.end ≤ consensus.fallBehindResetNumBlocks →
      ∃ epochs next, self.loopBody consensus saved (.status 200 info) = (.broadcast epochs, next) ∧
        next.rabbitmqQueue = self.rabbitmqQueue ++ epochs ∧
        Tiling (epochs.map Epoch.range) c.end info.epochEndBlockHeight
          (info.epochEndBlockHeight - info.epochStartBlockHeight + 1) ∧
        FreshIds self.uuids epochs ∧
        next.lastProcessedEpoch = epochs.getLast? ∧
        (∀ last ∈ epochs.getLast?, saved last.broadcastId = true → next.stored = some last) ∧
        ∀ joined savedAtExit more, runWithCleanup consensus saved joined savedAtExit
          (.status 200 info :: more) self = runWithCleanup consensus saved joined savedAtExit more next) := by
  have hplan := plan_behind consensus self info hc hbehind
  refine ⟨fun hgt => ?_, fun hle => ?_⟩
  · rw [if_pos hgt] at hplan
    have hloop : self.loopBody consensus saved (.status 200 info) =
        (.exit, { self with uuids := self.uuids + 1, lastProcessedEpoch := some c }) := by
      simp only [loopBody, hplan]
    exact ⟨_, hloop, rfl, rfl, rfl, fun _ _ _ => by rw [runWithCleanup, hloop]⟩
  · obtain ⟨cs, hcs, tiling⟩ := chunks_tiling (by omega : (0 : Int) <
      info.epochEndBlockHeight - info.epochStartBlockHeight + 1) hbehind.le
    simp only [if_neg (not_lt.mpr hle), hcs] at hplan
    have hne : epochsOfChunks (self.uuids + 1) cs ≠ [] := by
      intro hnil
      exact tiling.ne_nil (by rw [← epochsOfChunks_ranges (self.uuids + 1), hnil]; rfl)
    have hloop : self.loopBody consensus saved (.status 200 info) =
        (.broadcast (epochsOfChunks (self.uuids + 1) cs), broadcastAll saved
          (epochsOfChunks (self.uuids + 1) cs)
          { self with lastProcessedEpoch := some c, uuids := self.uuids + 1 + cs.length }) := by
      simp only [loopBody, hplan]
    obtain ⟨x, hx⟩ := Option.ne_none_iff_exists'.mp (mt List.getLast?_eq_none_iff.mp hne)
    refine ⟨_, _, hloop, by simp, by rwa [epochsOfChunks_ranges], epochsOfChunks_fresh _ _,
      by rw [broadcastAll_lastProcessedEpoch, hx]; rfl, broadcastAll_stored_of_saved saved _ _,
      fun _ _ _ => by rw [runWithCleanup, hloop]⟩

/-- Checkpoint `{end: 100}` and network epoch `101..200`, threshold 1000. -/
theorem loopBody_behind_checkpoint_from_100 :
    ((init (some ⟨1, 100, 0⟩)).checkpoint = some ⟨1, 100, 0⟩ ∧ (101 : Int) ≤ 200 ∧ (100 : Int) < 200) ∧
    ((200 : Int) - 100 > 1000 →
      ∃ next, (init (some ⟨1, 100, 0⟩)).loopBody ⟨1000⟩ (fun _ => true) (.status 200 ⟨101, 200⟩) =
          (.exit, next) ∧
        next.rabbitmqQueue = [] ∧ next.checkpoint = some ⟨1, 100, 0⟩ ∧ next.stored = some ⟨1, 100, 0⟩ ∧
        ∀ joined savedAtExit more, runWithCleanup ⟨1000⟩ (fun _ => true) joined savedAtExit
          (.status 200 ⟨101, 200⟩ :: more) (init (some ⟨1, 100, 0⟩)) =
            rabbitmqAndRedisCleanup joined savedAtExit next) ∧
    ((200 : Int) - 100 ≤ 1000 →
      ∃ epochs next, (init (some ⟨1, 100, 0⟩)).loopBody ⟨1000⟩ (fun _ => true) (.status 200 ⟨101, 200⟩) =
          (.broadcast epochs, next) ∧
        next.rabbitmqQueue = [] ++ epochs ∧ Tiling (epochs.map Epoch.range) 100 200 (200 - 101 + 1) ∧
        FreshIds 0 epochs ∧ next.lastProcessedEpoch = epochs.getLast? ∧
        (∀ last ∈ epochs.getLast?, (fun _ => true) last.broadcastId = true → next.stored = some last) ∧
        ∀ joined savedAtExit more, runWithCleanup ⟨1000⟩ (fun _ => true) joined savedAtExit
          (.status 200 ⟨101, 200⟩ :: more) (init (some ⟨1, 100, 0⟩)) =
            runWithCleanup ⟨1000⟩ (fun _ => true) joined savedAtExit more next) :=
  ⟨⟨rfl, by decide, by decide⟩, loopBody_behind_checkpoint ⟨1000⟩ (fun _ => true) (init (some ⟨1, 100, 0⟩))
    ⟨1, 100, 0⟩ ⟨101, 200⟩ rfl (by decide) (by decide)⟩

/-- Checkpoint `{end: 100}` and network epoch `101..200`. Under threshold 5 the pass raises
`GenericExitOnSignal` and the process goes no further, whatever the join, the write and the
later responses: it waits in the join, or exits with the checkpoint still at `100` and
nothing enqueued. Under threshold 1000 it publishes `100..199` and `200..200`, so height 100
goes out again. -/
theorem pass_from_100_stops_or_repeats_100 :
    (∀ joined savedAtExit (more : List Response),
      runWithCleanup ⟨5⟩ (fun _ => true) joined savedAtExit (.status 200 ⟨101, 200⟩ :: more)
          (init (some ⟨1, 100, 0⟩)) =
        if joined then some ⟨some ⟨1, 100, 0⟩, [], some ⟨1, 100, 0⟩, 1⟩ else none) ∧
    ((init (some ⟨1, 100, 0⟩)).loopBody ⟨1000⟩ (fun _ => true) (.status 200 ⟨101, 200⟩)).1 =
      .broadcast [⟨100, 199, 1⟩, ⟨200, 200, 2⟩] :=
  ⟨fun joined savedAtExit _ => by cases joined <;> cases savedAtExit <;> rfl, rfl⟩

/-- From an empty store, polls returning the network epochs `1..10` and then `11..20`: the
second pass chunks from the checkpoint's end itself, so height 10 is broadcast twice. -/
theorem run_rebroadcasts_checkpoint_end :
    (run ⟨100⟩ (fun _ => true) [.status 200 ⟨1, 10⟩, .status 200 ⟨11, 20⟩] (init none)).rabbitmqQueue =
      [⟨1, 10, 0⟩, ⟨10, 19, 2⟩, ⟨20, 20, 3⟩] :=
  rfl

end EpochDetectorProcess

end Pooler
