import Pooler.Distributor
import Mathlib.Data.Finset.Image

/-! The multi-project join of `_distribute_callbacks_aggregate`: what it is meant to
compute, and that the correlation set computes it when deliveries are handled one at a time.

The join keeps, per epoch, the distinct finalized messages of the required projects received
since the epoch's last emission. The sorted set `powerloom:aggregator:<type>:events` holds
exactly those messages at the epoch's score, and the aggregates published on the
aggregator's `CalculateAggregate` routing key bundle exactly what the join emits.
-/

set_option autoImplicit false

namespace Pooler

open Distributor (WritesWithin)

/-! ## The join -/

/-- Per epoch, the messages waiting for the join. -/
abbrev JoinState := Int → Finset PowerloomSnapshotFinalizedMessage

namespace JoinState

/-- One finalized message: ignored unless its project is required; otherwise added to its
epoch's pending set, which is emitted and cleared once its projects are exactly the
required ones. -/
def step (required : List String) (pending : JoinState) (m : PowerloomSnapshotFinalizedMessage) :
    JoinState × Option (Finset PowerloomSnapshotFinalizedMessage) :=
  if m.projectId ∈ required then
    if (insert m (pending m.epochId)).image (·.projectId) = required.toFinset then
      (Function.update pending m.epochId ∅, some (insert m (pending m.epochId)))
    else (Function.update pending m.epochId (insert m (pending m.epochId)), none)
  else (pending, none)

/-- A sequence of messages: the pending sets at the end and the emitted joins in order. -/
def run (required : List String) :
    JoinState → List PowerloomSnapshotFinalizedMessage →
      JoinState × List (Finset PowerloomSnapshotFinalizedMessage)
  | pending, [] => (pending, [])
  | pending, m :: ms =>
    ((run required (step required pending m).1 ms).1,
      (step required pending m).2.toList ++ (run required (step required pending m).1 ms).2)

/-- Every pending message waits under its own epoch. -/
def Consistent (pending : JoinState) : Prop := ∀ k, ∀ m ∈ pending k, m.epochId = k

variable {required : List String} {pending pending' : JoinState} {m : PowerloomSnapshotFinalizedMessage}

theorem step_of_not_mem (h : m.projectId ∉ required) : step required pending m = (pending, none) :=
  if_neg h

theorem step_of_complete (h : m.projectId ∈ required)
    (hc : (insert m (pending m.epochId)).image (·.projectId) = required.toFinset) :
    step required pending m = (Function.update pending m.epochId ∅, some (insert m (pending m.epochId))) := by
  rw [JoinState.step, if_pos h, if_pos hc]

theorem step_of_incomplete (h : m.projectId ∈ required)
    (hc : (insert m (pending m.epochId)).image (·.projectId) ≠ required.toFinset) :
    step required pending m = (Function.update pending m.epochId (insert m (pending m.epochId)), none) := by
  rw [JoinState.step, if_pos h, if_neg hc]

theorem step_fst_of_ne {k : Int} (hk : k ≠ m.epochId) : (step required pending m).1 k = pending k := by
  unfold JoinState.step
  split_ifs <;> simp [Function.update_noteq hk]

theorem step_fst_subset : (step required pending m).1 m.epochId ⊆ insert m (pending m.epochId) := by
  unfold JoinState.step
  split_ifs <;> simp [Finset.subset_insert]

theorem step_snd : ∀ s ∈ (step required pending m).2, s = insert m (pending m.epochId) := by
  unfold JoinState.step
  split_ifs <;> simp

theorem Consistent.step (h : Consistent pending) (m : PowerloomSnapshotFinalizedMessage) :
    Consistent (step required pending m).1 := fun k m' hm' => by
  by_cases hk : k = m.epochId
  · subst hk
    rcases Finset.mem_insert.mp (step_fst_subset hm') with rfl | hm'
    exacts [rfl, h _ m' hm']
  · rw [step_fst_of_ne hk] at hm'
    exact h k m' hm'

/-- What a message does at its own epoch depends only on what is pending there. -/
theorem step_of_pending_eq (hpk : pending m.epochId = pending' m.epochId) :
    (step required pending m).1 m.epochId = (step required pending' m).1 m.epochId ∧
      (step required pending m).2 = (step required pending' m).2 := by
  unfold JoinState.step
  rw [hpk]
  split_ifs <;> simp [hpk]

/-- Messages of other epochs change neither epoch `k`'s pending set nor the joins emitted
for it. -/
theorem run_filter_epochId (k : Int) :
    ∀ (ms : List PowerloomSnapshotFinalizedMessage) (pending pending' : JoinState),
      Consistent pending → Consistent pending' → pending k = pending' k →
      (run required pending ms).1 k = (run required pending' (ms.filter (·.epochId = k))).1 k ∧
        (run required pending ms).2.filter (fun s => ∀ m ∈ s, m.epochId = k) =
          (run required pending' (ms.filter (·.epochId = k))).2
  | [], _, _, _, _, hpk => ⟨hpk, rfl⟩
  | m :: ms, pending, pending', h, h', hpk => by
    by_cases hm : m.epochId = k
    · subst hm
      obtain ⟨hstep, hout⟩ := @step_of_pending_eq required _ _ _ hpk
      obtain ⟨ih₁, ih₂⟩ := run_filter_epochId m.epochId ms _ _ (h.step m) (h'.step m) hstep
      have hkeep : (step required pending' m).2.toList.filter (fun s => ∀ x ∈ s, x.epochId = m.epochId) =
          (step required pending' m).2.toList := List.filter_eq_self.mpr fun s hs => by
        rw [step_snd s (Option.mem_toList.mp hs)]
        simpa using fun x hx => h' _ x hx
      refine ⟨by simpa [run] using ih₁, ?_⟩
      simp only [run, List.filter_cons, decide_True, if_true, List.filter_append, ih₂, hkeep, hout]
    · obtain ⟨ih₁, ih₂⟩ := run_filter_epochId k ms _ _ (h.step m) h'
        ((step_fst_of_ne (Ne.symm hm)).trans hpk)
      have hdrop : (step required pending m).2.toList.filter (fun s => ∀ x ∈ s, x.epochId = k) = [] :=
        List.filter_eq_nil_iff.mpr fun s hs => by
          rw [step_snd s (Option.mem_toList.mp hs)]
          simp [hm]
      refine ⟨by simpa [run, hm] using ih₁, ?_⟩
      simp only [run, List.filter_cons, hm, decide_False, Bool.false_eq_true, if_false,
        List.filter_append, ih₂, hdrop, List.nil_append]

end JoinState

/-! ## The correlation set -/

/-- The correlation set holds, at each score `k`, exactly the messages pending for epoch
`k`, each scored by its own epoch. -/
structure JoinRefines (z : ZSet) (pending : JoinState) : Prop where
  scored : ∀ e ∈ z.entries, ∃ m, e = (Member.finalized m, m.epochId)
  mem_iff : ∀ k m, (Member.finalized m, k) ∈ z.entries ↔ m ∈ pending k

namespace JoinRefines
variable {z : ZSet} {pending : JoinState}

theorem empty : JoinRefines ZSet.empty fun _ => ∅ := ⟨by simp [ZSet.empty], by simp [ZSet.empty]⟩

theorem epochId_eq (h : JoinRefines z pending) {k : Int} {m : PowerloomSnapshotFinalizedMessage}
    (he : (Member.finalized m, k) ∈ z.entries) : m.epochId = k := by
  obtain ⟨m', he'⟩ := h.scored _ he
  simp only [Prod.mk.injEq, Member.finalized.injEq] at he'
  rw [he'.1, he'.2]

theorem consistent (h : JoinRefines z pending) : pending.Consistent :=
  fun k m hm => h.epochId_eq ((h.mem_iff k m).mpr hm)

/-- `ZADD`ing a message whose epoch a double holds adds it to its epoch's pending set. -/
theorem zadd (h : JoinRefines z pending) {m : PowerloomSnapshotFinalizedMessage}
    (hm : m.epochId.natAbs ≤ 2 ^ 53) :
    JoinRefines (z.zadd (.finalized m) m.epochId)
      (Function.update pending m.epochId (insert m (pending m.epochId))) where
  scored := fun ⟨x, s⟩ he => by
    rcases ZSet.mem_zadd.mp he with ⟨rfl, rfl⟩ | ⟨-, he⟩
    exacts [⟨m, by rw [nearestDouble_of_natAbs_le hm]⟩, h.scored _ he]
  mem_iff k m' := by
    rw [ZSet.mem_zadd, h.mem_iff, nearestDouble_of_natAbs_le hm]
    by_cases hk : k = m.epochId
    · subst hk
      by_cases hm : m' = m <;> simp [hm]
    · rw [Function.update_noteq hk]
      constructor
      · rintro (⟨-, rfl⟩ | ⟨-, hm'⟩)
        exacts [absurd rfl hk, hm']
      · intro hm'
        refine .inr ⟨fun he => hk ?_, hm'⟩
        cases he
        exact (h.consistent k m hm').symm

theorem zremrangebyscore (h : JoinRefines z pending) {k : Int} (hk : k.natAbs ≤ 2 ^ 53) :
    JoinRefines (z.zremrangebyscore k k) (Function.update pending k ∅) where
  scored := fun ⟨_, _⟩ he => h.scored _ (ZSet.mem_zremrangebyscore.mp he).1
  mem_iff k' m' := by
    rw [ZSet.mem_zremrangebyscore, h.mem_iff, nearestDouble_of_natAbs_le hk]
    by_cases hk : k' = k
    · subst hk; simp
    · rw [Function.update_noteq hk]
      exact and_iff_left fun h' => hk (le_antisymm h'.2 h'.1)

/-- `ZRANGEBYSCORE k k` reads back epoch `k`'s pending set, each message once. -/
theorem zrangebyscore (h : JoinRefines z pending) {k : Int} (hk : k.natAbs ≤ 2 ^ 53) :
    (∀ x ∈ z.zrangebyscore k k, ∃ m, x = .finalized m) ∧
      ((z.zrangebyscore k k).filterMap Member.finalizedMessage).toFinset = pending k ∧
      ((z.zrangebyscore k k).filterMap Member.finalizedMessage).Nodup := by
  refine ⟨fun x hx => ?_, Finset.ext fun m => ?_, (z.nodup_zrangebyscore k k).filterMap fun a a' b ha ha' => ?_⟩
  · obtain ⟨s, he, -⟩ := ZSet.mem_zrangebyscore.mp hx
    obtain ⟨m, hm⟩ := h.scored _ he
    exact ⟨m, (Prod.mk.inj hm).1⟩
  · simp only [List.mem_toFinset, List.mem_filterMap, Member.finalizedMessage_eq_some, exists_eq_right,
      ZSet.mem_zrangebyscore, ← h.mem_iff, nearestDouble_of_natAbs_le hk]
    constructor
    · rintro ⟨s, he, hks, hsk⟩
      rwa [le_antisymm hsk hks] at he
    · exact fun he => ⟨k, he, le_rfl, le_rfl⟩
  · simp only [Option.mem_def, Member.finalizedMessage_eq_some] at ha ha'
    rw [ha, ha']

end JoinRefines

/-! ## Aggregates on a routing key -/

/-- The messages of an aggregate enqueued on `routingKey`. -/
def Event.aggregateOn (routingKey : String) : Event → Option (List PowerloomSnapshotFinalizedMessage)
  | .enqueue _ key (.calculateAggregate message) => if key = routingKey then some message.messages else none
  | _ => none

/-- The aggregates published on `routingKey`, in order. -/
def aggregatesOn (routingKey : String) (events : List Event) : List (List PowerloomSnapshotFinalizedMessage) :=
  events.filterMap (Event.aggregateOn routingKey)

@[simp] theorem aggregatesOn_append (routingKey : String) (events events' : List Event) :
    aggregatesOn routingKey (events ++ events') = aggregatesOn routingKey events ++ aggregatesOn routingKey events' :=
  List.filterMap_append _ _ _

theorem AggregatorConfig.Emits.aggregateOn_eq_none {settings : Settings} {config : AggregatorConfig}
    {event : Event} (h : config.Emits settings event) {type_ : String}
    (htype : config.multiProjectType ≠ some type_) :
    event.aggregateOn (settings.callbackKey "CalculateAggregate" type_) = none := by
  obtain ⟨projectType, aggregateOn⟩ := config
  cases event with
  | enqueue exchange routingKey body =>
    obtain ⟨-, rfl, hbody⟩ := h
    cases aggregateOn <;> cases body <;> simp only [Event.aggregateOn] <;> try exact hbody.elim
    rw [if_neg fun heq => htype (congrArg some (settings.callbackKey_injective _ heq))]
  | ack => rfl

section Step
variable (cfg : Config) (now : Int) (processUnit : PowerloomSnapshotFinalizedMessage)

/-- The turn of the multi-project aggregator of `type_` moves its correlation set as one
join step, and publishes the join's emission. -/
theorem aggregateFor_join (hbound : processUnit.epochId.natAbs ≤ 2 ^ 53) (type_ : String)
    (required : List String) (self : Distributor) {pending : JoinState}
    (hjoin : JoinRefines (self.store (aggregatorEvents type_)) pending) :
    ∃ next evs, aggregateFor cfg now processUnit ⟨type_, .multiProject required⟩ self = .ok next ∧
      next.channel = self.channel ++ evs ∧
      JoinRefines (next.store (aggregatorEvents type_)) (JoinState.step required pending processUnit).1 ∧
      (aggregatesOn (cfg.settings.callbackKey "CalculateAggregate" type_) evs).map List.toFinset =
        (JoinState.step required pending processUnit).2.toList ∧
      ∀ messages ∈ aggregatesOn (cfg.settings.callbackKey "CalculateAggregate" type_) evs, messages.Nodup := by
  simp only [aggregateFor, Distributor.zrangebyscore]
  by_cases hwait : processUnit.projectId ∈ required
  swap
  · rw [if_pos hwait]
    rw [JoinState.step_of_not_mem hwait]
    exact ⟨self, [], rfl, by simp, hjoin, rfl, by simp [aggregatesOn]⟩
  rw [if_neg (not_not.mpr hwait)]
  have hz : (self.zadd (aggregatorEvents type_) (.finalized processUnit) processUnit.epochId).store
      (aggregatorEvents type_) = (self.store (aggregatorEvents type_)).zadd (.finalized processUnit)
        processUnit.epochId := by simp [Distributor.zadd]
  have hjoin' := hjoin.zadd hbound
  obtain ⟨hfin, hset, hnodup⟩ := hjoin'.zrangebyscore hbound
  rw [Function.update_same] at hset
  have hmem : Member.finalized processUnit ∈
      ((self.store (aggregatorEvents type_)).zadd (.finalized processUnit) processUnit.epochId).zrangebyscore
        processUnit.epochId processUnit.epochId :=
    ZSet.mem_zrangebyscore.mpr ⟨_, ZSet.mem_zadd.mpr (.inl ⟨rfl, rfl⟩), le_rfl, le_rfl⟩
  rw [hz, if_neg (List.ne_nil_of_mem hmem), mapM_parseFinalized _ hfin]
  simp only [bind, Except.bind, Distributor.uuid4]
  have hcond : ∀ messages : List PowerloomSnapshotFinalizedMessage,
      messages.toFinset = insert processUnit (pending processUnit.epochId) →
      (messages.map (·.projectId)).toFinset = (insert processUnit (pending processUnit.epochId)).image (·.projectId) :=
    fun messages h => by rw [← h]; ext; simp
  by_cases hcomplete : (insert processUnit (pending processUnit.epochId)).image (·.projectId) = required.toFinset
  · rw [if_pos ((hcond _ hset).trans hcomplete), JoinState.step_of_complete hwait hcomplete]
    simp only [sendMessageForProcessing, Body.broadcastId]
    refine ⟨_, _, rfl, rfl, ?_, by simp [aggregatesOn, Event.aggregateOn, hset],
      by simpa [aggregatesOn, Event.aggregateOn] using hnodup⟩
    have hstore := hjoin'.zremrangebyscore hbound
    rw [Function.update_idem] at hstore
    simpa [Distributor.zremrangebyscore, Distributor.zadd,
      Function.update_noteq (cbBroadcastProcessingLogsZset_ne_aggregatorEvents _ _ type_).symm] using hstore
  · rw [if_neg fun h => hcomplete (((hcond _ hset).symm.trans h)),
      JoinState.step_of_incomplete hwait hcomplete]
    exact ⟨_, [], rfl, by simp, hz ▸ hjoin', rfl, by simp [aggregatesOn]⟩

/-- Any other config's turn leaves the correlation set of `type_` alone and publishes no
aggregate on its routing key. -/
theorem aggregateFor_other (type_ : String) (config : AggregatorConfig)
    (htype : config.multiProjectType ≠ some type_) (self : Distributor) (wf : AggregatorKeysWF self.store) :
    ∃ next evs, aggregateFor cfg now processUnit config self = .ok next ∧
      next.channel = self.channel ++ evs ∧
      next.store (aggregatorEvents type_) = self.store (aggregatorEvents type_) ∧
      aggregatesOn (cfg.settings.callbackKey "CalculateAggregate" type_) evs = [] ∧
      AggregatorKeysWF next.store := by
  obtain ⟨next, evs, h, hch, hemits, wf'⟩ := aggregateFor_spec cfg now processUnit config self wf
  refine ⟨next, evs, h, hch, aggregateFor_writes cfg now processUnit config h _ ?_,
    List.filterMap_eq_nil_iff.mpr fun e he => (hemits e he).aggregateOn_eq_none htype, wf'⟩
  rintro (⟨b, hb⟩ | hkey)
  · exact cbBroadcastProcessingLogsZset_ne_aggregatorEvents _ _ _ hb.symm
  · obtain ⟨t, ht, hkey⟩ := Option.map_eq_some'.mp hkey
    exact htype (ht.trans (congrArg some (aggregatorEvents_injective hkey)))

theorem aggregateAll_other (type_ : String) :
    ∀ (configs : List AggregatorConfig) (self : Distributor), AggregatorKeysWF self.store →
      (∀ config ∈ configs, config.multiProjectType ≠ some type_) →
      ∃ next evs, aggregateAll cfg now processUnit configs self = .ok next ∧
        next.channel = self.channel ++ evs ∧
        next.store (aggregatorEvents type_) = self.store (aggregatorEvents type_) ∧
        aggregatesOn (cfg.settings.callbackKey "CalculateAggregate" type_) evs = [] ∧
        AggregatorKeysWF next.store
  | [], self, wf, _ => ⟨self, [], rfl, by simp, rfl, rfl, wf⟩
  | config :: rest, self, wf, hother => by
    obtain ⟨mid, evs, hmid, hch, hstore, hagg, wf'⟩ :=
      aggregateFor_other cfg now processUnit type_ config (hother config (.head _)) self wf
    obtain ⟨next, evs', hnext, hch', hstore', hagg', wf''⟩ :=
      aggregateAll_other type_ rest mid wf' fun c hc => hother c (.tail _ hc)
    refine ⟨next, evs ++ evs', by simp only [aggregateAll, hmid]; exact hnext, by simp [hch', hch],
      hstore'.trans hstore, by rw [aggregatesOn_append, hagg, hagg', List.append_nil], wf''⟩

/-- Over all configs, the one multi-project aggregator of its type makes one join step. -/
theorem aggregateAll_join (hbound : processUnit.epochId.natAbs ≤ 2 ^ 53) {config : AggregatorConfig}
    {required : List String} (hmulti : config.aggregateOn = .multiProject required) :
    ∀ (configs : List AggregatorConfig) (self : Distributor) {pending : JoinState},
      AggregatorKeysWF self.store → config ∈ configs →
      (configs.filterMap AggregatorConfig.multiProjectType).Nodup →
      JoinRefines (self.store (aggregatorEvents config.projectType)) pending →
      ∃ next evs, aggregateAll cfg now processUnit configs self = .ok next ∧
        next.channel = self.channel ++ evs ∧
        JoinRefines (next.store (aggregatorEvents config.projectType))
          (JoinState.step required pending processUnit).1 ∧
        (aggregatesOn (cfg.settings.callbackKey "CalculateAggregate" config.projectType) evs).map
          List.toFinset = (JoinState.step required pending processUnit).2.toList ∧
        (∀ messages ∈ aggregatesOn (cfg.settings.callbackKey "CalculateAggregate" config.projectType) evs,
          messages.Nodup) ∧
        AggregatorKeysWF next.store
  | [], _, _, _, hmem, _, _ => absurd hmem (List.not_mem_nil _)
  | c :: rest, self, pending, wf, hmem, hnodup, hjoin => by
    have htype : config.multiProjectType = some config.projectType := by
      simp [AggregatorConfig.multiProjectType, hmulti]
    by_cases hc : c.multiProjectType = some config.projectType
    · have hrest : ∀ c' ∈ rest, c'.multiProjectType ≠ some config.projectType := fun c' hc' heq => by
        simp only [List.filterMap_cons, hc, List.nodup_cons, List.mem_filterMap] at hnodup
        exact hnodup.1 ⟨c', hc', heq⟩
      have hcfg : c = config := (List.mem_cons.mp hmem).elim Eq.symm fun h => absurd htype (hrest config h)
      subst hcfg
      obtain ⟨projectType, aggregateOn⟩ := c
      subst hmulti
      obtain ⟨mid, evs, hmid, hch, hjoin', hagg, hnodup'⟩ :=
        aggregateFor_join cfg now processUnit hbound projectType required self hjoin
      obtain ⟨_, _, hmid', _, _, wf'⟩ := aggregateFor_spec cfg now processUnit
        ⟨projectType, .multiProject required⟩ self wf
      cases hmid.symm.trans hmid'
      obtain ⟨next, evs', hnext, hch', hstore', hagg', wf''⟩ :=
        aggregateAll_other cfg now processUnit projectType rest mid wf' hrest
      exact ⟨next, evs ++ evs', by simp only [aggregateAll, hmid]; exact hnext, by simp [hch', hch],
        hstore' ▸ hjoin', by simpa [hagg'] using hagg, by simpa [hagg'] using hnodup', wf''⟩
    · have hmem' : config ∈ rest := (List.mem_cons.mp hmem).resolve_left fun h => hc (h ▸ htype)
      obtain ⟨mid, evs, hmid, hch, hstore, hagg, wf'⟩ :=
        aggregateFor_other cfg now processUnit config.projectType c hc self wf
      have hnodup' : (rest.filterMap AggregatorConfig.multiProjectType).Nodup := by
        simp only [List.filterMap_cons] at hnodup
        split at hnodup
        · exact hnodup
        · exact hnodup.of_cons
      obtain ⟨next, evs', hnext, hch', hjoin', hagg', hnodup'', wf''⟩ :=
        aggregateAll_join hbound hmulti rest mid wf' hmem' hnodup' (hstore ▸ hjoin)
      exact ⟨next, evs ++ evs', by simp only [aggregateAll, hmid]; exact hnext, by simp [hch', hch],
        hjoin', by simpa [hagg] using hagg', by simpa [hagg] using hnodup'', wf''⟩

end Step

/-! ## Deliveries one at a time -/

/-- The finalized message a delivery `(now, method, body)` hands to the aggregators: one on
a `SnapshotFinalized` routing key whose body parses. -/
def finalizedOf (delivery : Int × Method × JsonObject) : Option PowerloomSnapshotFinalizedMessage :=
  if routingKeySuffix delivery.2.1.routingKey = "SnapshotFinalized" then
    (PowerloomSnapshotFinalizedMessage.parseRaw delivery.2.2).toOption
  else none

/-- Deliveries handled one at a time by `_distribute_callbacks_aggregate`, each at its own
clock reading. -/
def aggregateRun (cfg : Config) : List (Int × Method × JsonObject) → Distributor → Except PyErr Distributor
  | [], self => .ok self
  | (now, method, body) :: rest, self => do
    let self ← distributeCallbacksAggregate cfg now method body self
    aggregateRun cfg rest self

section Run
variable (cfg : Config) {config : AggregatorConfig} {required : List String}
  (hmulti : config.aggregateOn = .multiProject required) (hconfig : config ∈ cfg.aggregatorConfig)
  (hdistinct : (cfg.aggregatorConfig.filterMap AggregatorConfig.multiProjectType).Nodup)

theorem distributeCallbacksAggregate_of_finalizedOf_none {now : Int} {method : Method} {body : JsonObject}
    (h : finalizedOf (now, method, body) = none) (self : Distributor) :
    distributeCallbacksAggregate cfg now method body self = .ok self := by
  unfold distributeCallbacksAggregate
  by_cases hkey : routingKeySuffix method.routingKey = "SnapshotFinalized"
  · simp only [finalizedOf, hkey, if_true] at h
    rw [if_neg (not_not.mpr hkey)]
    cases hparse : PowerloomSnapshotFinalizedMessage.parseRaw body with
    | error => rfl
    | ok m => simp [hparse, Except.toOption] at h
  · rw [if_pos hkey]

theorem finalizedOf_eq_some {now : Int} {method : Method} {body : JsonObject}
    {m : PowerloomSnapshotFinalizedMessage} (h : finalizedOf (now, method, body) = some m) :
    routingKeySuffix method.routingKey = "SnapshotFinalized" ∧
      PowerloomSnapshotFinalizedMessage.parseRaw body = .ok m := by
  unfold finalizedOf at h
  split_ifs at h with hkey
  refine ⟨hkey, ?_⟩
  cases hparse : PowerloomSnapshotFinalizedMessage.parseRaw body <;> simp_all [Except.toOption]

include hmulti hconfig hdistinct in
/-- A run of deliveries moves the correlation set as the join's run over the delivered
finalized messages, and publishes its emissions in order. -/
theorem aggregateRun_join :
    ∀ (deliveries : List (Int × Method × JsonObject)) (self : Distributor) {pending : JoinState},
      (∀ m ∈ deliveries.filterMap finalizedOf, m.epochId.natAbs ≤ 2 ^ 53) →
      AggregatorKeysWF self.store → JoinRefines (self.store (aggregatorEvents config.projectType)) pending →
      ∃ next evs, aggregateRun cfg deliveries self = .ok next ∧ next.channel = self.channel ++ evs ∧
        JoinRefines (next.store (aggregatorEvents config.projectType))
          (JoinState.run required pending (deliveries.filterMap finalizedOf)).1 ∧
        (aggregatesOn (cfg.settings.callbackKey "CalculateAggregate" config.projectType) evs).map
          List.toFinset = (JoinState.run required pending (deliveries.filterMap finalizedOf)).2 ∧
        ∀ messages ∈ aggregatesOn (cfg.settings.callbackKey "CalculateAggregate" config.projectType) evs,
          messages.Nodup
  | [], self, _, _, _, hjoin => ⟨self, [], rfl, by simp, hjoin, rfl, by simp [aggregatesOn]⟩
  | (now, method, body) :: rest, self, pending, hbound, wf, hjoin => by
    cases hfin : finalizedOf (now, method, body) with
    | none =>
      obtain ⟨next, evs, hnext, hch, hjoin', hagg, hnodup⟩ :=
        aggregateRun_join rest self (by simpa [List.filterMap_cons, hfin] using hbound) wf hjoin
      refine ⟨next, evs, ?_, hch, ?_, ?_, hnodup⟩
      · simp only [aggregateRun, distributeCallbacksAggregate_of_finalizedOf_none cfg hfin]; exact hnext
      all_goals simpa [List.filterMap_cons, hfin] using ‹_›
    | some m =>
      obtain ⟨hkey, hparse⟩ := finalizedOf_eq_some hfin
      simp only [List.filterMap_cons, hfin, List.mem_cons, forall_eq_or_imp] at hbound
      obtain ⟨mid, evs, hmid, hch, hjoin', hagg, hnodup, wf'⟩ :=
        aggregateAll_join cfg now m hbound.1 hmulti cfg.aggregatorConfig self wf hconfig hdistinct hjoin
      obtain ⟨next, evs', hnext, hch', hjoin'', hagg', hnodup'⟩ :=
        aggregateRun_join rest (mid.basicAck method.deliveryTag) hbound.2 wf' hjoin'
      refine ⟨next, evs ++ [.ack method.deliveryTag] ++ evs', ?_, by simp [hch', hch], ?_, ?_, ?_⟩
      · simp only [aggregateRun, distributeCallbacksAggregate, hkey, hparse, ne_eq, not_true_eq_false,
          if_false, bind, Except.bind, hmid]
        exact hnext
      · simpa [List.filterMap_cons, hfin, JoinState.run] using hjoin''
      · simp [List.filterMap_cons, hfin, JoinState.run, ← hagg, ← hagg', aggregatesOn, Event.aggregateOn]
      · intro messages hm
        simp only [aggregatesOn_append, List.mem_append] at hm
        rcases hm with (hm | hm) | hm
        exacts [hnodup messages hm, absurd hm (by simp [aggregatesOn, Event.aggregateOn]), hnodup' messages hm]

include hmulti hconfig hdistinct in
/-- Handled one at a time from the empty store, the correlation set of a multi-project
aggregator holds at each score exactly the join's pending set for that epoch, and the
aggregates on its routing key bundle, in order and each message once, exactly the join's
emissions; neither depends on messages of other epochs. -/
theorem aggregateRun_refines_join (deliveries : List (Int × Method × JsonObject))
    (hbound : ∀ m ∈ deliveries.filterMap finalizedOf, m.epochId.natAbs ≤ 2 ^ 53) :
    ∃ next, aggregateRun cfg deliveries ⟨Store.empty, [], 0⟩ = .ok next ∧
      (∀ k m, (Member.finalized m, k) ∈ (next.store (aggregatorEvents config.projectType)).entries ↔
        m ∈ (JoinState.run required (fun _ => ∅) (deliveries.filterMap finalizedOf)).1 k) ∧
      (aggregatesOn (cfg.settings.callbackKey "CalculateAggregate" config.projectType) next.channel).map
        List.toFinset = (JoinState.run required (fun _ => ∅) (deliveries.filterMap finalizedOf)).2 ∧
      (∀ messages ∈ aggregatesOn (cfg.settings.callbackKey "CalculateAggregate" config.projectType)
        next.channel, messages.Nodup) ∧
      ∀ k, (JoinState.run required (fun _ => ∅) (deliveries.filterMap finalizedOf)).1 k =
          (JoinState.run required (fun _ => ∅) ((deliveries.filterMap finalizedOf).filter (·.epochId = k))).1 k ∧
        (JoinState.run required (fun _ => ∅) (deliveries.filterMap finalizedOf)).2.filter
            (fun s => ∀ m ∈ s, m.epochId = k) =
          (JoinState.run required (fun _ => ∅) ((deliveries.filterMap finalizedOf).filter (·.epochId = k))).2 := by
  obtain ⟨next, evs, hrun, hch, hjoin, hagg, hnodup⟩ :=
    aggregateRun_join cfg hmulti hconfig hdistinct deliveries ⟨Store.empty, [], 0⟩ hbound AggregatorKeysWF.empty
      JoinRefines.empty
  have hempty : JoinState.Consistent fun _ => ∅ := fun _ _ hm => absurd hm (Finset.not_mem_empty _)
  simp only [List.nil_append] at hch
  exact ⟨next, hrun, hjoin.mem_iff, hch ▸ hagg, hch ▸ hnodup, fun k =>
    JoinState.run_filter_epochId k _ _ _ hempty hempty rfl⟩

end Run

/-- Finalized snapshots of `p` then `q` at epoch 1, for an aggregator joining the two. -/
theorem aggregateRun_refines_join_two_projects :
    ∃ next, aggregateRun ⟨⟨"ns", "0", 1, "callbacks", "commit"⟩, "distributor", [],
        [⟨"pairs", .multiProject ["p", "q"]⟩]⟩
        [(0, ⟨"powerloom-event-detector:ns:0.SnapshotFinalized", 1⟩,
            PowerloomSnapshotFinalizedMessage.json ⟨1, "p", "cid", "x"⟩),
          (0, ⟨"powerloom-event-detector:ns:0.SnapshotFinalized", 2⟩,
            PowerloomSnapshotFinalizedMessage.json ⟨1, "q", "cid", "y"⟩)]
        ⟨Store.empty, [], 0⟩ = .ok next ∧
      (aggregatesOn (Settings.callbackKey ⟨"ns", "0", 1, "callbacks", "commit"⟩ "CalculateAggregate" "pairs")
          next.channel).map List.toFinset =
        (JoinState.run ["p", "q"] (fun _ => ∅)
          [⟨1, "p", "cid", "x"⟩, ⟨1, "q", "cid", "y"⟩]).2 :=
  (@aggregateRun_refines_join _ ⟨"pairs", .multiProject ["p", "q"]⟩ _ rfl (.head _) (by decide) _
    (by decide)).imp fun _ h => ⟨h.1, h.2.2.1⟩

/-- Epochs `2 ^ 53` and `2 ^ 53 + 1` share one double score: the read after the second
message finds both, and one aggregate bundles the two epochs, where the join of each epoch
is still waiting. -/
theorem aggregateRun_joins_colliding_epochs :
    ∃ next, aggregateRun ⟨⟨"ns", "0", 1, "callbacks", "commit"⟩, "distributor", [],
        [⟨"pairs", .multiProject ["p", "q"]⟩]⟩
        [(0, ⟨"powerloom-event-detector:ns:0.SnapshotFinalized", 1⟩,
            PowerloomSnapshotFinalizedMessage.json ⟨2 ^ 53, "p", "cid", "x"⟩),
          (0, ⟨"powerloom-event-detector:ns:0.SnapshotFinalized", 2⟩,
            PowerloomSnapshotFinalizedMessage.json ⟨2 ^ 53 + 1, "q", "cid", "y"⟩)]
        ⟨Store.empty, [], 0⟩ = .ok next ∧
      aggregatesOn (Settings.callbackKey ⟨"ns", "0", 1, "callbacks", "commit"⟩ "CalculateAggregate" "pairs")
          next.channel = [[⟨2 ^ 53, "p", "cid", "x"⟩, ⟨2 ^ 53 + 1, "q", "cid", "y"⟩]] ∧
      (JoinState.run ["p", "q"] (fun _ => ∅)
          [⟨2 ^ 53, "p", "cid", "x"⟩, ⟨2 ^ 53 + 1, "q", "cid", "y"⟩]).2 = [] :=
  ⟨_, rfl, by decide, by decide⟩

end Pooler
