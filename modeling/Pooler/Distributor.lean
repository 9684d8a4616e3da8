import Pooler.Store
import Mathlib.Data.Finset.Basic

/-! `ProcessorDistributor` of `pooler/processor_distributor.py`: the handlers of one delivery.

A handler runs against the store and appends to the broker channel's events: the
messages it enqueues for publishing and the acknowledgement of the delivery. Store and
broker calls succeed; an exception that escapes a handler is an `Except.error`.
-/

set_option autoImplicit false

namespace Pooler

/-- Modelled from the spec: the settings the distributor reads (`pooler.settings.config`). -/
structure Settings where
  «namespace» : String
  instanceId : String
  chainId : Int
  callbacksExchange : String
  commitPayloadExchange : String

/-- Modelled from the spec: one entry of `projects_config`. -/
structure ProjectConfig where
  projectType : String
  projects : List String

/-- Modelled from the spec: `aggregate_on` with the field that mode reads, `filters.projectId`
for `single_project` and `projects_to_wait_for` for `multi_project`. -/
inductive AggregateOn where
  | singleProject (filtersProjectId : String)
  | multiProject (projectsToWaitFor : List String)

/-- Modelled from the spec: one entry of `aggregator_config`. -/
structure AggregatorConfig where
  projectType : String
  aggregateOn : AggregateOn

/-- What a distributor instance is configured with; `name` is the process name. -/
structure Config where
  settings : Settings
  name : String
  projectsConfig : List ProjectConfig
  aggregatorConfig : List AggregatorConfig

/-- The delivery's `method`. -/
structure Method where
  routingKey : String
  deliveryTag : Nat

/-- What a handler does on the broker channel, in order. -/
inductive Event where
  | enqueue (exchange routingKey : String) (body : Body)
  | ack (deliveryTag : Nat)
  deriving DecidableEq, Repr

/-- An exception escaping a handler. -/
inductive PyErr where
  | validation (errors : List ValidationError)
  | attribute (name : String)
  deriving DecidableEq, Repr

/-- The state one delivery's handlers change: the store, the channel, the uuid draws. -/
structure Distributor where
  store : Store
  channel : List Event
  uuids : Nat

/-- `warm_up_cache_for_snapshot_constructors(from_block, to_block, redis_conn, rpc_helper)` is
not in the sources. It gets the store connection, so the model takes it as any function of
the block range and the store, giving the store it leaves and whether it raised. -/
abbrev WarmUp := Int → Int → Store → Store × Except PyErr Unit

namespace Settings
variable (settings : Settings)

/-- `f'{settings.rabbitmq.setup.callbacks.exchange}:{settings.namespace}'`. -/
def callbacksExchangeName : String := settings.callbacksExchange ++ ":" ++ settings.namespace

/-- `f'powerloom-event-detector:{settings.namespace}:{settings.instance_id}.{event}'`. -/
def eventDetectorKey (event : String) : String :=
  "powerloom-event-detector:" ++ settings.namespace ++ ":" ++ settings.instanceId ++ "." ++ event

/-- `f'{settings.rabbitmq.setup.commit_payload.exchange}:{settings.namespace}'`. -/
def commitPayloadExchangeName : String := settings.commitPayloadExchange ++ ":" ++ settings.namespace

/-- `f'powerloom-backend-commit-payload:{settings.namespace}:{settings.instance_id}.Finalized'`. -/
def commitPayloadKey : String :=
  "powerloom-backend-commit-payload:" ++ settings.namespace ++ ":" ++ settings.instanceId ++ ".Finalized"

/-- `f'powerloom-backend-callback:{settings.namespace}:{settings.instance_id}:{kind}.{type_}'`. -/
def callbackKey (kind type_ : String) : String :=
  "powerloom-backend-callback:" ++ settings.namespace ++ ":" ++ settings.instanceId ++ ":" ++ kind ++
    "." ++ type_

end Settings

namespace Distributor

def enqueueMsgDelivery (exchange routingKey : String) (body : Body) (self : Distributor) : Distributor :=
  { self with channel := self.channel ++ [.enqueue exchange routingKey body] }

def basicAck (deliveryTag : Nat) (self : Distributor) : Distributor :=
  { self with channel := self.channel ++ [.ack deliveryTag] }

def zadd (key : String) (member : Member) (score : Int) (self : Distributor) : Distributor :=
  { self with store := Function.update self.store key ((self.store key).zadd member score) }

def zrangebyscore (key : String) (min max : Int) (self : Distributor) : List Member :=
  (self.store key).zrangebyscore min max

def zremrangebyscore (key : String) (min max : Int) (self : Distributor) : Distributor :=
  { self with store := Function.update self.store key ((self.store key).zremrangebyscore min max) }

/-- `str(uuid4())`, as the draw number. -/
def uuid4 (self : Distributor) : String × Distributor :=
  (toString self.uuids, { self with uuids := self.uuids + 1 })

end Distributor

/-- `routing_key.split('.')[-1]`: the text after the last dot. -/
def routingKeySuffix (routingKey : String) : String :=
  String.mk (routingKey.data.reverse.takeWhile (· ≠ '.')).reverse

/-- Python's `a in b` on strings. -/
def isSubstring (a b : String) : Prop := a.data <:+: b.data

instance (a b : String) : Decidable (isSubstring a b) := inferInstanceAs (Decidable (_ <:+: _))

/-- `PowerloomSnapshotFinalizedMessage.parse_raw` of a stored event: an update log lacks
every field of the schema. -/
def Member.parseFinalized : Member → Except PyErr PowerloomSnapshotFinalizedMessage
  | .finalized message => .ok message
  | .updateLog _ => .error (.validation
      (["epochId", "projectId", "snapshotCid", "broadcastId"].map (⟨·, "field required"⟩)))

section Handlers
variable (cfg : Config) (now : Int)

/-- `_send_message_for_processing`: enqueue the unit, then log the publish under the unit's
broadcast id, scored by `int(time.time())`. -/
def sendMessageForProcessing (unit : Body) (type_ routingKey : String) (self : Distributor) :
    Except PyErr Distributor :=
  let self := self.enqueueMsgDelivery cfg.settings.callbacksExchangeName routingKey unit
  match unit.broadcastId with
  | none => .error (.attribute "broadcastId")
  | some broadcastId =>
    let updateLog : UpdateLog :=
      { worker := cfg.name
        routingKey := "powerloom-backend-callback:" ++ cfg.settings.namespace ++ ":" ++
          cfg.settings.instanceId ++ "." ++ type_
        exchange := cfg.settings.callbacksExchangeName
        msg := unit }
    .ok (self.zadd (cbBroadcastProcessingLogsZset cfg.settings.namespace broadcastId)
      (.updateLog updateLog) now)

/-- `_warm_up_cache_for_epoch_data` on the broadcast's block range. What it raises is logged
and swallowed, and what it wrote stays written. -/
def warmUpCacheForEpochData (warmUp : WarmUp) (msgObj : EpochBroadcast) (self : Distributor) :
    Distributor :=
  match warmUp msgObj.begin msgObj.end self.store with
  | (store, .ok ()) => { self with store }
  | (store, .error _) => { self with store }

/-- The `(type_, process_unit)` pairs of the two nested loops over `projects_config`. -/
def processUnits (msgObj : EpochBroadcast) (projectsConfig : List ProjectConfig) :
    List (String × PowerloomSnapshotProcessMessage) :=
  projectsConfig.flatMap fun config => config.projects.map fun project =>
    (config.projectType, ⟨msgObj.begin, msgObj.end, msgObj.epochId, project.toLower, msgObj.broadcastId⟩)

/-- The loops of `_distribute_callbacks_snapshotting`, one send per process unit. -/
def fanOut : List (String × PowerloomSnapshotProcessMessage) → Distributor → Except PyErr Distributor
  | [], self => .ok self
  | (type_, unit) :: rest, self => do
    let self ← sendMessageForProcessing cfg now (.snapshotProcess unit) type_
      (cfg.settings.callbackKey "EpochReleased" type_) self
    fanOut rest self

/-- `_distribute_callbacks_snapshotting`: a body that does not parse is logged and dropped
without acknowledgement. -/
def distributeCallbacksSnapshotting (warmUp : WarmUp) (method : Method) (body : JsonObject)
    (self : Distributor) : Except PyErr Distributor :=
  match EpochBroadcast.parseRaw body with
  | .error _ => .ok self
  | .ok msgObj => do
    let self := warmUpCacheForEpochData warmUp msgObj self
    let self ← fanOut cfg now (processUnits msgObj cfg.projectsConfig) self
    return self.basicAck method.deliveryTag

/-- `_build_and_forward_to_payload_commit_queue`; its `parse_raw` is not guarded. -/
def buildAndForwardToPayloadCommitQueue (method : Method) (body : JsonObject) (self : Distributor) :
    Except PyErr Distributor :=
  if routingKeySuffix method.routingKey = "SnapshotFinalized" then
    match PowerloomSnapshotFinalizedMessage.parseRaw body with
    | .error errors => .error (.validation errors)
    | .ok msgObj => .ok (self.enqueueMsgDelivery cfg.settings.commitPayloadExchangeName
        cfg.settings.commitPayloadKey (.payloadCommit ⟨msgObj, true, cfg.settings.chainId⟩))
  else .ok self

/-- The body of the loop over `aggregator_config` in `_distribute_callbacks_aggregate`. -/
def aggregateFor (processUnit : PowerloomSnapshotFinalizedMessage) (config : AggregatorConfig)
    (self : Distributor) : Except PyErr Distributor :=
  let type_ := config.projectType
  match config.aggregateOn with
  | .singleProject filtersProjectId =>
    if isSubstring filtersProjectId processUnit.projectId then
      sendMessageForProcessing cfg now (.snapshotFinalized processUnit) type_
        (cfg.settings.callbackKey "CalculateAggregate" type_) self
    else .ok self
  | .multiProject projectsToWaitFor =>
    if processUnit.projectId ∉ projectsToWaitFor then .ok self else
    let key := aggregatorEvents config.projectType
    let self := self.zadd key (.finalized processUnit) processUnit.epochId
    let events := self.zrangebyscore key processUnit.epochId processUnit.epochId
    if events = [] then .ok self else do
    let finalizedMessages ← events.mapM Member.parseFinalized
    if (finalizedMessages.map (·.projectId)).toFinset = projectsToWaitFor.toFinset then
      let (broadcastId, self) := self.uuid4
      let self ← sendMessageForProcessing cfg now
        (.calculateAggregate ⟨finalizedMessages, now, broadcastId⟩) type_
        (cfg.settings.callbackKey "CalculateAggregate" type_) self
      return self.zremrangebyscore key processUnit.epochId processUnit.epochId
    else .ok self

/-- The loop over `aggregator_config`. -/
def aggregateAll (processUnit : PowerloomSnapshotFinalizedMessage) :
    List AggregatorConfig → Distributor → Except PyErr Distributor
  | [], self => .ok self
  | config :: rest, self => do
    let self ← aggregateFor cfg now processUnit config self
    aggregateAll processUnit rest self

/-- `_distribute_callbacks_aggregate`. -/
def distributeCallbacksAggregate (method : Method) (body : JsonObject) (self : Distributor) :
    Except PyErr Distributor :=
  if routingKeySuffix method.routingKey ≠ "SnapshotFinalized" then .ok self else
  match PowerloomSnapshotFinalizedMessage.parseRaw body with
  | .error _ => .ok self
  | .ok processUnit => do
    let self ← aggregateAll cfg now processUnit cfg.aggregatorConfig self
    return self.basicAck method.deliveryTag

/-- `_distribute_callbacks`: the payload-commit guard is its own `if`, so a
`SnapshotFinalized` delivery goes through both it and the aggregation branch. -/
def distributeCallbacks (warmUp : WarmUp) (method : Method) (body : JsonObject)
    (self : Distributor) : Except PyErr Distributor := do
  let finalized := cfg.settings.eventDetectorKey "SnapshotFinalized"
  let self ← if method.routingKey = finalized then
      buildAndForwardToPayloadCommitQueue cfg method body self
    else pure self
  if method.routingKey = cfg.settings.eventDetectorKey "EpochReleased" then
    distributeCallbacksSnapshotting cfg now warmUp method body self
  else if method.routingKey = finalized then
    distributeCallbacksAggregate cfg now method body self
  else pure self

end Handlers

/-! ## Routing keys -/

theorem routingKeySuffix_eventDetectorKey (settings : Settings) (event : String)
    (hevent : '.' ∉ event.data) : routingKeySuffix (settings.eventDetectorKey event) = event := by
  have hpos : ∀ c ∈ event.data.reverse, decide (c ≠ '.') = true := fun c hc => by
    simpa using fun h : c = '.' => hevent (List.mem_reverse.mp (h ▸ hc))
  simp only [routingKeySuffix, Settings.eventDetectorKey, String.data_append, List.reverse_append,
    List.append_assoc]
  rw [List.takeWhile_append_of_pos hpos]
  simp

theorem Settings.callbackKey_injective (settings : Settings) (kind : String) :
    Function.Injective (settings.callbackKey kind) := fun t₁ t₂ h => by
  have := congrArg String.data h
  simp only [Settings.callbackKey, String.data_append, List.append_assoc, List.append_cancel_left_eq] at this
  exact String.ext this

theorem eventDetectorKey_ne (settings : Settings) :
    settings.eventDetectorKey "EpochReleased" ≠ settings.eventDetectorKey "SnapshotFinalized" := by
  intro h
  have := congrArg String.data h
  simp [Settings.eventDetectorKey, String.data_append] at this

/-! ## Well-formed stores and write frames -/

/-- Every member under an aggregator key is a serialised finalized message, as every
handler writes them. -/
def AggregatorKeysWF (store : Store) : Prop :=
  ∀ projectType, ∀ e ∈ (store (aggregatorEvents projectType)).entries, ∃ m, e.1 = .finalized m

/-- The processing-log keys of namespace `ns`. -/
def logKeys (ns key : String) : Prop :=
  ∃ broadcastId, key = cbBroadcastProcessingLogsZset ns broadcastId

/-- `next`'s store differs from `self`'s only at keys in `keys`. -/
def Distributor.WritesWithin (keys : String → Prop) (self next : Distributor) : Prop :=
  ∀ key, ¬ keys key → next.store key = self.store key

/-- The warm-up writes only keys in `keys`, on every block range and store. -/
def WarmUp.WritesWithin (keys : String → Prop) (warmUp : WarmUp) : Prop :=
  ∀ first last store key, ¬ keys key → (warmUp first last store).1 key = store key

namespace Distributor
variable {self mid next : Distributor}

@[simp] theorem enqueueMsgDelivery_store (exchange routingKey : String) (body : Body) :
    (self.enqueueMsgDelivery exchange routingKey body).store = self.store := rfl

@[simp] theorem enqueueMsgDelivery_channel (exchange routingKey : String) (body : Body) :
    (self.enqueueMsgDelivery exchange routingKey body).channel =
      self.channel ++ [.enqueue exchange routingKey body] := rfl

@[simp] theorem basicAck_store (deliveryTag : Nat) : (self.basicAck deliveryTag).store = self.store := rfl

@[simp] theorem basicAck_channel (deliveryTag : Nat) :
    (self.basicAck deliveryTag).channel = self.channel ++ [.ack deliveryTag] := rfl

@[simp] theorem zadd_channel (key : String) (member : Member) (score : Int) :
    (self.zadd key member score).channel = self.channel := rfl

@[simp] theorem zremrangebyscore_channel (key : String) (min max : Int) :
    (self.zremrangebyscore key min max).channel = self.channel := rfl

theorem writesWithin_zadd (key : String) (member : Member) (score : Int) :
    WritesWithin (· = key) self (self.zadd key member score) :=
  fun _ hk => by simp [zadd, Function.update_noteq hk]

namespace WritesWithin
variable {keys keys' : String → Prop}

theorem refl : WritesWithin keys self self := fun _ _ => rfl

theorem trans (h₁ : WritesWithin keys self mid) (h₂ : WritesWithin keys mid next) :
    WritesWithin keys self next :=
  fun key hkey => (h₂ key hkey).trans (h₁ key hkey)

theorem mono (h : WritesWithin keys self next) (hk : ∀ key, keys key → keys' key) :
    WritesWithin keys' self next :=
  fun key hkey => h key (hkey ∘ hk key)

theorem aggregatorEvents_eq {ns : String} (h : WritesWithin (logKeys ns) self next) (projectType : String) :
    next.store (aggregatorEvents projectType) = self.store (aggregatorEvents projectType) :=
  h _ fun ⟨b, hb⟩ => cbBroadcastProcessingLogsZset_ne_aggregatorEvents ns b projectType hb.symm

theorem aggregatorKeysWF {ns : String} (h : WritesWithin (logKeys ns) self next)
    (wf : AggregatorKeysWF self.store) : AggregatorKeysWF next.store :=
  fun t => h.aggregatorEvents_eq t ▸ wf t

end WritesWithin

end Distributor

open Distributor (WritesWithin)

section
variable {self : Distributor}

theorem AggregatorKeysWF.zadd_finalized (wf : AggregatorKeysWF self.store) (key : String)
    (message : PowerloomSnapshotFinalizedMessage) (score : Int) :
    AggregatorKeysWF (self.zadd key (.finalized message) score).store := fun t e he => by
  by_cases hkey : aggregatorEvents t = key
  · subst hkey
    simp only [Distributor.zadd, Function.update_same] at he
    rcases ZSet.mem_zadd.mp he with ⟨h, -⟩ | ⟨-, he⟩
    exacts [⟨_, h⟩, wf t e he]
  · simp only [Distributor.zadd, Function.update_noteq hkey] at he
    exact wf t e he

theorem AggregatorKeysWF.zremrangebyscore (wf : AggregatorKeysWF self.store) (key : String)
    (min max : Int) : AggregatorKeysWF (self.zremrangebyscore key min max).store := fun t e he => by
  by_cases hkey : aggregatorEvents t = key
  · subst hkey
    simp only [Distributor.zremrangebyscore, Function.update_same] at he
    exact wf t e (ZSet.mem_zremrangebyscore.mp he).1
  · simp only [Distributor.zremrangebyscore, Function.update_noteq hkey] at he
    exact wf t e he

theorem AggregatorKeysWF.empty : AggregatorKeysWF Store.empty := fun _ _ he => by
  simp [Store.empty, ZSet.empty] at he

end

/-- The finalized message a stored member is, if it is one. -/
def Member.finalizedMessage : Member → Option PowerloomSnapshotFinalizedMessage
  | .finalized message => some message
  | .updateLog _ => none

@[simp] theorem Member.finalizedMessage_eq_some {member : Member} {message : PowerloomSnapshotFinalizedMessage} :
    member.finalizedMessage = some message ↔ member = .finalized message := by
  cases member <;> simp [finalizedMessage, eq_comm]

theorem mapM_parseFinalized :
    ∀ (events : List Member), (∀ m ∈ events, ∃ x, m = .finalized x) →
      events.mapM Member.parseFinalized = .ok (events.filterMap Member.finalizedMessage)
  | [], _ => rfl
  | m :: rest, h => by
    obtain ⟨x, rfl⟩ := h m (.head _)
    simp only [List.mapM_cons, List.filterMap_cons,
      mapM_parseFinalized rest fun m hm => h m (.tail _ hm)]
    rfl

theorem finalized_of_mapM_parseFinalized :
    ∀ {events : List Member} {messages : List PowerloomSnapshotFinalizedMessage},
      events.mapM Member.parseFinalized = .ok messages → ∀ m ∈ events, ∃ x, m = .finalized x
  | [], _, _, _, hm => absurd hm (List.not_mem_nil _)
  | .updateLog _ :: _, _, h, _, _ => by cases h
  | .finalized x :: rest, _, h, m, hm => by
    cases hrest : rest.mapM Member.parseFinalized with
    | error =>
      rw [List.mapM_cons, hrest] at h
      cases h
    | ok xs =>
      rcases List.mem_cons.mp hm with rfl | hm
      exacts [⟨x, rfl⟩, finalized_of_mapM_parseFinalized hrest m hm]

/-! ## What each handler enqueues and writes -/

/-- An enqueue of anything but a payload-commit envelope. -/
def Event.enqueuesNoCommit : Event → Prop
  | .enqueue _ _ (.payloadCommit _) => False
  | .enqueue _ _ _ => True
  | .ack _ => False

/-- The project type of a multi-project aggregator, whose correlation set it keeps. -/
def AggregatorConfig.multiProjectType (config : AggregatorConfig) : Option String :=
  match config.aggregateOn with
  | .singleProject _ => none
  | .multiProject _ => some config.projectType

/-- An enqueue an aggregator config's turn makes: on the config's `CalculateAggregate` key,
the finalized message itself for a single-project config, an aggregate for a multi-project
one. -/
def AggregatorConfig.Emits (settings : Settings) (config : AggregatorConfig) : Event → Prop
  | .enqueue exchange routingKey body =>
    exchange = settings.callbacksExchangeName ∧
      routingKey = settings.callbackKey "CalculateAggregate" config.projectType ∧
      match config.aggregateOn, body with
      | .singleProject _, .snapshotFinalized _ => True
      | .multiProject _, .calculateAggregate _ => True
      | _, _ => False
  | .ack _ => False

theorem AggregatorConfig.Emits.enqueuesNoCommit {settings : Settings} {config : AggregatorConfig}
    {event : Event} (h : config.Emits settings event) : event.enqueuesNoCommit := by
  cases event with
  | enqueue exchange routingKey body =>
    obtain ⟨-, -, h⟩ := h
    obtain ⟨_, aggregateOn⟩ := config
    cases body <;> simp only [Event.enqueuesNoCommit]
    cases aggregateOn <;> exact h
  | ack => exact h

/-- The keys a deployment's distributor writes: its own processing logs and the
correlation sets of its multi-project aggregators. -/
def Config.writes (cfg : Config) (key : String) : Prop :=
  logKeys cfg.settings.namespace key ∨
    ∃ config ∈ cfg.aggregatorConfig, config.multiProjectType.map aggregatorEvents = some key

section Spec
variable (cfg : Config) (now : Int)

/-- `_send_message_for_processing` enqueues its unit and writes only the unit's
processing-log key. -/
theorem sendMessageForProcessing_spec (unit : Body) {broadcastId : String}
    (hunit : unit.broadcastId = some broadcastId) (type_ routingKey : String) (self : Distributor) :
    ∃ next, sendMessageForProcessing cfg now unit type_ routingKey self = .ok next ∧
      next.channel = self.channel ++ [.enqueue cfg.settings.callbacksExchangeName routingKey unit] ∧
      WritesWithin (logKeys cfg.settings.namespace) self next := by
  simp only [sendMessageForProcessing, hunit]
  refine ⟨_, rfl, rfl, fun key hkey => ?_⟩
  simp [Distributor.zadd, Function.update_noteq fun h => hkey ⟨broadcastId, h⟩]

theorem warmUpCacheForEpochData_eq (warmUp : WarmUp) (msgObj : EpochBroadcast) (self : Distributor) :
    warmUpCacheForEpochData warmUp msgObj self =
      { self with store := (warmUp msgObj.begin msgObj.end self.store).1 } := by
  unfold warmUpCacheForEpochData
  split <;> simp_all

theorem WarmUp.WritesWithin.warmUpCacheForEpochData {keys : String → Prop} {warmUp : WarmUp}
    (hwarm : warmUp.WritesWithin keys) (msgObj : EpochBroadcast) (self : Distributor) :
    Distributor.WritesWithin keys self (Pooler.warmUpCacheForEpochData warmUp msgObj self) := fun key hkey => by
  rw [warmUpCacheForEpochData_eq]
  exact hwarm _ _ _ key hkey

/-- The enqueues the fan-out of a broadcast owes: one per configured project, in
configuration order, carrying the broadcast's fields and the lowercased address. -/
def fanOutEvents (msgObj : EpochBroadcast) : List Event :=
  cfg.projectsConfig.flatMap fun config => config.projects.map fun project =>
    .enqueue cfg.settings.callbacksExchangeName (cfg.settings.callbackKey "EpochReleased" config.projectType)
      (.snapshotProcess ⟨msgObj.begin, msgObj.end, msgObj.epochId, project.toLower, msgObj.broadcastId⟩)

theorem fanOut_spec :
    ∀ (units : List (String × PowerloomSnapshotProcessMessage)) (self : Distributor),
      ∃ next, fanOut cfg now units self = .ok next ∧
        next.channel = self.channel ++ units.map (fun u =>
          .enqueue cfg.settings.callbacksExchangeName (cfg.settings.callbackKey "EpochReleased" u.1)
            (.snapshotProcess u.2)) ∧
        WritesWithin (logKeys cfg.settings.namespace) self next
  | [], self => ⟨self, rfl, by simp, .refl⟩
  | (type_, unit) :: rest, self => by
    obtain ⟨mid, hmid, hch, hw⟩ := sendMessageForProcessing_spec cfg now (.snapshotProcess unit) rfl type_
      (cfg.settings.callbackKey "EpochReleased" type_) self
    obtain ⟨next, hnext, hch', hw'⟩ := fanOut_spec rest mid
    exact ⟨next, by simp only [fanOut, hmid]; exact hnext, by simp [hch', hch], hw.trans hw'⟩

/-- Whenever one aggregator config's turn returns, it wrote only processing logs and the
config's own correlation set, whatever the store held. -/
theorem aggregateFor_writes (processUnit : PowerloomSnapshotFinalizedMessage) (config : AggregatorConfig)
    {self next : Distributor} (h : aggregateFor cfg now processUnit config self = .ok next) :
    WritesWithin (fun key => logKeys cfg.settings.namespace key ∨
      config.multiProjectType.map aggregatorEvents = some key) self next := by
  obtain ⟨type_, aggregateOn⟩ := config
  cases aggregateOn with
  | singleProject filtersProjectId =>
    simp only [aggregateFor] at h
    split_ifs at h
    · obtain ⟨next', h', -, hw⟩ := sendMessageForProcessing_spec cfg now (.snapshotFinalized processUnit) rfl
        type_ (cfg.settings.callbackKey "CalculateAggregate" type_) self
      cases h.symm.trans h'
      exact hw.mono fun _ => .inl
    · cases h
      exact .refl
  | multiProject projectsToWaitFor =>
    have hkeys : ∀ key, key = aggregatorEvents type_ → logKeys cfg.settings.namespace key ∨
        (AggregatorConfig.multiProjectType ⟨type_, .multiProject projectsToWaitFor⟩).map aggregatorEvents =
          some key := fun _ h => .inr (h ▸ rfl)
    have hw := (@Distributor.writesWithin_zadd self (aggregatorEvents type_) (.finalized processUnit)
      processUnit.epochId).mono hkeys
    simp only [aggregateFor] at h
    by_cases hwait : processUnit.projectId ∈ projectsToWaitFor
    swap
    · rw [if_pos hwait] at h
      cases h
      exact .refl
    rw [if_neg (not_not.mpr hwait)] at h
    split_ifs at h
    · cases h
      exact hw
    dsimp only [bind, Except.bind, Distributor.uuid4] at h
    split at h
    · cases h
    split_ifs at h
    · simp only [sendMessageForProcessing, Body.broadcastId, pure, Except.pure, Except.ok.injEq] at h
      subst h
      intro key hkey
      have hkey' : key ≠ aggregatorEvents type_ := fun h => hkey (hkeys key h)
      have hlog : ∀ b, key ≠ cbBroadcastProcessingLogsZset cfg.settings.namespace b :=
        fun b h => hkey (.inl ⟨b, h⟩)
      simp only [Distributor.zremrangebyscore, Distributor.zadd, Distributor.enqueueMsgDelivery_store,
        Distributor.enqueueMsgDelivery_channel, Function.update_noteq hkey', Function.update_noteq (hlog _)]
    · cases h
      exact hw

theorem aggregateAll_writes (processUnit : PowerloomSnapshotFinalizedMessage) :
    ∀ (configs : List AggregatorConfig) {self next : Distributor},
      aggregateAll cfg now processUnit configs self = .ok next →
      WritesWithin (fun key => logKeys cfg.settings.namespace key ∨
        ∃ config ∈ configs, config.multiProjectType.map aggregatorEvents = some key) self next
  | [], _, _, h => by cases h; exact .refl
  | config :: rest, self, next, h => by
    simp only [aggregateAll, bind, Except.bind] at h
    split at h
    · cases h
    rename_i mid hmid
    refine ((aggregateFor_writes cfg now processUnit config hmid).mono ?_).trans
      ((aggregateAll_writes processUnit rest h).mono ?_)
    · rintro key (hlog | hkey)
      exacts [.inl hlog, .inr ⟨config, .head _, hkey⟩]
    · rintro key (hlog | ⟨c, hc, hkey⟩)
      exacts [.inl hlog, .inr ⟨c, .tail _ hc, hkey⟩]

/-- On a well-formed store one aggregator config's turn raises nothing, makes only the
enqueues of that config, and keeps the store well formed. -/
theorem aggregateFor_spec (processUnit : PowerloomSnapshotFinalizedMessage)
    (config : AggregatorConfig) (self : Distributor) (wf : AggregatorKeysWF self.store) :
    ∃ next evs, aggregateFor cfg now processUnit config self = .ok next ∧
      next.channel = self.channel ++ evs ∧ (∀ e ∈ evs, config.Emits cfg.settings e) ∧
      AggregatorKeysWF next.store := by
  obtain ⟨type_, aggregateOn⟩ := config
  cases aggregateOn with
  | singleProject filtersProjectId =>
    simp only [aggregateFor]
    split_ifs
    · obtain ⟨next, h, hch, hw⟩ := sendMessageForProcessing_spec cfg now (.snapshotFinalized processUnit) rfl
        type_ (cfg.settings.callbackKey "CalculateAggregate" type_) self
      exact ⟨next, _, h, hch, by simp [AggregatorConfig.Emits], hw.aggregatorKeysWF wf⟩
    · exact ⟨self, [], rfl, by simp, by simp, wf⟩
  | multiProject projectsToWaitFor =>
    simp only [aggregateFor]
    by_cases hwait : processUnit.projectId ∈ projectsToWaitFor
    swap
    · rw [if_pos hwait]; exact ⟨self, [], rfl, by simp, by simp, wf⟩
    rw [if_neg (not_not.mpr hwait)]
    have wf' := wf.zadd_finalized (aggregatorEvents type_) processUnit processUnit.epochId
    split_ifs with hevents
    · exact ⟨_, [], rfl, by simp, by simp, wf'⟩
    rw [mapM_parseFinalized _ fun m hm => by
      obtain ⟨score, he, -⟩ := ZSet.mem_zrangebyscore.mp hm
      obtain ⟨x, hx⟩ := wf' type_ _ he
      exact ⟨x, hx⟩]
    simp only [bind, Except.bind, Distributor.uuid4]
    split_ifs
    · simp only [sendMessageForProcessing, Body.broadcastId]
      exact ⟨_, _, rfl, rfl, by simp [AggregatorConfig.Emits],
        (((Distributor.writesWithin_zadd _ _ _).mono fun _ h => ⟨_, h⟩).aggregatorKeysWF wf').zremrangebyscore
          _ _ _⟩
    · exact ⟨_, [], rfl, by simp, by simp, wf'⟩

theorem aggregateAll_spec (processUnit : PowerloomSnapshotFinalizedMessage) :
    ∀ (configs : List AggregatorConfig) (self : Distributor), AggregatorKeysWF self.store →
      ∃ next evs, aggregateAll cfg now processUnit configs self = .ok next ∧
        next.channel = self.channel ++ evs ∧ (∀ e ∈ evs, ∃ config ∈ configs, config.Emits cfg.settings e) ∧
        AggregatorKeysWF next.store
  | [], self, wf => ⟨self, [], rfl, by simp, by simp, wf⟩
  | config :: rest, self, wf => by
    obtain ⟨mid, evs, hmid, hch, hevs, wf'⟩ := aggregateFor_spec cfg now processUnit config self wf
    obtain ⟨next, evs', hnext, hch', hevs', wf''⟩ := aggregateAll_spec processUnit rest mid wf'
    refine ⟨next, evs ++ evs', by simp only [aggregateAll, hmid]; exact hnext, by simp [hch', hch],
      fun e he => ?_, wf''⟩
    rcases List.mem_append.mp he with he | he
    · exact ⟨config, .head _, hevs e he⟩
    · obtain ⟨c, hc, hemits⟩ := hevs' e he
      exact ⟨c, .tail _ hc, hemits⟩

/-! ## The handlers of one delivery -/

theorem distributeCallbacksSnapshotting_spec (warmUp : WarmUp) (method : Method)
    {body : JsonObject} {msgObj : EpochBroadcast} (hparse : EpochBroadcast.parseRaw body = .ok msgObj)
    (self : Distributor) :
    ∃ next, distributeCallbacksSnapshotting cfg now warmUp method body self = .ok next ∧
      next.channel = self.channel ++ fanOutEvents cfg msgObj ++ [.ack method.deliveryTag] ∧
      WritesWithin (logKeys cfg.settings.namespace) (warmUpCacheForEpochData warmUp msgObj self) next := by
  obtain ⟨next, h, hch, hw⟩ := fanOut_spec cfg now (processUnits msgObj cfg.projectsConfig)
    (warmUpCacheForEpochData warmUp msgObj self)
  refine ⟨next.basicAck method.deliveryTag, ?_, ?_, hw⟩
  · simp only [distributeCallbacksSnapshotting, hparse, h]; rfl
  · simp [hch, warmUpCacheForEpochData_eq, fanOutEvents, processUnits, List.map_flatMap, Function.comp_def]

theorem distributeCallbacksSnapshotting_of_error (warmUp : WarmUp) (method : Method)
    {body : JsonObject} {errors : List ValidationError} (hparse : EpochBroadcast.parseRaw body = .error errors)
    (self : Distributor) : distributeCallbacksSnapshotting cfg now warmUp method body self = .ok self := by
  simp only [distributeCallbacksSnapshotting, hparse]

theorem mem_fanOutEvents {msgObj : EpochBroadcast} {event : Event} :
    event ∈ fanOutEvents cfg msgObj ↔ ∃ config ∈ cfg.projectsConfig, ∃ project ∈ config.projects,
      event = .enqueue cfg.settings.callbacksExchangeName (cfg.settings.callbackKey "EpochReleased" config.projectType)
        (.snapshotProcess ⟨msgObj.begin, msgObj.end, msgObj.epochId, project.toLower, msgObj.broadcastId⟩) := by
  simp [fanOutEvents, eq_comm]

theorem buildAndForwardToPayloadCommitQueue_spec {method : Method}
    (hkey : routingKeySuffix method.routingKey = "SnapshotFinalized") {body : JsonObject}
    {msgObj : PowerloomSnapshotFinalizedMessage}
    (hparse : PowerloomSnapshotFinalizedMessage.parseRaw body = .ok msgObj) (self : Distributor) :
    buildAndForwardToPayloadCommitQueue cfg method body self =
      .ok (self.enqueueMsgDelivery cfg.settings.commitPayloadExchangeName cfg.settings.commitPayloadKey
        (.payloadCommit ⟨msgObj, true, cfg.settings.chainId⟩)) := by
  simp only [buildAndForwardToPayloadCommitQueue, hkey, hparse, if_true]

theorem distributeCallbacksAggregate_spec {method : Method}
    (hkey : routingKeySuffix method.routingKey = "SnapshotFinalized") {body : JsonObject}
    {processUnit : PowerloomSnapshotFinalizedMessage}
    (hparse : PowerloomSnapshotFinalizedMessage.parseRaw body = .ok processUnit) (self : Distributor)
    (wf : AggregatorKeysWF self.store) :
    ∃ next evs, distributeCallbacksAggregate cfg now method body self = .ok next ∧
      next.channel = self.channel ++ evs ++ [.ack method.deliveryTag] ∧
      (∀ e ∈ evs, ∃ config ∈ cfg.aggregatorConfig, config.Emits cfg.settings e) ∧
      AggregatorKeysWF next.store := by
  obtain ⟨next, evs, h, hch, hevs, wf'⟩ := aggregateAll_spec cfg now processUnit cfg.aggregatorConfig self wf
  refine ⟨next.basicAck method.deliveryTag, evs, ?_, by simp [hch], hevs, wf'⟩
  simp only [distributeCallbacksAggregate, hkey, hparse, h, ne_eq, not_true_eq_false, if_false]; rfl

theorem distributeCallbacksAggregate_writes {method : Method} {body : JsonObject} {self next : Distributor}
    (h : distributeCallbacksAggregate cfg now method body self = .ok next) : WritesWithin cfg.writes self next := by
  simp only [distributeCallbacksAggregate] at h
  split_ifs at h
  · cases h
    exact .refl
  split at h
  · cases h
    exact .refl
  simp only [bind, Except.bind] at h
  split at h
  · cases h
  rename_i hall
  cases h
  exact fun key hkey => aggregateAll_writes cfg now _ _ hall key hkey

/-! ## One delivery -/

theorem distributeCallbacks_of_epochReleased (warmUp : WarmUp) {method : Method}
    (hkey : method.routingKey = cfg.settings.eventDetectorKey "EpochReleased") (body : JsonObject)
    (self : Distributor) :
    distributeCallbacks cfg now warmUp method body self =
      distributeCallbacksSnapshotting cfg now warmUp method body self := by
  simp [distributeCallbacks, hkey, eventDetectorKey_ne]

theorem distributeCallbacks_of_snapshotFinalized (warmUp : WarmUp) {method : Method}
    (hkey : method.routingKey = cfg.settings.eventDetectorKey "SnapshotFinalized") (body : JsonObject)
    (self : Distributor) :
    distributeCallbacks cfg now warmUp method body self =
      buildAndForwardToPayloadCommitQueue cfg method body self >>=
        distributeCallbacksAggregate cfg now method body := by
  simp [distributeCallbacks, hkey, (eventDetectorKey_ne cfg.settings).symm]

theorem routingKeySuffix_snapshotFinalized {method : Method}
    (hkey : method.routingKey = cfg.settings.eventDetectorKey "SnapshotFinalized") :
    routingKeySuffix method.routingKey = "SnapshotFinalized" :=
  hkey ▸ routingKeySuffix_eventDetectorKey cfg.settings "SnapshotFinalized" (by decide)

/-- One delivery: an epoch release fans out to every configured project and is then
acknowledged; a finalized snapshot is forwarded once to the payload-commit queue, goes
through aggregation and is then acknowledged; any other delivery changes nothing. -/
theorem distributeCallbacks_acks_after_enqueues (warmUp : WarmUp) (method : Method)
    (body : JsonObject) (self : Distributor) (wf : AggregatorKeysWF self.store) :
    (method.routingKey = cfg.settings.eventDetectorKey "EpochReleased" →
      (∀ msgObj, EpochBroadcast.parseRaw body = .ok msgObj →
        ∃ next, distributeCallbacks cfg now warmUp method body self = .ok next ∧
          next.channel = self.channel ++ fanOutEvents cfg msgObj ++ [.ack method.deliveryTag]) ∧
      (∀ errors, EpochBroadcast.parseRaw body = .error errors →
        distributeCallbacks cfg now warmUp method body self = .ok self)) ∧
    (method.routingKey = cfg.settings.eventDetectorKey "SnapshotFinalized" →
      (∀ msgObj, PowerloomSnapshotFinalizedMessage.parseRaw body = .ok msgObj →
        distributeCallbacks cfg now warmUp method body self =
          distributeCallbacksAggregate cfg now method body
            (self.enqueueMsgDelivery cfg.settings.commitPayloadExchangeName cfg.settings.commitPayloadKey
              (.payloadCommit ⟨msgObj, true, cfg.settings.chainId⟩)) ∧
        ∃ next evs, distributeCallbacks cfg now warmUp method body self = .ok next ∧
          next.channel = self.channel ++
            .enqueue cfg.settings.commitPayloadExchangeName cfg.settings.commitPayloadKey
              (.payloadCommit ⟨msgObj, true, cfg.settings.chainId⟩) :: evs ++ [.ack method.deliveryTag] ∧
          ∀ e ∈ evs, e.enqueuesNoCommit) ∧
      (∀ errors, PowerloomSnapshotFinalizedMessage.parseRaw body = .error errors →
        distributeCallbacks cfg now warmUp method body self = .error (.validation errors))) ∧
    (method.routingKey ≠ cfg.settings.eventDetectorKey "EpochReleased" →
      method.routingKey ≠ cfg.settings.eventDetectorKey "SnapshotFinalized" →
      distributeCallbacks cfg now warmUp method body self = .ok self) := by
  refine ⟨fun hkey => ⟨fun msgObj hparse => ?released, fun errors hparse => ?dropped⟩,
    fun hkey => ⟨fun msgObj hparse => ?finalized, fun errors hparse => ?invalid⟩,
    fun hreleased hfinalized => by simp [distributeCallbacks, hreleased, hfinalized]; rfl⟩
  case released =>
    obtain ⟨next, h, hch, -⟩ := distributeCallbacksSnapshotting_spec cfg now warmUp method hparse self
    exact ⟨next, by rw [distributeCallbacks_of_epochReleased cfg now warmUp hkey, h], hch⟩
  case dropped =>
    rw [distributeCallbacks_of_epochReleased cfg now warmUp hkey,
      distributeCallbacksSnapshotting_of_error cfg now warmUp method hparse]
  case finalized =>
    have hsuffix := routingKeySuffix_snapshotFinalized cfg hkey
    have hrun := distributeCallbacks_of_snapshotFinalized cfg now warmUp hkey body self
    rw [buildAndForwardToPayloadCommitQueue_spec cfg hsuffix hparse] at hrun
    obtain ⟨next, evs, h, hch, hevs, -⟩ := distributeCallbacksAggregate_spec cfg now hsuffix hparse
      (self.enqueueMsgDelivery cfg.settings.commitPayloadExchangeName cfg.settings.commitPayloadKey
        (.payloadCommit ⟨msgObj, true, cfg.settings.chainId⟩)) wf
    exact ⟨hrun, next, evs, hrun.trans h, by simpa using hch, fun e he =>
      (hevs e he).elim fun _ h => h.2.enqueuesNoCommit⟩
  case invalid =>
    rw [distributeCallbacks_of_snapshotFinalized cfg now warmUp hkey]
    simp only [buildAndForwardToPayloadCommitQueue, routingKeySuffix_snapshotFinalized cfg hkey, hparse,
      if_true]
    rfl

/-- Whenever a delivery returns, it wrote only its deployment's keys and the keys its cache
warm-up writes, whatever the store held. -/
theorem distributeCallbacks_writes {warmUp : WarmUp} {warmUpKeys : String → Prop}
    (hwarm : warmUp.WritesWithin warmUpKeys) (method : Method) (body : JsonObject) {self next : Distributor}
    (h : distributeCallbacks cfg now warmUp method body self = .ok next) :
    WritesWithin (fun key => cfg.writes key ∨ warmUpKeys key) self next := by
  by_cases hreleased : method.routingKey = cfg.settings.eventDetectorKey "EpochReleased"
  · rw [distributeCallbacks_of_epochReleased cfg now warmUp hreleased] at h
    cases hparse : EpochBroadcast.parseRaw body with
    | error =>
      cases (distributeCallbacksSnapshotting_of_error cfg now warmUp method hparse self).symm.trans h
      exact .refl
    | ok msgObj =>
      obtain ⟨next', h', -, hw⟩ := distributeCallbacksSnapshotting_spec cfg now warmUp method hparse self
      cases h.symm.trans h'
      exact ((hwarm.warmUpCacheForEpochData msgObj self).mono fun _ => .inr).trans
        (hw.mono fun _ h => .inl (.inl h))
  by_cases hfinalized : method.routingKey = cfg.settings.eventDetectorKey "SnapshotFinalized"
  · rw [distributeCallbacks_of_snapshotFinalized cfg now warmUp hfinalized] at h
    have hsuffix := routingKeySuffix_snapshotFinalized cfg hfinalized
    cases hparse : PowerloomSnapshotFinalizedMessage.parseRaw body with
    | error => simp [buildAndForwardToPayloadCommitQueue, hsuffix, hparse] at h; cases h
    | ok msgObj =>
      rw [buildAndForwardToPayloadCommitQueue_spec cfg hsuffix hparse] at h
      exact (distributeCallbacksAggregate_writes cfg now h).mono fun _ => .inl
  · simp only [distributeCallbacks, hreleased, hfinalized, if_false] at h
    cases h
    exact .refl

end Spec

/-- An epoch release for a deployment with one project, on the empty store. -/
theorem distributeCallbacks_fans_out_on_empty_store :
    AggregatorKeysWF Store.empty ∧
    ∃ next, distributeCallbacks ⟨⟨"ns", "0", 1, "callbacks", "commit"⟩, "distributor",
        [⟨"pairTotalReserves", ["0xab"]⟩], []⟩ 0 (fun _ _ store => (store, .ok ()))
        ⟨Settings.eventDetectorKey ⟨"ns", "0", 1, "callbacks", "commit"⟩ "EpochReleased", 7⟩
        [("begin", .int 1), ("end", .int 10), ("epochId", .int 3), ("broadcastId", .str "b")]
        ⟨Store.empty, [], 0⟩ = .ok next ∧
      next.channel = [] ++ fanOutEvents ⟨⟨"ns", "0", 1, "callbacks", "commit"⟩, "distributor",
        [⟨"pairTotalReserves", ["0xab"]⟩], []⟩ ⟨1, 10, 3, "b"⟩ ++ [.ack 7] :=
  ⟨AggregatorKeysWF.empty, ((distributeCallbacks_acks_after_enqueues _ 0 (fun _ _ store => (store, .ok ())) _ _
    ⟨Store.empty, [], 0⟩ AggregatorKeysWF.empty).1 rfl).1 _ rfl⟩

end Pooler
