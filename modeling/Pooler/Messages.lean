import Mathlib.Data.List.Basic

/-! Message schemas exchanged over the broker.

A body on the broker is one flat JSON object. `SystemEpochStatusReport` is the
epoch detector's schema (`message_models.py`); the `pooler` schemas that the
processor distributor reads are not part of the sources and are modelled from
the fields the distributor uses and from the spec.
-/

set_option autoImplicit false

namespace Pooler

/-- A JSON scalar; every schema below is a flat object of scalars. -/
inductive JsonValue where
  | null
  | bool (b : Bool)
  | int (n : Int)
  | str (s : String)
  deriving DecidableEq, Repr

/-- A JSON object as its key/value pairs in serialisation order. -/
abbrev JsonObject := List (String × JsonValue)

/-- One entry of a pydantic `ValidationError`: the field path and its message. -/
structure ValidationError where
  loc : String
  msg : String
  deriving DecidableEq, Repr

namespace JsonObject

def intField (body : JsonObject) (key : String) : Except ValidationError Int :=
  match body.lookup key with
  | some (.int n) => .ok n
  | some _ => .error ⟨key, "value is not a valid integer"⟩
  | none => .error ⟨key, "field required"⟩

def strField (body : JsonObject) (key : String) : Except ValidationError String :=
  match body.lookup key with
  | some (.str s) => .ok s
  | some _ => .error ⟨key, "str type expected"⟩
  | none => .error ⟨key, "field required"⟩

end JsonObject

/-- The error a field validation contributes to the model's `ValidationError`. -/
def fieldError {α : Type} : Except ValidationError α → Option ValidationError
  | .error e => some e
  | .ok _ => none

/-! ## The epoch detector's report -/

/-- `SystemEpochStatusReport(EpochBase)`: `begin`, `end`, `broadcast_id`, `reorg = False`. -/
structure SystemEpochStatusReport where
  begin : Int
  «end» : Int
  broadcastId : String
  reorg : Bool := false
  deriving DecidableEq, Repr

/-- `.json()`: the fields in declaration order, under their Python names. -/
def SystemEpochStatusReport.json (report : SystemEpochStatusReport) : JsonObject :=
  [("begin", .int report.begin), ("end", .int report.end),
    ("broadcast_id", .str report.broadcastId), ("reorg", .bool report.reorg)]

/-! ## The processor distributor's schemas -/

/-- Modelled from the spec: `pooler.utils.models.message_models.EpochBroadcast` is not
in the sources; its fields are the ones `_distribute_callbacks_snapshotting` reads. -/
structure EpochBroadcast where
  begin : Int
  «end» : Int
  epochId : Int
  broadcastId : String
  deriving DecidableEq, Repr

/-- `EpochBroadcast.parse_raw`: every field is required, extra fields are ignored, and
the error lists every failing field in declaration order. -/
def EpochBroadcast.parseRaw (body : JsonObject) : Except (List ValidationError) EpochBroadcast :=
  let first := body.intField "begin"
  let last := body.intField "end"
  let epochId := body.intField "epochId"
  let broadcastId := body.strField "broadcastId"
  match first, last, epochId, broadcastId with
  | .ok b, .ok e, .ok i, .ok s => .ok ⟨b, e, i, s⟩
  | _, _, _, _ =>
    .error ([fieldError first, fieldError last, fieldError epochId, fieldError broadcastId].filterMap id)

/-- `.json()` of an `EpochBroadcast`: its fields in declaration order. -/
def EpochBroadcast.json (msgObj : EpochBroadcast) : JsonObject :=
  [("begin", .int msgObj.begin), ("end", .int msgObj.end), ("epochId", .int msgObj.epochId),
    ("broadcastId", .str msgObj.broadcastId)]

/-- The distributor's schema decodes its own encoding. -/
theorem EpochBroadcast.parseRaw_json (msgObj : EpochBroadcast) :
    EpochBroadcast.parseRaw msgObj.json = .ok msgObj := rfl

/-- A detector report has `broadcast_id` for `broadcastId` and no `epochId`. -/
theorem EpochBroadcast.parseRaw_report (report : SystemEpochStatusReport) :
    EpochBroadcast.parseRaw report.json =
      .error [⟨"epochId", "field required"⟩, ⟨"broadcastId", "field required"⟩] := rfl

/-- Modelled from the spec: one (epoch, project) unit of work sent to a snapshot worker. -/
structure PowerloomSnapshotProcessMessage where
  begin : Int
  «end» : Int
  epochId : Int
  contract : String
  broadcastId : String
  deriving DecidableEq, Repr

/-- Modelled from the spec: the report that `projectId`'s snapshot for `epochId`
completed, with its content identifier. -/
structure PowerloomSnapshotFinalizedMessage where
  epochId : Int
  projectId : String
  snapshotCid : String
  broadcastId : String
  deriving DecidableEq, Repr

def PowerloomSnapshotFinalizedMessage.parseRaw (body : JsonObject) :
    Except (List ValidationError) PowerloomSnapshotFinalizedMessage :=
  let epochId := body.intField "epochId"
  let projectId := body.strField "projectId"
  let snapshotCid := body.strField "snapshotCid"
  let broadcastId := body.strField "broadcastId"
  match epochId, projectId, snapshotCid, broadcastId with
  | .ok i, .ok p, .ok c, .ok s => .ok ⟨i, p, c, s⟩
  | _, _, _, _ =>
    .error ([fieldError epochId, fieldError projectId, fieldError snapshotCid,
      fieldError broadcastId].filterMap id)

/-- `.json()` of a finalized message: its fields in declaration order. -/
def PowerloomSnapshotFinalizedMessage.json (message : PowerloomSnapshotFinalizedMessage) : JsonObject :=
  [("epochId", .int message.epochId), ("projectId", .str message.projectId),
    ("snapshotCid", .str message.snapshotCid), ("broadcastId", .str message.broadcastId)]

theorem PowerloomSnapshotFinalizedMessage.parseRaw_json (message : PowerloomSnapshotFinalizedMessage) :
    PowerloomSnapshotFinalizedMessage.parseRaw message.json = .ok message := rfl

/-- Modelled from the spec: the envelope forwarded to the commit-payload stage. -/
structure PayloadCommitFinalizedMessage where
  message : PowerloomSnapshotFinalizedMessage
  web3Storage : Bool
  sourceChainId : Int
  deriving DecidableEq, Repr

/-- Modelled from the spec: the aggregate emitted once a join set is complete. -/
structure PowerloomCalculateAggregateMessage where
  messages : List PowerloomSnapshotFinalizedMessage
  timestamp : Int
  broadcastId : String
  deriving DecidableEq, Repr

/-- A body the distributor enqueues, kept as the message whose `.json()` it is. -/
inductive Body where
  | snapshotProcess (message : PowerloomSnapshotProcessMessage)
  | snapshotFinalized (message : PowerloomSnapshotFinalizedMessage)
  | payloadCommit (message : PayloadCommitFinalizedMessage)
  | calculateAggregate (message : PowerloomCalculateAggregateMessage)
  deriving DecidableEq, Repr

/-- The `broadcastId` attribute `_send_message_for_processing` reads; a payload-commit
envelope has none (an `AttributeError`), and it is never sent through that path. -/
def Body.broadcastId : Body → Option String
  | .snapshotProcess m => some m.broadcastId
  | .snapshotFinalized m => some m.broadcastId
  | .payloadCommit _ => none
  | .calculateAggregate m => some m.broadcastId

end Pooler
