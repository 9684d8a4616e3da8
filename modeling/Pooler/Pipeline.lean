import Pooler.Distributor
import Pooler.EpochDetector

/-! The two components and the deployments around one store.

The epoch detector publishes `SystemEpochStatusReport(**epoch).json()`; the processor
distributor reads an `EpochReleased` body with its own schema `EpochBroadcast`.
Deployments are told apart by `settings.namespace` and share the store.
-/

set_option autoImplicit false

namespace Pooler

open Distributor (WritesWithin)

/-! ## The epoch broadcast between detector and distributor -/

section Decoding
variable (cfg : Config) (now : Int) (warmUp : WarmUp) (method : Method) (self : Distributor)

/-- The distributor drops every report the detector publishes, which names its id
`broadcast_id` and has no `epochId`. A body in the distributor's own schema decodes to
itself, and each unit fanned out from it carries its range, epoch and broadcast id. -/
theorem epochReleased_decodes_own_schema_only :
    (∀ epoch : Epoch, EpochBroadcast.parseRaw epoch.report.json =
        .error [⟨"epochId", "field required"⟩, ⟨"broadcastId", "field required"⟩] ∧
      distributeCallbacksSnapshotting cfg now warmUp method epoch.report.json self = .ok self) ∧
    ∀ msgObj : EpochBroadcast, EpochBroadcast.parseRaw msgObj.json = .ok msgObj ∧
      ∃ next, distributeCallbacksSnapshotting cfg now warmUp method msgObj.json self = .ok next ∧
        next.channel = self.channel ++ fanOutEvents cfg msgObj ++ [.ack method.deliveryTag] ∧
        ∀ event ∈ fanOutEvents cfg msgObj, ∃ routingKey unit,
          event = .enqueue cfg.settings.callbacksExchangeName routingKey (.snapshotProcess unit) ∧
          unit.begin = msgObj.begin ∧ unit.end = msgObj.end ∧ unit.epochId = msgObj.epochId ∧
          unit.broadcastId = msgObj.broadcastId := by
  refine ⟨fun epoch => ⟨EpochBroadcast.parseRaw_report _, distributeCallbacksSnapshotting_of_error cfg now
    warmUp method (EpochBroadcast.parseRaw_report _) self⟩, fun msgObj => ⟨EpochBroadcast.parseRaw_json _, ?_⟩⟩
  obtain ⟨next, h, hch, -⟩ :=
    distributeCallbacksSnapshotting_spec cfg now warmUp method (EpochBroadcast.parseRaw_json msgObj) self
  refine ⟨next, h, hch, fun event hevent => ?_⟩
  obtain ⟨config, -, project, -, rfl⟩ := (mem_fanOutEvents cfg).mp hevent
  exact ⟨_, _, rfl, rfl, rfl, rfl, rfl⟩

end Decoding

/-- The epoch `{101, 200}` with broadcast id `0`, as the detector publishes it, never reaches
the fan-out. -/
theorem detector_epoch_dropped_by_distributor :
    EpochBroadcast.parseRaw (Epoch.report ⟨101, 200, 0⟩).json =
        .error [⟨"epochId", "field required"⟩, ⟨"broadcastId", "field required"⟩] ∧
      ∀ cfg now warmUp method self, distributeCallbacksSnapshotting cfg now warmUp method
        (Epoch.report ⟨101, 200, 0⟩).json self = .ok self :=
  ⟨rfl, fun _ _ _ _ _ => rfl⟩

/-! ## Deployments sharing one store -/

/-- Deliveries handled one after another by one distributor instance, each returning, each
with a cache warm-up that writes only keys of `warmUpKeys`. -/
inductive Delivered (cfg : Config) (warmUpKeys : String → Prop) : Distributor → Distributor → Prop
  | refl (self : Distributor) : Delivered cfg warmUpKeys self self
  | step {self mid next : Distributor} (now : Int) (warmUp : WarmUp) (hwarm : warmUp.WritesWithin warmUpKeys)
      (method : Method) (body : JsonObject) :
      distributeCallbacks cfg now warmUp method body self = .ok mid → Delivered cfg warmUpKeys mid next →
        Delivered cfg warmUpKeys self next

theorem Delivered.writes {cfg : Config} {warmUpKeys : String → Prop} {self next : Distributor}
    (run : Delivered cfg warmUpKeys self next) :
    WritesWithin (fun key => cfg.writes key ∨ warmUpKeys key) self next := by
  induction run with
  | refl => exact .refl
  | step now _ hwarm method body h _ ih => exact (distributeCallbacks_writes cfg now hwarm method body h).trans ih

/-- A deployment's deliveries write only its own processing logs, its aggregators' correlation
sets and what its cache warm-ups write, so the processing logs of every other namespace that
no warm-up writes stay as they were. -/
theorem delivered_keeps_other_namespace_logs {cfg : Config} {warmUpKeys : String → Prop}
    {self next : Distributor} (run : Delivered cfg warmUpKeys self next) :
    WritesWithin (fun key => cfg.writes key ∨ warmUpKeys key) self next ∧
      ∀ ns, ns ≠ cfg.settings.namespace → ':' ∉ ns.data → ':' ∉ cfg.settings.namespace.data →
        ∀ broadcastId, ¬ warmUpKeys (cbBroadcastProcessingLogsZset ns broadcastId) →
          next.store (cbBroadcastProcessingLogsZset ns broadcastId) =
            self.store (cbBroadcastProcessingLogsZset ns broadcastId) := by
  refine ⟨run.writes, fun ns hns hcolon hcolon' broadcastId hwarm => run.writes _ ?_⟩
  rintro ((⟨b, hb⟩ | ⟨config, -, hconfig⟩) | hkey)
  · exact hns (cbBroadcastProcessingLogsZset_inj hcolon hcolon' hb).1
  · obtain ⟨t, -, ht⟩ := Option.map_eq_some'.mp hconfig
    exact cbBroadcastProcessingLogsZset_ne_aggregatorEvents _ _ _ ht.symm
  · exact hwarm hkey

/-- A deployment in namespace `ns`: one project, and one aggregator of type `pairs` that
joins the projects `p` and `q`. -/
def joinDeployment (ns : String) : Config :=
  ⟨⟨ns, "0", 1, "callbacks", "commit"⟩, "distributor", [⟨"pairs", ["0xab"]⟩],
    [⟨"pairs", .multiProject ["p", "q"]⟩]⟩

/-- Deployment `b` handles an epoch release, whose warm-up writes the key `cache` and
raises, then a finalized snapshot: the processing logs of other namespaces stay empty. -/
theorem delivered_keeps_other_namespace_logs_after_release :
    ∃ next, Delivered (joinDeployment "b") (· = "cache") ⟨Store.empty, [], 0⟩ next ∧
      WritesWithin (fun key => (joinDeployment "b").writes key ∨ key = "cache") ⟨Store.empty, [], 0⟩ next ∧
      ∀ ns, ns ≠ (joinDeployment "b").settings.namespace → ':' ∉ ns.data →
        ':' ∉ (joinDeployment "b").settings.namespace.data →
        ∀ broadcastId, ¬ cbBroadcastProcessingLogsZset ns broadcastId = "cache" →
          next.store (cbBroadcastProcessingLogsZset ns broadcastId) =
            Store.empty (cbBroadcastProcessingLogsZset ns broadcastId) :=
  have run : Delivered (joinDeployment "b") (· = "cache") ⟨Store.empty, [], 0⟩ _ :=
    .step 0 (fun _ _ store =>
        (Function.update store "cache" (ZSet.empty.zadd (.finalized ⟨1, "p", "cid", "x"⟩) 1), .error (.attribute "rpc")))
      (fun _ _ _ _ hkey => Function.update_noteq hkey _ _)
      ⟨(joinDeployment "b").settings.eventDetectorKey "EpochReleased", 1⟩
      [("begin", .int 1), ("end", .int 10), ("epochId", .int 3), ("broadcastId", .str "e")] rfl <|
    .step 0 (fun _ _ store => (store, .ok ())) (fun _ _ _ _ _ => rfl)
      ⟨(joinDeployment "b").settings.eventDetectorKey "SnapshotFinalized", 2⟩
      (PowerloomSnapshotFinalizedMessage.json ⟨1, "q", "cid", "y"⟩) rfl (.refl _)
  ⟨_, run, delivered_keeps_other_namespace_logs run⟩

/-- Deployments `a` and `b` share the correlation set of `pairs`: `b` bundles the message
`a` stored. -/
theorem other_namespace_joins_shared_correlation_set :
    ∃ mid next, distributeCallbacks (joinDeployment "a") 0 (fun _ _ store => (store, .ok ()))
        ⟨(joinDeployment "a").settings.eventDetectorKey "SnapshotFinalized", 1⟩
        (PowerloomSnapshotFinalizedMessage.json ⟨1, "p", "cid", "x"⟩) ⟨Store.empty, [], 0⟩ = .ok mid ∧
      distributeCallbacks (joinDeployment "b") 0 (fun _ _ store => (store, .ok ()))
        ⟨(joinDeployment "b").settings.eventDetectorKey "SnapshotFinalized", 1⟩
        (PowerloomSnapshotFinalizedMessage.json ⟨1, "q", "cid", "y"⟩) ⟨mid.store, [], 0⟩ = .ok next ∧
      Event.enqueue "callbacks:b" ((joinDeployment "b").settings.callbackKey "CalculateAggregate" "pairs")
        (.calculateAggregate ⟨[⟨1, "p", "cid", "x"⟩, ⟨1, "q", "cid", "y"⟩], 0, "0"⟩) ∈ next.channel :=
  ⟨_, _, rfl, rfl, by decide⟩

end Pooler
