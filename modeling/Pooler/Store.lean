import Pooler.Messages
import Mathlib.Data.String.Basic
import Mathlib.Data.List.Nodup

/-! The key-value store shared by the detector and the distributor instances.

Only sorted sets are modelled here, the structure every key the distributor writes
holds, and the key names of `redis_keys.py` and `processor_distributor.py`. The store
parses every score into a double, so a score is kept as the integer value of the double
nearest to it (`nearestDouble`), the same rounding Lua 5.1 applies to every number.
-/

set_option autoImplicit false

namespace Pooler

/-- The `update_log` dict `_send_message_for_processing` stores for each publish. -/
structure UpdateLog where
  worker : String
  routingKey : String
  exchange : String
  msg : Body
  deriving DecidableEq, Repr

/-- A sorted-set member: the JSON text the distributor stores, kept as the value it
serialises (`process_unit.json()` or `json.dumps(update_log)`). -/
inductive Member where
  | finalized (message : PowerloomSnapshotFinalizedMessage)
  | updateLog (log : UpdateLog)
  deriving DecidableEq, Repr

/-! ## Doubles -/

/-- How many low bits a double drops from the magnitude `m`: the halvings that bring it
below `2 ^ 53`, by recursion on a bound so that it evaluates. -/
def droppedBits : Nat → Nat → Nat
  | 0, _ => 0
  | fuel + 1, m => if 2 ^ 53 ≤ m then droppedBits fuel (m / 2) + 1 else 0

/-- The integer value of the double nearest to `x`, ties to even. Magnitudes of `2 ^ 1024`
and more, which overflow a double, are rounded like the rest. -/
def nearestDouble (x : Int) : Int :=
  let m := x.natAbs
  let shift := droppedBits m m
  let half := 2 ^ shift / 2
  let q := m / 2 ^ shift
  let r := m % 2 ^ shift
  let q := if half < r ∨ (r = half ∧ 0 < half ∧ q % 2 = 1) then q + 1 else q
  x.sign * ↑(q * 2 ^ shift)

theorem droppedBits_of_lt {m : Nat} (hm : m < 2 ^ 53) : ∀ fuel, droppedBits fuel m = 0
  | 0 => rfl
  | _ + 1 => if_neg (Nat.not_le.mpr hm)

theorem nearestDouble_of_natAbs_lt {x : Int} (hx : x.natAbs < 2 ^ 53) : nearestDouble x = x := by
  simp only [nearestDouble, droppedBits_of_lt hx, Nat.pow_zero, Nat.div_one, Nat.mod_one, Nat.mul_one,
    Nat.lt_irrefl, and_false, or_false, if_false]
  exact Int.sign_mul_natAbs x

/-- A double holds every integer of magnitude at most `2 ^ 53` exactly. -/
theorem nearestDouble_of_natAbs_le {x : Int} (hx : x.natAbs ≤ 2 ^ 53) : nearestDouble x = x := by
  rcases Nat.lt_or_eq_of_le hx with hlt | heq
  · exact nearestDouble_of_natAbs_lt hlt
  · rcases Int.natAbs_eq x with h | h <;> rw [heq] at h <;> subst h <;> decide

/-- The first integer a double cannot hold rounds to its even neighbour. -/
example : nearestDouble (2 ^ 53 + 1) = 2 ^ 53 := by decide

/-- A sorted set: members with their scores, each member at most once. Redis returns
members of equal score in the lexicographic order of their text; the model keeps them in
insertion order, and nothing below depends on that order. -/
structure ZSet where
  entries : List (Member × Int)
  nodup : (entries.map Prod.fst).Nodup

namespace ZSet

def empty : ZSet := ⟨[], List.nodup_nil⟩

def members (z : ZSet) : List Member := z.entries.map Prod.fst

/-- `ZADD key score member`: the score is stored as a double; a new member is added, an
existing one gets the new score. -/
def zadd (z : ZSet) (member : Member) (score : Int) : ZSet :=
  if h : member ∈ z.members then
    ⟨z.entries.map fun e => if e.1 = member then (member, nearestDouble score) else e, by
      rw [List.map_map]
      convert z.nodup using 2
      funext e
      by_cases he : e.1 = member <;> simp [he]⟩
  else
    ⟨z.entries ++ [(member, nearestDouble score)], by
      rw [List.map_append]
      exact z.nodup.append (List.nodup_singleton _) fun a ha hb => by
        simp only [List.map_cons, List.map_nil, List.mem_singleton] at hb
        subst hb
        exact h ha⟩

/-- `ZRANGEBYSCORE key min max`, its bounds parsed as doubles. -/
def zrangebyscore (z : ZSet) (min max : Int) : List Member :=
  (z.entries.filter fun e => nearestDouble min ≤ e.2 ∧ e.2 ≤ nearestDouble max).map Prod.fst

/-- `ZREMRANGEBYSCORE key min max`, its bounds parsed as doubles. -/
def zremrangebyscore (z : ZSet) (min max : Int) : ZSet :=
  ⟨z.entries.filter fun e => ¬ (nearestDouble min ≤ e.2 ∧ e.2 ≤ nearestDouble max),
    z.nodup.sublist ((List.filter_sublist _).map _)⟩

theorem mem_zrangebyscore {z : ZSet} {min max : Int} {m : Member} :
    m ∈ z.zrangebyscore min max ↔
      ∃ score, (m, score) ∈ z.entries ∧ nearestDouble min ≤ score ∧ score ≤ nearestDouble max := by
  simp [zrangebyscore]

theorem nodup_zrangebyscore (z : ZSet) (min max : Int) : (z.zrangebyscore min max).Nodup :=
  z.nodup.sublist ((List.filter_sublist _).map _)

theorem mem_zadd {z : ZSet} {member m : Member} {score s : Int} :
    (m, s) ∈ (z.zadd member score).entries ↔
      (m = member ∧ s = nearestDouble score) ∨ (m ≠ member ∧ (m, s) ∈ z.entries) := by
  unfold zadd
  split_ifs with h
  · simp only [List.mem_map]
    constructor
    · rintro ⟨⟨m', s'⟩, he, heq⟩
      by_cases hm : m' = member
      · simp only [hm, if_true, Prod.mk.injEq] at heq
        exact .inl ⟨heq.1.symm, heq.2.symm⟩
      · simp only [hm, if_false, Prod.mk.injEq] at heq
        obtain ⟨rfl, rfl⟩ := heq
        exact .inr ⟨hm, he⟩
    · rintro (⟨rfl, rfl⟩ | ⟨hm, he⟩)
      · obtain ⟨⟨m', s'⟩, he, rfl⟩ := List.mem_map.mp h
        exact ⟨(m', s'), he, by simp⟩
      · exact ⟨(m, s), he, by simp [hm]⟩
  · simp only [List.mem_append, List.mem_singleton, Prod.mk.injEq]
    constructor
    · rintro (he | he)
      · exact .inr ⟨fun hm => h (hm ▸ List.mem_map_of_mem Prod.fst he), he⟩
      · exact .inl he
    · rintro (he | ⟨-, he⟩)
      exacts [.inr he, .inl he]

theorem mem_zadd_of_mem {z : ZSet} {member m : Member} {score s : Int} (h : (m, s) ∈ z.entries)
    (hs : m = member → s = nearestDouble score) : (m, s) ∈ (z.zadd member score).entries := by
  by_cases hm : m = member
  · exact mem_zadd.mpr (.inl ⟨hm, hs hm⟩)
  · exact mem_zadd.mpr (.inr ⟨hm, h⟩)

theorem mem_zremrangebyscore {z : ZSet} {min max : Int} {m : Member} {s : Int} :
    (m, s) ∈ (z.zremrangebyscore min max).entries ↔
      (m, s) ∈ z.entries ∧ ¬ (nearestDouble min ≤ s ∧ s ≤ nearestDouble max) := by
  simp only [zremrangebyscore, List.mem_filter, decide_eq_true_eq]

end ZSet

/-- The store: a sorted set under every key, empty where nothing was written. -/
def Store := String → ZSet

/-- The store before any write. -/
def Store.empty : Store := fun _ => ZSet.empty

/-! ## Key names -/

/-- `cb_broadcast_processing_logs_zset.format(broadcast_id)` under `settings.namespace`. -/
def cbBroadcastProcessingLogsZset (ns broadcastId : String) : String :=
  "broadcastID:" ++ ns ++ ":" ++ broadcastId ++ ":processLogs"

/-- `f'powerloom:aggregator:{config.project_type}:events'`. -/
def aggregatorEvents (projectType : String) : String :=
  "powerloom:aggregator:" ++ projectType ++ ":events"

theorem cbBroadcastProcessingLogsZset_ne_aggregatorEvents (ns broadcastId projectType : String) :
    cbBroadcastProcessingLogsZset ns broadcastId ≠ aggregatorEvents projectType := by
  intro h
  have := congrArg String.data h
  simp [cbBroadcastProcessingLogsZset, aggregatorEvents, String.data_append] at this

theorem aggregatorEvents_injective : Function.Injective aggregatorEvents := by
  intro t1 t2 h
  have := congrArg String.data h
  simp only [aggregatorEvents, String.data_append, List.append_assoc, List.append_cancel_left_eq,
    List.append_cancel_right_eq] at this
  exact String.ext this

theorem append_cons_inj_of_not_mem {c : Char} :
    ∀ {l₁ l₂ r₁ r₂ : List Char}, c ∉ l₁ → c ∉ l₂ → l₁ ++ c :: r₁ = l₂ ++ c :: r₂ → l₁ = l₂ ∧ r₁ = r₂
  | [], [], _, _, _, _, h => ⟨rfl, List.cons.inj h |>.2⟩
  | [], _ :: _, _, _, _, h₂, h => absurd (List.cons.inj h).1 (fun e => h₂ (e ▸ List.mem_cons_self _ _))
  | _ :: _, [], _, _, h₁, _, h => absurd (List.cons.inj h).1.symm (fun e => h₁ (e ▸ List.mem_cons_self _ _))
  | a :: l₁, b :: l₂, _, _, h₁, h₂, h => by
    obtain ⟨rfl, htail⟩ := List.cons.inj h
    obtain ⟨rfl, rfl⟩ := append_cons_inj_of_not_mem (List.not_mem_of_not_mem_cons h₁)
      (List.not_mem_of_not_mem_cons h₂) htail
    exact ⟨rfl, rfl⟩

theorem cbBroadcastProcessingLogsZset_inj {n₁ n₂ b₁ b₂ : String} (hn₁ : ':' ∉ n₁.data)
    (hn₂ : ':' ∉ n₂.data)
    (h : cbBroadcastProcessingLogsZset n₁ b₁ = cbBroadcastProcessingLogsZset n₂ b₂) :
    n₁ = n₂ ∧ b₁ = b₂ := by
  have := congrArg String.data h
  simp only [cbBroadcastProcessingLogsZset, String.data_append, List.append_assoc,
    List.append_cancel_left_eq] at this
  obtain ⟨hn, hb⟩ := append_cons_inj_of_not_mem hn₁ hn₂ (by simpa using this)
  exact ⟨String.ext hn, String.ext (List.append_cancel_right hb)⟩

end Pooler
