import Mathlib.Data.List.AList
import Mathlib.Algebra.BigOperators.Group.List
import Mathlib.Data.Rat.Floor
import Mathlib.Tactic.Linarith
import Pooler.Chunks
import Pooler.Store

/-! The rate limiter's Lua scripts of `uniswap_functions.py`, run by the key-value store.

The store keeps string keys holding integers, each with the second it expires at, and a
clock; a clock tick deletes every key whose second has come. A script runs atomically: no
other command and no expiry runs between its `redis.call`s. A `redis.call` that fails aborts
the script with its error, and what the calls before it wrote stays written. Lua 5.1 holds
every number as a double: an integer reply becomes the double nearest to it (`nearestDouble`
of `Pooler.Store`), and `tonumber` of a decimal text rounds the same way.

`SCRIPT_INCR_EXPIRE` counts hits on a rate-limit bucket; `SCRIPT_CLEAR_KEYS` deletes the
keys matching a glob pattern, which the model takes as a predicate on keys.
-/

set_option autoImplicit false

namespace Pooler

/-! ## The store -/

/-- A key holding an integer, and the second it expires at (`none`: never). -/
structure Entry where
  value : Int
  expireAt : Option Nat
  deriving DecidableEq, Repr

/-- A key is alive at `now` when it never expires or expires later. -/
def Entry.alive (now : Nat) (entry : Entry) : Bool := entry.expireAt.all (now < ·)

/-- The store's keys, and its clock in seconds. -/
structure RedisDb where
  dict : AList fun _ : String => Entry
  now : Nat

/-- The errors of the commands the scripts call. -/
inductive RedisError where
  /-- `ERR value is not an integer or out of range` -/
  | notAnInteger
  /-- `ERR increment or decrement would overflow` -/
  | overflow
  /-- `ERR invalid expire time in 'expire' command` -/
  | invalidExpireTime
  deriving DecidableEq, Repr

/-- A 64-bit signed integer, the store's integers. -/
def IsInt64 (x : Int) : Prop := -2 ^ 63 ≤ x ∧ x < 2 ^ 63

instance : DecidablePred IsInt64 := fun _ => inferInstanceAs (Decidable (_ ∧ _))

/-- The entries alive at `now`. -/
def evict (now : Nat) (dict : AList fun _ : String => Entry) : AList fun _ : String => Entry :=
  ⟨dict.entries.filter fun e => e.2.alive now, List.NodupKeys.sublist (List.filter_sublist _) dict.nodupKeys⟩

theorem lookup_evict (now : Nat) (dict : AList fun _ : String => Entry) (key : String) :
    (evict now dict).lookup key = (dict.lookup key).filter (Entry.alive now) :=
  Option.ext fun entry => by
    rw [AList.mem_lookup_iff, Option.mem_filter_iff, AList.mem_lookup_iff]
    exact List.mem_filter

namespace RedisDb

/-- The integer at `key`, 0 for a missing key, as `INCRBY` reads it. -/
def valueOf (db : RedisDb) (key : String) : Int := ((db.dict.lookup key).map Entry.value).getD 0

/-- The second `key` expires at. -/
def expiryOf (db : RedisDb) (key : String) : Option Nat := (db.dict.lookup key).bind Entry.expireAt

theorem valueOf_of_lookup {db : RedisDb} {key : String} {entry : Entry}
    (h : db.dict.lookup key = some entry) : db.valueOf key = entry.value := by
  simp [valueOf, h]

theorem valueOf_of_not_mem {db : RedisDb} {key : String} (h : key ∉ db.dict) : db.valueOf key = 0 := by
  simp [valueOf, AList.lookup_eq_none.mpr h]

/-- `INCRBY key increment`: the new integer; a missing key is created from 0 with no expiry,
an existing one keeps its expiry. -/
def incrby (key : String) (increment : Int) (db : RedisDb) : Except RedisError (Int × RedisDb) :=
  if ¬ IsInt64 increment then .error .notAnInteger else
  let current := db.valueOf key + increment
  if ¬ IsInt64 current then .error .overflow else
  .ok (current, { db with dict := db.dict.insert key ⟨current, db.expiryOf key⟩ })

/-- `EXPIRE key seconds`, with the store's range checks on the time in milliseconds: `false`
for a missing key, and a time not after now deletes the key. -/
def expire (key : String) (seconds : Int) (db : RedisDb) : Except RedisError (Bool × RedisDb) :=
  if ¬ IsInt64 seconds then .error .notAnInteger else
  if 9223372036854775 < seconds ∨ seconds < -9223372036854775 ∨
      2 ^ 63 - 1 - db.now * 1000 < seconds * 1000 then .error .invalidExpireTime else
  match db.dict.lookup key with
  | none => .ok (false, db)
  | some entry =>
    if seconds ≤ 0 then .ok (true, { db with dict := db.dict.erase key })
    else .ok (true, { db with dict := db.dict.insert key ⟨entry.value, some (db.now + seconds.toNat)⟩ })

/-- The clock advances `d` seconds, and every key whose second has come is deleted. -/
def tick (d : Nat) (db : RedisDb) : RedisDb := ⟨evict (db.now + d) db.dict, db.now + d⟩

/-- `SCRIPT_INCR_EXPIRE` with `KEYS[1] = key`, `ARGV[1] = expiry` and `ARGV[2] = increment`:
the store after it, and its reply. -/
def scriptIncrExpire (key : String) (expiry increment : Int) (db : RedisDb) :
    RedisDb × Except RedisError Int :=
  match db.incrby key increment with
  | .error e => (db, .error e)
  | .ok (current, db) =>
    if nearestDouble current = nearestDouble increment then
      match db.expire key expiry with
      | .error e => (db, .error e)
      | .ok (_, db) => (db, .ok (nearestDouble current))
    else (db, .ok (nearestDouble current))

@[simp] theorem tick_now (d : Nat) (db : RedisDb) : (db.tick d).now = db.now + d := rfl

theorem lookup_tick (d : Nat) (db : RedisDb) (key : String) :
    (db.tick d).dict.lookup key = (db.dict.lookup key).filter (Entry.alive (db.now + d)) :=
  lookup_evict _ _ _

/-- Within the store's ranges and for a window of at least a second, the script adds
`increment` to the key (0 for a missing key) and sets its expiry `expiry` seconds from now
exactly when its first-hit test passes; otherwise the key keeps its expiry. -/
theorem scriptIncrExpire_spec {key : String} {expiry increment : Int} {db : RedisDb}
    (hinc : IsInt64 increment) (hcur : IsInt64 (db.valueOf key + increment))
    (hexpiry : 1 ≤ expiry) (hrange : (db.now + expiry) * 1000 < 2 ^ 63) :
    db.scriptIncrExpire key expiry increment =
      ({ db with dict := db.dict.insert key ⟨db.valueOf key + increment,
          if nearestDouble (db.valueOf key + increment) = nearestDouble increment
          then some (db.now + expiry.toNat) else db.expiryOf key⟩ },
        .ok (nearestDouble (db.valueOf key + increment))) := by
  have hexpire : IsInt64 expiry := ⟨by omega, by omega⟩
  simp only [scriptIncrExpire, incrby, hinc, hcur, not_true_eq_false, if_false]
  split_ifs with hfirst
  · simp only [expire, hexpire, not_true_eq_false, if_false, AList.lookup_insert,
      if_neg (show ¬ expiry ≤ 0 by omega), AList.insert_insert]
    rw [if_neg (by omega)]
  · rfl

/-- The hit that creates the key sets its expiry. -/
theorem scriptIncrExpire_of_not_mem {key : String} {expiry increment : Int} {db : RedisDb}
    (habsent : key ∉ db.dict) (hinc : IsInt64 increment) (hexpiry : 1 ≤ expiry)
    (hrange : (db.now + expiry) * 1000 < 2 ^ 63) :
    (db.scriptIncrExpire key expiry increment).1 =
      { db with dict := db.dict.insert key ⟨increment, some (db.now + expiry.toNat)⟩ } := by
  have hzero := valueOf_of_not_mem habsent
  rw [scriptIncrExpire_spec hinc (by rwa [hzero, zero_add]) hexpiry hrange, hzero, zero_add, if_pos rfl]

/-- A hit on an existing key whose first-hit test passes sets the expiry again. -/
theorem scriptIncrExpire_rearm {key : String} {expiry increment : Int} {db : RedisDb} {entry : Entry}
    (hentry : db.dict.lookup key = some entry) (hinc : IsInt64 increment)
    (hcur : IsInt64 (entry.value + increment)) (hexpiry : 1 ≤ expiry)
    (hrange : (db.now + expiry) * 1000 < 2 ^ 63) (hfirst : nearestDouble (entry.value + increment) = nearestDouble increment) :
    (db.scriptIncrExpire key expiry increment).1 =
      { db with dict := db.dict.insert key ⟨entry.value + increment, some (db.now + expiry.toNat)⟩ } := by
  have hvalue := valueOf_of_lookup hentry
  rw [scriptIncrExpire_spec hinc (by rwa [hvalue]) hexpiry hrange, hvalue, if_pos hfirst]

end RedisDb

/-! ## Buckets under hits and clock ticks -/

/-- What reaches the store: one invocation of `SCRIPT_INCR_EXPIRE`, or the clock advancing. -/
inductive BucketEvent where
  | hit (key : String) (window increment : Int)
  | tick (d : Nat)

namespace BucketEvent

def apply : BucketEvent → RedisDb → RedisDb
  | hit key window increment, db => (db.scriptIncrExpire key window increment).1
  | tick d, db => db.tick d

/-- The seconds the event lets pass. -/
def elapsed : BucketEvent → Nat
  | hit .. => 0
  | tick d => d

/-- The increment of a hit on `key`. -/
def incrementOn (key : String) : BucketEvent → Option Int
  | hit k _ increment => if k = key then some increment else none
  | tick _ => none

/-- A hit uses its key's window, of at least a second, and a positive increment. -/
def Valid (window : String → Int) : BucketEvent → Prop
  | hit key w increment => w = window key ∧ 1 ≤ w ∧ 0 < increment
  | tick _ => True

end BucketEvent

/-- The store after `events`, in order. -/
def runBuckets (events : List BucketEvent) (db : RedisDb) : RedisDb :=
  events.foldl (fun db e => e.apply db) db

@[simp] theorem runBuckets_nil (db : RedisDb) : runBuckets [] db = db := rfl

@[simp] theorem runBuckets_cons (e : BucketEvent) (events : List BucketEvent) (db : RedisDb) :
    runBuckets (e :: events) db = runBuckets events (e.apply db) := rfl

theorem runBuckets_append (events events' : List BucketEvent) (db : RedisDb) :
    runBuckets (events ++ events') db = runBuckets events' (runBuckets events db) :=
  List.foldl_append _ _ _ _

/-- The increments of the hits on `key` among `events`. -/
def incrementsOn (key : String) (events : List BucketEvent) : List Int :=
  events.filterMap (BucketEvent.incrementOn key)

/-- The seconds `events` let pass. -/
def elapsedIn (events : List BucketEvent) : Nat := (events.map BucketEvent.elapsed).sum

@[simp] theorem incrementsOn_append (key : String) (events events' : List BucketEvent) :
    incrementsOn key (events ++ events') = incrementsOn key events ++ incrementsOn key events' :=
  List.filterMap_append _ _ _

@[simp] theorem elapsedIn_append (events events' : List BucketEvent) :
    elapsedIn (events ++ events') = elapsedIn events + elapsedIn events' := by
  simp [elapsedIn, List.sum_append]

@[simp] theorem sum_incrementsOn_cons (key : String) (e : BucketEvent) (events : List BucketEvent) :
    (incrementsOn key (e :: events)).sum = (e.incrementOn key).getD 0 + (incrementsOn key events).sum := by
  cases h : e.incrementOn key <;> simp [incrementsOn, List.filterMap_cons, h]

@[simp] theorem incrementsOn_nil (key : String) : incrementsOn key [] = [] := rfl

@[simp] theorem elapsedIn_nil : elapsedIn [] = 0 := rfl

@[simp] theorem elapsedIn_cons (e : BucketEvent) (events : List BucketEvent) :
    elapsedIn (e :: events) = e.elapsed + elapsedIn events := by
  simp [elapsedIn]

theorem BucketEvent.Valid.incrementOn_nonneg {window : String → Int} {e : BucketEvent}
    (hvalid : e.Valid window) (key : String) : 0 ≤ (e.incrementOn key).getD 0 := by
  cases e with
  | hit k w increment =>
    simp only [incrementOn]
    split_ifs <;> simp [hvalid.2.2.le]
  | tick d => simp [incrementOn]

theorem sum_incrementsOn_nonneg {window : String → Int} (key : String) :
    ∀ {events : List BucketEvent}, (∀ e ∈ events, e.Valid window) → 0 ≤ (incrementsOn key events).sum
  | [], _ => by simp
  | e :: events, hvalid => by
    rw [sum_incrementsOn_cons]
    have := (hvalid e (.head _)).incrementOn_nonneg key
    have := sum_incrementsOn_nonneg key fun e' he' => hvalid e' (.tail _ he')
    omega

theorem RedisDb.now_of_incrby {key : String} {increment current : Int} {db db' : RedisDb}
    (h : db.incrby key increment = .ok (current, db')) : db'.now = db.now := by
  simp only [RedisDb.incrby] at h
  split_ifs at h
  cases h
  rfl

theorem RedisDb.now_of_expire {key : String} {seconds : Int} {db db' : RedisDb} {existed : Bool}
    (h : db.expire key seconds = .ok (existed, db')) : db'.now = db.now := by
  simp only [RedisDb.expire] at h
  split_ifs at h <;> (try split at h) <;> cases h <;> rfl

@[simp] theorem RedisDb.now_scriptIncrExpire (key : String) (expiry increment : Int) (db : RedisDb) :
    (db.scriptIncrExpire key expiry increment).1.now = db.now := by
  unfold RedisDb.scriptIncrExpire
  split
  · rfl
  · rename_i hincr
    split_ifs
    · split
      · exact RedisDb.now_of_incrby hincr
      · rename_i hexpire
        exact (RedisDb.now_of_expire hexpire).trans (RedisDb.now_of_incrby hincr)
    · exact RedisDb.now_of_incrby hincr

theorem runBuckets_now (events : List BucketEvent) (db : RedisDb) :
    (runBuckets events db).now = db.now + elapsedIn events := by
  induction events generalizing db with
  | nil => rfl
  | cons e events ih =>
    cases e <;> simp [ih, BucketEvent.apply, elapsedIn, BucketEvent.elapsed, RedisDb.tick]; omega

/-- Every key holds a positive integer and expires within its window: its TTL is in
`(0, window key]`. -/
def BucketsWF (window : String → Int) (db : RedisDb) : Prop :=
  ∀ key entry, db.dict.lookup key = some entry →
    0 < entry.value ∧ ∃ e, entry.expireAt = some e ∧ db.now < e ∧ (e : Int) ≤ db.now + window key

section Buckets
variable {window : String → Int} {db : RedisDb}

theorem BucketsWF.valueOf_nonneg (wf : BucketsWF window db) (key : String) : 0 ≤ db.valueOf key := by
  cases h : db.dict.lookup key with
  | none => simp [RedisDb.valueOf, h]
  | some entry => rw [RedisDb.valueOf_of_lookup h]; exact (wf key entry h).1.le

/-- Below `2 ^ 53` the first-hit test `current == increment` passes exactly on the hit that
creates the key. -/
theorem BucketsWF.firstHit_iff (wf : BucketsWF window db) {key : String} {increment : Int}
    (hinc : 0 < increment) (hbound : db.valueOf key + increment < 2 ^ 53) :
    nearestDouble (db.valueOf key + increment) = nearestDouble increment ↔ key ∉ db.dict := by
  have hv := wf.valueOf_nonneg key
  rw [nearestDouble_of_natAbs_lt (by omega), nearestDouble_of_natAbs_lt (by omega)]
  constructor
  · intro heq hmem
    obtain ⟨entry, hentry⟩ := Option.isSome_iff_exists.mp (AList.lookup_isSome.mpr hmem)
    have := (wf key entry hentry).1
    rw [RedisDb.valueOf_of_lookup hentry] at heq
    omega
  · intro habsent
    rw [RedisDb.valueOf_of_not_mem habsent, zero_add]

section Hit
variable {key : String} {increment : Int} (wf : BucketsWF window db) (hw : 1 ≤ window key)
  (hinc : 0 < increment) (hbound : db.valueOf key + increment < 2 ^ 53)
  (hrange : (db.now + window key) * 1000 < 2 ^ 63)
include wf hw hinc hbound hrange

theorem BucketsWF.lookup_hit :
    (db.scriptIncrExpire key (window key) increment).1.dict.lookup key =
      some ⟨db.valueOf key + increment,
        if key ∈ db.dict then db.expiryOf key else some (db.now + (window key).toNat)⟩ := by
  have hv := wf.valueOf_nonneg key
  rw [RedisDb.scriptIncrExpire_spec ⟨by omega, by omega⟩ ⟨by omega, by omega⟩ hw hrange,
    AList.lookup_insert]
  by_cases hmem : key ∈ db.dict <;> simp [hmem, wf.firstHit_iff hinc hbound]

theorem BucketsWF.lookup_hit_of_ne {key' : String} (hne : key' ≠ key) :
    (db.scriptIncrExpire key (window key) increment).1.dict.lookup key' = db.dict.lookup key' := by
  have hv := wf.valueOf_nonneg key
  rw [RedisDb.scriptIncrExpire_spec ⟨by omega, by omega⟩ ⟨by omega, by omega⟩ hw hrange]
  exact AList.lookup_insert_ne hne

@[simp] theorem BucketsWF.now_hit : (db.scriptIncrExpire key (window key) increment).1.now = db.now := by
  have hv := wf.valueOf_nonneg key
  rw [RedisDb.scriptIncrExpire_spec ⟨by omega, by omega⟩ ⟨by omega, by omega⟩ hw hrange]

theorem BucketsWF.hit : BucketsWF window (db.scriptIncrExpire key (window key) increment).1 := by
  intro key' entry h
  rw [wf.now_hit hw hinc hbound hrange]
  by_cases hkey : key' = key
  · subst hkey
    rw [wf.lookup_hit hw hinc hbound hrange, Option.some.injEq] at h
    subst h
    have hv := wf.valueOf_nonneg key'
    refine ⟨by simp only; omega, ?_⟩
    split_ifs with hmem
    · obtain ⟨entry, hentry⟩ := Option.isSome_iff_exists.mp (AList.lookup_isSome.mpr hmem)
      simpa [RedisDb.expiryOf, hentry] using (wf key' entry hentry).2
    · exact ⟨_, rfl, by omega, by omega⟩
  · rw [wf.lookup_hit_of_ne hw hinc hbound hrange hkey] at h
    exact wf key' entry h

end Hit

theorem BucketsWF.tick (wf : BucketsWF window db) (d : Nat) : BucketsWF window (db.tick d) := by
  intro key entry h
  rw [RedisDb.lookup_tick, Option.filter_eq_some] at h
  obtain ⟨⟨he, e, hexp, -, hle⟩, halive⟩ := And.imp_left (wf key entry) h
  simp only [Entry.alive, hexp, Option.all_some, decide_eq_true_eq] at halive
  exact ⟨he, e, hexp, by simpa using halive, by simp; omega⟩

theorem BucketsWF.valueOf_hit {key : String} {increment : Int} (wf : BucketsWF window db)
    (hw : 1 ≤ window key) (hinc : 0 < increment) (hbound : db.valueOf key + increment < 2 ^ 53)
    (hrange : (db.now + window key) * 1000 < 2 ^ 63) (key' : String) :
    (db.scriptIncrExpire key (window key) increment).1.valueOf key' =
      db.valueOf key' + if key' = key then increment else 0 := by
  by_cases hkey : key' = key
  · subst hkey
    simp [RedisDb.valueOf_of_lookup (wf.lookup_hit hw hinc hbound hrange)]
  · simp [RedisDb.valueOf, wf.lookup_hit_of_ne hw hinc hbound hrange hkey, hkey]

/-- A run within the ranges: valid events, every key below `2 ^ 53` and every expiry in the
store's range. -/
structure RunFits (window : String → Int) (db : RedisDb) (events : List BucketEvent) : Prop where
  valid : ∀ e ∈ events, e.Valid window
  values : ∀ key, db.valueOf key + (incrementsOn key events).sum < 2 ^ 53
  time : ∀ (key : String) (w increment : Int), .hit key w increment ∈ events →
    (db.now + elapsedIn events + w) * 1000 < 2 ^ 63

theorem RunFits.left {pre post : List BucketEvent} (fits : RunFits window db (pre ++ post)) :
    RunFits window db pre where
  valid e he := fits.valid e (List.mem_append_left _ he)
  values key := by
    have hall := fits.values key
    have hpost := sum_incrementsOn_nonneg key fun e he => fits.valid e (List.mem_append_right pre he)
    rw [incrementsOn_append, List.sum_append] at hall
    omega
  time key w increment h := by
    have hall := fits.time key w increment (List.mem_append_left _ h)
    rw [elapsedIn_append] at hall
    push_cast at hall
    omega

theorem RunFits.right {pre post : List BucketEvent} (fits : RunFits window db (pre ++ post))
    (hle : ∀ key, (runBuckets pre db).valueOf key ≤ db.valueOf key + (incrementsOn key pre).sum) :
    RunFits window (runBuckets pre db) post where
  valid e he := fits.valid e (List.mem_append_right _ he)
  values key := by
    have hall := fits.values key
    have := hle key
    rw [incrementsOn_append, List.sum_append] at hall
    omega
  time key w increment h := by
    have hall := fits.time key w increment (List.mem_append_right _ h)
    rw [elapsedIn_append] at hall
    rw [runBuckets_now]
    push_cast at hall ⊢
    omega

/-- One valid event within the ranges keeps the invariant; a key it leaves holds what it held
plus the event's increment on it, and a key it created was hit. -/
theorem BucketsWF.step (wf : BucketsWF window db) {e : BucketEvent} (fits : RunFits window db [e]) :
    BucketsWF window (e.apply db) ∧
      ∀ key entry, (e.apply db).dict.lookup key = some entry →
        entry.value = db.valueOf key + (e.incrementOn key).getD 0 ∧
          (key ∈ db.dict ∨ e.incrementOn key ≠ none) := by
  cases e with
  | hit k w increment =>
    obtain ⟨rfl, hw, hinc⟩ := fits.valid _ (.head _)
    have hk : db.valueOf k + increment < 2 ^ 53 := by
      simpa [BucketEvent.incrementOn] using fits.values k
    have hr : (db.now + window k) * 1000 < 2 ^ 63 := by
      simpa [BucketEvent.elapsed] using fits.time k _ increment (.head _)
    refine ⟨wf.hit hw hinc hk hr, fun key entry h => ⟨?_, ?_⟩⟩
    · rw [← RedisDb.valueOf_of_lookup h, BucketEvent.apply, wf.valueOf_hit hw hinc hk hr]
      by_cases hkey : k = key <;> simp [BucketEvent.incrementOn, hkey, eq_comm]
    · by_cases hkey : k = key
      · exact .inr (by simp [BucketEvent.incrementOn, hkey])
      · rw [BucketEvent.apply, wf.lookup_hit_of_ne hw hinc hk hr (Ne.symm hkey)] at h
        exact .inl (AList.lookup_isSome.mp (by simp [h]))
  | tick d =>
    refine ⟨wf.tick d, fun key entry h => ?_⟩
    rw [BucketEvent.apply, RedisDb.lookup_tick, Option.filter_eq_some] at h
    have hold : db.dict.lookup key = some entry := h.1
    exact ⟨by simp [RedisDb.valueOf_of_lookup hold, BucketEvent.incrementOn],
      .inl (AList.lookup_isSome.mp (by simp [hold]))⟩

theorem BucketsWF.valueOf_step (wf : BucketsWF window db) {e : BucketEvent} (fits : RunFits window db [e])
    (key : String) : (e.apply db).valueOf key ≤ db.valueOf key + (e.incrementOn key).getD 0 := by
  cases h : (e.apply db).dict.lookup key with
  | none =>
    have := wf.valueOf_nonneg key
    have := (fits.valid e (.head _)).incrementOn_nonneg key
    rw [show (e.apply db).valueOf key = 0 by simp [RedisDb.valueOf, h]]
    omega
  | some entry =>
    exact (RedisDb.valueOf_of_lookup h).trans_le ((wf.step fits).2 key entry h).1.le

/-- Over a run of valid hits and ticks that keeps every key below `2 ^ 53` and every expiry
in the store's range, every key keeps a TTL in `(0, window key]`, and no key holds more than
it held plus the increments of the hits on it. -/
theorem BucketsWF.run (wf : BucketsWF window db) (events : List BucketEvent) (fits : RunFits window db events) :
    BucketsWF window (runBuckets events db) ∧
      ∀ key, (runBuckets events db).valueOf key ≤ db.valueOf key + (incrementsOn key events).sum := by
  induction events generalizing db with
  | nil => exact ⟨wf, fun _ => by simp⟩
  | cons e events ih =>
    have fits' : RunFits window db ([e] ++ events) := fits
    have hvalue := wf.valueOf_step fits'.left
    obtain ⟨wfr, hvr⟩ := ih (wf.step fits'.left).1
      (fits'.right fun key => by simpa using hvalue key)
    exact ⟨wfr, fun key => by
      have := hvr key
      have := hvalue key
      rw [runBuckets_cons, sum_incrementsOn_cons]
      omega⟩

end Buckets

/-! ## Past the ranges -/

/-- Above `2 ^ 53` integers collide: `2 ^ 60 + 1` and `2 ^ 60` are the same double. -/
theorem nearestDouble_one_add_two_pow_sixty : nearestDouble (1 + 2 ^ 60) = nearestDouble (2 ^ 60) := by
  decide

/-- Runs from the empty store. A key created with a window of 10 seconds and ticked for 3 is
hit with `2 ^ 60`: its new integer `1 + 2 ^ 60` and the increment are the same double, so the
first-hit test passes on a key that exists, and `EXPIRE` moves the expiry from second 10 to
13. A hit whose window is past the store's millisecond range fails at `EXPIRE`, after `INCRBY`
created the key, which is left with no expiry. -/
theorem scriptIncrExpire_rearms_or_never_expires :
    (runBuckets [.hit "k" 10 1, .tick 3] ⟨∅, 0⟩).dict.lookup "k" = some ⟨1, some 10⟩ ∧
    (runBuckets [.hit "k" 10 1, .tick 3, .hit "k" 10 (2 ^ 60)] ⟨∅, 0⟩).dict.lookup "k" =
      some ⟨1 + 2 ^ 60, some 13⟩ ∧
    (runBuckets [.hit "k" (2 ^ 62) 1] ⟨∅, 0⟩).dict.lookup "k" = some ⟨1, none⟩ := by
  have h₁ : runBuckets [.hit "k" 10 1] ⟨∅, 0⟩ = ⟨(∅ : AList _).insert "k" ⟨1, some 10⟩, 0⟩ :=
    RedisDb.scriptIncrExpire_of_not_mem (AList.not_mem_empty _) (by decide) (by decide) (by decide)
  have h₂ : (runBuckets [.hit "k" 10 1, .tick 3] ⟨∅, 0⟩).dict.lookup "k" = some ⟨1, some 10⟩ := by
    rw [show [BucketEvent.hit "k" 10 1, .tick 3] = [.hit "k" 10 1] ++ [.tick 3] from rfl,
      runBuckets_append, h₁]
    decide
  refine ⟨h₂, ?_, ?_⟩
  · rw [show [BucketEvent.hit "k" 10 1, .tick 3, .hit "k" 10 (2 ^ 60)] =
        [.hit "k" 10 1, .tick 3] ++ [.hit "k" 10 (2 ^ 60)] from rfl, runBuckets_append, runBuckets_cons,
      runBuckets_nil, BucketEvent.apply,
      RedisDb.scriptIncrExpire_rearm h₂ (by decide) (by decide) (by decide)
        (by rw [runBuckets_now]; decide) nearestDouble_one_add_two_pow_sixty,
      AList.lookup_insert, runBuckets_now]
    rfl
  · simp [RedisDb.scriptIncrExpire, RedisDb.incrby, RedisDb.expire, RedisDb.valueOf, RedisDb.expiryOf,
      BucketEvent.apply, IsInt64]
    rfl

/-! ## Clearing keys in batches -/

/-- `unpack(list, i, j)`: the elements at the 1-based positions `i` to `j`. -/
def unpack {α : Type} (list : List α) (i j : Nat) : List α := (list.drop (i - 1)).take (j + 1 - i)

namespace RedisDb

/-- `KEYS pattern`, for `globMatch` the pattern's glob: the keys that match it. -/
def keysMatching (globMatch : String → Bool) (db : RedisDb) : List String :=
  db.dict.keys.filter globMatch

@[simp] theorem mem_keysMatching {globMatch : String → Bool} {db : RedisDb} {key : String} :
    key ∈ db.keysMatching globMatch ↔ key ∈ db.dict ∧ globMatch key := by
  rw [keysMatching, List.mem_filter, AList.mem_keys]

theorem nodup_keysMatching (globMatch : String → Bool) (db : RedisDb) : (db.keysMatching globMatch).Nodup :=
  db.dict.keys_nodup.filter _

/-- `DEL key ...`: how many of the keys existed; all of them are deleted. -/
def del : List String → RedisDb → Nat × RedisDb
  | [], db => (0, db)
  | key :: keys, db =>
    let rest := del keys { db with dict := db.dict.erase key }
    ((if key ∈ db.dict then 1 else 0) + rest.1, rest.2)

/-- The `for i=1,#keys,5000` loop of `SCRIPT_CLEAR_KEYS` from `i` on, with `res` so far: the
`DEL` calls it makes, `res`, and the store after them. `i` and `res` are Lua numbers; they
stay below `2 ^ 53`, where doubles are exact, since a store holds at most `2 ^ 32` keys. -/
def clearKeysFrom (keys : List String) (i res : Nat) (db : RedisDb) :
    List (List String) × Nat × RedisDb :=
  if i ≤ keys.length then
    let batch := unpack keys i (min (i + 4999) keys.length)
    let deleted := db.del batch
    let rest := clearKeysFrom keys (i + 5000) (res + deleted.1) deleted.2
    (batch :: rest.1, rest.2)
  else ([], res, db)
termination_by keys.length + 1 - i

/-- `SCRIPT_CLEAR_KEYS` with `KEYS[1]` the pattern: the `DEL` calls, the reply `res`, and the
store after it. -/
def scriptClearKeys (globMatch : String → Bool) (db : RedisDb) : List (List String) × Nat × RedisDb :=
  clearKeysFrom (db.keysMatching globMatch) 1 0 db

theorem lookup_del (key : String) :
    ∀ (keys : List String) (db : RedisDb),
      (db.del keys).2.dict.lookup key = if key ∈ keys then none else db.dict.lookup key
  | [], _ => by simp [del]
  | k :: keys, db => by
    simp only [del, lookup_del key keys, List.mem_cons]
    by_cases hk : key = k
    · subst hk
      simp [AList.lookup_erase]
    · simp [hk, AList.lookup_erase_ne hk]

theorem del_count :
    ∀ (keys : List String) (db : RedisDb), keys.Nodup → (∀ key ∈ keys, key ∈ db.dict) →
      (db.del keys).1 = keys.length
  | [], _, _, _ => rfl
  | k :: keys, db, hnodup, hmem => by
    rw [List.nodup_cons] at hnodup
    simp only [del, if_pos (hmem k (.head _)), List.length_cons]
    rw [del_count keys _ hnodup.2 fun key hkey => AList.mem_erase.mpr
      ⟨by rintro rfl; exact hnodup.1 hkey, hmem key (.tail _ hkey)⟩]
    omega

theorem del_now : ∀ (keys : List String) (db : RedisDb), (db.del keys).2.now = db.now
  | [], _ => rfl
  | _ :: keys, _ => del_now keys _

end RedisDb

theorem unpack_append_drop {α : Type} (list : List α) {i : Nat} (hi : 1 ≤ i) (hle : i ≤ list.length) :
    unpack list i (min (i + 4999) list.length) ++ list.drop (i + 5000 - 1) = list.drop (i - 1) := by
  have hdrop : list.drop (i + 5000 - 1) = (list.drop (i - 1)).drop (min (i + 4999) list.length + 1 - i) := by
    rw [List.drop_drop]
    by_cases hfull : i + 4999 ≤ list.length
    · congr 1
      omega
    · rw [List.drop_eq_nil_of_le (by omega), List.drop_eq_nil_of_le (by omega)]
  rw [unpack, hdrop, List.take_append_drop]

theorem length_unpack {α : Type} (list : List α) {i : Nat} (hi : 1 ≤ i) (hle : i ≤ list.length) :
    1 ≤ (unpack list i (min (i + 4999) list.length)).length ∧
      (unpack list i (min (i + 4999) list.length)).length ≤ 5000 := by
  simp only [unpack, List.length_take, List.length_drop]
  omega

namespace RedisDb

/-- From `i` on, the loop deletes the keys from position `i` in batches of 5000 starting at
`i`, `i + 5000`, ..., and adds their number to `res`. -/
theorem clearKeysFrom_spec (keys : List String) (hnodup : keys.Nodup) (i res : Nat) (db : RedisDb)
    (hi : 1 ≤ i) (hmem : ∀ key ∈ keys.drop (i - 1), key ∈ db.dict) :
    (clearKeysFrom keys i res db).1 = (List.range ((keys.length + 5000 - i) / 5000)).map
        (fun t => unpack keys (5000 * t + i) (min (5000 * t + i + 4999) keys.length)) ∧
      (clearKeysFrom keys i res db).1.flatten = keys.drop (i - 1) ∧
      (clearKeysFrom keys i res db).2.1 = res + (keys.drop (i - 1)).length ∧
      (clearKeysFrom keys i res db).2.2.now = db.now ∧
      ∀ key, (clearKeysFrom keys i res db).2.2.dict.lookup key =
        if key ∈ keys.drop (i - 1) then none else db.dict.lookup key := by
  induction i, res, db using clearKeysFrom.induct keys with
  | case1 i res db hle _ _ ih =>
    -- one batch, then the loop from `i + 5000`
    rw [clearKeysFrom, if_pos hle]
    dsimp only
    set batch := unpack keys i (min (i + 4999) keys.length)
    have hsplit : batch ++ keys.drop (i + 5000 - 1) = keys.drop (i - 1) := unpack_append_drop keys hi hle
    have hnodup' : (batch ++ keys.drop (i + 5000 - 1)).Nodup :=
      hsplit ▸ hnodup.sublist (List.drop_sublist _ _)
    have hbatch : ∀ key ∈ batch, key ∈ db.dict :=
      fun key hkey => hmem key (hsplit ▸ List.mem_append_left _ hkey)
    have hrest : ∀ key ∈ keys.drop (i + 5000 - 1), key ∈ (db.del batch).2.dict := fun key hkey => by
      rw [← AList.lookup_isSome, lookup_del, if_neg fun h => List.disjoint_of_nodup_append hnodup' h hkey,
        AList.lookup_isSome]
      exact hmem key (hsplit ▸ List.mem_append_right _ hkey)
    obtain ⟨hcalls, hjoin, hres, hnow, hlookup⟩ := ih (by omega) hrest
    refine ⟨?_, ?_, ?_, ?_, fun key => ?_⟩
    · rw [hcalls, show (keys.length + 5000 - i) / 5000 = (keys.length + 5000 - (i + 5000)) / 5000 + 1 by omega,
        List.range_succ_eq_map, List.map_cons, List.map_map]
      have hstep (t : Nat) : 5000 * (t + 1) + i = 5000 * t + (i + 5000) := by ring
      simp [Function.comp_def, hstep, batch]
    · rw [List.flatten_cons, hjoin, hsplit]
    · rw [hres, del_count _ _ (hnodup'.sublist (List.sublist_append_left _ _)) hbatch, ← hsplit,
        List.length_append]
      omega
    · rw [hnow, del_now]
    · rw [hlookup, lookup_del]
      by_cases h₁ : key ∈ keys.drop (i + 5000 - 1) <;> by_cases h₂ : key ∈ batch <;>
        simp [h₁, h₂, ← hsplit]
  | case2 i res db hlt =>
    -- past the last key
    rw [clearKeysFrom, if_neg hlt, List.drop_eq_nil_of_le (by omega),
      show (keys.length + 5000 - i) / 5000 = 0 by omega]
    simp

/-- `SCRIPT_CLEAR_KEYS` on the `n` keys matching its pattern issues `DEL` on the batches at
positions `i` to `min (i + 4999) n` for `i = 1, 5001, ... ≤ n`: `⌈n / 5000⌉` batches of 1 to
5000 keys which, in order, are the matching keys, each once. It deletes exactly the matching
keys and replies `n`. -/
theorem scriptClearKeys_deletes_in_batches (globMatch : String → Bool) (db : RedisDb) :
    let keys := db.keysMatching globMatch
    let calls := (db.scriptClearKeys globMatch).1
    calls = (List.range ((keys.length + 4999) / 5000)).map
        (fun t => unpack keys (5000 * t + 1) (min (5000 * t + 1 + 4999) keys.length)) ∧
      (∀ t, t < calls.length ↔ 5000 * t + 1 ≤ keys.length) ∧
      (calls.length : Int) = ⌈((keys.length : Int) : ℚ) / 5000⌉ ∧
      (∀ batch ∈ calls, 1 ≤ batch.length ∧ batch.length ≤ 5000) ∧
      calls.flatten = keys ∧
      (∀ key ∈ keys, calls.flatten.count key = 1) ∧
      (db.scriptClearKeys globMatch).2.1 = keys.length ∧
      (db.scriptClearKeys globMatch).2.2.now = db.now ∧
      ∀ key, (db.scriptClearKeys globMatch).2.2.dict.lookup key =
        if globMatch key then none else db.dict.lookup key := by
  intro keys calls
  have hnodup : keys.Nodup := nodup_keysMatching globMatch db
  obtain ⟨hcalls, hjoin, hres, hnow, hlookup⟩ := clearKeysFrom_spec keys hnodup 1 0 db le_rfl
    fun _ hkey => (mem_keysMatching.mp hkey).1
  rw [show keys.length + 5000 - 1 = keys.length + 4999 by omega] at hcalls
  rw [Nat.sub_self, List.drop_zero] at hjoin hres hlookup
  replace hcalls : calls = _ := hcalls
  have hlen : calls.length = (keys.length + 4999) / 5000 := by
    rw [hcalls, List.length_map, List.length_range]
  refine ⟨hcalls, fun t => by rw [hlen]; omega, ?_, fun batch hbatch => ?_, hjoin,
    fun key hkey => hjoin ▸ List.count_eq_one_of_mem hnodup hkey, by rw [scriptClearKeys, hres, Nat.zero_add],
    hnow, fun key => ?_⟩
  · -- the count of batches is the ceiling
    have hceil := @ceil_div_eq_ediv keys.length 5000 (by decide)
    rw [Int.cast_ofNat] at hceil
    rw [hceil, hlen]
    omega
  · -- every batch is one of 1 to 5000 keys
    rw [hcalls] at hbatch
    obtain ⟨t, ht, rfl⟩ := List.mem_map.mp hbatch
    have := List.mem_range.mp ht
    exact length_unpack keys (by omega) (by omega)
  · -- the keys deleted are the matching ones
    rw [scriptClearKeys, hlookup]
    by_cases hkey : key ∈ db.dict
    · simp [keys, hkey]
    · simp [keys, hkey, AList.lookup_eq_none.mpr hkey]

end RedisDb

end Pooler