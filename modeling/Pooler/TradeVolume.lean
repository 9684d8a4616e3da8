import Mathlib.Algebra.BigOperators.Group.List
import Mathlib.Algebra.Order.BigOperators.Group.List
import Mathlib.Algebra.BigOperators.Ring.List
import Mathlib.Algebra.Order.Group.Abs
import Mathlib.Data.Rat.Floor
import Mathlib.Data.String.Basic
import Mathlib.Tactic.Abel
import Mathlib.Tactic.Linarith

/-! The trade volume of a pair over an epoch: `extract_trade_volume_log` and the aggregation
`get_pair_contract_trades_async` of `uniswap_functions.py` runs over the epoch's `Swap`,
`Mint` and `Burn` logs.

The logs are grouped by transaction hash. Within a transaction they are sorted by event name,
descending, so that the `Burn`s come last. Each log's trades go to its event's totals and to
the transaction's totals, where a `Burn` is subtracted when the epoch's `Mint` total so far
reaches its USD volume rounded up; the transactions' absolute totals add up to `Trades`.

Amounts are Python floats, modelled as rationals: rounding is left out. `trade_data` comes from
`data_models`, which the sources import but do not contain; its `+`, `-` and `abs` act field by
field. The RPC results the function fetches before the loop (the pair's token decimals, the two
price maps, the logs and their blocks' timestamps) are the model's inputs.
-/

set_option autoImplicit false

namespace Pooler

/-! ## Trade data -/

/-- `trade_data`: a trade's or a sum of trades' USD volume and fee, and its volume of each
token, natively and in USD. -/
@[ext]
structure TradeData where
  totalTradesUSD : ℚ
  totalFeeUSD : ℚ
  token0TradeVolume : ℚ
  token1TradeVolume : ℚ
  token0TradeVolumeUSD : ℚ
  token1TradeVolumeUSD : ℚ
  deriving DecidableEq, Repr

namespace TradeData

instance : Zero TradeData := ⟨⟨0, 0, 0, 0, 0, 0⟩⟩

instance : Add TradeData :=
  ⟨fun a b => ⟨a.totalTradesUSD + b.totalTradesUSD, a.totalFeeUSD + b.totalFeeUSD,
    a.token0TradeVolume + b.token0TradeVolume, a.token1TradeVolume + b.token1TradeVolume,
    a.token0TradeVolumeUSD + b.token0TradeVolumeUSD, a.token1TradeVolumeUSD + b.token1TradeVolumeUSD⟩⟩

instance : Neg TradeData :=
  ⟨fun a => ⟨-a.totalTradesUSD, -a.totalFeeUSD, -a.token0TradeVolume, -a.token1TradeVolume,
    -a.token0TradeVolumeUSD, -a.token1TradeVolumeUSD⟩⟩

instance : Sub TradeData :=
  ⟨fun a b => ⟨a.totalTradesUSD - b.totalTradesUSD, a.totalFeeUSD - b.totalFeeUSD,
    a.token0TradeVolume - b.token0TradeVolume, a.token1TradeVolume - b.token1TradeVolume,
    a.token0TradeVolumeUSD - b.token0TradeVolumeUSD, a.token1TradeVolumeUSD - b.token1TradeVolumeUSD⟩⟩

instance : AddCommGroup TradeData where
  add_assoc a b c := by ext <;> exact add_assoc _ _ _
  zero_add a := by ext <;> exact zero_add _
  add_zero a := by ext <;> exact add_zero _
  add_comm a b := by ext <;> exact add_comm _ _
  neg_add_cancel a := by ext <;> exact neg_add_cancel _
  sub_eq_add_neg a b := by ext <;> exact sub_eq_add_neg _ _
  nsmul := nsmulRec
  zsmul := zsmulRec

@[simp] theorem add_totalTradesUSD (a b : TradeData) :
    (a + b).totalTradesUSD = a.totalTradesUSD + b.totalTradesUSD := rfl

/-- `abs(trade_data)`. -/
def abs (a : TradeData) : TradeData :=
  ⟨|a.totalTradesUSD|, |a.totalFeeUSD|, |a.token0TradeVolume|, |a.token1TradeVolume|,
    |a.token0TradeVolumeUSD|, |a.token1TradeVolumeUSD|⟩

/-- The six totals. -/
def fields : List (TradeData → ℚ) :=
  [totalTradesUSD, totalFeeUSD, token0TradeVolume, token1TradeVolume, token0TradeVolumeUSD,
    token1TradeVolumeUSD]

section Fields
variable {f : TradeData → ℚ}

theorem map_add (hf : f ∈ fields) (a b : TradeData) : f (a + b) = f a + f b := by
  simp only [fields, List.mem_cons, List.mem_singleton, List.not_mem_nil, or_false] at hf
  rcases hf with rfl | rfl | rfl | rfl | rfl | rfl <;> rfl

theorem map_neg (hf : f ∈ fields) (a : TradeData) : f (-a) = -f a := by
  simp only [fields, List.mem_cons, List.mem_singleton, List.not_mem_nil, or_false] at hf
  rcases hf with rfl | rfl | rfl | rfl | rfl | rfl <;> rfl

theorem map_zero (hf : f ∈ fields) : f 0 = 0 := by
  simp only [fields, List.mem_cons, List.mem_singleton, List.not_mem_nil, or_false] at hf
  rcases hf with rfl | rfl | rfl | rfl | rfl | rfl <;> rfl

theorem map_abs (hf : f ∈ fields) (a : TradeData) : f a.abs = |f a| := by
  simp only [fields, List.mem_cons, List.mem_singleton, List.not_mem_nil, or_false] at hf
  rcases hf with rfl | rfl | rfl | rfl | rfl | rfl <;> rfl

theorem map_sum (hf : f ∈ fields) (l : List TradeData) : f l.sum = (l.map f).sum := by
  induction l with
  | nil => exact map_zero hf
  | cons a l ih => rw [List.sum_cons, map_add hf, ih, List.map_cons, List.sum_cons]

theorem forall_fields {P : ℚ → Prop} {a : TradeData} :
    (∀ f ∈ fields, P (f a)) ↔ P a.totalTradesUSD ∧ P a.totalFeeUSD ∧ P a.token0TradeVolume ∧
      P a.token1TradeVolume ∧ P a.token0TradeVolumeUSD ∧ P a.token1TradeVolumeUSD := by
  simp [fields]

theorem eq_of_fields {a b : TradeData} (h : ∀ f ∈ fields, f a = f b) : a = b := by
  ext <;> exact h _ (by simp [fields])

end Fields

end TradeData

/-! ## Logs -/

/-- The decoded arguments of a pair's `Swap`, `Mint` or `Burn` log, the only events
`get_event_sig_and_abi` decodes; the `sender` and `to` addresses are left out. -/
inductive EventArgs where
  | swap (amount0In amount1In amount0Out amount1Out : Nat)
  | mint (amount0 amount1 : Nat)
  | burn (amount0 amount1 : Nat)
  deriving DecidableEq, Repr

/-- A decoded log, as `get_events_logs` returns it. -/
structure EventLog where
  address : String
  blockHash : String
  blockNumber : Nat
  logIndex : Nat
  transactionHash : String
  transactionIndex : Nat
  args : EventArgs
  deriving DecidableEq, Repr

/-- `log.event`, the decoded event's name. -/
def EventLog.event (log : EventLog) : String :=
  match log.args with
  | .swap .. => "Swap"
  | .mint .. => "Mint"
  | .burn .. => "Burn"

/-- `log.event == name`. -/
def eventIs (name : String) (log : EventLog) : Bool := log.event == name

/-- The log `extract_trade_volume_log` returns: the log's JSON without `blockHash` and
`transactionIndex`, with the token amounts, the block's timestamp (`none` for the empty
string written when the block has none) and the trade's USD amount. -/
structure ProcessedLog where
  address : String
  blockNumber : Nat
  logIndex : Nat
  transactionHash : String
  event : String
  args : EventArgs
  token0Amount : ℚ
  token1Amount : ℚ
  timestamp : Option Nat
  tradeAmountUsd : ℚ
  deriving DecidableEq, Repr

/-- What `get_pair_contract_trades_async` fetched before the logs: the decimals of the pair's
two tokens, from `get_pair_per_token_metadata`, and their price maps over the epoch's
blocks, from `get_trade_volume_epoch_price_map`. -/
structure PairContext where
  token0Decimals : Nat
  token1Decimals : Nat
  token0PriceMap : List (Nat × ℚ)
  token1PriceMap : List (Nat × ℚ)

/-! ## One log -/

/-- `token_native_and_usd_amount`: an argument in whole tokens, and in USD at the price of the
log's block (0 for a block the map lacks). -/
def tokenNativeAndUsdAmount (value decimals : Nat) (tokenPriceMap : List (Nat × ℚ))
    (blockNumber : Nat) : ℚ × ℚ :=
  if value ≤ 0 then (0, 0)
  else
    let tokenAmount := (value : ℚ) / 10 ^ decimals
    (tokenAmount, tokenAmount * (tokenPriceMap.lookup blockNumber).getD 0)

/-- The `trade_data` `extract_trade_volume_log` computes for a log. A swap's volume is its
larger USD side, its fee 0.3% of its token1 side (of its token0 side when that is 0); a mint's
or a burn's volume is the sum of its sides, with no fee. -/
def logTrades (ctx : PairContext) (log : EventLog) : TradeData :=
  let side0 := fun value => tokenNativeAndUsdAmount value ctx.token0Decimals ctx.token0PriceMap log.blockNumber
  let side1 := fun value => tokenNativeAndUsdAmount value ctx.token1Decimals ctx.token1PriceMap log.blockNumber
  match log.args with
  | .swap amount0In amount1In amount0Out amount1Out =>
    let token0Amount := |(side0 amount0Out).1 - (side0 amount0In).1|
    let token1Amount := |(side1 amount1Out).1 - (side1 amount1In).1|
    let token0AmountUsd := |(side0 amount0Out).2 - (side0 amount0In).2|
    let token1AmountUsd := |(side1 amount1Out).2 - (side1 amount1In).2|
    let tradeVolumeUsd :=
      if token1AmountUsd ≠ 0 ∧ token0AmountUsd ≠ 0 then
        if token1AmountUsd > token0AmountUsd then token1AmountUsd else token0AmountUsd
      else if token1AmountUsd ≠ 0 then token1AmountUsd else token0AmountUsd
    let tradeFeeUsd := if token1AmountUsd ≠ 0 then token1AmountUsd * 0.003 else token0AmountUsd * 0.003
    ⟨tradeVolumeUsd, tradeFeeUsd, token0Amount, token1Amount, token0AmountUsd, token1AmountUsd⟩
  | .mint amount0 amount1 | .burn amount0 amount1 =>
    ⟨(side0 amount0).2 + (side1 amount1).2, 0, (side0 amount0).1, (side1 amount1).1,
      (side0 amount0).2, (side1 amount1).2⟩

/-- `extract_trade_volume_log`, with `timestamp` what `get_block_details` gave for the log's
block: the log's trades, and the processed log. -/
def extractTradeVolumeLog (ctx : PairContext) (timestamp : Option Nat) (log : EventLog) :
    TradeData × ProcessedLog :=
  let trades := logTrades ctx log
  (trades, ⟨log.address, log.blockNumber, log.logIndex, log.transactionHash, log.event, log.args,
    trades.token0TradeVolume, trades.token1TradeVolume, timestamp, trades.totalTradesUSD⟩)

/-! ## The epoch -/

/-- `event_trade_data`: an event's processed logs and their summed trades. -/
structure EventTradeData where
  logs : List ProcessedLog
  trades : TradeData
  deriving DecidableEq, Repr

/-- `logs.append(processed_log)` and `trades += trades_result`. -/
def EventTradeData.push (data : EventTradeData) (processedLog : ProcessedLog) (tradesResult : TradeData) :
    EventTradeData :=
  ⟨data.logs ++ [processedLog], data.trades + tradesResult⟩

/-- `epoch_event_trade_data`: the epoch's results per event, and its net `Trades`. -/
structure EpochEventTradeData where
  swap : EventTradeData
  mint : EventTradeData
  burn : EventTradeData
  trades : TradeData
  deriving DecidableEq, Repr

/-- The results the loop starts from, every list empty and every total 0. -/
def EpochEventTradeData.init : EpochEventTradeData := ⟨⟨[], 0⟩, ⟨[], 0⟩, ⟨[], 0⟩, 0⟩

/-- One log of a transaction, on the epoch's results and the transaction's `tx_hash_trades`. -/
def processLog (ctx : PairContext) (timestamps : Nat → Option Nat)
    (acc : EpochEventTradeData × TradeData) (log : EventLog) : EpochEventTradeData × TradeData :=
  let (tradesResult, processedLog) := extractTradeVolumeLog ctx (timestamps log.blockNumber) log
  if log.event = "Swap" then
    ({ acc.1 with swap := acc.1.swap.push processedLog tradesResult }, acc.2 + tradesResult)
  else if log.event = "Mint" then
    ({ acc.1 with mint := acc.1.mint.push processedLog tradesResult }, acc.2 + tradesResult)
  else if log.event = "Burn" then
    let epochResults := { acc.1 with burn := acc.1.burn.push processedLog tradesResult }
    if (⌈tradesResult.totalTradesUSD⌉ : ℚ) ≤ epochResults.mint.trades.totalTradesUSD then
      (epochResults, acc.2 - tradesResult)
    else (epochResults, acc.2 + tradesResult)
  else acc

/-- `sorted(logs, key=lambda x: x.event, reverse=True)`. -/
def sortByEvent (logs : List EventLog) : List EventLog :=
  logs.mergeSort fun a b => decide (b.event ≤ a.event)

/-- One transaction: its sorted logs from `tx_hash_trades = 0`, then `abs(tx_hash_trades)`
added to `Trades`. -/
def processTx (ctx : PairContext) (timestamps : Nat → Option Nat)
    (epochResults : EpochEventTradeData) (logs : List EventLog) : EpochEventTradeData :=
  let acc := (sortByEvent logs).foldl (processLog ctx timestamps) (epochResults, 0)
  { acc.1 with trades := acc.1.trades + acc.2.abs }

/-- One log of the grouping comprehension: appended to its hash's list when the hash was seen,
else a new entry; the dict keeps its keys in insertion order. -/
def groupLog (groupedByTx : List (String × List EventLog)) (log : EventLog) :
    List (String × List EventLog) :=
  if log.transactionHash ∈ groupedByTx.map Prod.fst then
    groupedByTx.map fun group => if group.1 = log.transactionHash then (group.1, group.2 ++ [log]) else group
  else groupedByTx ++ [(log.transactionHash, [log])]

/-- `grouped_by_tx`. -/
def groupByTx (eventsLog : List EventLog) : List (String × List EventLog) :=
  eventsLog.foldl groupLog []

/-- `get_pair_contract_trades_async` from the fetched logs on: the epoch's results and
`to_block`'s timestamp. -/
def getPairContractTradesAsync (ctx : PairContext) (timestamps : Nat → Option Nat)
    (maxBlockTimestamp : Option Nat) (eventsLog : List EventLog) : EpochEventTradeData × Option Nat :=
  ((groupByTx eventsLog).foldl (fun epochResults group => processTx ctx timestamps epochResults group.2)
    EpochEventTradeData.init, maxBlockTimestamp)

/-! ## What the loop computes -/

section Loop
variable (ctx : PairContext) (timestamps : Nat → Option Nat)

/-- The processed log the loop appends for `log`. -/
def processedLogOf (log : EventLog) : ProcessedLog := (extractTradeVolumeLog ctx (timestamps log.blockNumber) log).2

/-- The logs' trades, summed. -/
def tradesOf (logs : List EventLog) : TradeData := (logs.map (logTrades ctx)).sum

/-- An event's results with `logs` appended, in order. -/
def EventTradeData.pushAll (data : EventTradeData) (logs : List EventLog) : EventTradeData :=
  ⟨data.logs ++ logs.map (processedLogOf ctx timestamps), data.trades + tradesOf ctx logs⟩

/-- A `Burn`'s trades, signed against `minted`: subtracted when `minted` reaches its USD
volume rounded up. -/
def signedBurn (minted : ℚ) (trades : TradeData) : TradeData :=
  if (⌈trades.totalTradesUSD⌉ : ℚ) ≤ minted then -trades else trades

/-- A transaction's net trades: its `Swap`s and `Mint`s, and its `Burn`s signed against
`minted`. -/
def netOfTx (minted : ℚ) (logs : List EventLog) : TradeData :=
  tradesOf ctx (logs.filter (eventIs "Swap")) + tradesOf ctx (logs.filter (eventIs "Mint")) +
    ((logs.filter (eventIs "Burn")).map fun log => signedBurn minted (logTrades ctx log)).sum

/-- The net `Trades` of transactions in order, from an epoch `Mint` total of `minted`: each
transaction's net trades, its `Burn`s signed against the `Mint` total through its own
`Mint`s, taken absolutely. -/
def netTrades : ℚ → List (List EventLog) → TradeData
  | _, [] => 0
  | minted, logs :: txs =>
    let minted := minted + (tradesOf ctx (logs.filter (eventIs "Mint"))).totalTradesUSD
    (netOfTx ctx minted logs).abs + netTrades minted txs

@[simp] theorem tradesOf_nil : tradesOf ctx [] = 0 := rfl

@[simp] theorem tradesOf_cons (log : EventLog) (logs : List EventLog) :
    tradesOf ctx (log :: logs) = logTrades ctx log + tradesOf ctx logs := by
  simp [tradesOf]

@[simp] theorem tradesOf_append (logs logs' : List EventLog) :
    tradesOf ctx (logs ++ logs') = tradesOf ctx logs + tradesOf ctx logs' := by
  simp [tradesOf]

theorem tradesOf_perm {logs logs' : List EventLog} (h : logs.Perm logs') :
    tradesOf ctx logs = tradesOf ctx logs' :=
  (h.map _).sum_eq

@[simp] theorem EventTradeData.pushAll_nil (data : EventTradeData) :
    data.pushAll ctx timestamps [] = data := by
  simp [EventTradeData.pushAll]

@[simp] theorem EventTradeData.pushAll_pushAll (data : EventTradeData) (logs logs' : List EventLog) :
    (data.pushAll ctx timestamps logs).pushAll ctx timestamps logs' = data.pushAll ctx timestamps (logs ++ logs') := by
  simp [EventTradeData.pushAll, add_assoc]

theorem eventIs_cases (log : EventLog) :
    (eventIs "Swap" log = true ∧ eventIs "Mint" log = false ∧ eventIs "Burn" log = false) ∨
    (eventIs "Swap" log = false ∧ eventIs "Mint" log = true ∧ eventIs "Burn" log = false) ∨
    (eventIs "Swap" log = false ∧ eventIs "Mint" log = false ∧ eventIs "Burn" log = true) := by
  rcases h : log.args <;> simp [eventIs, EventLog.event, h]

end Loop

/-! ## The sort puts `Burn`s last -/

theorem eq_filter_append_filter_of_pairwise {R : EventLog → EventLog → Prop} {p : EventLog → Bool}
    (hR : ∀ a b, R a b → p a → p b) :
    ∀ {logs : List EventLog}, logs.Pairwise R → logs = logs.filter (fun log => !p log) ++ logs.filter p
  | [], _ => rfl
  | log :: logs, hpair => by
    rw [List.pairwise_cons] at hpair
    by_cases hp : p log
    · have hall : ∀ l ∈ logs, p l := fun l hl => hR _ _ (hpair.1 l hl) hp
      rw [List.filter_cons_of_neg (by simp [hp]), List.filter_cons_of_pos hp,
        List.filter_eq_nil_iff.mpr (by simpa using hall), List.filter_eq_self.mpr hall, List.nil_append]
    · rw [List.filter_cons_of_pos (by simp [hp]), List.filter_cons_of_neg hp, List.cons_append,
        ← eq_filter_append_filter_of_pairwise hR hpair.2]

theorem sortByEvent_perm (logs : List EventLog) : (sortByEvent logs).Perm logs :=
  List.mergeSort_perm _ _

/-! ## One transaction -/

section Tx
variable (ctx : PairContext) (timestamps : Nat → Option Nat)

theorem tradesOf_filter_not_burn (logs : List EventLog) :
    tradesOf ctx (logs.filter fun log => !eventIs "Burn" log) =
      tradesOf ctx (logs.filter (eventIs "Swap")) + tradesOf ctx (logs.filter (eventIs "Mint")) := by
  induction logs with
  | nil => simp
  | cons log logs ih =>
    rcases eventIs_cases log with ⟨h₁, h₂, h₃⟩ | ⟨h₁, h₂, h₃⟩ | ⟨h₁, h₂, h₃⟩ <;>
      simp [List.filter_cons, h₁, h₂, h₃, ih] <;> abel

theorem flatMap_sortByEvent_filter_perm (p : EventLog → Bool) :
    ∀ txs : List (List EventLog), (txs.flatMap fun logs => (sortByEvent logs).filter p).Perm (txs.flatten.filter p)
  | [] => .nil
  | logs :: txs => by
    rw [List.flatMap_cons, List.flatten_cons, List.filter_append]
    exact ((sortByEvent_perm logs).filter p).append (flatMap_sortByEvent_filter_perm p txs)

end Tx

/-! ## Grouping by transaction -/

/-- What `grouped_by_tx` holds after `logs`: each hash of the logs once, with exactly the logs
of its transaction, in their order. -/
structure GroupsWF (logs : List EventLog) (groups : List (String × List EventLog)) : Prop where
  nodup : (groups.map Prod.fst).Nodup
  hashes : ∀ h, h ∈ groups.map Prod.fst ↔ ∃ log ∈ logs, log.transactionHash = h
  group : ∀ g ∈ groups, g.2 = logs.filter fun log => log.transactionHash = g.1
  perm : (groups.map Prod.snd).flatten.Perm logs

theorem flatten_update_perm (h : String) (log : EventLog) :
    ∀ groups : List (String × List EventLog), (groups.map Prod.fst).Nodup → h ∈ groups.map Prod.fst →
      ((groups.map fun g => if g.1 = h then (g.1, g.2 ++ [log]) else g).map Prod.snd).flatten.Perm
        ((groups.map Prod.snd).flatten ++ [log])
  | [], _, hmem => absurd hmem (List.not_mem_nil _)
  | g :: groups, hnodup, hmem => by
    rw [List.map_cons, List.nodup_cons] at hnodup
    by_cases hg : g.1 = h
    · -- the group of `h`; no other group has its hash
      have hrest : (groups.map fun g => if g.1 = h then (g.1, g.2 ++ [log]) else g) = groups :=
        (List.map_congr_left fun g' hg' => if_neg fun h' => hnodup.1 (by
          rw [hg, ← h']
          exact List.mem_map_of_mem _ hg')).trans (List.map_id _)
      simp only [List.map_cons, if_pos hg, hrest, List.flatten_cons, List.append_assoc]
      exact (List.perm_append_comm).append_left _
    · have hmem' : h ∈ groups.map Prod.fst := by
        rcases List.mem_cons.mp (List.map_cons _ _ _ ▸ hmem) with h' | h'
        exacts [absurd h'.symm hg, h']
      simp only [List.map_cons, if_neg hg, List.flatten_cons, List.append_assoc]
      exact (flatten_update_perm h log groups hnodup.2 hmem').append_left _

theorem GroupsWF.step {logs : List EventLog} {groups : List (String × List EventLog)}
    (wf : GroupsWF logs groups) (log : EventLog) : GroupsWF (logs ++ [log]) (groupLog groups log) := by
  unfold groupLog
  split_ifs with hmem
  · -- a hash seen before: its group grows
    have hfst : ((groups.map fun g => if g.1 = log.transactionHash then (g.1, g.2 ++ [log]) else g).map Prod.fst) =
        groups.map Prod.fst := by
      rw [List.map_map]
      congr 1
      funext g
      by_cases hg : g.1 = log.transactionHash <;> simp [hg]
    refine ⟨hfst ▸ wf.nodup, fun h => ?_, fun g' hg' => ?_, ?_⟩
    · rw [hfst, wf.hashes]
      constructor
      · rintro ⟨l, hl, rfl⟩
        exact ⟨l, List.mem_append_left _ hl, rfl⟩
      · rintro ⟨l, hl, rfl⟩
        rcases List.mem_append.mp hl with hl | hl
        · exact ⟨l, hl, rfl⟩
        · rw [List.mem_singleton.mp hl]
          exact (wf.hashes _).mp hmem
    · obtain ⟨g, hg, rfl⟩ := List.mem_map.mp hg'
      have hgroup := wf.group g hg
      by_cases hhash : g.1 = log.transactionHash
      · simp [hhash, List.filter_append, hgroup]
      · simp [hhash, Ne.symm hhash, List.filter_append, hgroup]
    · exact (flatten_update_perm _ log groups wf.nodup hmem).trans (wf.perm.append_right _)
  · -- a new hash: a new group at the end
    refine ⟨?_, fun h => ?_, fun g' hg' => ?_, ?_⟩
    · rw [List.map_append, List.map_singleton]
      exact wf.nodup.append (List.nodup_singleton _) (List.disjoint_singleton.mpr hmem)
    · rw [List.map_append, List.map_singleton, List.mem_append, wf.hashes, List.mem_singleton]
      simp only [List.mem_append, List.mem_singleton]
      constructor
      · rintro (⟨l, hl, rfl⟩ | rfl)
        exacts [⟨l, .inl hl, rfl⟩, ⟨log, .inr rfl, rfl⟩]
      · rintro ⟨l, hl | rfl, rfl⟩
        exacts [.inl ⟨l, hl, rfl⟩, .inr rfl]
    · rw [List.filter_append]
      rcases List.mem_append.mp hg' with hg' | hg'
      · have hne : g'.1 ≠ log.transactionHash := fun h => hmem (h ▸ List.mem_map_of_mem _ hg')
        simp [← wf.group g' hg', Ne.symm hne]
      · rw [List.mem_singleton.mp hg']
        have hnone : logs.filter (fun l => l.transactionHash = log.transactionHash) = [] :=
          List.filter_eq_nil_iff.mpr fun l hl h => hmem ((wf.hashes _).mpr ⟨l, hl, by simpa using h⟩)
        simp [hnone]
    · simpa using wf.perm.append_right [log]

theorem GroupsWF.nil : GroupsWF [] [] := ⟨List.nodup_nil, by simp, by simp, .nil⟩

section Epoch
variable (ctx : PairContext) (timestamps : Nat → Option Nat) (maxBlockTimestamp : Option Nat)

end Epoch

/-! ## Bounds -/

section Bounds
variable {ctx : PairContext}

theorem lookup_getD_nonneg {priceMap : List (Nat × ℚ)} (hprices : ∀ entry ∈ priceMap, 0 ≤ entry.2)
    (blockNumber : Nat) : 0 ≤ (priceMap.lookup blockNumber).getD 0 := by
  cases h : priceMap.lookup blockNumber with
  | none => exact le_rfl
  | some price =>
    obtain ⟨l₁, l₂, hsplit, -⟩ := List.lookup_eq_some_iff.mp h
    exact hprices (blockNumber, price) (hsplit ▸ List.mem_append_right _ (.head _))

theorem tokenNativeAndUsdAmount_nonneg {priceMap : List (Nat × ℚ)} (hprices : ∀ entry ∈ priceMap, 0 ≤ entry.2)
    (value decimals blockNumber : Nat) :
    0 ≤ (tokenNativeAndUsdAmount value decimals priceMap blockNumber).1 ∧
      0 ≤ (tokenNativeAndUsdAmount value decimals priceMap blockNumber).2 := by
  unfold tokenNativeAndUsdAmount
  split_ifs
  · exact ⟨le_rfl, le_rfl⟩
  · have := lookup_getD_nonneg hprices blockNumber
    exact ⟨by positivity, by positivity⟩

theorem logTrades_nonneg (hprices : ∀ entry ∈ ctx.token0PriceMap ++ ctx.token1PriceMap, 0 ≤ entry.2)
    (log : EventLog) : ∀ f ∈ TradeData.fields, 0 ≤ f (logTrades ctx log) := by
  have h₀ := fun value => tokenNativeAndUsdAmount_nonneg
    (fun e he => hprices e (List.mem_append_left _ he)) value ctx.token0Decimals log.blockNumber
  have h₁ := fun value => tokenNativeAndUsdAmount_nonneg
    (fun e he => hprices e (List.mem_append_right _ he)) value ctx.token1Decimals log.blockNumber
  rw [TradeData.forall_fields]
  rcases h : log.args with ⟨a, b, c, d⟩ | ⟨a, b⟩ | ⟨a, b⟩ <;> simp only [logTrades, h]
  · -- a swap's totals are absolute differences
    exact ⟨by split_ifs <;> positivity, by split_ifs <;> positivity, abs_nonneg _, abs_nonneg _,
      abs_nonneg _, abs_nonneg _⟩
  · exact ⟨add_nonneg (h₀ a).2 (h₁ b).2, le_rfl, (h₀ a).1, (h₁ b).1, (h₀ a).2, (h₁ b).2⟩
  · exact ⟨add_nonneg (h₀ a).2 (h₁ b).2, le_rfl, (h₀ a).1, (h₁ b).1, (h₀ a).2, (h₁ b).2⟩

/-- Every log is a `Swap`, a `Mint` or a `Burn`. -/
theorem tradesOf_eq_events (logs : List EventLog) :
    tradesOf ctx logs = tradesOf ctx (logs.filter (eventIs "Swap")) +
      tradesOf ctx (logs.filter (eventIs "Mint")) + tradesOf ctx (logs.filter (eventIs "Burn")) := by
  rw [← tradesOf_filter_not_burn, ← tradesOf_append,
    tradesOf_perm ctx ((List.filter_append_perm _ logs).symm.trans List.perm_append_comm)]

section Field
variable {f : TradeData → ℚ} (hf : f ∈ TradeData.fields)
include hf

theorem map_tradesOf_nonneg (hnonneg : ∀ log, 0 ≤ f (logTrades ctx log)) (logs : List EventLog) :
    0 ≤ f (tradesOf ctx logs) := by
  rw [tradesOf, TradeData.map_sum hf, List.map_map]
  exact List.sum_nonneg fun x hx => by
    obtain ⟨log, -, rfl⟩ := List.mem_map.mp hx
    exact hnonneg log

theorem abs_map_netOfTx_le (hnonneg : ∀ log, 0 ≤ f (logTrades ctx log)) (minted : ℚ) (logs : List EventLog) :
    |f (netOfTx ctx minted logs)| ≤ f (tradesOf ctx logs) := by
  have hburns : ∀ burns : List EventLog,
      |f ((burns.map fun log => signedBurn minted (logTrades ctx log)).sum)| ≤ f (tradesOf ctx burns) := by
    intro burns
    induction burns with
    | nil => simp [TradeData.map_zero hf]
    | cons log burns ih =>
      have hsigned : |f (signedBurn minted (logTrades ctx log))| = f (logTrades ctx log) := by
        unfold signedBurn
        split_ifs
        · rw [TradeData.map_neg hf, abs_neg, abs_of_nonneg (hnonneg log)]
        · exact abs_of_nonneg (hnonneg log)
      rw [List.map_cons, List.sum_cons, TradeData.map_add hf, tradesOf_cons, TradeData.map_add hf]
      exact (abs_add _ _).trans (add_le_add hsigned.le ih)
  have hswap := map_tradesOf_nonneg hf hnonneg (logs.filter (eventIs "Swap"))
  have hmint := map_tradesOf_nonneg hf hnonneg (logs.filter (eventIs "Mint"))
  have hburn := hburns (logs.filter (eventIs "Burn"))
  rw [netOfTx, TradeData.map_add hf, TradeData.map_add hf, tradesOf_eq_events logs, TradeData.map_add hf,
    TradeData.map_add hf]
  rw [abs_le] at hburn ⊢
  constructor <;> linarith [hburn.1, hburn.2]

theorem map_netTrades_bounds (hnonneg : ∀ log, 0 ≤ f (logTrades ctx log)) :
    ∀ (minted : ℚ) (txs : List (List EventLog)),
      0 ≤ f (netTrades ctx minted txs) ∧ f (netTrades ctx minted txs) ≤ f (tradesOf ctx txs.flatten)
  | _, [] => by simp [netTrades, TradeData.map_zero hf]
  | minted, logs :: txs => by
    obtain ⟨hlow, hhigh⟩ := map_netTrades_bounds hnonneg _ txs
    have hnet := abs_map_netOfTx_le hf hnonneg
      (minted + (tradesOf ctx (logs.filter (eventIs "Mint"))).totalTradesUSD) logs
    rw [netTrades, TradeData.map_add hf, TradeData.map_abs hf, List.flatten_cons, tradesOf_append,
      TradeData.map_add hf]
    exact ⟨add_nonneg (abs_nonneg _) hlow, add_le_add hnet hhigh⟩

end Field

/-- With no `Burn`, a transaction's net trades are its `Swap`s' and `Mint`s'. -/
theorem netTrades_of_no_burn (hprices : ∀ entry ∈ ctx.token0PriceMap ++ ctx.token1PriceMap, 0 ≤ entry.2) :
    ∀ (minted : ℚ) (txs : List (List EventLog)), (∀ logs ∈ txs, logs.filter (eventIs "Burn") = []) →
      netTrades ctx minted txs =
        tradesOf ctx (txs.flatten.filter (eventIs "Swap")) + tradesOf ctx (txs.flatten.filter (eventIs "Mint"))
  | _, [], _ => by simp [netTrades]
  | minted, logs :: txs, hnone => by
    have hrest := netTrades_of_no_burn hprices
      (minted + (tradesOf ctx (logs.filter (eventIs "Mint"))).totalTradesUSD) txs fun l hl => hnone l (.tail _ hl)
    have habs : (netOfTx ctx (minted + (tradesOf ctx (logs.filter (eventIs "Mint"))).totalTradesUSD) logs).abs =
        netOfTx ctx (minted + (tradesOf ctx (logs.filter (eventIs "Mint"))).totalTradesUSD) logs :=
      TradeData.eq_of_fields fun f hf => by
        rw [TradeData.map_abs hf, abs_of_nonneg]
        rw [netOfTx, hnone logs (.head _), List.map_nil, List.sum_nil, add_zero, TradeData.map_add hf]
        exact add_nonneg (map_tradesOf_nonneg hf (fun log => logTrades_nonneg hprices log f hf) _)
          (map_tradesOf_nonneg hf (fun log => logTrades_nonneg hprices log f hf) _)
    rw [netTrades, habs, hrest, netOfTx, hnone logs (.head _), List.map_nil, List.sum_nil, add_zero,
      List.flatten_cons, List.filter_append, List.filter_append, tradesOf_append, tradesOf_append]
    abel

end Bounds

end Pooler