import Pooler.Liquidity

/-! Runs of the price functions: the calls the process makes into them, one after another over
one store, each with the answers its requests get.

Every call only adds to the store: the pair of two tokens and a token's price at a height, once
cached, stay as they are over any run, whatever the chain answers later.
-/

set_option autoImplicit false

namespace Pooler

/-- A call of the process into the price functions, with the answers its requests get:
`get_token_price_at_block_height`, `get_trade_volume_epoch_price_map` and
`get_liquidity_of_each_token_reserve_async` with their attempts, and
`get_pair_per_token_metadata`. -/
inductive PriceCall where
  | tokenPriceAtBlockHeight (attempts : List Chain) (token : String) (blockHeight : BlockId)
  | pairPerTokenMetadata (rpc : Chain) (pairAddress : String)
  | tradeVolumeEpochPriceMap (attempts : Nat → List Chain) (token : String) (fromBlock toBlock : Nat)
  | liquidityOfEachTokenReserve (rpc : Chain) (attempts : List Chain) (pairAddress : String)
      (blockIdentifier : BlockId) (fetchTimestamp : Bool)

inductive PriceAnswer where
  | price (value : ℚ)
  | metadata (value : PairMetadata)
  | priceMap (value : List (Nat × ℚ))
  | liquidity (value : TokenReserves)
  deriving DecidableEq, Repr

namespace PriceCall

def run (settings : PriceSettings) : PriceCall → PriceM PriceAnswer
  | tokenPriceAtBlockHeight attempts token blockHeight => do
    let price ← retrying (fun rpc => getTokenPriceAtBlockHeight settings rpc token blockHeight) attempts
    pure (.price price)
  | pairPerTokenMetadata rpc pairAddress => do
    let metadata ← getPairPerTokenMetadata settings rpc pairAddress
    pure (.metadata metadata)
  | tradeVolumeEpochPriceMap attempts token fromBlock toBlock => do
    let priceMap ← getTradeVolumeEpochPriceMap settings attempts token fromBlock toBlock
    pure (.priceMap priceMap)
  | liquidityOfEachTokenReserve rpc attempts pairAddress blockIdentifier fetchTimestamp => do
    let liquidity ← getLiquidityOfEachTokenReserveAsync settings rpc attempts pairAddress
      blockIdentifier fetchTimestamp
    pure (.liquidity liquidity)

theorem run_keeps {s₀ : PriceStore} (settings : PriceSettings) (call : PriceCall) :
    Triple (PriceStore.Keeps s₀) (call.run settings) fun _ => True := by
  cases call with
  | tokenPriceAtBlockHeight attempts token blockHeight =>
    exact Triple.bind (retrying_triple _ fun rpc _ =>
      getTokenPriceAtBlockHeight_keeps rpc token blockHeight) fun _ _ => Triple.pure trivial
  | pairPerTokenMetadata rpc pairAddress =>
    exact Triple.bind (getPairPerTokenMetadata_keeps settings rpc pairAddress) fun _ _ =>
      Triple.pure trivial
  | tradeVolumeEpochPriceMap attempts token fromBlock toBlock =>
    exact Triple.bind (getTradeVolumeEpochPriceMap_keeps attempts token fromBlock toBlock) fun _ _ =>
      Triple.pure trivial
  | liquidityOfEachTokenReserve rpc attempts pairAddress blockIdentifier fetchTimestamp =>
    exact Triple.bind (getLiquidityOfEachTokenReserveAsync_keeps rpc attempts pairAddress
      blockIdentifier fetchTimestamp) fun _ _ => Triple.pure trivial

end PriceCall

/-- The process's calls one after another: a call that raises answers nothing, and the next one
runs on the store it left. -/
def runCalls (settings : PriceSettings) : List PriceCall → PriceStore →
    List (Option PriceAnswer) × PriceStore
  | [], s => ([], s)
  | call :: calls, s =>
    match (call.run settings).run s with
    | .ok answer s' =>
      let rest := runCalls settings calls s'
      (some answer :: rest.1, rest.2)
    | .error _ s' =>
      let rest := runCalls settings calls s'
      (none :: rest.1, rest.2)

/-- What every call keeps, a run keeps; every answer satisfies its call's postcondition. -/
theorem runCalls_triple {settings : PriceSettings} {inv : PriceStore → Prop}
    {post : PriceCall → PriceAnswer → Prop} (calls : List PriceCall)
    (hcalls : ∀ call ∈ calls, Triple inv (call.run settings) (post call)) (s : PriceStore)
    (hs : inv s) :
    List.Forall₂ (fun call answer => ∀ a, answer = some a → post call a) calls
      (runCalls settings calls s).1 ∧ inv (runCalls settings calls s).2 := by
  induction calls generalizing s with
  | nil => exact ⟨.nil, hs⟩
  | cons call calls ih =>
    have hcall := hcalls call (.head _) s hs
    have hrest := ih fun c hc => hcalls c (.tail _ hc)
    cases hrun : (call.run settings).run s with
    | ok answer s' =>
      rw [hrun] at hcall
      simp only [runCalls, hrun]
      obtain ⟨hanswers, hfinal⟩ := hrest s' hcall.2
      exact ⟨.cons (fun a ha => Option.some.inj ha ▸ hcall.1) hanswers, hfinal⟩
    | error e s' =>
      rw [hrun] at hcall
      simp only [runCalls, hrun]
      obtain ⟨hanswers, hfinal⟩ := hrest s' hcall
      exact ⟨.cons (fun _ ha => nomatch ha) hanswers, hfinal⟩

theorem getPair_run_of_cached {rpc : Chain} {token0 token1 pair : String} {s : PriceStore}
    (h : s.tokensPairMap (pairMapKey token0 token1) = some pair) :
    (getPair rpc token0 token1).run s = .ok pair s := by
  show getPair rpc token0 token1 s = .ok pair s
  simp only [getPair, bind, EStateM.bind, get, getThe, MonadStateOf.get, EStateM.get, h]
  rfl

/-- Once `uniswap_tokens_pair_map` holds a pair for two tokens, the zero address included, every
`get_pair` of them after any run of the price functions returns it, whatever the factory
answers then: a pair created after the first lookup is never seen. -/
theorem runCalls_getPair_pinned (settings : PriceSettings) (calls : List PriceCall) {s : PriceStore}
    {token0 token1 pair : String} (h : s.tokensPairMap (pairMapKey token0 token1) = some pair)
    (rpc : Chain) :
    (getPair rpc token0 token1).run (runCalls settings calls s).2 =
      .ok pair (runCalls settings calls s).2 :=
  getPair_run_of_cached ((runCalls_triple calls (fun call _ => PriceCall.run_keeps settings call) s
    (PriceStore.Keeps.refl s)).2.tokensPairMap _ _ h)

theorem runCalls_getPair_pinned_zero :
    (⟨.empty, fun _ => .empty, fun _ => some zeroAddress, fun _ => none, fun _ => none⟩ :
      PriceStore).tokensPairMap (pairMapKey "0xweth" "0xtoken") = some zeroAddress ∧
    (getPair ⟨fun _ => none, fun _ => none, fun _ _ => none, fun _ _ _ => none, fun _ _ => some "0xpair",
        fun _ => none, fun _ => none⟩ "0xweth" "0xtoken").run
      (runCalls ⟨"0xweth", "0xmaker", [], 1, 1, nofun⟩ []
        ⟨.empty, fun _ => .empty, fun _ => some zeroAddress, fun _ => none, fun _ => none⟩).2 =
      .ok zeroAddress (runCalls ⟨"0xweth", "0xmaker", [], 1, 1, nofun⟩ []
        ⟨.empty, fun _ => .empty, fun _ => some zeroAddress, fun _ => none, fun _ => none⟩).2 :=
  ⟨rfl, runCalls_getPair_pinned _ _ rfl _⟩

/-- Nothing takes a token price back: in a store whose token prices are scored at their block
heights, a token's price cached at a height is the one cached there after any run of the price
functions, whatever the chain answers. The ETH price cache is pruned; the token price caches are
not. -/
theorem runCalls_tokenPrice_kept (settings : PriceSettings) (calls : List PriceCall) {s : PriceStore}
    (hscored : s.TokenPricesScored) {token : String} {blockHeight : BlockId} {price : ℚ}
    (hcached : cachedPrice (s.cachedBlockHeightTokenPrice token) blockHeight = some price) :
    cachedPrice ((runCalls settings calls s).2.cachedBlockHeightTokenPrice token) blockHeight =
      some price :=
  cachedPrice_of_extends (((runCalls_triple calls (fun call _ => PriceCall.run_keeps settings call) s
    (PriceStore.Keeps.refl s)).2.tokenPrices hscored).2 token) hcached

theorem runCalls_tokenPrice_kept_liquidity :
    PriceStore.TokenPricesScored ⟨.empty, fun _ => ⟨[(⟨7, 3⟩, 7)]⟩, fun _ => none, fun _ => none, fun _ => none⟩ ∧
    cachedPrice ((⟨.empty, fun _ => ⟨[(⟨7, 3⟩, 7)]⟩, fun _ => none, fun _ => none, fun _ => none⟩ : PriceStore).cachedBlockHeightTokenPrice "0xtoken") (.height 7) = some 3 ∧
    cachedPrice ((runCalls ⟨"0xweth", "0xmaker", [], 1, 1, nofun⟩
        [.liquidityOfEachTokenReserve ⟨fun _ => none, fun _ => none, fun _ _ => none, fun _ _ _ => none, fun _ _ => none, fun _ => none,
          fun _ => none⟩ [] "0xpair" (.height 7) true]
        ⟨.empty, fun _ => ⟨[(⟨7, 3⟩, 7)]⟩, fun _ => none, fun _ => none, fun _ => none⟩).2.cachedBlockHeightTokenPrice "0xtoken") (.height 7) = some 3 :=
  have hscored : PriceStore.TokenPricesScored ⟨.empty, fun _ => ⟨[(⟨7, 3⟩, 7)]⟩, fun _ => none, fun _ => none, fun _ => none⟩ := by
    intro _ entry hentry
    rw [List.mem_singleton.mp hentry]
    rfl
  ⟨hscored, rfl, runCalls_tokenPrice_kept _ _ hscored rfl⟩

end Pooler
