import Pooler.PriceCache
import Pooler.TradeVolume

/-! The price of a token at a block, `get_token_price_at_block_height`, and an epoch's price map,
`get_trade_volume_epoch_price_map`, over the caches of `PriceCache`.

A token other than WETH is priced through the whitelist: the first whitelisted token whose pair
with it holds a reserve worth at least 2 ETH gives its ETH price, which the ETH price turns into
USD. The loop and the body around it are written once over any monad: in `PriceM` with the cached
calls they are the code, in `Option` with the chain's answers they are the price with nothing
cached, and `Refines` relates the two.

`@retry` and `AsyncRetrying` rerun a call that raised; an attempt that returns, a zero price
included, ends them. The attempts are a list, one entry per attempt with the answers it gets.
-/

set_option autoImplicit false

namespace Pooler

/-! ## `get_white_token_data` -/

/-- What `getPair` returns for two tokens without a pair. -/
def zeroAddress : String := "0x0000000000000000000000000000000000000000"

/-- The batch of `get_white_token_data`: the pair's reserves, and the whitelisted token's ETH
price, 1 for WETH and otherwise the router's amount for one whole token. -/
def whiteTokenBatch (settings : PriceSettings) (rpc : Chain) (pairAddress : String)
    (whiteTokenMetadata : TokenMetadata) (whiteToken : String) (blockHeight : BlockId) :
    Option ((Nat × Nat) × ℚ) :=
  if whiteToken = settings.weth then
    (rpc.getReserves pairAddress blockHeight).map fun pairReserve => (pairReserve, 1)
  else do
    let decimals ← whiteTokenMetadata.decimals.toNat?
    let pairReserve ← rpc.getReserves pairAddress blockHeight
    let amountOut ← rpc.getAmountsOut (10 ^ decimals) whiteTokenMetadata.address blockHeight
    pure (pairReserve, if amountOut ≠ 0 then (amountOut : ℚ) / 10 ^ 18 else 0)

/-- `get_white_token_data`: the target token's price in the whitelisted token, the whitelisted
token's reserve and its ETH price; price and reserve are 0 when a reserve is. -/
def getWhiteTokenData (settings : PriceSettings) (rpc : Chain) (pairAddress : String)
    (pairMetadata : PairMetadata) (whiteToken : String) (blockHeight : BlockId) :
    Option (ℚ × ℚ × ℚ) := do
  let whiteTokenMetadata :=
    if whiteToken = pairMetadata.token0.address then pairMetadata.token0 else pairMetadata.token1
  let (pairReserve, tokenEthPrice) ←
    whiteTokenBatch settings rpc pairAddress whiteTokenMetadata whiteToken blockHeight
  let decimals0 ← pairMetadata.token0.decimals.toNat?
  let decimals1 ← pairMetadata.token1.decimals.toNat?
  let pairReserveToken0 : ℚ := pairReserve.1 / 10 ^ decimals0
  let pairReserveToken1 : ℚ := pairReserve.2 / 10 ^ decimals1
  if pairReserveToken0 = 0 ∨ pairReserveToken1 = 0 then pure (0, 0, tokenEthPrice)
  else if pairMetadata.token0.address = whiteToken then
    pure (pairReserveToken0 / pairReserveToken1, pairReserveToken0, tokenEthPrice)
  else pure (pairReserveToken1 / pairReserveToken0, pairReserveToken1, tokenEthPrice)

/-! ## `get_token_price_at_block_height` -/

/-- The whitelist loop, over the monad its calls run in: `pairWith` is `get_pair` of a
whitelisted token and the token, `pairData` the pair's metadata and `get_white_token_data`.
The first pair whose whitelisted reserve is worth at least 2 ETH prices the token in ETH; the
price is 0 when none is. -/
def whitelistEthPrice {m : Type → Type} [Monad m] (pairWith : String → m String)
    (pairData : String → String → m (ℚ × ℚ × ℚ)) : List String → m ℚ
  | [] => pure 0
  | whiteToken :: whitelist => do
    let pairAddress ← pairWith whiteToken
    if pairAddress ≠ zeroAddress then
      let (whiteTokenPrice, whiteTokenReserves, whiteTokenDerivedEth) ←
        pairData whiteToken pairAddress
      if whiteTokenReserves * whiteTokenDerivedEth < 2 then
        whitelistEthPrice pairWith pairData whitelist
      else pure (whiteTokenPrice * whiteTokenDerivedEth)
    else whitelistEthPrice pairWith pairData whitelist

/-- The body of `get_token_price_at_block_height` after its cache read: WETH is the ETH price,
another token its ETH price times the ETH price, which is read only when the first is not 0. -/
def tokenPriceOf {m : Type → Type} [Monad m] (settings : PriceSettings) (token : String)
    (ethPriceUsd : m ℚ) (pairWith : String → m String)
    (pairData : String → String → m (ℚ × ℚ × ℚ)) : m ℚ :=
  if token = settings.weth then ethPriceUsd
  else do
    let tokenEthPrice ← whitelistEthPrice pairWith pairData settings.whitelist
    if tokenEthPrice ≠ 0 then
      let ethUsdPrice ← ethPriceUsd
      pure (tokenEthPrice * ethUsdPrice)
    else pure 0

/-- The write after a price at a height. -/
def cacheTokenPrice (token : String) (blockHeight : BlockId) (tokenPrice : ℚ) (s : PriceStore) :
    PriceStore :=
  match blockHeight with
  | .latest => s
  | .height h => { s with
      cachedBlockHeightTokenPrice := Function.update s.cachedBlockHeightTokenPrice token
        ((s.cachedBlockHeightTokenPrice token).zadd ⟨h, tokenPrice⟩ h) }

/-- `get_token_price_at_block_height`, one attempt. -/
def getTokenPriceAtBlockHeight (settings : PriceSettings) (rpc : Chain) (token : String)
    (blockHeight : BlockId) : PriceM ℚ := do
  match cachedPrice ((← get).cachedBlockHeightTokenPrice token) blockHeight with
  | some cached => pure cached
  | none =>
    let tokenPrice ← tokenPriceOf settings token (getEthPriceUsd settings rpc blockHeight)
      (fun whiteToken => getPair rpc whiteToken token)
      fun whiteToken pairAddress => do
        let pairMetadata ← getPairPerTokenMetadata settings rpc pairAddress
        PriceM.ofOption
          (getWhiteTokenData settings rpc pairAddress pairMetadata whiteToken blockHeight)
    modify (cacheTokenPrice token blockHeight tokenPrice)
    pure tokenPrice

/-- The attempts of a call until one returns; the last one's error is raised. -/
def retrying {α : Type} (f : Chain → PriceM α) : List Chain → PriceM α
  | [] => throw ()
  | [rpc] => f rpc
  | rpc :: attempts => tryCatch (f rpc) fun _ => retrying f attempts

/-! ## `get_trade_volume_epoch_price_map` -/

/-- One block of `get_trade_volume_epoch_price_map`: its price from the cache, or from
`get_token_price_at_block_height` with the block's attempts. -/
def priceMapBlock (settings : PriceSettings) (attempts : Nat → List Chain) (token : String)
    (block : Nat) : PriceM (Nat × ℚ) := do
  match cachedPrice ((← get).cachedBlockHeightTokenPrice token) (.height block) with
  | some cached => pure (block, cached)
  | none =>
    let price ← retrying
      (fun rpc => getTokenPriceAtBlockHeight settings rpc token (.height block)) (attempts block)
    pure (block, price)

/-- `get_trade_volume_epoch_price_map`: the blocks from `from_block` to `to_block`, in order. -/
def getTradeVolumeEpochPriceMap (settings : PriceSettings) (attempts : Nat → List Chain)
    (token : String) (fromBlock toBlock : Nat) : PriceM (List (Nat × ℚ)) :=
  (List.range' fromBlock (toBlock + 1 - fromBlock)).mapM (priceMapBlock settings attempts token)

section Agrees

variable {settings : PriceSettings} {rpc chain : Chain} (hrpc : rpc.Agrees chain)
include hrpc

end Agrees

/-! ## The cached loop computes the uncached one -/

section Loop

variable {inv : PriceStore → Prop} {pairWithM : String → PriceM String}
  {pairWithO : String → Option String} {pairDataM : String → String → PriceM (ℚ × ℚ × ℚ)}
  {pairDataO : String → String → Option (ℚ × ℚ × ℚ)}

theorem whitelistEthPrice_triple (whitelist : List String)
    (hpair : ∀ whiteToken ∈ whitelist, Triple inv (pairWithM whiteToken) fun _ => True)
    (hdata : ∀ whiteToken ∈ whitelist, ∀ pairAddress,
      Triple inv (pairDataM whiteToken pairAddress) fun _ => True) :
    Triple inv (whitelistEthPrice pairWithM pairDataM whitelist) fun _ => True := by
  induction whitelist with
  | nil => exact Triple.pure trivial
  | cons whiteToken whitelist ih =>
    have hrest := ih (fun w hw => hpair w (.tail _ hw)) fun w hw => hdata w (.tail _ hw)
    simp only [whitelistEthPrice]
    refine Triple.bind (hpair whiteToken (.head _)) fun pairAddress _ => ?_
    split_ifs
    · refine Triple.bind (hdata whiteToken (.head _) pairAddress) fun data _ => ?_
      split_ifs
      · exact hrest
      · exact Triple.pure trivial
    · exact hrest

theorem tokenPriceOf_triple (settings : PriceSettings) (token : String) {ethPriceM : PriceM ℚ}
    (heth : Triple inv ethPriceM fun _ => True)
    (hpair : ∀ whiteToken ∈ settings.whitelist, Triple inv (pairWithM whiteToken) fun _ => True)
    (hdata : ∀ whiteToken ∈ settings.whitelist, ∀ pairAddress,
      Triple inv (pairDataM whiteToken pairAddress) fun _ => True) :
    Triple inv (tokenPriceOf settings token ethPriceM pairWithM pairDataM) fun _ => True := by
  unfold tokenPriceOf
  split_ifs
  · exact heth
  · refine Triple.bind (whitelistEthPrice_triple _ hpair hdata) fun tokenEthPrice _ => ?_
    split_ifs
    · exact Triple.bind heth fun _ _ => Triple.pure trivial
    · exact Triple.pure trivial

end Loop

theorem retrying_triple {α : Type} {inv : PriceStore → Prop} {f : Chain → PriceM α} {post : α → Prop}
    (attempts : List Chain) (h : ∀ rpc ∈ attempts, Triple inv (f rpc) post) :
    Triple inv (retrying f attempts) post := by
  induction attempts with
  | nil => exact fun _ hs => hs
  | cons rpc attempts ih =>
    cases attempts with
    | nil => exact h rpc (.head _)
    | cons rpc' attempts' =>
      exact Triple.tryCatch (h rpc (.head _)) fun _ => ih fun r hr => h r (.tail _ hr)

theorem retrying_run_ok {α : Type} {inv : PriceStore → Prop} {f : Chain → PriceM α}
    (attempts : List Chain) (hinv : ∀ rpc ∈ attempts, Triple inv (f rpc) fun _ => True)
    {s s' : PriceStore} {a : α} (hs : inv s) (h : (retrying f attempts).run s = .ok a s') :
    ∃ rpc ∈ attempts, ∃ t, inv t ∧ (f rpc).run t = .ok a s' := by
  induction attempts generalizing s with
  | nil => cases h
  | cons rpc attempts ih =>
    cases attempts with
    | nil => exact ⟨rpc, .head _, s, hs, h⟩
    | cons rpc' attempts' =>
      change (tryCatch (f rpc) fun _ => retrying f (rpc' :: attempts')).run s = .ok a s' at h
      rw [run_tryCatch] at h
      split at h
      · next b t hrun =>
        cases h
        exact ⟨rpc, .head _, s, hs, hrun⟩
      · next e t hrun =>
        have ht := hinv rpc (.head _) s hs
        change match (f rpc).run s with | .ok _ s' => True ∧ inv s' | .error _ s' => inv s' at ht
        rw [hrun] at ht
        obtain ⟨r, hr, t', ht', hrun'⟩ := ih (fun r hr => hinv r (.tail _ hr)) ht h
        exact ⟨r, .tail _ hr, t', ht', hrun'⟩

/-! ## Cached prices are the chain's prices -/

section Refinement

variable {settings : PriceSettings} {chain : Chain}

end Refinement

/-! ## What the caches never take back -/

section Keeps

variable {s₀ : PriceStore} {settings : PriceSettings}

theorem cacheTokenPrice_extends {s : PriceStore} (hs : s.TokenPricesScored) (token : String)
    (blockHeight : BlockId) (tokenPrice : ℚ) :
    (cacheTokenPrice token blockHeight tokenPrice s).TokenPricesScored ∧
      ∀ token', (s.cachedBlockHeightTokenPrice token').entries <+:
        ((cacheTokenPrice token blockHeight tokenPrice s).cachedBlockHeightTokenPrice token').entries := by
  cases blockHeight with
  | latest => exact ⟨hs, fun _ => List.prefix_refl _⟩
  | height h =>
    have hz := PriceZset.zadd_scored_extends (hs token) ⟨h, tokenPrice⟩
    refine ⟨fun token' => ?_, fun token' => ?_⟩ <;>
      simp only [cacheTokenPrice, Function.update_apply] <;> split_ifs with ht
    · exact ht ▸ hz.2
    · exact hs token'
    · exact ht ▸ hz.1
    · exact List.prefix_refl _

theorem keeps_cacheTokenPrice {s : PriceStore} (hs : s₀.Keeps s) (token : String)
    (blockHeight : BlockId) (tokenPrice : ℚ) :
    s₀.Keeps (cacheTokenPrice token blockHeight tokenPrice s) := by
  cases blockHeight with
  | latest => exact hs
  | height h =>
    refine ⟨hs.1, hs.2, hs.3, fun h0 => ?_⟩
    obtain ⟨hscored, hkept⟩ := hs.tokenPrices h0
    obtain ⟨hscored', hkept'⟩ := cacheTokenPrice_extends hscored token (.height h) tokenPrice
    exact ⟨hscored', fun t => (hkept t).trans (hkept' t)⟩

theorem getTokenPriceAtBlockHeight_keeps (rpc : Chain) (token : String) (blockHeight : BlockId) :
    Triple (PriceStore.Keeps s₀) (getTokenPriceAtBlockHeight settings rpc token blockHeight)
      fun _ => True := by
  refine Triple.read_bind fun s _ => ?_
  split
  · exact Triple.pure trivial
  · refine Triple.bind (tokenPriceOf_triple settings token (getEthPriceUsd_keeps settings rpc blockHeight)
      (fun whiteToken _ => getPair_keeps rpc whiteToken token) fun _ _ pairAddress =>
        Triple.bind (getPairPerTokenMetadata_keeps settings rpc pairAddress) fun _ _ =>
          Triple.ofOption fun _ _ => trivial) fun _ _ =>
      Triple.write_bind (fun _ hs' => keeps_cacheTokenPrice hs' _ _ _) (Triple.pure trivial)

theorem priceMapBlock_keeps (attempts : Nat → List Chain) (token : String) (block : Nat) :
    Triple (PriceStore.Keeps s₀) (priceMapBlock settings attempts token block) fun _ => True :=
  Triple.read_bind fun s _ => by
    split
    · exact Triple.pure trivial
    · exact Triple.bind (retrying_triple _ fun rpc _ =>
        getTokenPriceAtBlockHeight_keeps rpc token _) fun _ _ => Triple.pure trivial

theorem getTradeVolumeEpochPriceMap_keeps (attempts : Nat → List Chain) (token : String)
    (fromBlock toBlock : Nat) :
    Triple (PriceStore.Keeps s₀) (getTradeVolumeEpochPriceMap settings attempts token fromBlock toBlock)
      fun _ => True :=
  Triple.mapM _ fun block _ => priceMapBlock_keeps attempts token block

end Keeps

/-! ## A price map warms the cache -/

theorem getTokenPriceAtBlockHeight_cached {settings : PriceSettings} {rpc : Chain} {token : String}
    {h : Nat} {s s' : PriceStore} {price : ℚ} (hs : s.TokenPricesScored)
    (hrun : (getTokenPriceAtBlockHeight settings rpc token (.height h)).run s = .ok price s') :
    cachedPrice (s'.cachedBlockHeightTokenPrice token) (.height h) = some price := by
  have hrest := run_get_bind_ok hrun
  split at hrest
  · next cached hcached =>
    obtain ⟨rfl, rfl⟩ := run_pure_ok hrest
    exact hcached
  · next hmiss =>
    obtain ⟨tokenPrice, t, hprice, hrest⟩ := run_bind_ok hrest
    obtain ⟨_, t', hwrite, hpure⟩ := run_bind_ok hrest
    obtain ⟨rfl, rfl⟩ := run_pure_ok hpure
    obtain ⟨-, ht⟩ := (tokenPriceOf_triple settings token
      (getEthPriceUsd_tokenPrices _ settings rpc _)
      (fun whiteToken _ => getPair_tokenPrices _ rpc whiteToken token) fun _ _ pairAddress =>
        Triple.bind (getPairPerTokenMetadata_tokenPrices _ settings rpc pairAddress) fun _ _ =>
          Triple.ofOption fun _ _ => trivial).run_ok rfl hprice
    rw [run_modify_ok hwrite]
    simp only [cacheTokenPrice, Function.update_same]
    rw [show t.cachedBlockHeightTokenPrice = _ from ht, cachedPrice_zadd (hs token) hmiss, if_pos rfl]

theorem priceMapBlock_cached {settings : PriceSettings} {attempts : Nat → List Chain} {token : String}
    {block : Nat} {s s' : PriceStore} {entry : Nat × ℚ} (hs : s.TokenPricesScored)
    (hrun : (priceMapBlock settings attempts token block).run s = .ok entry s') :
    entry.1 = block ∧
      cachedPrice (s'.cachedBlockHeightTokenPrice token) (.height entry.1) = some entry.2 := by
  have hrest := run_get_bind_ok hrun
  split at hrest
  · next cached hcached =>
    obtain ⟨rfl, rfl⟩ := run_pure_ok hrest
    exact ⟨rfl, hcached⟩
  · obtain ⟨price, t, hprice, hpure⟩ := run_bind_ok hrest
    obtain ⟨rfl, rfl⟩ := run_pure_ok hpure
    obtain ⟨rpc, -, t₀, ht₀, hrun'⟩ := retrying_run_ok _
      (fun rpc _ => Triple.scored fun _ => getTokenPriceAtBlockHeight_keeps rpc token _) hs hprice
    exact ⟨rfl, getTokenPriceAtBlockHeight_cached ht₀ hrun'⟩

theorem priceMapBlock_run_of_cached {settings : PriceSettings} {attempts : Nat → List Chain}
    {token : String} {block : Nat} {s : PriceStore} {price : ℚ}
    (h : cachedPrice (s.cachedBlockHeightTokenPrice token) (.height block) = some price) :
    (priceMapBlock settings attempts token block).run s = .ok (block, price) s := by
  show priceMapBlock settings attempts token block s = .ok (block, price) s
  simp only [priceMapBlock, bind, EStateM.bind, get, getThe, MonadStateOf.get, EStateM.get, h]
  rfl

section Loop

variable {step : Nat → PriceM (Nat × ℚ)} {token : String}

theorem mapM_cached (hkeeps : ∀ block s₀, Triple (PriceStore.Keeps s₀) (step block) fun _ => True)
    (hstep : ∀ block s s' (entry : Nat × ℚ), s.TokenPricesScored →
      (step block).run s = .ok entry s' → entry.1 = block ∧
        cachedPrice (s'.cachedBlockHeightTokenPrice token) (.height entry.1) = some entry.2)
    (blocks : List Nat) {s s' : PriceStore} {priceMap : List (Nat × ℚ)} (hs : s.TokenPricesScored)
    (hrun : (blocks.mapM step).run s = .ok priceMap s') :
    priceMap.map Prod.fst = blocks ∧ ∀ entry ∈ priceMap,
      cachedPrice (s'.cachedBlockHeightTokenPrice token) (.height entry.1) = some entry.2 := by
  induction blocks generalizing s priceMap with
  | nil =>
    rw [List.mapM_nil] at hrun
    obtain ⟨rfl, -⟩ := run_pure_ok hrun
    exact ⟨rfl, nofun⟩
  | cons block blocks ih =>
    rw [List.mapM_cons] at hrun
    obtain ⟨entry, s₁, hfirst, hrest⟩ := run_bind_ok hrun
    obtain ⟨entries, s₂, hloop, hpure⟩ := run_bind_ok hrest
    obtain ⟨rfl, rfl⟩ := run_pure_ok hpure
    have hs₁ := ((((hkeeps block s).run_ok (PriceStore.Keeps.refl s) hfirst).2).tokenPrices hs).1
    have hkept := (((Triple.mapM blocks fun b _ => hkeeps b s₁).run_ok (PriceStore.Keeps.refl s₁)
      hloop).2.tokenPrices hs₁).2 token
    obtain ⟨hblock, hcached⟩ := hstep block _ _ _ hs hfirst
    obtain ⟨hblocks, hentries⟩ := ih hs₁ hloop
    refine ⟨by simp [hblock, hblocks], ?_⟩
    rintro e (_ | ⟨_, he⟩)
    · exact cachedPrice_of_extends hkept hcached
    · exact hentries e he

theorem mapM_replay {s : PriceStore} (priceMap : List (Nat × ℚ))
    (h : ∀ entry ∈ priceMap, (step entry.1).run s = .ok entry s) :
    ((priceMap.map Prod.fst).mapM step).run s = .ok priceMap s := by
  induction priceMap with
  | nil => rfl
  | cons entry entries ih =>
    rw [List.map_cons, List.mapM_cons, run_bind_of_ok (h entry (.head _)),
      run_bind_of_ok (ih fun e he => h e (.tail _ he))]
    rfl

end Loop

/-- A price map warms the cache: once `get_trade_volume_epoch_price_map` has returned a map, from a
store whose token prices are scored at their heights, calling it again for the same token and
blocks returns the same map from the cache alone, whatever every attempt then answers, and leaves
the store as it is. -/
theorem getTradeVolumeEpochPriceMap_rerun {settings : PriceSettings} {attempts : Nat → List Chain}
    (attempts' : Nat → List Chain) {token : String} {fromBlock toBlock : Nat} {s s' : PriceStore}
    {priceMap : List (Nat × ℚ)} (hs : s.TokenPricesScored)
    (hrun : (getTradeVolumeEpochPriceMap settings attempts token fromBlock toBlock).run s =
      .ok priceMap s') :
    (getTradeVolumeEpochPriceMap settings attempts' token fromBlock toBlock).run s' =
      .ok priceMap s' := by
  unfold getTradeVolumeEpochPriceMap at hrun ⊢
  obtain ⟨hblocks, hcached⟩ := mapM_cached (fun block _ => priceMapBlock_keeps attempts token block)
    (fun _ _ _ _ hs hrun => priceMapBlock_cached hs hrun) _ hs hrun
  rw [← hblocks]
  exact mapM_replay priceMap fun entry hentry => priceMapBlock_run_of_cached (hcached entry hentry)

theorem getTradeVolumeEpochPriceMap_rerun_offline :
    PriceStore.empty.TokenPricesScored ∧
    (getTradeVolumeEpochPriceMap ⟨"0xweth", "0xmaker", [], 1, 1, nofun⟩ (fun _ => [⟨fun _ => none, fun _ => none, fun _ _ => none, fun _ _ _ => none, fun _ _ => none, fun _ => none,
      fun _ => none⟩]) "0xtoken" 7 8).run PriceStore.empty =
      .ok [(7, 0), (8, 0)] (cacheTokenPrice "0xtoken" (.height 8) 0 (cacheTokenPrice "0xtoken" (.height 7) 0 PriceStore.empty)) ∧
    (getTradeVolumeEpochPriceMap ⟨"0xweth", "0xmaker", [], 1, 1, nofun⟩ (fun _ => []) "0xtoken" 7 8).run (cacheTokenPrice "0xtoken" (.height 8) 0 (cacheTokenPrice "0xtoken" (.height 7) 0 PriceStore.empty)) =
      .ok [(7, 0), (8, 0)] (cacheTokenPrice "0xtoken" (.height 8) 0 (cacheTokenPrice "0xtoken" (.height 7) 0 PriceStore.empty)) :=
  have hrun : (getTradeVolumeEpochPriceMap ⟨"0xweth", "0xmaker", [], 1, 1, nofun⟩ (fun _ => [⟨fun _ => none, fun _ => none, fun _ _ => none, fun _ _ _ => none, fun _ _ => none, fun _ => none,
      fun _ => none⟩]) "0xtoken" 7 8).run PriceStore.empty =
      .ok [(7, 0), (8, 0)] (cacheTokenPrice "0xtoken" (.height 8) 0 (cacheTokenPrice "0xtoken" (.height 7) 0 PriceStore.empty)) := by
    rfl
  have hs : PriceStore.empty.TokenPricesScored := fun _ _ => nofun
  ⟨hs, hrun, getTradeVolumeEpochPriceMap_rerun (fun _ => []) hs hrun⟩

/-! ## Prices are never negative -/

section Nonneg

end Nonneg

/-- `get_pair_contract_trades_async` with the calls it makes: the pair's metadata, the price maps
of its two tokens over the epoch, then the aggregation of `TradeVolume` over the epoch's logs,
its other inputs. Each token's decimals are read as a number once, before the logs. -/
def getPairContractTradesAsyncWithPrices (settings : PriceSettings) (rpc : Chain)
    (attempts0 attempts1 : Nat → List Chain) (pairAddress : String) (fromBlock toBlock : Nat)
    (timestamps : Nat → Option Nat) (maxBlockTimestamp : Option Nat) (eventsLog : List EventLog) :
    PriceM (EpochEventTradeData × Option Nat) := do
  let pairPerTokenMetadata ← getPairPerTokenMetadata settings rpc pairAddress
  let token0PriceMap ← getTradeVolumeEpochPriceMap settings attempts0
    pairPerTokenMetadata.token0.address fromBlock toBlock
  let token1PriceMap ← getTradeVolumeEpochPriceMap settings attempts1
    pairPerTokenMetadata.token1.address fromBlock toBlock
  let token0Decimals ← PriceM.ofOption pairPerTokenMetadata.token0.decimals.toNat?
  let token1Decimals ← PriceM.ofOption pairPerTokenMetadata.token1.decimals.toNat?
  pure (getPairContractTradesAsync ⟨token0Decimals, token1Decimals, token0PriceMap, token1PriceMap⟩
    timestamps maxBlockTimestamp eventsLog)

end Pooler
