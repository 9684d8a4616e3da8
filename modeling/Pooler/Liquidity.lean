import Pooler.TokenPrice

/-! The liquidity of a pair at a block, `get_liquidity_of_each_token_reserve_async`: the pair's
reserves in whole tokens and their USD values at the tokens' prices, over the caches of
`PriceCache`.

The retried block gathers the reserves and the two prices; the model makes the three requests in
their written order and stops an attempt at the first that raises. The rate limit check of the
block is one of the requests that can raise. A token whose price is 0 counts 0 USD.
-/

set_option autoImplicit false

namespace Pooler

/-- The dictionary `get_liquidity_of_each_token_reserve_async` returns. -/
structure TokenReserves where
  token0 : ℚ
  token1 : ℚ
  token0USD : ℚ
  token1USD : ℚ
  timestamp : Option Nat
  deriving DecidableEq, Repr

/-- The result from the reserves, the decimals and the prices: each reserve in whole tokens, and
its USD value where its token has a price. -/
def tokenReserves (reserves : Nat × Nat) (token0Decimals token1Decimals : Nat)
    (token0Price token1Price : ℚ) (timestamp : Option Nat) : TokenReserves :=
  let token0Amount : ℚ := reserves.1 / 10 ^ token0Decimals
  let token1Amount : ℚ := reserves.2 / 10 ^ token1Decimals
  ⟨token0Amount, token1Amount, if token0Price ≠ 0 then token0Amount * token0Price else 0,
    if token1Price ≠ 0 then token1Amount * token1Price else 0, timestamp⟩

/-- The block's timestamp, read only when `fetch_timestamp` asks for it. -/
def blockTimestamp (rpc : Chain) (fetchTimestamp : Bool) (blockIdentifier : BlockId) :
    Option (Option Nat) :=
  if fetchTimestamp then (rpc.getBlockTimestamp blockIdentifier).map some else some none

/-- One attempt of the retried block: the pair's reserves and its tokens' prices at the block. -/
def reservesAndPrices (settings : PriceSettings) (rpc : Chain) (pairAddress : String)
    (pairPerTokenMetadata : PairMetadata) (blockIdentifier : BlockId) :
    PriceM ((Nat × Nat) × ℚ × ℚ) := do
  let reserves ← PriceM.ofOption (rpc.getReserves pairAddress blockIdentifier)
  let token0Price ← getTokenPriceAtBlockHeight settings rpc pairPerTokenMetadata.token0.address
    blockIdentifier
  let token1Price ← getTokenPriceAtBlockHeight settings rpc pairPerTokenMetadata.token1.address
    blockIdentifier
  pure (reserves, token0Price, token1Price)

/-- `get_liquidity_of_each_token_reserve_async`: the timestamp and the pair's metadata, the
retried block with its attempts, then the decimals read as numbers. -/
def getLiquidityOfEachTokenReserveAsync (settings : PriceSettings) (rpc : Chain)
    (attempts : List Chain) (pairAddress : String) (blockIdentifier : BlockId)
    (fetchTimestamp : Bool) : PriceM TokenReserves := do
  let timestamp ← PriceM.ofOption (blockTimestamp rpc fetchTimestamp blockIdentifier)
  let pairPerTokenMetadata ← getPairPerTokenMetadata settings rpc pairAddress
  let gathered ← retrying
    (fun rpc => reservesAndPrices settings rpc pairAddress pairPerTokenMetadata blockIdentifier)
    attempts
  let token0Decimals ← PriceM.ofOption pairPerTokenMetadata.token0.decimals.toNat?
  let token1Decimals ← PriceM.ofOption pairPerTokenMetadata.token1.decimals.toNat?
  pure (tokenReserves gathered.1 token0Decimals token1Decimals gathered.2.1 gathered.2.2 timestamp)

section Refinement

variable {settings : PriceSettings} {chain : Chain}

end Refinement

section Keeps

variable {s₀ : PriceStore} {settings : PriceSettings}

theorem reservesAndPrices_keeps (rpc : Chain) (pairAddress : String)
    (pairPerTokenMetadata : PairMetadata) (blockIdentifier : BlockId) :
    Triple (PriceStore.Keeps s₀)
      (reservesAndPrices settings rpc pairAddress pairPerTokenMetadata blockIdentifier)
      fun _ => True :=
  Triple.bind (Triple.ofOption fun _ _ => trivial) fun _ _ =>
    Triple.bind (getTokenPriceAtBlockHeight_keeps rpc _ _) fun _ _ =>
      Triple.bind (getTokenPriceAtBlockHeight_keeps rpc _ _) fun _ _ => Triple.pure trivial

theorem getLiquidityOfEachTokenReserveAsync_keeps (rpc : Chain) (attempts : List Chain)
    (pairAddress : String) (blockIdentifier : BlockId) (fetchTimestamp : Bool) :
    Triple (PriceStore.Keeps s₀)
      (getLiquidityOfEachTokenReserveAsync settings rpc attempts pairAddress blockIdentifier
        fetchTimestamp) fun _ => True :=
  Triple.bind (Triple.ofOption fun _ _ => trivial) fun _ _ =>
    Triple.bind (getPairPerTokenMetadata_keeps settings rpc pairAddress) fun _ _ =>
      Triple.bind (retrying_triple _ fun r _ => reservesAndPrices_keeps r _ _ _) fun _ _ =>
        Triple.bind (Triple.ofOption fun _ _ => trivial) fun _ _ =>
          Triple.bind (Triple.ofOption fun _ _ => trivial) fun _ _ => Triple.pure trivial

end Keeps

/-! ## What the liquidity is -/

end Pooler
