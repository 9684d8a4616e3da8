import Mathlib.Algebra.Order.Field.Basic
import Mathlib.Data.Rat.Defs
import Mathlib.Logic.Function.Basic
import Mathlib.Tactic.Linarith

/-! The Redis caches of the price functions of `uniswap_functions.py` and the calls that fill
them without pricing a token: `get_pair`, `get_pair_per_token_metadata` and
`get_eth_price_usd`.

A call runs against the store and returns or raises; a call that raises keeps the writes it
made before, as Redis does, so it is an `EStateM` program. `Triple inv x post`: from a store
satisfying `inv`, `x` leaves one that does, and what it returns satisfies `post`.
`Refines inv x y`: what `x` returns is what the uncached computation `y` gives.

What the node answers is a `Chain`. The requests of one call answer as the chain does or raise
(`Chain.Agrees`), which covers the rate limiter's refusals and every RPC failure. Addresses are
taken checksummed, so `Web3.toChecksumAddress` is the identity. A hash field is written as text
and read back as the same value: the model keeps the value.
-/

set_option autoImplicit false

namespace Pooler

/-! ## What the node answers -/

/-- A block identifier: `'latest'` or a height. -/
inductive BlockId where
  | latest
  | height (blockHeight : Nat)
  deriving DecidableEq, Repr

/-- `getReserves` of the DAI-WETH, USDC-WETH and WETH-USDT pairs, read in one batch. -/
structure StablecoinReserves where
  daiEthPairReserves : Nat × Nat
  usdcEthPairReserves : Nat × Nat
  ethUsdtPairReserves : Nat × Nat
  deriving DecidableEq, Repr

/-- An ERC-20 call of the token data batch of `get_pair_per_token_metadata`. -/
inductive TokenCall where
  | name (token : String)
  | symbol (token : String)
  | decimals (token : String)
  deriving DecidableEq, Repr

/-- A value a call returns. -/
inductive CallResult where
  | text (value : String)
  | number (value : Nat)
  deriving DecidableEq, Repr

/-- Python's `int()` of a returned or cached value. -/
def CallResult.toNat? : CallResult → Option Nat
  | .text value => value.toNat?
  | .number value => some value

/-- The node's answers; `none` where a request raises. `getPair`, `token0()`, `token1()` and the
ERC-20 calls are made at the latest block. -/
structure Chain where
  /-- The timestamp of `w3.eth.get_block` of a block. -/
  getBlockTimestamp : BlockId → Option Nat
  stablecoinReserves : BlockId → Option StablecoinReserves
  getReserves : String → BlockId → Option (Nat × Nat)
  /-- `getAmountsOut(amountIn, [token, WETH])[1]` of the router. -/
  getAmountsOut : Nat → String → BlockId → Option Nat
  getPair : String → String → Option String
  /-- `token0()` and `token1()` of a pair. -/
  tokenAddresses : String → Option (String × String)
  call : TokenCall → Option CallResult

/-- The answers one call gets: the chain's, where a request does not raise. -/
structure Chain.Agrees (rpc chain : Chain) : Prop where
  getBlockTimestamp : ∀ b t, rpc.getBlockTimestamp b = some t → chain.getBlockTimestamp b = some t
  stablecoinReserves : ∀ b r, rpc.stablecoinReserves b = some r → chain.stablecoinReserves b = some r
  getReserves : ∀ pair b r, rpc.getReserves pair b = some r → chain.getReserves pair b = some r
  getAmountsOut : ∀ amountIn token b amountOut,
    rpc.getAmountsOut amountIn token b = some amountOut →
      chain.getAmountsOut amountIn token b = some amountOut
  getPair : ∀ token0 token1 pair, rpc.getPair token0 token1 = some pair →
    chain.getPair token0 token1 = some pair
  tokenAddresses : ∀ pair addresses, rpc.tokenAddresses pair = some addresses →
    chain.tokenAddresses pair = some addresses
  call : ∀ c r, rpc.call c = some r → chain.call c = some r

theorem Chain.Agrees.refl (chain : Chain) : chain.Agrees chain :=
  ⟨fun _ _ => id, fun _ _ => id, fun _ _ _ => id, fun _ _ _ _ => id, fun _ _ _ => id, fun _ _ => id, fun _ _ => id⟩

/-- The settings the price functions read. Whitelisted tokens are addresses, which hold no
`-`. -/
structure PriceSettings where
  /-- `CONTRACT_ADDRESSES.WETH`. -/
  weth : String
  /-- `CONTRACT_ADDRESSES.MAKER`. -/
  maker : String
  /-- `UNISWAP_V2_WHITELIST`. -/
  whitelist : List String
  numberOfBlocksInEpoch : Nat
  prunePriceZsetEpochMultiplier : Nat
  whitelist_no_dash : ∀ whiteToken ∈ whitelist, '-' ∉ whiteToken.data

/-- A cached price: the JSON text `{"blockHeight": h, "price": p}`, kept as the values it
serialises. -/
structure PricePoint where
  blockHeight : Nat
  price : ℚ
  deriving DecidableEq, Repr

/-- A sorted set of price points with their scores. Members of equal score are kept in
insertion order; `PricedAt` makes their order irrelevant. -/
structure PriceZset where
  entries : List (PricePoint × Int)
  deriving DecidableEq, Repr

namespace PriceZset

def empty : PriceZset := ⟨[]⟩

/-- `ZADD`: a new member is appended, an existing one gets the new score. -/
def zadd (z : PriceZset) (member : PricePoint) (score : Int) : PriceZset :=
  if z.entries.any (·.1 = member) then
    ⟨z.entries.map fun entry => if entry.1 = member then (member, score) else entry⟩
  else ⟨z.entries ++ [(member, score)]⟩

/-- `ZRANGEBYSCORE`. -/
def zrangebyscore (z : PriceZset) (min max : Int) : List PricePoint :=
  (z.entries.filter fun entry => min ≤ entry.2 ∧ entry.2 ≤ max).map Prod.fst

/-- `ZREMRANGEBYSCORE`. -/
def zremrangebyscore (z : PriceZset) (min max : Int) : PriceZset :=
  ⟨z.entries.filter fun entry => ¬(min ≤ entry.2 ∧ entry.2 ≤ max)⟩

theorem mem_zadd {z : PriceZset} {member : PricePoint} {score : Int} {entry : PricePoint × Int}
    (h : entry ∈ (z.zadd member score).entries) : entry = (member, score) ∨ entry ∈ z.entries := by
  unfold zadd at h
  split at h
  · obtain ⟨e, he, rfl⟩ := List.mem_map.mp h
    by_cases hm : e.1 = member <;> simp [hm, he]
  · simpa [or_comm] using h

theorem zadd_fresh {z : PriceZset} {member : PricePoint} {score : Int}
    (hfresh : ∀ entry ∈ z.entries, entry.1 ≠ member) :
    z.zadd member score = ⟨z.entries ++ [(member, score)]⟩ := by
  unfold zadd
  rw [if_neg]
  simp only [List.any_eq_true, decide_eq_true_eq, not_exists, not_and]
  exact fun entry he => hfresh entry he

theorem zrangebyscore_zadd_fresh {z : PriceZset} {member : PricePoint} {score : Int}
    (hfresh : ∀ entry ∈ z.entries, entry.1 ≠ member) (score' : Int) :
    (z.zadd member score).zrangebyscore score' score' =
      z.zrangebyscore score' score' ++ if score = score' then [member] else [] := by
  rw [zadd_fresh hfresh]
  unfold zrangebyscore
  by_cases h : score = score' <;> simp [List.filter_append, h]
  omega

theorem zadd_scored_extends {z : PriceZset}
    (hz : ∀ entry ∈ z.entries, entry.2 = entry.1.blockHeight) (member : PricePoint) :
    z.entries <+: (z.zadd member member.blockHeight).entries ∧
      ∀ entry ∈ (z.zadd member member.blockHeight).entries, entry.2 = entry.1.blockHeight := by
  unfold zadd
  split
  · have hsame : z.entries.map (fun entry =>
        if entry.1 = member then (member, (member.blockHeight : Int)) else entry) = z.entries := by
      conv_rhs => rw [← List.map_id z.entries]
      refine List.map_congr_left fun entry hentry => ?_
      split_ifs with hm
      · rw [← hm, ← hz entry hentry]
        rfl
      · rfl
    rw [hsame]
    exact ⟨List.prefix_refl _, hz⟩
  · refine ⟨List.prefix_append _ _, fun entry hentry => ?_⟩
    rcases List.mem_append.mp hentry with h | h
    · exact hz entry h
    · rw [List.mem_singleton.mp h]

end PriceZset

/-- An entry cached for what `price` gives: scored at its block height, with the price there. -/
def PricedAt (price : BlockId → Option ℚ) (entry : PricePoint × Int) : Prop :=
  entry.2 = entry.1.blockHeight ∧ price (.height entry.1.blockHeight) = some entry.1.price

/-- The read of a price cache at a block: nothing at `'latest'`, else the first member scored
at the height. -/
def cachedPrice (z : PriceZset) : BlockId → Option ℚ
  | .latest => none
  | .height blockHeight => ((z.zrangebyscore blockHeight blockHeight).head?).map PricePoint.price

section Priced

variable {price : BlockId → Option ℚ} {z : PriceZset}

end Priced

theorem cachedPrice_of_extends {z z' : PriceZset} (h : z.entries <+: z'.entries) {b : BlockId}
    {p : ℚ} (hp : cachedPrice z b = some p) : cachedPrice z' b = some p := by
  cases b with
  | latest => cases hp
  | height blockHeight =>
    obtain ⟨entries'⟩ := z'
    obtain ⟨rest, rfl⟩ := h
    obtain ⟨point, hhead, rfl⟩ := Option.map_eq_some'.mp hp
    simp only [cachedPrice, PriceZset.zrangebyscore, List.filter_append, List.map_append,
      List.head?_append] at hhead ⊢
    rw [hhead]
    rfl

theorem cachedPrice_zadd {z : PriceZset} {h : Nat} {p : ℚ}
    (hz : ∀ entry ∈ z.entries, entry.2 = entry.1.blockHeight)
    (hmiss : cachedPrice z (.height h) = none) (h' : Nat) :
    cachedPrice (z.zadd ⟨h, p⟩ h) (.height h') =
      if h' = h then some p else cachedPrice z (.height h') := by
  have hempty : z.zrangebyscore h h = [] := by
    simpa [cachedPrice] using hmiss
  have hfresh : ∀ entry ∈ z.entries, entry.1 ≠ ⟨h, p⟩ := by
    intro entry hentry hmember
    have : entry.1 ∈ z.zrangebyscore h h :=
      List.mem_map_of_mem _ (List.mem_filter.mpr ⟨hentry, by simp [hz entry hentry, hmember]⟩)
    simp [hempty] at this
  simp only [cachedPrice, PriceZset.zrangebyscore_zadd_fresh hfresh]
  by_cases hh : h' = h
  · subst hh
    simp [hempty]
  · have : (h : Int) ≠ h' := by exact_mod_cast Ne.symm hh
    simp [this, hh]

/-! ## The store and its calls -/

/-- The six fields of `uniswap_pair_contract_tokens_data` the metadata is read back from;
`pair_symbol`, written beside them, is never read. -/
structure TokensData where
  token0Name : CallResult
  token0Symbol : CallResult
  token0Decimals : CallResult
  token1Name : CallResult
  token1Symbol : CallResult
  token1Decimals : CallResult
  deriving DecidableEq, Repr

/-- The keys the price functions read and write. -/
structure PriceStore where
  /-- `uniswap_eth_usd_price_zset`. -/
  ethUsdPriceZset : PriceZset
  /-- `uniswap_pair_cached_block_height_token_price`, one sorted set per token. -/
  cachedBlockHeightTokenPrice : String → PriceZset
  /-- `uniswap_tokens_pair_map`. -/
  tokensPairMap : String → Option String
  /-- `uniswap_pair_contract_tokens_addresses`, one hash per pair. -/
  pairContractTokensAddresses : String → Option (String × String)
  /-- `uniswap_pair_contract_tokens_data`, one hash per pair. -/
  pairContractTokensData : String → Option TokensData

def PriceStore.empty : PriceStore :=
  ⟨.empty, fun _ => .empty, fun _ => none, fun _ => none, fun _ => none⟩

/-- Every token price is scored at its block height, as every write of one scores it. -/
def PriceStore.TokenPricesScored (s : PriceStore) : Prop :=
  ∀ token, ∀ entry ∈ (s.cachedBlockHeightTokenPrice token).entries, entry.2 = entry.1.blockHeight

/-- A call of the price functions: it returns, or raises keeping the writes made before. -/
abbrev PriceM := EStateM Unit PriceStore

/-- A value that raises where it is missing. -/
def PriceM.ofOption {α : Type} : Option α → PriceM α
  | some a => pure a
  | none => throw ()

/-- From a store satisfying `inv`, `x` leaves one that does, and what it returns satisfies
`post`. -/
def Triple {α : Type} (inv : PriceStore → Prop) (x : PriceM α) (post : α → Prop) : Prop :=
  ∀ s, inv s → match x.run s with
    | .ok a s' => post a ∧ inv s'
    | .error _ s' => inv s'

/-- `x` keeps `inv` and returns what `y` computes. -/
def Refines {α : Type} (inv : PriceStore → Prop) (x : PriceM α) (y : Option α) : Prop :=
  Triple inv x fun a => y = some a

section Logic

variable {α β : Type} {inv : PriceStore → Prop}

theorem Triple.mono {x : PriceM α} {P Q : α → Prop} (hx : Triple inv x P) (h : ∀ a, P a → Q a) :
    Triple inv x Q := by
  intro s hs
  have := hx s hs
  split at this <;> simp_all

theorem Triple.bind {x : PriceM α} {f : α → PriceM β} {P : α → Prop} {Q : β → Prop}
    (hx : Triple inv x P) (hf : ∀ a, P a → Triple inv (f a) Q) : Triple inv (x >>= f) Q := by
  intro s hs
  have h : match x s with | .ok a s' => P a ∧ inv s' | .error _ s' => inv s' := hx s hs
  show match EStateM.bind x f s with | .ok b s' => Q b ∧ inv s' | .error _ s' => inv s'
  unfold EStateM.bind
  split at h
  · next a s' hrun => rw [hrun]; exact hf a h.1 s' h.2
  · next e s' hrun => rw [hrun]; exact h

theorem Triple.pure {post : α → Prop} {a : α} (h : post a) : Triple inv (pure a) post :=
  fun _ hs => ⟨h, hs⟩

theorem Triple.read : Triple inv get inv := fun _ hs => ⟨hs, hs⟩

theorem Triple.write {f : PriceStore → PriceStore} (hf : ∀ s, inv s → inv (f s)) :
    Triple inv (modify f) fun _ => True :=
  fun s hs => ⟨trivial, hf s hs⟩

theorem Triple.ofOption {o : Option α} {post : α → Prop} (h : ∀ a, o = some a → post a) :
    Triple inv (PriceM.ofOption o) post := by
  cases o with
  | none => exact fun _ hs => hs
  | some a => exact Triple.pure (h a rfl)

theorem Triple.read_bind {f : PriceStore → PriceM α} {post : α → Prop}
    (hf : ∀ s, inv s → Triple inv (f s) post) : Triple inv (get >>= f) post :=
  Triple.bind Triple.read hf

theorem Triple.write_bind {f : PriceStore → PriceStore} {x : PriceM α} {post : α → Prop}
    (hf : ∀ s, inv s → inv (f s)) (hx : Triple inv x post) : Triple inv (modify f >>= fun _ => x) post :=
  Triple.bind (Triple.write hf) fun _ _ => hx

theorem Triple.tryCatch {x : PriceM α} {handle : Unit → PriceM α} {post : α → Prop}
    (hx : Triple inv x post) (hhandle : ∀ e, Triple inv (handle e) post) :
    Triple inv (tryCatch x handle) post := by
  intro s hs
  have h : match x s with | .ok a s' => post a ∧ inv s' | .error _ s' => inv s' := hx s hs
  show match EStateM.tryCatch x handle s with | .ok a s' => post a ∧ inv s' | .error _ s' => inv s'
  unfold EStateM.tryCatch
  split at h
  · next a s' hrun => rw [hrun]; exact h
  · next e s' hrun => rw [hrun]; exact hhandle e s' h

theorem Triple.run_ok {x : PriceM α} {post : α → Prop} (hx : Triple inv x post) {s s' : PriceStore}
    {a : α} (hs : inv s) (h : x.run s = .ok a s') : post a ∧ inv s' := by
  have := hx s hs
  rw [h] at this
  exact this

theorem run_bind_ok {x : PriceM α} {f : α → PriceM β} {s s' : PriceStore} {b : β}
    (h : (x >>= f).run s = .ok b s') : ∃ a s₁, x.run s = .ok a s₁ ∧ (f a).run s₁ = .ok b s' := by
  change EStateM.bind x f s = .ok b s' at h
  unfold EStateM.bind at h
  split at h
  · next a s₁ hx => exact ⟨a, s₁, hx, h⟩
  · cases h

theorem run_bind_of_ok {x : PriceM α} {f : α → PriceM β} {s s₁ : PriceStore} {a : α}
    (h : x.run s = .ok a s₁) : (x >>= f).run s = (f a).run s₁ := by
  change EStateM.bind x f s = f a s₁
  unfold EStateM.bind
  change x s = .ok a s₁ at h
  rw [h]

theorem run_tryCatch {x : PriceM α} {handle : Unit → PriceM α} (s : PriceStore) :
    (tryCatch x handle).run s =
      match x.run s with
      | .ok a s' => .ok a s'
      | .error e s' => (handle e).run s' := by
  change EStateM.tryCatch x handle s = match x s with
    | .ok a s' => .ok a s'
    | .error e s' => handle e s'
  unfold EStateM.tryCatch
  cases x s <;> rfl

theorem run_pure_ok {a b : α} {s s' : PriceStore} (h : (pure a : PriceM α).run s = .ok b s') :
    b = a ∧ s' = s := by
  cases h
  exact ⟨rfl, rfl⟩

theorem run_get_bind_ok {f : PriceStore → PriceM α} {s s' : PriceStore} {b : α}
    (h : (get >>= f).run s = .ok b s') : (f s).run s = .ok b s' := h

theorem run_modify_ok {f : PriceStore → PriceStore} {s s' : PriceStore} {u : PUnit}
    (h : (modify f : PriceM PUnit).run s = .ok u s') : s' = f s := by
  cases h
  rfl

theorem Refines.pure (a : α) : Refines inv (pure a) (some a) := Triple.pure rfl

theorem Refines.bind {x : PriceM α} {y : Option α} {f : α → PriceM β} {g : α → Option β}
    (hx : Refines inv x y) (hf : ∀ a, y = some a → Refines inv (f a) (g a)) :
    Refines inv (x >>= f) (y >>= g) :=
  Triple.bind hx fun a ha => (hf a ha).mono fun b hb => by rw [ha]; exact hb

theorem Refines.ofOption {o y : Option α} (h : ∀ a, o = some a → y = some a) :
    Refines inv (PriceM.ofOption o) y :=
  Triple.ofOption h

theorem Refines.mapM {f : α → PriceM β} {g : α → Option β} (l : List α)
    (h : ∀ a ∈ l, Refines inv (f a) (g a)) : Refines inv (l.mapM f) (l.mapM g) := by
  induction l with
  | nil => exact Refines.pure []
  | cons a l ih =>
    simp only [List.mapM_cons]
    exact Refines.bind (h a (.head _)) fun _ _ =>
      Refines.bind (ih fun a' ha' => h a' (.tail _ ha')) fun _ _ => Refines.pure _

theorem Triple.mapM {f : α → PriceM β} (l : List α) (h : ∀ a ∈ l, Triple inv (f a) fun _ => True) :
    Triple inv (l.mapM f) fun _ => True := by
  induction l with
  | nil => exact Triple.pure trivial
  | cons a l ih =>
    simp only [List.mapM_cons]
    exact Triple.bind (h a (.head _)) fun _ _ =>
      Triple.bind (ih fun a' ha' => h a' (.tail _ ha')) fun _ _ => Triple.pure trivial

end Logic

/-! ## `get_pair` -/

/-- The field of `uniswap_tokens_pair_map` for two tokens. -/
def pairMapKey (token0 token1 : String) : String := token0 ++ "-" ++ token1

/-- `get_pair`: the factory's pair of two tokens, cached in `uniswap_tokens_pair_map` on the
first call, the zero address included. -/
def getPair (rpc : Chain) (token0 token1 : String) : PriceM String := do
  match (← get).tokensPairMap (pairMapKey token0 token1) with
  | some pairAddressCache => pure pairAddressCache
  | none =>
    let pair ← PriceM.ofOption (rpc.getPair token0 token1)
    modify fun s => { s with
      tokensPairMap := Function.update s.tokensPairMap (pairMapKey token0 token1) (some pair) }
    pure pair

/-! ## `get_pair_per_token_metadata` -/

/-- `get_maker_pair_data`. -/
def getMakerPairData (prop : String) : String :=
  if prop.toLower = "name" then "Maker"
  else if prop.toLower = "symbol" then "MKR"
  else "Maker"

/-- A batch of ERC-20 calls: every call answers, or the batch raises. -/
def batchCall (rpc : Chain) (tasks : List TokenCall) : Option (List CallResult) :=
  tasks.mapM rpc.call

/-- The token data batch: the name and symbol of each token that is not MAKER, and both
decimals, in this order. -/
def tokenDataTasks (settings : PriceSettings) (token0Addr token1Addr : String) : List TokenCall :=
  (if settings.maker = token0Addr then [] else [.name token0Addr, .symbol token0Addr]) ++
    .decimals token0Addr ::
      (if settings.maker = token1Addr then [] else [.name token1Addr, .symbol token1Addr]) ++
        [.decimals token1Addr]

/-- The unpacking of the batch in the layout of each branch; results that do not fit the
layout raise. -/
def unpackTokensData (settings : PriceSettings) (token0Addr token1Addr : String)
    (results : List CallResult) : Option TokensData :=
  let makerName := CallResult.text (getMakerPairData "name")
  let makerSymbol := CallResult.text (getMakerPairData "symbol")
  if settings.maker = token1Addr then
    match results with
    | [token0Name, token0Symbol, token0Decimals, token1Decimals] =>
      some ⟨token0Name, token0Symbol, token0Decimals, makerName, makerSymbol, token1Decimals⟩
    | _ => none
  else if settings.maker = token0Addr then
    match results with
    | [token0Decimals, token1Name, token1Symbol, token1Decimals] =>
      some ⟨makerName, makerSymbol, token0Decimals, token1Name, token1Symbol, token1Decimals⟩
    | _ => none
  else
    match results with
    | [token0Name, token0Symbol, token0Decimals, token1Name, token1Symbol, token1Decimals] =>
      some ⟨token0Name, token0Symbol, token0Decimals, token1Name, token1Symbol, token1Decimals⟩
    | _ => none

/-- The token data of a pair when `uniswap_pair_contract_tokens_data` is empty. -/
def fetchTokensData (settings : PriceSettings) (rpc : Chain) (token0Addr token1Addr : String) :
    Option TokensData :=
  (batchCall rpc (tokenDataTasks settings token0Addr token1Addr)).bind
    (unpackTokensData settings token0Addr token1Addr)

/-- A token of a pair's metadata. -/
structure TokenMetadata where
  address : String
  name : CallResult
  symbol : CallResult
  decimals : CallResult
  deriving DecidableEq, Repr

/-- What `get_pair_per_token_metadata` returns, without the pair symbol it derives. -/
structure PairMetadata where
  token0 : TokenMetadata
  token1 : TokenMetadata
  deriving DecidableEq, Repr

def PairMetadata.of (addresses : String × String) (data : TokensData) : PairMetadata :=
  ⟨⟨addresses.1, data.token0Name, data.token0Symbol, data.token0Decimals⟩,
    ⟨addresses.2, data.token1Name, data.token1Symbol, data.token1Decimals⟩⟩

/-- The addresses of a pair's tokens: the cached ones, or `token0()` and `token1()`, written to
`uniswap_pair_contract_tokens_addresses`. -/
def pairTokenAddresses (rpc : Chain) (pairAddress : String) :
    Option (String × String) → PriceM (String × String)
  | some addresses => pure addresses
  | none => do
    let addresses ← PriceM.ofOption (rpc.tokenAddresses pairAddress)
    modify fun s => { s with
      pairContractTokensAddresses :=
        Function.update s.pairContractTokensAddresses pairAddress (some addresses) }
    pure addresses

/-- The tokens' data: the cached one, or the batch, written to
`uniswap_pair_contract_tokens_data`. -/
def pairTokensData (settings : PriceSettings) (rpc : Chain) (pairAddress : String)
    (addresses : String × String) : Option TokensData → PriceM TokensData
  | some data => pure data
  | none => do
    let data ← PriceM.ofOption (fetchTokensData settings rpc addresses.1 addresses.2)
    modify fun s => { s with
      pairContractTokensData := Function.update s.pairContractTokensData pairAddress (some data) }
    pure data

/-- `get_pair_per_token_metadata`: both hashes are read first, and each that is empty is
fetched and written. -/
def getPairPerTokenMetadata (settings : PriceSettings) (rpc : Chain) (pairAddress : String) :
    PriceM PairMetadata := do
  let cache ← get
  let addresses ← pairTokenAddresses rpc pairAddress (cache.pairContractTokensAddresses pairAddress)
  let data ← pairTokensData settings rpc pairAddress addresses (cache.pairContractTokensData pairAddress)
  pure (PairMetadata.of addresses data)

namespace StablecoinReserves

variable (r : StablecoinReserves)

/-! `tokens_decimals`: 18 for WETH and DAI, 6 for USDC and USDT. -/

def daiEthPairEthReserve : ℚ := r.daiEthPairReserves.2 / 10 ^ 18
def daiEthPairDaiReserve : ℚ := r.daiEthPairReserves.1 / 10 ^ 18
def usdcEthPairEthReserve : ℚ := r.usdcEthPairReserves.2 / 10 ^ 18
def usdcEthPairUsdcReserve : ℚ := r.usdcEthPairReserves.1 / 10 ^ 6
def usdtEthPairEthReserve : ℚ := r.ethUsdtPairReserves.1 / 10 ^ 18
def usdtEthPairUsdtReserve : ℚ := r.ethUsdtPairReserves.2 / 10 ^ 6

end StablecoinReserves

/-- The price `get_eth_price_usd` computes from the reserves: each stablecoin's price in ETH,
weighted by its pair's share of the three pairs' ETH. A pair without ETH raises on its
division. -/
def ethPriceUsdOf (r : StablecoinReserves) : Option ℚ :=
  if r.daiEthPairEthReserve = 0 ∨ r.usdcEthPairEthReserve = 0 ∨ r.usdtEthPairEthReserve = 0 then none
  else
    let daiPrice := r.daiEthPairDaiReserve / r.daiEthPairEthReserve
    let usdcPrice := r.usdcEthPairUsdcReserve / r.usdcEthPairEthReserve
    let usdtPrice := r.usdtEthPairUsdtReserve / r.usdtEthPairEthReserve
    let totalEthLiquidity :=
      r.daiEthPairEthReserve + r.usdcEthPairEthReserve + r.usdtEthPairEthReserve
    let daiWeight := r.daiEthPairEthReserve / totalEthLiquidity
    let usdcWeight := r.usdcEthPairEthReserve / totalEthLiquidity
    let usdtWeight := r.usdtEthPairEthReserve / totalEthLiquidity
    some (daiWeight * daiPrice + usdcWeight * usdcPrice + usdtWeight * usdtPrice)

/-- The writes after a fresh price at a height: the price is added, and the prices more than
`NUMBER_OF_BLOCKS_IN_EPOCH * PRUNE_PRICE_ZSET_EPOCH_MULTIPLIER` blocks older are removed. -/
def cacheEthPrice (settings : PriceSettings) (blockHeight : BlockId) (ethPriceUsd : ℚ)
    (s : PriceStore) : PriceStore :=
  match blockHeight with
  | .latest => s
  | .height h => { s with
      ethUsdPriceZset := (s.ethUsdPriceZset.zadd ⟨h, ethPriceUsd⟩ h).zremrangebyscore 0
        (h - settings.numberOfBlocksInEpoch * settings.prunePriceZsetEpochMultiplier) }

/-- `get_eth_price_usd`. -/
def getEthPriceUsd (settings : PriceSettings) (rpc : Chain) (blockHeight : BlockId) : PriceM ℚ := do
  match cachedPrice (← get).ethUsdPriceZset blockHeight with
  | some cached => pure cached
  | none =>
    let reserves ← PriceM.ofOption (rpc.stablecoinReserves blockHeight)
    let ethPriceUsd ← PriceM.ofOption (ethPriceUsdOf reserves)
    modify (cacheEthPrice settings blockHeight ethPriceUsd)
    pure ethPriceUsd

/-- The ETH price with nothing cached. -/
def ethPriceAt (chain : Chain) (blockHeight : BlockId) : Option ℚ :=
  (chain.stablecoinReserves blockHeight).bind ethPriceUsdOf

section EthPrice

variable {r : StablecoinReserves}

end EthPrice

/-! ## The caches' invariant -/

/-- Every cache entry is what the chain gives: the price sets hold the prices computed with
nothing cached (`price` for the tokens), and the hashes the node's answers. -/
structure CacheCorrect (settings : PriceSettings) (chain : Chain)
    (price : String → BlockId → Option ℚ) (s : PriceStore) : Prop where
  ethUsdPrice : ∀ entry ∈ s.ethUsdPriceZset.entries, PricedAt (ethPriceAt chain) entry
  tokenPrice : ∀ token, ∀ entry ∈ (s.cachedBlockHeightTokenPrice token).entries,
    PricedAt (price token) entry
  tokensPair : ∀ whiteToken ∈ settings.whitelist, ∀ token pair,
    s.tokensPairMap (pairMapKey whiteToken token) = some pair →
      chain.getPair whiteToken token = some pair
  tokensAddresses : ∀ pair addresses, s.pairContractTokensAddresses pair = some addresses →
    chain.tokenAddresses pair = some addresses
  tokensData : ∀ pair data, s.pairContractTokensData pair = some data →
    ∃ addresses, chain.tokenAddresses pair = some addresses ∧
      fetchTokensData settings chain addresses.1 addresses.2 = some data

theorem CacheCorrect.empty (settings : PriceSettings) (chain : Chain)
    (price : String → BlockId → Option ℚ) : CacheCorrect settings chain price PriceStore.empty :=
  ⟨nofun, fun _ => nofun, fun _ _ _ _ => nofun, fun _ _ => nofun, fun _ _ => nofun⟩

section Agrees

variable {rpc chain : Chain} (hrpc : rpc.Agrees chain)
include hrpc

end Agrees

/-! ## The cached calls answer what the chain gives -/

section Refinement

variable {settings : PriceSettings} {chain rpc : Chain} {price : String → BlockId → Option ℚ}
  (hrpc : rpc.Agrees chain)
include hrpc

end Refinement

/-! ## What the caches never take back -/

/-- Every hash entry of `s₀` is in `s`, and, where its token prices are scored at their heights,
so are those of `s`, each token's extending those of `s₀`. -/
structure PriceStore.Keeps (s₀ s : PriceStore) : Prop where
  tokensPairMap : ∀ key pair, s₀.tokensPairMap key = some pair → s.tokensPairMap key = some pair
  tokensAddresses : ∀ pair addresses, s₀.pairContractTokensAddresses pair = some addresses →
    s.pairContractTokensAddresses pair = some addresses
  tokensData : ∀ pair data, s₀.pairContractTokensData pair = some data →
    s.pairContractTokensData pair = some data
  tokenPrices : s₀.TokenPricesScored → s.TokenPricesScored ∧
    ∀ token, (s₀.cachedBlockHeightTokenPrice token).entries <+:
      (s.cachedBlockHeightTokenPrice token).entries

theorem PriceStore.Keeps.refl (s : PriceStore) : s.Keeps s :=
  ⟨fun _ _ => id, fun _ _ => id, fun _ _ => id, fun h => ⟨h, fun _ => List.prefix_refl _⟩⟩

section Keeps

variable {s₀ : PriceStore}

theorem ne_of_keeps {β : Type} {field : String → Option β} {key key' : String} {value : β}
    (hnone : field key = none) (h : field key' = some value) : key' ≠ key := by
  rintro rfl
  rw [h] at hnone
  cases hnone

theorem getPair_keeps (rpc : Chain) (token0 token1 : String) :
    Triple (PriceStore.Keeps s₀) (getPair rpc token0 token1) fun _ => True := by
  refine Triple.read_bind fun s hs => ?_
  split
  · exact Triple.pure trivial
  · next hnone =>
    refine Triple.bind (Triple.ofOption fun _ _ => trivial) fun _ _ => Triple.write_bind
      (fun s' hs' => { hs' with tokensPairMap := fun key p hp => ?_ }) (Triple.pure trivial)
    have hkey := ne_of_keeps hnone (hs.tokensPairMap _ _ hp)
    simp only [Function.update_noteq hkey]
    exact hs'.tokensPairMap _ _ hp

theorem getPairPerTokenMetadata_keeps (settings : PriceSettings) (rpc : Chain) (pairAddress : String) :
    Triple (PriceStore.Keeps s₀) (getPairPerTokenMetadata settings rpc pairAddress) fun _ => True := by
  refine Triple.read_bind fun cache hcache => Triple.bind ?_ fun addresses (_ : True) =>
    Triple.bind ?_ fun _ (_ : True) => Triple.pure trivial
  · cases hcached : cache.pairContractTokensAddresses pairAddress with
    | some addresses => exact Triple.pure trivial
    | none =>
      refine Triple.bind (Triple.ofOption fun _ _ => trivial) fun _ _ => Triple.write_bind
        (fun s' hs' => { hs' with tokensAddresses := fun pair a ha => ?_ }) (Triple.pure trivial)
      have hpair := ne_of_keeps hcached (hcache.tokensAddresses _ _ ha)
      simp only [Function.update_noteq hpair]
      exact hs'.tokensAddresses _ _ ha
  · cases hcached : cache.pairContractTokensData pairAddress with
    | some data => exact Triple.pure trivial
    | none =>
      refine Triple.bind (Triple.ofOption fun _ _ => trivial) fun _ _ => Triple.write_bind
        (fun s' hs' => { hs' with tokensData := fun pair d hd => ?_ }) (Triple.pure trivial)
      have hpair := ne_of_keeps hcached (hcache.tokensData _ _ hd)
      simp only [Function.update_noteq hpair]
      exact hs'.tokensData _ _ hd

theorem getEthPriceUsd_keeps (settings : PriceSettings) (rpc : Chain) (blockHeight : BlockId) :
    Triple (PriceStore.Keeps s₀) (getEthPriceUsd settings rpc blockHeight) fun _ => True := by
  refine Triple.read_bind fun s _ => ?_
  split
  · exact Triple.pure trivial
  · refine Triple.bind (Triple.ofOption fun _ _ => trivial) fun _ _ =>
      Triple.bind (Triple.ofOption fun _ _ => trivial) fun _ _ =>
        Triple.write_bind (fun s' hs' => ?_) (Triple.pure trivial)
    cases blockHeight
    · exact hs'
    · exact ⟨hs'.1, hs'.2, hs'.3, hs'.4⟩

theorem Triple.scored {α : Type} {x : PriceM α} (hx : ∀ s₀, Triple (PriceStore.Keeps s₀) x fun _ => True) :
    Triple PriceStore.TokenPricesScored x fun _ => True := by
  intro s hs
  have h := hx s s (PriceStore.Keeps.refl s)
  revert h
  split <;> intro h
  · exact ⟨trivial, (h.2.tokenPrices hs).1⟩
  · exact (h.tokenPrices hs).1

end Keeps

/-! ## What leaves the token prices as they are -/

section Frames

variable (c : String → PriceZset)

theorem getPair_tokenPrices (rpc : Chain) (token0 token1 : String) :
    Triple (fun s => s.cachedBlockHeightTokenPrice = c) (getPair rpc token0 token1) fun _ => True :=
  Triple.read_bind fun s _ => by
    split
    · exact Triple.pure trivial
    · exact Triple.bind (Triple.ofOption fun _ _ => trivial) fun _ _ =>
        Triple.write_bind (fun _ hs' => hs') (Triple.pure trivial)

theorem getPairPerTokenMetadata_tokenPrices (settings : PriceSettings) (rpc : Chain)
    (pairAddress : String) :
    Triple (fun s => s.cachedBlockHeightTokenPrice = c)
      (getPairPerTokenMetadata settings rpc pairAddress) fun _ => True := by
  refine Triple.read_bind fun cache _ => Triple.bind ?_ fun _ (_ : True) =>
    Triple.bind ?_ fun _ (_ : True) => Triple.pure trivial
  · cases cache.pairContractTokensAddresses pairAddress with
    | some _ => exact Triple.pure trivial
    | none => exact Triple.bind (Triple.ofOption fun _ _ => trivial) fun _ _ =>
        Triple.write_bind (fun _ hs' => hs') (Triple.pure trivial)
  · cases cache.pairContractTokensData pairAddress with
    | some _ => exact Triple.pure trivial
    | none => exact Triple.bind (Triple.ofOption fun _ _ => trivial) fun _ _ =>
        Triple.write_bind (fun _ hs' => hs') (Triple.pure trivial)

theorem getEthPriceUsd_tokenPrices (settings : PriceSettings) (rpc : Chain) (blockHeight : BlockId) :
    Triple (fun s => s.cachedBlockHeightTokenPrice = c)
      (getEthPriceUsd settings rpc blockHeight) fun _ => True :=
  Triple.read_bind fun s _ => by
    split
    · exact Triple.pure trivial
    · exact Triple.bind (Triple.ofOption fun _ _ => trivial) fun _ _ =>
        Triple.bind (Triple.ofOption fun _ _ => trivial) fun _ _ =>
          Triple.write_bind (fun _ hs' => by cases blockHeight <;> exact hs') (Triple.pure trivial)

end Frames

/-! ## What the ETH price cache holds -/

end Pooler
