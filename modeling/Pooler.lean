import Pooler.Messages
import Pooler.Chunks
import Pooler.EpochDetector
import Pooler.Checkpoint
import Pooler.Store
import Pooler.Distributor
import Pooler.Pipeline
import Pooler.RateLimiter
import Pooler.Aggregation
import Pooler.Concurrent
import Pooler.CorrelationSet
import Pooler.LuaScripts
import Pooler.TradeVolume
import Pooler.PriceCache
import Pooler.TokenPrice
import Pooler.Liquidity
import Pooler.PriceRuns
