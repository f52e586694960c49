import PositionCache.Entry.Text
import PositionCache.Main
import PositionCache.Proofs.Capacity
import PositionCache.Proofs.Dates
import PositionCache.Proofs.StoreAfterMiss
import PositionCache.Proofs.Tags
import PositionCache.Proofs.Filling
import PositionCache.Proofs.Renewal
import PositionCache.Proofs.Workers
import PositionCache.Proofs.Faults
import PositionCache.Proofs.Locality
import PositionCache.Proofs.Draws
import PositionCache.Proofs.Rounding
import PositionCache.Proofs.Visits
import PositionCache.Proofs.Frozen
import PositionCache.Proofs.Replacement
import PositionCache.Proofs.GuardedStore
import PositionCache.Proofs.Lookups
import PositionCache.Proofs.Spreading
import PositionCache.Proofs.Turns
import PositionCache.Proofs.Refusals
import PositionCache.Proofs.Keys
import PositionCache.Proofs.Ring
import PositionCache.Proofs.Toml.Reader
import PositionCache.Proofs.SettingsText
import PositionCache.Proofs.Layers
