import SkegHull.Saga.RoundTrip
import SkegHull.Saga.Safety
import SkegHull.KvCache.RoundTrip
import SkegHull.KvCache.Safety
import SkegHull.Scrub.Agreement
import SkegHull.Scrub.Live
import SkegHull.Scrub.Loop
import SkegHull.Atomic.Durability
import SkegHull.Atomic.Failure
import SkegHull.Burst
import SkegHull.Layout
import SkegHull.Forward
import SkegHull.Acceptance
import SkegHull.Truncated
import SkegHull.Rewrite
import SkegHull.Scrub.Section
import SkegHull.Canonical
import SkegHull.Header.Exact
import SkegHull.KvCache.PerToken
import SkegHull.Saga.Counts
import SkegHull.Overwrite
import SkegHull.Language
import SkegHull.Distance
import SkegHull.Faults
import SkegHull.Scrub.Passes
import SkegHull.Store.AtRest
import SkegHull.Store.Progress
import SkegHull.Store.Restarts
