import AdaptiveArray.Session
import AdaptiveArray.Proofs.Buffer
import AdaptiveArray.Proofs.Ending
import AdaptiveArray.Proofs.Store
import AdaptiveArray.Proofs.Write
import AdaptiveArray.Proofs.Histories
import AdaptiveArray.Proofs.Failing
import AdaptiveArray.Proofs.Hashing
import AdaptiveArray.Proofs.Isolation
import AdaptiveArray.Proofs.Likeness
import AdaptiveArray.Proofs.Growth
import AdaptiveArray.Proofs.Limit
import AdaptiveArray.Proofs.Frozen
import AdaptiveArray.Proofs.Registry
import AdaptiveArray.Proofs.Sorted
import AdaptiveArray.Proofs.Markers
import AdaptiveArray.Proofs.Reading
import AdaptiveArray.Proofs.Rounding
import AdaptiveArray.Proofs.Exactness
import AdaptiveArray.Proofs.Calls
import AdaptiveArray.Proofs.SortedBy
import AdaptiveArray.Proofs.Sifting
import AdaptiveArray.Proofs.Taking
import AdaptiveArray.Proofs.Reachable
import AdaptiveArray.Proofs.Offers
import AdaptiveArray.Proofs.Agreement
import AdaptiveArray.Proofs.Equivalence
import AdaptiveArray.Proofs.Serializing
import AdaptiveArray.Proofs.Opacity
import AdaptiveArray.Proofs.Filling
import AdaptiveArray.Proofs.Narrowing
import AdaptiveArray.Proofs.Aliasing
import AdaptiveArray.Proofs.Composing
import AdaptiveArray.Proofs.Ensuring
import AdaptiveArray.Proofs.Polling
import AdaptiveArray.Proofs.Lodging
import AdaptiveArray.Proofs.Moving
