import ScopedMemory.Heap.TwinHeaps
import ScopedMemory.Proofs.Region.Span
import ScopedMemory.Proofs.Total
import ScopedMemory.Proofs.Scope.Weight
import ScopedMemory.Proofs.Store.Update
import ScopedMemory.Session.Run
import ScopedMemory.Proofs.Region.Access
import ScopedMemory.Proofs.Heap.Apart
import ScopedMemory.Proofs.Store.Sound
import ScopedMemory.Proofs.Store.Change
import ScopedMemory.Proofs.Store.Grant
import ScopedMemory.Proofs.Operation
import ScopedMemory.Proofs.Store.Changes
import ScopedMemory.Proofs.Allocator
import ScopedMemory.Proofs.Variadic.List
import ScopedMemory.Proofs.Variadic.Builder
import ScopedMemory.Proofs.Session.Turn
import ScopedMemory.Proofs.Store.Release
import ScopedMemory.Proofs.Session.Sound
import ScopedMemory.Proofs.Session.Play
import ScopedMemory.Proofs.Session.Calls
import ScopedMemory.Proofs.Scope.Lookup
import ScopedMemory.Proofs.Session.Allocations
import ScopedMemory.Proofs.Session.Regions
import ScopedMemory.Proofs.Session.Variadics
import ScopedMemory.Proofs.Session.Run
import ScopedMemory.Proofs.Arena.Touch
import ScopedMemory.Proofs.Variadic.Touch
import ScopedMemory.Proofs.Session.Containment
import ScopedMemory.Proofs.Session.Disjoint
import ScopedMemory.Proofs.Arrays.Basic
import ScopedMemory.Proofs.Arrays.Mirror
import ScopedMemory.Proofs.Arrays.Session
import ScopedMemory.Proofs.Arrays.Calls
import ScopedMemory.Proofs.Arrays.Regions
import ScopedMemory.Proofs.Arrays.Allocations
import ScopedMemory.Proofs.Arrays.Refinement
import ScopedMemory.Proofs.Arena.Settled
import ScopedMemory.Proofs.Variadic.Slots
import ScopedMemory.Proofs.Variadic.Reading
import ScopedMemory.Proofs.Session.ReadBack
import ScopedMemory.Proofs.Lifetime.Keep
import ScopedMemory.Proofs.Lifetime.Table
import ScopedMemory.Proofs.Lifetime.Edit
import ScopedMemory.Proofs.Lifetime.Calls
import ScopedMemory.Proofs.Lifetime.Work
import ScopedMemory.Proofs.Lifetime.References
import ScopedMemory.Proofs.Lifetime.Tidy
import ScopedMemory.Proofs.Lifetime.Guards
import ScopedMemory.Proofs.Lifetime.Ended
import ScopedMemory.Proofs.Lifetime.Closing
import ScopedMemory.Proofs.Lifetime.Timeline
import ScopedMemory.Proofs.Lifetime.Actions
import ScopedMemory.Proofs.Arena.Supply
import ScopedMemory.Proofs.Layout
import ScopedMemory.Proofs.Variadic.Supply
import ScopedMemory.Proofs.Variadic.Image
import ScopedMemory.Proofs.Session.Image
import ScopedMemory.Proofs.Refusal.Inspection
import ScopedMemory.Proofs.Refusal.Operations
import ScopedMemory.Proofs.Refusal.Calls
import ScopedMemory.Proofs.Refusal.Order
import ScopedMemory.Proofs.Refusal.Confined
import ScopedMemory.Proofs.Lifetime.Avoid
import ScopedMemory.Proofs.Lifetime.Aside
import ScopedMemory.Proofs.Lifetime.Skip
import ScopedMemory.Proofs.Refusal.Staged
import ScopedMemory.Proofs.Refusal.Closed
import ScopedMemory.Proofs.Heap.Orderly
import ScopedMemory.Proofs.Lifetime.Fate
import ScopedMemory.Proofs.Lifetime.Private
import ScopedMemory.Proofs.Lifetime.Blocks
import ScopedMemory.Proofs.Variadic.Copying
import ScopedMemory.Proofs.Refusal.Outcome
import ScopedMemory.Proofs.Session.Lists
import ScopedMemory.Proofs.Variadic.Adopted
import ScopedMemory.Proofs.Session.Adopted
import ScopedMemory.Proofs.Heap.Packing
import ScopedMemory.Proofs.Arena.Deals
import ScopedMemory.Proofs.Arena.Books
import ScopedMemory.Proofs.Variadic.Deals
import ScopedMemory.Proofs.Session.Through
import ScopedMemory.Proofs.Session.Accounts
import ScopedMemory.Proofs.Truth.Faults
import ScopedMemory.Proofs.Truth.Allocations
import ScopedMemory.Proofs.Truth.Variadics
import ScopedMemory.Proofs.Truth.Calls
import ScopedMemory.Proofs.Session.Truth
import ScopedMemory.Proofs.Session.Resolution
import ScopedMemory.Proofs.Lifetime.Cascade
import ScopedMemory.Proofs.Arena.Fit
import ScopedMemory.Proofs.Arena.Answers
import ScopedMemory.Proofs.Arena.Interleaving
import ScopedMemory.Proofs.Session.Lenient
import ScopedMemory.Proofs.Arena.Failures
import ScopedMemory.Proofs.Variadic.Failures
import ScopedMemory.Proofs.Session.Counts
import ScopedMemory.Proofs.Session.Arithmetic
import ScopedMemory.Proofs.Arena.Config
import ScopedMemory.Proofs.Arena.Retired
import ScopedMemory.Proofs.Arena.Growth
import ScopedMemory.Proofs.Arena.Capacity
import ScopedMemory.Proofs.Arena.Blind
import ScopedMemory.Proofs.Variadic.Again
import ScopedMemory.Proofs.Variadic.Position
import ScopedMemory.Proofs.Variadic.Skipping
import ScopedMemory.Proofs.Session.Progress
import ScopedMemory.Proofs.Session.Twins
import ScopedMemory.Proofs.Session.Skipping
import ScopedMemory.Proofs.Region.Slices
import ScopedMemory.Proofs.Region.Copies
import ScopedMemory.Proofs.Bytes
import ScopedMemory.Proofs.Region.Encoding
import ScopedMemory.Proofs.Region.Values
import ScopedMemory.Proofs.Region.RoundTrip
import ScopedMemory.Proofs.Region.Row
import ScopedMemory.Proofs.Allocator.Contents
import ScopedMemory.Proofs.Session.Contents
import ScopedMemory.Proofs.Arena.Submissions
import ScopedMemory.Proofs.Session.Submissions
import ScopedMemory.Proofs.Session.Tally
import ScopedMemory.Proofs.Layout.Extent
import ScopedMemory.Proofs.Allocator.Layouts
