import ReleaseCatalog.Version.RangeCache
import ReleaseCatalog.Catalog.Basic
import ReleaseCatalog.Refresh.Loop
import ReleaseCatalog.Main
import ReleaseCatalog.Proofs.Catalog.Listing
import ReleaseCatalog.Proofs.Catalog.Union
import ReleaseCatalog.Proofs.Json.RoundTrip
import ReleaseCatalog.Proofs.Time.RoundTrip
import ReleaseCatalog.Proofs.Json.Codec
import ReleaseCatalog.Archive.Table
import ReleaseCatalog.Proofs.Release.RoundTrip
import ReleaseCatalog.Proofs.Archive.Rows
import ReleaseCatalog.Proofs.Archive.Import
import ReleaseCatalog.Proofs.Archive.Refinement
import ReleaseCatalog.Proofs.Refresh.FailSoft
import ReleaseCatalog.Proofs.Archive.Locality
import ReleaseCatalog.Proofs.Archive.Convergence
import ReleaseCatalog.Proofs.Archive.Interruption
import ReleaseCatalog.Proofs.Archive.Recency
import ReleaseCatalog.Proofs.Refresh.Reading
import ReleaseCatalog.Proofs.Text.Blank
import ReleaseCatalog.Proofs.Text.Reading
import ReleaseCatalog.Proofs.Version.Grammar
import ReleaseCatalog.Proofs.Version.Preference
import ReleaseCatalog.Proofs.Version.Written
import ReleaseCatalog.Proofs.Version.Scan
import ReleaseCatalog.Proofs.Version.Normal
import ReleaseCatalog.Proofs.Version.Recognition
import ReleaseCatalog.Proofs.Version.Canonical
import ReleaseCatalog.Proofs.Version.Modes
import ReleaseCatalog.Proofs.Version.Clause
import ReleaseCatalog.Proofs.Version.Specification
import ReleaseCatalog.Proofs.Catalog.Query
import ReleaseCatalog.Proofs.Version.Rank
import ReleaseCatalog.Proofs.Version.Separation
import ReleaseCatalog.Proofs.Version.Derivation
import ReleaseCatalog.Proofs.Version.Recall
import ReleaseCatalog.Proofs.Version.Joining
import ReleaseCatalog.Proofs.Json.Whole
import ReleaseCatalog.Proofs.Json.Spacing
import ReleaseCatalog.Proofs.Release.Feed
import ReleaseCatalog.Proofs.Refresh.Loop
import ReleaseCatalog.Proofs.Text.Percent
import ReleaseCatalog.Proofs.Version.Decoration
import ReleaseCatalog.Proofs.Catalog.Difference
import ReleaseCatalog.Proofs.Catalog.Restriction
import ReleaseCatalog.Proofs.Catalog.Latest
import ReleaseCatalog.Proofs.Catalog.Narrowing
import ReleaseCatalog.Proofs.Version.Containment
import ReleaseCatalog.Proofs.Version.Choice
import ReleaseCatalog.Proofs.Version.Front
import ReleaseCatalog.Proofs.Version.Leftmost
import ReleaseCatalog.Proofs.Catalog.Update
import ReleaseCatalog.Proofs.Json.Members
import ReleaseCatalog.Proofs.CommandLine.Pages
import ReleaseCatalog.Proofs.Catalog.Availability
import ReleaseCatalog.Proofs.Release.Positions
