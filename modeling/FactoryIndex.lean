import FactoryIndex.CommandLine
import FactoryIndex.Definition
import FactoryIndex.Failure
import FactoryIndex.Main
import FactoryIndex.NameSet
import FactoryIndex.Number.Double
import FactoryIndex.Number.IntegerText
import FactoryIndex.Number.Seconds
import FactoryIndex.Number.Shortest
import FactoryIndex.OrderedMap
import FactoryIndex.Outline.Batch
import FactoryIndex.Outline.Nesting
import FactoryIndex.Outline.Parse
import FactoryIndex.Pattern.BlockToken
import FactoryIndex.Pattern.Call
import FactoryIndex.Pattern.FactoryBody
import FactoryIndex.Pattern.FactoryHeader
import FactoryIndex.Pattern.Heredoc
import FactoryIndex.Pattern.Scan
import FactoryIndex.Pattern.TraitHeader
import FactoryIndex.Proofs.Number.Rounding
import FactoryIndex.Proofs.Outline.Completion
import FactoryIndex.Proofs.Outline.Layout
import FactoryIndex.Proofs.Outline.Line
import FactoryIndex.Proofs.Outline.Location
import FactoryIndex.Proofs.Outline.Parse
import FactoryIndex.Proofs.Pattern.Keyword
import FactoryIndex.Proofs.Pattern.Scan
import FactoryIndex.Proofs.Request.Coherence
import FactoryIndex.Proofs.Session.Incremental
import FactoryIndex.Proofs.Session.Overlap
import FactoryIndex.Proofs.Session.Pass
import FactoryIndex.Proofs.Session.Ranking
import FactoryIndex.Proofs.Session.Reading
import FactoryIndex.Proofs.Session.Setup
import FactoryIndex.Proofs.Session.Supersede
import FactoryIndex.Proofs.StableSort
import FactoryIndex.Proofs.Store.Attribution
import FactoryIndex.Proofs.Store.Contribution
import FactoryIndex.Proofs.Store.Effect
import FactoryIndex.Proofs.Store.FirstWins
import FactoryIndex.Proofs.Store.Kind
import FactoryIndex.Proofs.Store.Ledger
import FactoryIndex.Proofs.Store.Refinement
import FactoryIndex.Proofs.Store.Replacement
import FactoryIndex.Proofs.Store.Run
import FactoryIndex.Proofs.Text.LineIndex
import FactoryIndex.Proofs.Text.Mask
import FactoryIndex.Proofs.Workspace.Priority
import FactoryIndex.Report
import FactoryIndex.Request.Basic
import FactoryIndex.Request.Line
import FactoryIndex.Request.Registry
import FactoryIndex.Request.Work
import FactoryIndex.Resolver
import FactoryIndex.Session.Basic
import FactoryIndex.Session.Indexing
import FactoryIndex.Session.Operation
import FactoryIndex.Settings
import FactoryIndex.Store.Basic
import FactoryIndex.Store.ExpiringMap
import FactoryIndex.Store.Timed
import FactoryIndex.Text.Character
import FactoryIndex.Text.LineIndex
import FactoryIndex.Text.Mask
import FactoryIndex.Text.Quoted
import FactoryIndex.Text.RawText
import FactoryIndex.Text.Split
import FactoryIndex.Text.UnprintableRanges
import FactoryIndex.Text.Utf8
import FactoryIndex.Text.WordRanges
import FactoryIndex.Value.Basic
import FactoryIndex.Value.Reader
import FactoryIndex.Value.Writer
import FactoryIndex.Workspace.Folder
import FactoryIndex.Workspace.Glob
import FactoryIndex.Workspace.Path
import FactoryIndex.Workspace.Tree
import FactoryIndex.Proofs.Request.Conversation
import FactoryIndex.Proofs.Request.Isolation
import FactoryIndex.Proofs.Session.Idle
import FactoryIndex.Proofs.Workspace.Listing
import FactoryIndex.Proofs.Request.Lasting
import FactoryIndex.Proofs.Store.Census
import FactoryIndex.Proofs.Session.Polling
import FactoryIndex.Proofs.Request.Freshness
import FactoryIndex.Proofs.Text.Lines
import FactoryIndex.Proofs.Text.Masking
import FactoryIndex.Proofs.Pattern.Occurrence
import FactoryIndex.Proofs.Pattern.Header
import FactoryIndex.Proofs.Pattern.Seam
import FactoryIndex.Proofs.Outline.Belonging
import FactoryIndex.Proofs.Outline.Moving
import FactoryIndex.Proofs.Outline.Composition
import FactoryIndex.Proofs.Pattern.Body
import FactoryIndex.Proofs.Outline.Flat
import FactoryIndex.Proofs.Outline.Cut
import FactoryIndex.Proofs.Outline.Linking
import FactoryIndex.Proofs.Session.Agreement
import FactoryIndex.Proofs.Outline.Hidden
import FactoryIndex.Proofs.Outline.Order
import FactoryIndex.Proofs.Pattern.Parent
import FactoryIndex.Proofs.Outline.Headers
import FactoryIndex.Proofs.Pattern.Call
import FactoryIndex.Proofs.Resolver.Eviction
import FactoryIndex.Proofs.Resolver.Exactness
import FactoryIndex.Proofs.Resolver.Coverage
import FactoryIndex.Proofs.Outline.Loop
import FactoryIndex.Proofs.Outline.Batch
import FactoryIndex.Proofs.Store.Exchange
import FactoryIndex.Proofs.Store.Cascade
import FactoryIndex.Proofs.Session.Reported
import FactoryIndex.Proofs.Session.Unread
import FactoryIndex.Proofs.Session.Bare
import FactoryIndex.Proofs.Session.Abandoned
import FactoryIndex.Proofs.Session.Watching
import FactoryIndex.Proofs.Settings.Ranges
import FactoryIndex.Proofs.Number.Range
import FactoryIndex.Proofs.Outline.Recovery
import FactoryIndex.Proofs.Store.Lifetime
import FactoryIndex.Proofs.Settings.Loading
import FactoryIndex.Proofs.Resolver.Methods
import FactoryIndex.Proofs.Text.Position
import FactoryIndex.Proofs.Text.Sweep
import FactoryIndex.Proofs.Value.Reader
