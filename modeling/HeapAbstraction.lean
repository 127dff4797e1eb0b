import HeapAbstraction.Bytes
import HeapAbstraction.Catalog.Database
import HeapAbstraction.Encoding.Varint
import HeapAbstraction.Catalog.Header
import HeapAbstraction.Label
import HeapAbstraction.Heap.Store
import HeapAbstraction.ErrorKind
import HeapAbstraction.Text.Utf8
import HeapAbstraction.Text.Printable
import HeapAbstraction.Text.Quoted
import HeapAbstraction.Heap.Error
import HeapAbstraction.Heap.Basic
import HeapAbstraction.Encoding.Encode
import HeapAbstraction.Encoding.Decode
import HeapAbstraction.Fingerprint.Hash
import HeapAbstraction.Heap.Query
import HeapAbstraction.Fingerprint.Basic
import HeapAbstraction.Morphism.Graph
import HeapAbstraction.Morphism.State
import HeapAbstraction.Morphism.Predicate
import HeapAbstraction.Morphism.Search
import HeapAbstraction.Metrics
import HeapAbstraction.Heap.Isomorphism
import HeapAbstraction.Catalog.Basic
import HeapAbstraction.HeapFile.Token
import HeapAbstraction.HeapFile.Tree
import HeapAbstraction.HeapFile.Rank
import HeapAbstraction.HeapFile.Parser
import HeapAbstraction.Heap.Edit
import HeapAbstraction.Heap.Compaction
import HeapAbstraction.HeapFile.Definitions
import HeapAbstraction.Grammar.Basic
import HeapAbstraction.Heap.Gluing
import HeapAbstraction.Heap.Folding
import HeapAbstraction.HeapSet
import HeapAbstraction.Visitor
import HeapAbstraction.Options.Basic
import HeapAbstraction.Grammar.Canonical
import HeapAbstraction.Heap.Printer
import HeapAbstraction.Storage.Path
import HeapAbstraction.Storage
import HeapAbstraction.Command.Canon
import HeapAbstraction.Command.Flags
import HeapAbstraction.Document.Node
import HeapAbstraction.Document.Cursor
import HeapAbstraction.Document.Scalar
import HeapAbstraction.Document.Token
import HeapAbstraction.Document.Mark
import HeapAbstraction.Document.TokenStream
import HeapAbstraction.Document.Reading
import HeapAbstraction.Number.Decimal
import HeapAbstraction.Options.Scalar
import HeapAbstraction.Options.Decoding
import HeapAbstraction.Options.Load
import HeapAbstraction.Command.Run
import HeapAbstraction.Grammar.Materialization
import HeapAbstraction.Heap.SelfFolding
import HeapAbstraction.Morphism.Guarded
import HeapAbstraction.Heap.Draft
import HeapAbstraction.Heap.Workbench
import HeapAbstraction.Main
import HeapAbstraction.Morphism.Exploration
import HeapAbstraction.Script.Error
import HeapAbstraction.Script.Value
import HeapAbstraction.Script.Operator
import HeapAbstraction.Script.Printer
import HeapAbstraction.Script.Session
import HeapAbstraction.Proofs.Arcs
import HeapAbstraction.Proofs.Invariant
import HeapAbstraction.Proofs.Primitive
import HeapAbstraction.Proofs.View
import HeapAbstraction.Proofs.Edit
import HeapAbstraction.Proofs.Compaction
import HeapAbstraction.Proofs.Gluing
import HeapAbstraction.Proofs.Folding
import HeapAbstraction.Proofs.SearchState
import HeapAbstraction.Proofs.SearchTree
import HeapAbstraction.Proofs.Feasibility
import HeapAbstraction.Proofs.Embedding
import HeapAbstraction.Proofs.Isomorphism
import HeapAbstraction.Proofs.Varint
import HeapAbstraction.Proofs.Decoding
import HeapAbstraction.Proofs.HeapFile
import HeapAbstraction.Proofs.Matching
import HeapAbstraction.Proofs.Representation
import HeapAbstraction.Proofs.FoldStep
import HeapAbstraction.Proofs.Unfolding
import HeapAbstraction.Proofs.Concretization
import HeapAbstraction.Proofs.HeapState
import HeapAbstraction.Proofs.Refinement
import HeapAbstraction.Proofs.Distance
import HeapAbstraction.Proofs.FoldInvariance
import HeapAbstraction.Proofs.Weight
import HeapAbstraction.Proofs.Fingerprint
import HeapAbstraction.Proofs.HeapSet
import HeapAbstraction.Proofs.NormalForms
import HeapAbstraction.Proofs.FoldFrame
import HeapAbstraction.Proofs.Answers
import HeapAbstraction.Proofs.RoundTrip
import HeapAbstraction.Proofs.DecodingTables
import HeapAbstraction.Proofs.Database
import HeapAbstraction.Proofs.Catalog
import HeapAbstraction.Proofs.CatalogSessions
import HeapAbstraction.Proofs.Deduplication
import HeapAbstraction.Proofs.PublicIds
import HeapAbstraction.Proofs.FoldInverse
import HeapAbstraction.Proofs.Parsing
import HeapAbstraction.Proofs.ParseExact
import HeapAbstraction.Proofs.Additions
import HeapAbstraction.Proofs.Renumbering
import HeapAbstraction.Proofs.HeapBody
import HeapAbstraction.Proofs.BodyChecks
import HeapAbstraction.Proofs.Outline
import HeapAbstraction.Proofs.TextRoundTrip
import HeapAbstraction.Proofs.FilteredSearch
import HeapAbstraction.Proofs.ArcOrder
import HeapAbstraction.Proofs.ExactFold
import HeapAbstraction.Proofs.Replacement
import HeapAbstraction.Proofs.GlueInverse
import HeapAbstraction.Proofs.FirstMorphism
import HeapAbstraction.Proofs.HostGrowth
import HeapAbstraction.Proofs.Provision
import HeapAbstraction.Proofs.Materialization
import HeapAbstraction.Proofs.BodyMeaning
import HeapAbstraction.Proofs.FileRanks
import HeapAbstraction.Proofs.GrammarUnion
import HeapAbstraction.Proofs.Selection
import HeapAbstraction.Proofs.Backtracking
import HeapAbstraction.Proofs.ReadBack
import HeapAbstraction.Proofs.SelectionBounds
import HeapAbstraction.Proofs.PrintLayout
import HeapAbstraction.Proofs.DistanceQueue
import HeapAbstraction.Proofs.InPlaceSearch
import HeapAbstraction.Proofs.Arena
import HeapAbstraction.Proofs.ArenaAnswers
import HeapAbstraction.Proofs.ArenaIds
import HeapAbstraction.Proofs.ArenaInvariant
import HeapAbstraction.Proofs.ArenaRefinement
import HeapAbstraction.Proofs.ArenaStability
