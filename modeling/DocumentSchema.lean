import DocumentSchema.Json.Reader
import DocumentSchema.Declaration.Writer
import DocumentSchema.Schema.Resolution
import DocumentSchema.Schema.Declared
import DocumentSchema.Query.Session
import DocumentSchema.Model
import DocumentSchema.Registry
import DocumentSchema.Proofs.Schema.Stability
import DocumentSchema.Proofs.Codec.Tree
import DocumentSchema.Proofs.Codec.Hash
import DocumentSchema.Proofs.Index.Searchable
import DocumentSchema.Proofs.Query.Bounds
import DocumentSchema.Proofs.Query.Parameters
import DocumentSchema.Proofs.Codec.Settled
import DocumentSchema.Proofs.Codec.Readable
import DocumentSchema.Proofs.Store.Runs
import DocumentSchema.Proofs.Text.Hex
import DocumentSchema.Proofs.Store.Fingerprints
import DocumentSchema.Proofs.Index.Arguments
import DocumentSchema.Proofs.Store.Coverage
import DocumentSchema.Proofs.Codec.Keys
import DocumentSchema.Proofs.Query.Tokens
import DocumentSchema.Proofs.Codec.Reread
import DocumentSchema.Proofs.Codec.Seconds
import DocumentSchema.Proofs.Codec.Agreement
import DocumentSchema.Proofs.Schema.Guarantees
import DocumentSchema.Proofs.Index.Leaves
import DocumentSchema.Proofs.Index.SearchNames
import DocumentSchema.Proofs.Index.Spelling
import DocumentSchema.Proofs.Index.Selectors
import DocumentSchema.Proofs.Index.TreePaths
import DocumentSchema.Proofs.Schema.Independence
import DocumentSchema.Proofs.Schema.Nesting
import DocumentSchema.Proofs.Store.Saved
import DocumentSchema.Proofs.Store.Sharing
import DocumentSchema.Proofs.Query.Alternatives
import DocumentSchema.Proofs.Store.Pages
import DocumentSchema.Proofs.Codec.Defaults
import DocumentSchema.Proofs.Store.Requests
import DocumentSchema.Proofs.Query.Intervals
import DocumentSchema.Proofs.Query.Integers
import DocumentSchema.Proofs.Codec.Dates
import DocumentSchema.Proofs.Query.Vectors
import DocumentSchema.Proofs.Store.Found
import DocumentSchema.Proofs.Store.Browsing
import DocumentSchema.Proofs.Codec.Written
import DocumentSchema.Proofs.Registry
import DocumentSchema.Proofs.Codec.WholeNumbers
import DocumentSchema.Proofs.Store.Frames
import DocumentSchema.Proofs.Schema.Same
