import EmbeddingSearch.Cache.Json
import EmbeddingSearch.Cache.Session
import EmbeddingSearch.Catalog.Json
import EmbeddingSearch.Catalog.RecordText
import EmbeddingSearch.Messages.Json
import EmbeddingSearch.Provider.Api
import EmbeddingSearch.Provider.Json
import EmbeddingSearch.Provider.Scripted
import EmbeddingSearch.Service.Build
import EmbeddingSearch.Service.Generation
import EmbeddingSearch.Service.Maintenance
import EmbeddingSearch.Service.Search
import EmbeddingSearch.Service.World
import EmbeddingSearch.Settings.Document
import EmbeddingSearch.Store.Json
import EmbeddingSearch.Proofs.Cache.Accounting
import EmbeddingSearch.Proofs.Cache.Eviction
import EmbeddingSearch.Proofs.Cache.Generations
import EmbeddingSearch.Proofs.Cache.History
import EmbeddingSearch.Proofs.Cache.Hits
import EmbeddingSearch.Proofs.Cache.Recency
import EmbeddingSearch.Proofs.Cache.Separation
import EmbeddingSearch.Proofs.Catalog.Template
import EmbeddingSearch.Proofs.Messages.RoundTrip
import EmbeddingSearch.Proofs.Provider.Labels
import EmbeddingSearch.Proofs.Service.Account
import EmbeddingSearch.Proofs.Service.AllOrNothing
import EmbeddingSearch.Proofs.Service.Attribution
import EmbeddingSearch.Proofs.Service.Coverage
import EmbeddingSearch.Proofs.Service.Generation
import EmbeddingSearch.Proofs.Service.Interleaving
import EmbeddingSearch.Proofs.Service.Isolation
import EmbeddingSearch.Proofs.Service.Keys
import EmbeddingSearch.Proofs.Service.Limits
import EmbeddingSearch.Proofs.Service.Loading
import EmbeddingSearch.Proofs.Service.Refusal
import EmbeddingSearch.Proofs.Service.Symmetry
import EmbeddingSearch.Proofs.Service.Tally
import EmbeddingSearch.Proofs.Service.Transparency
import EmbeddingSearch.Proofs.Store.Changes
import EmbeddingSearch.Proofs.Store.Decoding
import EmbeddingSearch.Proofs.Store.Encodings
import EmbeddingSearch.Proofs.Text.Markup
import EmbeddingSearch.Proofs.Vector.Best
import EmbeddingSearch.Proofs.Vector.Partition
import EmbeddingSearch.Proofs.Vector.Range
