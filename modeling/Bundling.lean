import Bundling.ModuleId
import Bundling.Json.Writer
import Bundling.Json.Reader
import Bundling.Syntax.Dialect
import Bundling.Syntax.Lexer
import Bundling.Syntax.Recognizer
import Bundling.Syntax.Pattern
import Bundling.Syntax.Expression
import Bundling.Syntax.Markup
import Bundling.Syntax.Function
import Bundling.Syntax.Program
import Bundling.Text.Lines
import Bundling.Text.Base64
import Bundling.Transform.Scan
import Bundling.Json.Decode
import Bundling.Resolve.Request
import Bundling.SourceMap.Writer
import Bundling.SourceMap.Reader
import Bundling.Module
import Bundling.Transform.Pipeline
import Bundling.Store.Memory
import Bundling.Store.Disk
import Bundling.Resolve.Layer
import Bundling.Resolve.Candidates
import Bundling.Pattern.Glob
import Bundling.Resolve.Install
import Bundling.Resolve.Command
import Bundling.Graph.Operation
import Bundling.Config.Writer
import Bundling.Config.Validation
import Bundling.Config.LogLevel
import Bundling.Toml.Reader
import Bundling.Config.Discovery
import Bundling.Chunk.Partition
import Bundling.Chunk.Commons
import Bundling.Chunk.Mapping
import Bundling.Bundle.Generator
import Bundling.Bundle.Output
import Bundling.Plugin
import Bundling.Bundler.Basic
import Bundling.Bundler.Build
import Bundling.Bundler.Watching
import Bundling.Shell.Command
import Bundling.Shell.Process
import Bundling.Report.Error
import Bundling.Report.Output
import Bundling.Scripted
import Bundling.Proofs.Closure
import Bundling.Proofs.Entries
import Bundling.Proofs.Incremental
import Bundling.Proofs.Waiting
import Bundling.Proofs.Failure
import Bundling.Proofs.Once
import Bundling.Proofs.Chunks
import Bundling.Proofs.Sharing
import Bundling.Proofs.Reentry
import Bundling.Proofs.Waiters
import Bundling.Proofs.Positions
import Bundling.Proofs.Inside
import Bundling.Proofs.Validation
import Bundling.Proofs.Updates
import Bundling.Proofs.Collecting
import Bundling.Proofs.Pruning
import Bundling.Proofs.Tables
import Bundling.Proofs.Queueing
import Bundling.Proofs.Written
import Bundling.Proofs.Repeating
import Bundling.Proofs.Intact
import Bundling.Proofs.Probing
import Bundling.Proofs.Extraction
import Bundling.Proofs.Composition
import Bundling.Proofs.Shape
import Bundling.Proofs.Ensuring
import Bundling.Proofs.Ways
import Bundling.Proofs.Fields
import Bundling.Proofs.Layers
import Bundling.Proofs.Loading
