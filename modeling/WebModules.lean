import WebModules.CommandLine.Arguments
import WebModules.CommandLine.Run
import WebModules.Config
import WebModules.Dependency
import WebModules.Dictionary
import WebModules.Explanation
import WebModules.FileTree
import WebModules.Graph
import WebModules.ImportMap.Basic
import WebModules.ImportMap.File
import WebModules.ImportMap.Removal
import WebModules.Install.Basic
import WebModules.Install.Error
import WebModules.Install.Removal
import WebModules.Json.Parse
import WebModules.Json.Print
import WebModules.Json.Value
import WebModules.Main
import WebModules.Manifest
import WebModules.Network
import WebModules.Number.Binary64
import WebModules.Package.Layout
import WebModules.Package.Module
import WebModules.Package.Request
import WebModules.Path
import WebModules.Proofs.Basic
import WebModules.Proofs.Dictionary
import WebModules.Proofs.FileTree
import WebModules.Proofs.FileTree.Growth
import WebModules.Proofs.FileTree.Loss
import WebModules.Proofs.FileTree.Repeat
import WebModules.Proofs.FileTree.Walk
import WebModules.Proofs.Graph.Exploration
import WebModules.Proofs.Graph.Limit
import WebModules.Proofs.Graph.Resolve
import WebModules.Proofs.ImportMap.Concurrent
import WebModules.Proofs.ImportMap.Document
import WebModules.Proofs.ImportMap.Entries
import WebModules.Proofs.ImportMap.Merge
import WebModules.Proofs.ImportMap.MergeLaws
import WebModules.Proofs.ImportMap.Needed
import WebModules.Proofs.ImportMap.Override
import WebModules.Proofs.ImportMap.Persist
import WebModules.Proofs.ImportMap.Persisted
import WebModules.Proofs.ImportMap.Removal
import WebModules.Proofs.Install.Contained
import WebModules.Proofs.Install.Failed
import WebModules.Proofs.Install.Found
import WebModules.Proofs.Install.Known
import WebModules.Proofs.Install.Linked
import WebModules.Proofs.Install.Names
import WebModules.Proofs.Install.Removed
import WebModules.Proofs.Install.RemovedVersion
import WebModules.Proofs.Install.Report
import WebModules.Proofs.Install.Scopes
import WebModules.Proofs.Install.Texts
import WebModules.Proofs.Install.Unusable
import WebModules.Proofs.Install.Written
import WebModules.Proofs.Json.Document
import WebModules.Proofs.Json.Fields
import WebModules.Proofs.Json.Outline
import WebModules.Proofs.Json.Regular
import WebModules.Proofs.Json.Scalar
import WebModules.Proofs.Package.Layout
import WebModules.Proofs.Path
import WebModules.Proofs.Registry.Answers
import WebModules.Proofs.Registry.Served
import WebModules.Proofs.Rewrite.Cut
import WebModules.Proofs.Rewrite.Fill
import WebModules.Proofs.Schedule.Lock
import WebModules.Proofs.Schedule.Pipeline
import WebModules.Proofs.Script.Fits
import WebModules.Proofs.Script.Grammar.Class
import WebModules.Proofs.Script.Grammar.Expression
import WebModules.Proofs.Script.Grammar.Module
import WebModules.Proofs.Script.Grammar.Pattern
import WebModules.Proofs.Script.Grammar.Statement
import WebModules.Proofs.Script.Grammar.Type
import WebModules.Proofs.Script.Lexer
import WebModules.Proofs.Script.Parse
import WebModules.Proofs.Script.Sound
import WebModules.Proofs.Script.Steps
import WebModules.Proofs.Script.Tokens
import WebModules.Proofs.Script.Walk
import WebModules.Proofs.Specifier
import WebModules.Proofs.Text
import WebModules.Proofs.Url
import WebModules.Registry.Backend
import WebModules.Registry.Basic
import WebModules.Registry.Client
import WebModules.Registry.Loaded
import WebModules.Rewrite
import WebModules.Schedule.Lock
import WebModules.Schedule.Pipeline
import WebModules.Schedule.Timed
import WebModules.Script.Clause
import WebModules.Script.Complaint
import WebModules.Script.Description
import WebModules.Script.Grammar
import WebModules.Script.Grammar.Class
import WebModules.Script.Grammar.Expression
import WebModules.Script.Grammar.Function
import WebModules.Script.Grammar.Module
import WebModules.Script.Grammar.Name
import WebModules.Script.Grammar.Pattern
import WebModules.Script.Grammar.Statement
import WebModules.Script.Grammar.Type
import WebModules.Script.Lexeme
import WebModules.Script.Lexer
import WebModules.Script.Name
import WebModules.Script.NameTable
import WebModules.Script.Parse
import WebModules.Script.Quoted
import WebModules.Script.Reader
import WebModules.Script.Span
import WebModules.Script.Token
import WebModules.Script.Tree
import WebModules.Script.Walk
import WebModules.Specifier
import WebModules.Store
import WebModules.Text
import WebModules.Toml.Document
import WebModules.Toml.Number
import WebModules.Toml.Quoted
import WebModules.Toml.Reader
import WebModules.Toml.Table
import WebModules.Url.Basic
import WebModules.Url.Domain
import WebModules.Url.Host
import WebModules.Url.Parse
import WebModules.Url.Percent
import WebModules.Version
import WebModules.Proofs.Install.Batch
import WebModules.Proofs.Install.Isolated
import WebModules.Proofs.ImportMap.Frame
import WebModules.Proofs.Install.Requests
import WebModules.Proofs.Install.Turns
import WebModules.Proofs.Schedule.Chain
import WebModules.Proofs.Rewrite.Facing
import WebModules.Proofs.Rewrite.Mirror
import WebModules.Proofs.Rewrite.Reread
import WebModules.Proofs.Package.Request
import WebModules.Proofs.Version
import WebModules.Proofs.CommandLine.Add
import WebModules.Proofs.Registry.Relative
import WebModules.Proofs.Script.Nested
import WebModules.Proofs.Script.Nesting.Class
import WebModules.Proofs.Script.Nesting.Expression
import WebModules.Proofs.Script.Places
import WebModules.Proofs.Rewrite.Refused
import WebModules.Proofs.Graph.DepthFirst
import WebModules.Proofs.Script.Spans
import WebModules.Proofs.Rewrite.Marked
import WebModules.Proofs.Dependency
import WebModules.Proofs.Registry.Identity
import WebModules.Proofs.Package.RoundTrip
import WebModules.Proofs.Package.Storage
import WebModules.Proofs.Store.Versions
import WebModules.Proofs.Specifier.Stepwise
import WebModules.Proofs.Store.Prune
import WebModules.Proofs.Store.Listing
import WebModules.Proofs.Manifest.Calls
import WebModules.Proofs.Schedule.Passage
import WebModules.Proofs.Specifier.Followed
