import BuildTargets.CommandLine
import BuildTargets.CommandLine.Arguments
import BuildTargets.CommandLine.Verbosity
import BuildTargets.Dictionary
import BuildTargets.Document
import BuildTargets.Fault
import BuildTargets.FileSystem
import BuildTargets.FileSystem.Change
import BuildTargets.FileSystem.Search
import BuildTargets.Glob
import BuildTargets.Grammar
import BuildTargets.Json
import BuildTargets.Json.Codec
import BuildTargets.Json.Reader
import BuildTargets.Json.Record
import BuildTargets.Launch
import BuildTargets.Main
import BuildTargets.Path
import BuildTargets.Pattern
import BuildTargets.Pattern.CharSet
import BuildTargets.Pattern.Reader
import BuildTargets.Remark
import BuildTargets.RunRecord
import BuildTargets.RunRecord.File
import BuildTargets.Settings
import BuildTargets.Settings.File
import BuildTargets.Shell
import BuildTargets.Shell.Expansion
import BuildTargets.Shell.Script
import BuildTargets.Shell.State
import BuildTargets.Shell.Sum
import BuildTargets.Shell.Token
import BuildTargets.Shell.Tool
import BuildTargets.Target
import BuildTargets.TargetFile
import BuildTargets.Template
import BuildTargets.Text.CaseFold
import BuildTargets.Text.Class
import BuildTargets.Text.Cursor
import BuildTargets.Text.Split
import BuildTargets.Toml
import BuildTargets.Toml.Codec
import BuildTargets.Toml.Reader
import BuildTargets.Toml.Scalar
import BuildTargets.Walk
import BuildTargets.Workspace
import BuildTargets.Proofs.Walk.Run
import BuildTargets.Proofs.Walk.Traversal
import BuildTargets.Proofs.Walk.Visited
import BuildTargets.Proofs.Walk.Reach
import BuildTargets.Proofs.Text.Place
import BuildTargets.Proofs.Text.Reach
import BuildTargets.Proofs.Pattern.Run
import BuildTargets.Proofs.Grammar.LineRule
import BuildTargets.Proofs.Grammar.LineMatch
import BuildTargets.Proofs.Grammar.CommentLine
import BuildTargets.Proofs.Grammar.LineSearch
import BuildTargets.Proofs.Grammar.HeaderMatch
import BuildTargets.Proofs.Grammar.HeaderScan
import BuildTargets.Proofs.Path.Components
import BuildTargets.Proofs.Path.NormalForm
import BuildTargets.Proofs.Path.Parent
import BuildTargets.Proofs.Json.RoundTrip
import BuildTargets.Proofs.Json.Records
import BuildTargets.Proofs.FileSystem.Place
import BuildTargets.Proofs.FileSystem.Write
import BuildTargets.Proofs.FileSystem.Kept
import BuildTargets.Proofs.Launch.Store
import BuildTargets.Proofs.Launch.Session
import BuildTargets.Proofs.Launch.Persistence
import BuildTargets.Proofs.FileSystem.Search
import BuildTargets.Proofs.FileSystem.Spelling
import BuildTargets.Proofs.FileSystem.Extent
import BuildTargets.Proofs.Grammar.Offsets
import BuildTargets.Proofs.Walk.Origin
import BuildTargets.Proofs.Launch.Restore
import BuildTargets.Proofs.Launch.Rendering
import BuildTargets.Proofs.Template.Substitution
import BuildTargets.Proofs.Pattern.Advance
import BuildTargets.Proofs.Pattern.Limit
import BuildTargets.Proofs.Grammar.Includes
import BuildTargets.Proofs.Document.Lines
import BuildTargets.Proofs.Document.Bytes
import BuildTargets.Proofs.Document.Partition
import BuildTargets.Proofs.Document.LineIndex
import BuildTargets.Proofs.Grammar.IncludeScan
import BuildTargets.Proofs.Grammar.TargetLines
import BuildTargets.Proofs.Grammar.LineEnds
import BuildTargets.Proofs.Grammar.Searches
import BuildTargets.Proofs.Walk.Log
import BuildTargets.Proofs.Walk.Provenance
import BuildTargets.Proofs.Walk.Demand
import BuildTargets.Proofs.Walk.Sites
import BuildTargets.Proofs.Walk.Lines
import BuildTargets.Proofs.Walk.Places
import BuildTargets.Proofs.Walk.View
import BuildTargets.Proofs.Walk.Failures
import BuildTargets.Proofs.CommandLine.Listing
import BuildTargets.Proofs.CommandLine.Course
import BuildTargets.Proofs.CommandLine.Preview
import BuildTargets.Proofs.Toml.Document
import BuildTargets.Proofs.Toml.Tables
import BuildTargets.Proofs.Toml.Settings
import BuildTargets.Proofs.Glob.Reading
import BuildTargets.Proofs.Path.Order
import BuildTargets.Proofs.FileSystem.Below
import BuildTargets.Proofs.FileSystem.Found
import BuildTargets.Proofs.FileSystem.Canonical
import BuildTargets.Proofs.FileSystem.Globs
import BuildTargets.Proofs.Workspace.Scan
import BuildTargets.Proofs.Glob.Parts
import BuildTargets.Proofs.FileSystem.Respelling
import BuildTargets.Proofs.FileSystem.Written
import BuildTargets.Proofs.FileSystem.Held
import BuildTargets.Proofs.FileSystem.Relocation
import BuildTargets.Proofs.Walk.Counted
import BuildTargets.Proofs.Workspace.Listing
import BuildTargets.Proofs.Launch.Rerun
import BuildTargets.Proofs.Path.Location
import BuildTargets.Proofs.Path.Draft
import BuildTargets.Proofs.Grammar.Bytewise
import BuildTargets.Proofs.Grammar.Sweep
