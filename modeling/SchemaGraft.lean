import SchemaGraft.Main
import SchemaGraft.StandIn.Generator
import SchemaGraft.Proofs.CommandLine.DryRun
import SchemaGraft.Proofs.Patch.Places
import SchemaGraft.Proofs.Config.Fields
import SchemaGraft.Proofs.Patch.Agreement
import SchemaGraft.Proofs.Patch.Construction
import SchemaGraft.Proofs.Patch.Document
import SchemaGraft.Proofs.Patch.Spelling
import SchemaGraft.Proofs.Schema.Grammar
import SchemaGraft.Proofs.Text.Decoding
import SchemaGraft.Proofs.Tool.Streaming
import SchemaGraft.Proofs.Generator.Building
import SchemaGraft.Proofs.Json.Limits
import SchemaGraft.Proofs.Schema.Loading
import SchemaGraft.Proofs.Generator.Writing
import SchemaGraft.Proofs.Patch.Appending
import SchemaGraft.Proofs.Patch.Composition
import SchemaGraft.Proofs.Run.History
import SchemaGraft.Proofs.CommandLine.Formatting
import SchemaGraft.Proofs.Patch.Ambiguity
import SchemaGraft.Proofs.Patch.Modes
import SchemaGraft.Proofs.Run.Errors
import SchemaGraft.Proofs.Tool.Filling
