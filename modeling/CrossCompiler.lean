import CrossCompiler.CommandLine.Program
import CrossCompiler.Main
import CrossCompiler.Proofs.CommandLine.Handover
import CrossCompiler.Proofs.Compilation.Calls
import CrossCompiler.Proofs.Compilation.Phases
import CrossCompiler.Proofs.Compilation.Temporaries
import CrossCompiler.Proofs.Lexer.Composition
import CrossCompiler.Proofs.Lexer.Tokenize
import CrossCompiler.Proofs.Toolchain.Profile
import CrossCompiler.Proofs.Container.Mounts
import CrossCompiler.Proofs.Container.Running
import CrossCompiler.Proofs.CommandLine.ExitCode
import CrossCompiler.Proofs.Json.Grammar
import CrossCompiler.Proofs.Toolchain.Schema
import CrossCompiler.Proofs.Compilation.Reports
import CrossCompiler.Proofs.Compilation.Transparency
import CrossCompiler.Proofs.Lexer.Neighbours
import CrossCompiler.Proofs.Lexer.Errors
import CrossCompiler.Proofs.Lexer.Positions
import CrossCompiler.Proofs.Json.FirstValue
import CrossCompiler.Proofs.Toolchain.Commands
import CrossCompiler.Proofs.Toolchain.Stability
import CrossCompiler.Proofs.Platform
import CrossCompiler.Proofs.Artifact.Stem
import CrossCompiler.Proofs.Compilation.Removals
import CrossCompiler.Proofs.CommandLine.FileChecks
import CrossCompiler.Proofs.Token
import CrossCompiler.Proofs.Repair
