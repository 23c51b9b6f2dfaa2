import DotLang.Main
import DotLang.Proofs.EmittedSubgraphs
import DotLang.Proofs.Integrity
import DotLang.Proofs.Leftover
import DotLang.Proofs.Loading
import DotLang.Proofs.Stability
import DotLang.Proofs.Token
import DotLang.Proofs.Walk.Isolation
import DotLang.Proofs.Walk.Mentions
import DotLang.Proofs.EditedModels
import DotLang.Proofs.RestatedShape
import DotLang.Proofs.Lexeme
import DotLang.Proofs.ReadBack
import DotLang.Proofs.CommandLine.Answer
import DotLang.Proofs.CommandLine.Sending
import DotLang.Proofs.Json.Blank
import DotLang.Proofs.Json.Oversized
import DotLang.Proofs.Routes
import DotLang.Proofs.CommandLine.Agreement
import DotLang.Proofs.ReEncoding
import DotLang.Proofs.CommandLine.Values
import DotLang.Proofs.CommandLine.Crashes
import DotLang.Proofs.CommandLine.Ending
import DotLang.Proofs.Walk.Growth
import DotLang.Proofs.Walk.SideBySide
import DotLang.Proofs.Walk.FirstDiagnostic
import DotLang.Proofs.CommandLine.Effects
import DotLang.Proofs.Walk.Expansion
import DotLang.Proofs.Walk.GraphAttributes
import DotLang.Proofs.Walk.Pruning
import DotLang.Proofs.LenientTrees
import DotLang.Proofs.CoordinateLists
import DotLang.Proofs.EdgePos
import DotLang.Proofs.WrittenGeometry
import DotLang.Proofs.Collisions
import DotLang.Proofs.Walk.Root
import DotLang.Proofs.Merging
import DotLang.Proofs.Layout
import DotLang.Proofs.Walk.GeneratedKeys
