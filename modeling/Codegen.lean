import Codegen.CommandLine.FileTree
import Codegen.Ir.Json
import Codegen.Main
import Codegen.Proofs.Basic
import Codegen.Proofs.Ir.Spelling
import Codegen.Proofs.Ir.Naming
import Codegen.Proofs.Ir.Numbering
import Codegen.Proofs.Ir.Ownership
import Codegen.Proofs.Ir.Identities
import Codegen.Proofs.Ir.Passes
import Codegen.Proofs.Ir.Emission
import Codegen.Proofs.Compile
import Codegen.Proofs.Ir.TypeText
import Codegen.Proofs.Ir.TypeJson
import Codegen.Proofs.Ir.OperandText
import Codegen.Proofs.Ir.Layout
import Codegen.Proofs.Ir.Listing
import Codegen.Proofs.Ir.ModuleLines
import Codegen.Proofs.Json.Text
import Codegen.Proofs.Json.Decode
import Codegen.Proofs.Text.Lines
import Codegen.Proofs.Wasm.Lexeme
import Codegen.Proofs.Wasm.Names
import Codegen.Proofs.Wasm.LexemeText
import Codegen.Proofs.Wasm.FuncText
import Codegen.Proofs.Wasm.ModuleText
import Codegen.Proofs.Wasm.Rebuild
import Codegen.Proofs.Wasm.ModuleJson
import Codegen.Proofs.Ir.TypeCells
import Codegen.Proofs.Ir.FirstSpelling
import Codegen.Proofs.Output
import Codegen.Proofs.Ir.Paths
import Codegen.Proofs.Ir.Indexing
import Codegen.Proofs.Ir.Aggregates
import Codegen.Proofs.Ir.WrittenNames
import Codegen.Proofs.Ir.ConstantText
import Codegen.Proofs.Ir.BlockContents
import Codegen.Proofs.Ir.FloatText
import Codegen.Proofs.Json.RecordForms
import Codegen.Proofs.Wasm.Building
import Codegen.Proofs.Wasm.ModuleForms
import Codegen.Proofs.Wasm.FirstViolation
