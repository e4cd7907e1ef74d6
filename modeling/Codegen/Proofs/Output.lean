import Codegen.Proofs.Ir.ModuleLines

namespace Codegen.Ir.Module

end Codegen.Ir.Module

namespace Codegen

open Ir

namespace Program

end Program

end Codegen
