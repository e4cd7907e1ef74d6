import Codegen.Proofs.Wasm.Names

namespace Codegen.Wasm

/-- Declares a function again: its export, then every parameter, result and local. -/
def Func.rebuild (f : Func) : Except NameError Func := do
  let start : Func := { name := f.name }
  let exported := match f.exportName with
    | some name => start.exportedAs name
    | none => start
  let withParams ← f.params.foldlM addParam exported
  f.locals.foldlM addLocal (f.results.foldl addResult withParams)

/-- Declares a module again, function by function, up to the first error. -/
def Module.rebuild (m : Module) : Except NameError Module :=
  m.funcs.foldlM (fun built f => do built.addFunc (← f.rebuild)) { name := m.name }

/-- The list holds the names of exactly the variables declared so far. -/
def Func.Declared (f : Func) (seen : List String) : Prop :=
  ∀ name, name ∈ seen ↔ ∃ v ∈ f.vars, v.name = name

theorem Func.isSome_lookup_iff {f : Func} {name : String} :
    (f.lookup name).isSome = true ↔ ∃ v ∈ f.vars, v.name = name := by
  simp [lookup, List.find?_isSome]

theorem checkNames_append (scope : Scope) (seen front back : List String) :
    checkNames scope seen (front ++ back) = (do
      checkNames scope seen front
      checkNames scope (front.reverse ++ seen) back) := by
  induction front generalizing seen with
  | nil => rfl
  | cons name front ih =>
    have hseen : (name :: front).reverse ++ seen = front.reverse ++ name :: seen := by simp
    rw [List.cons_append, checkNames, checkNames, ih, hseen]
    cases checkName scope name with
    | error e => rfl
    | ok =>
      by_cases hrepeated : seen.contains name = true
      · simp only [if_pos hrepeated]
        rfl
      · simp only [if_neg hrepeated]
        rfl

/-- One call that declares a variable checks what the batch check looks at next. -/
theorem Func.Declared.checkNames_cons {f : Func} {seen : List String} (hseen : f.Declared seen)
    (name : String) (rest : List String) :
    checkNames f.scope seen (name :: rest) = (do
      f.checkNewName name
      checkNames f.scope (name :: seen) rest) := by
  have hrepeated : seen.contains name = true ↔ (f.lookup name).isSome = true := by
    rw [List.contains_iff_mem, hseen name, isSome_lookup_iff]
  rw [checkNames, checkNewName]
  by_cases hlookup : (f.lookup name).isSome = true
  · simp only [if_pos hlookup, if_pos (hrepeated.mpr hlookup), bind_assoc]
  · simp only [if_neg hlookup, if_neg (mt hrepeated.mp hlookup), bind_assoc]
    rfl

/-- A run of calls that each declare one variable, as parameter or as local, succeeds just when the
batch check of their names does, and fails with its error. -/
theorem Func.Declared.foldlM_eq {add : Func → Var → Except NameError Func} {put : Func → Var → Func}
    (hadd : ∀ f v, add f v = (do
      f.checkNewName v.name
      return put f v))
    (hscope : ∀ f v, (put f v).scope = f.scope)
    (hvars : ∀ f v w, w ∈ (put f v).vars ↔ w ∈ f.vars ∨ w = v) {f : Func} {seen : List String}
    (hseen : f.Declared seen) (vs : List Var) :
    vs.foldlM add f =
      (checkNames f.scope seen (vs.map Var.name)).map fun _ => vs.foldl put f := by
  induction vs generalizing f seen with
  | nil => rfl
  | cons v vs ih =>
    have hnext : (put f v).Declared (v.name :: seen) := by
      intro name
      rw [List.mem_cons, hseen name]
      simp only [hvars]
      grind
    rw [List.foldlM_cons, List.map_cons, hseen.checkNames_cons, hadd]
    cases f.checkNewName v.name with
    | error e => rfl
    | ok =>
      have hrest := ih hnext
      rw [hscope] at hrest
      exact hrest

namespace Func

theorem foldl_param (f : Func) (vs : List Var) :
    vs.foldl (fun f v => { f with params := f.params ++ [v] }) f =
      { f with params := f.params ++ vs } := by
  induction vs generalizing f with
  | nil => simp
  | cons v vs ih => simp [ih]

theorem foldl_local (f : Func) (vs : List Var) :
    vs.foldl (fun f v => { f with locals := f.locals ++ [v] }) f =
      { f with locals := f.locals ++ vs } := by
  induction vs generalizing f with
  | nil => simp
  | cons v vs ih => simp [ih]

theorem foldl_addResult (f : Func) (types : List ValueType) :
    types.foldl addResult f = { f with results := f.results ++ types } := by
  induction types generalizing f with
  | nil => simp
  | cons type types ih => simp [addResult, ih]

theorem Declared.foldlM_addParam {f : Func} {seen : List String} (hseen : f.Declared seen)
    (vs : List Var) :
    vs.foldlM addParam f = (checkNames f.scope seen (vs.map Var.name)).map fun _ =>
      { f with params := f.params ++ vs } := by
  rw [← foldl_param]
  refine Declared.foldlM_eq ?_ ?_ ?_ hseen vs
  · exact fun _ _ => rfl
  · exact fun _ _ => rfl
  intro f v w
  simp only [vars, List.mem_append, List.mem_singleton]
  exact or_right_comm

theorem Declared.foldlM_addLocal {f : Func} {seen : List String} (hseen : f.Declared seen)
    (vs : List Var) :
    vs.foldlM addLocal f = (checkNames f.scope seen (vs.map Var.name)).map fun _ =>
      { f with locals := f.locals ++ vs } := by
  rw [← foldl_local]
  refine Declared.foldlM_eq ?_ ?_ ?_ hseen vs
  · exact fun _ _ => rfl
  · exact fun _ _ => rfl
  intro f v w
  simp only [vars, List.mem_append, List.mem_singleton]
  exact or_assoc.symm

/-- Declaring a function again gives the function back unless one of its variables is refused. -/
theorem rebuild_eq (f : Func) :
    f.rebuild = (checkNames f.scope [] (f.vars.map Var.name)).map fun _ => f := by
  let exported : Func := { name := f.name, exportName := f.exportName }
  have hexported : f.rebuild = (do
      let withParams ← f.params.foldlM addParam exported
      f.locals.foldlM addLocal (f.results.foldl addResult withParams)) := by
    unfold rebuild
    cases hexport : f.exportName with
    | none => simp only [exported, hexport]
    | some name =>
      simp only [exported, hexport]
      rfl
  have hempty : exported.Declared [] := by
    intro name
    simp [exported, vars]
  have hparams := hempty.foldlM_addParam f.params
  have hsignature : Declared { exported with params := f.params, results := f.results }
      (f.params.map Var.name).reverse := by
    intro name
    simp [exported, vars]
  have hlocals := hsignature.foldlM_addLocal f.locals
  rw [hexported, hparams, vars, List.map_append, checkNames_append, List.append_nil]
  change _ = (checkNames exported.scope [] (f.params.map Var.name) >>= fun _ =>
    checkNames exported.scope (f.params.map Var.name).reverse (f.locals.map Var.name)).map _
  cases checkNames exported.scope [] (f.params.map Var.name) with
  | error e => rfl
  | ok =>
    change f.locals.foldlM addLocal (f.results.foldl addResult _) = _
    rw [foldl_addResult]
    exact hlocals

end Func

theorem Module.isSome_func?_iff {m : Module} {name : String} :
    (m.func? name).isSome = true ↔ ∃ f ∈ m.funcs, f.name = name := by
  simp [func?, List.find?_isSome]

theorem Func.validate_of_checkName {f : Func} (hname : checkName f.scope f.name = .ok ()) :
    f.validate = checkNames f.scope [] (f.vars.map Var.name) := by
  rw [validate, hname]
  rfl

/-- The list holds the names of exactly the functions declared so far. -/
def Module.Declared (m : Module) (seen : List String) : Prop :=
  ∀ name, name ∈ seen ↔ ∃ f ∈ m.funcs, f.name = name

/-- Declaring more functions of a module does what checking them does. -/
theorem Module.Declared.foldlM_addFunc {built : Module} {seen : List String}
    (hseen : built.Declared seen) {funcs : List Func}
    (hnames : ∀ f ∈ funcs, checkName f.scope f.name = .ok ()) :
    funcs.foldlM (fun built f => do built.addFunc (← f.rebuild)) built =
      (checkFuncs built.scope seen funcs).map fun _ =>
        { built with funcs := built.funcs ++ funcs } := by
  induction funcs generalizing built seen with
  | nil =>
    rw [List.append_nil]
    rfl
  | cons f funcs ih =>
    have hrepeated : seen.contains f.name = true ↔ (built.func? f.name).isSome = true := by
      rw [List.contains_iff_mem, hseen f.name, Module.isSome_func?_iff]
    rw [List.foldlM_cons, checkFuncs, f.rebuild_eq,
      Func.validate_of_checkName (hnames f List.mem_cons_self)]
    cases checkNames f.scope [] (f.vars.map Var.name) with
    | error e => rfl
    | ok =>
      change (built.addFunc f >>= fun next => funcs.foldlM _ next) = _
      by_cases hfound : (built.func? f.name).isSome = true
      · have hadd : built.addFunc f = .error (.duplicate built.scope f.name) := if_pos hfound
        simp only [hadd, if_pos (hrepeated.mpr hfound)]
        rfl
      · let next : Module := { built with funcs := built.funcs ++ [f] }
        have hadd : built.addFunc f = .ok next := if_neg hfound
        have hnext : next.Declared (f.name :: seen) := by
          intro name
          rw [List.mem_cons, hseen name]
          simp only [next]
          grind
        have hrest := ih hnext fun g hg => hnames g (List.mem_cons_of_mem f hg)
        simp only [next, List.append_assoc] at hrest
        simp only [hadd, if_neg (mt hrepeated.mp hfound)]
        exact hrest

theorem Module.rebuild_eq {m : Module} (hname : checkName .document m.name = .ok ())
    (hfuncs : ∀ f ∈ m.funcs, checkName f.scope f.name = .ok ()) :
    m.rebuild = m.validate.map fun _ => m := by
  let start : Module := { name := m.name }
  have hempty : start.Declared [] := by
    intro name
    simp [start]
  have hrun := hempty.foldlM_addFunc hfuncs
  rw [rebuild, hrun, validate, hname]
  rfl

/-- A module whose own name and function names are well-formed can be declared again, call by call,
just when it is valid. What is declared is the module itself, and otherwise the first refusal is the
error that checking the finished module gives. -/
theorem Module.rebuild_agrees_with_validate {m : Module}
    (hname : checkName .document m.name = .ok ())
    (hfuncs : ∀ f ∈ m.funcs, checkName f.scope f.name = .ok ()) :
    (∀ built, m.rebuild = .ok built ↔ m.validate = .ok () ∧ built = m) ∧
      ∀ e, m.rebuild = .error e ↔ m.validate = .error e := by
  rw [rebuild_eq hname hfuncs]
  cases m.validate with
  | error e => simp [Except.map]
  | ok => simp [Except.map, eq_comm]

/-- A function name that comes again, behind a local that has the name of a parameter: the local is
refused first. -/
theorem Module.rebuild_agrees_with_validate_local_first :
    Module.rebuild ⟨"m", [⟨"f", some "", [⟨"x", .u32⟩], [.f64], []⟩,
        ⟨"f", none, [⟨"x", .i32⟩], [], [⟨"y", .f32⟩, ⟨"x", .i64⟩]⟩]⟩ =
      .error (.duplicate (.func "f") "x") := by
  refine ((rebuild_agrees_with_validate rfl ?_).2 _).mpr rfl
  intro f hf
  simp only [List.mem_cons, List.not_mem_nil, or_false] at hf
  rcases hf with rfl | rfl <;> rfl

end Codegen.Wasm
