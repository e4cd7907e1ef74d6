import Codegen.Proofs.Basic
import Codegen.Proofs.Wasm.Rebuild
import Mathlib.Data.List.Induction
import Mathlib.Data.List.Nodup

namespace Codegen.Wasm

/-- Calls that change a function. -/
inductive Func.Edit where
  | exportedAs (name : String)
  | addParam (v : Var)
  | addResult (type : ValueType)
  | addLocal (v : Var)
  deriving DecidableEq, Repr

namespace Func.Edit

def param? : Edit → Option Var
  | .addParam v => some v
  | _ => none

def result? : Edit → Option ValueType
  | .addResult type => some type
  | _ => none

def local? : Edit → Option Var
  | .addLocal v => some v
  | _ => none

/-- The variable that is declared, as a parameter or as a local. -/
def var? : Edit → Option Var
  | .addParam v | .addLocal v => some v
  | _ => none

end Func.Edit

namespace Func

/-- The function after a call that changes it. -/
def edit (f : Func) : Edit → Except NameError Func
  | .exportedAs name => .ok (f.exportedAs name)
  | .addParam v => f.addParam v
  | .addResult type => .ok (f.addResult type)
  | .addLocal v => f.addLocal v

/-- The function after a change that is not checked. -/
def change (f : Func) : Edit → Func
  | .exportedAs name => f.exportedAs name
  | .addParam v => { f with params := f.params ++ [v] }
  | .addResult type => f.addResult type
  | .addLocal v => { f with locals := f.locals ++ [v] }

/-- A variable may be declared if its name is well-formed and new to the function. -/
def Accepts (f : Func) (e : Edit) : Prop :=
  ∀ v ∈ e.var?, IsName v.name ∧ f.lookup v.name = none

variable {f f' : Func} {e : Edit} {edits : List Edit}

theorem checkNewName_eq_ok_iff {name : String} :
    f.checkNewName name = .ok () ↔ IsName name ∧ f.lookup name = none := by
  rw [checkNewName, seq_eq_ok_iff, checkName_eq_ok_iff]
  cases f.lookup name with
  | none => simp [pure, Except.pure]
  | some v => simp [throw, throwThe, MonadExceptOf.throw]

theorem accepts_iff_of_var? {v : Var} (hvar : e.var? = some v) :
    f.Accepts e ↔ IsName v.name ∧ f.lookup v.name = none := by
  simp [Accepts, hvar]

/-- A call succeeds exactly on a function that accepts the change. -/
theorem edit_eq_ok_iff : f.edit e = .ok f' ↔ f.Accepts e ∧ f' = f.change e := by
  have hdeclare (v : Var) (next : Func) : (do
      f.checkNewName v.name
      return next) = .ok f' ↔ (IsName v.name ∧ f.lookup v.name = none) ∧ f' = next := by
    rw [← checkNewName_eq_ok_iff]
    cases f.checkNewName v.name with
    | error err => exact iff_of_false (fun h => by cases h) fun h => by cases h.1
    | ok => exact ⟨fun h => ⟨rfl, (Except.ok.inj h).symm⟩, fun h => congrArg _ h.2.symm⟩
  cases e with
  | exportedAs name => simp [edit, change, Accepts, Edit.var?, eq_comm]
  | addParam v =>
    rw [accepts_iff_of_var? rfl]
    exact hdeclare v _
  | addResult type => simp [edit, change, Accepts, Edit.var?, eq_comm]
  | addLocal v =>
    rw [accepts_iff_of_var? rfl]
    exact hdeclare v _

theorem vars_change_perm (f : Func) (e : Edit) :
    (f.change e).vars.Perm (e.var?.toList ++ f.vars) := by
  cases e with
  | exportedAs name => exact .refl _
  | addParam v =>
    change (f.params ++ [v] ++ f.locals).Perm (v :: (f.params ++ f.locals))
    rw [List.append_assoc]
    exact List.perm_middle
  | addResult type => exact .refl _
  | addLocal v =>
    change (f.params ++ (f.locals ++ [v])).Perm (v :: (f.params ++ f.locals))
    rw [← List.append_assoc]
    exact List.perm_append_singleton _ _

theorem name_change (f : Func) (e : Edit) : (f.change e).name = f.name := by
  cases e <;> rfl

/-- Changes that a valid function accepts keep it valid. -/
theorem validate_change (hf : f.validate = .ok ()) (he : f.Accepts e) :
    (f.change e).validate = .ok () := by
  rw [validate_eq_ok_iff] at hf ⊢
  obtain ⟨hname, hwell, hnodup⟩ := hf
  have hperm := vars_change_perm f e
  refine ⟨by rwa [name_change], ?_, ?_⟩
  · intro v hv
    rcases List.mem_append.mp (hperm.mem_iff.mp hv) with hnew | hold
    · exact (he v (by simpa using hnew)).1
    · exact hwell v hold
  · rw [(hperm.map Var.name).nodup_iff]
    cases hvar : e.var? with
    | none => exact hnodup
    | some v =>
      refine List.nodup_cons.mpr ⟨?_, hnodup⟩
      have hfresh := (he v hvar).2
      rw [List.mem_map]
      rintro ⟨u, hu, hsame⟩
      have hfound := isSome_lookup_iff.mpr ⟨u, hu, hsame⟩
      rw [hfresh] at hfound
      cases hfound

/-- The function holds what the changes declared, in their order. -/
structure BuiltBy (f : Func) (edits : List Edit) : Prop where
  params : f.params = edits.filterMap Edit.param?
  results : f.results = edits.filterMap Edit.result?
  locals : f.locals = edits.filterMap Edit.local?

theorem BuiltBy.change (h : f.BuiltBy edits) (e : Edit) :
    (f.change e).BuiltBy (edits ++ [e]) := by
  obtain ⟨hparams, hresults, hlocals⟩ := h
  cases e <;> constructor <;>
    simp [Func.change, exportedAs, addResult, Edit.param?, Edit.result?, Edit.local?, *]

/-- Parameters and locals together are the declared variables, in another order. -/
theorem BuiltBy.vars_perm (h : f.BuiltBy edits) : f.vars.Perm (edits.filterMap Edit.var?) := by
  rw [vars, h.params, h.locals]
  clear h
  induction edits with
  | nil => exact .refl _
  | cons e edits ih =>
    cases e with
    | exportedAs name => exact ih
    | addParam v => exact ih.cons v
    | addResult type => exact ih
    | addLocal v => exact List.perm_middle.trans (ih.cons v)

theorem toList_find?_name {vars : List Var} (hnodup : (vars.map Var.name).Nodup) (name : String) :
    (vars.find? fun v => v.name == name).toList = vars.filter fun v => v.name == name := by
  induction vars with
  | nil => rfl
  | cons v vars ih =>
    obtain ⟨hv, hvars⟩ := List.nodup_cons.mp hnodup
    by_cases hname : v.name = name
    · have hothers : (vars.filter fun u => u.name == name) = [] := by
        rw [List.filter_eq_nil_iff]
        intro u hu hsame
        exact hv (List.mem_map.mpr ⟨u, hu, (beq_iff_eq.mp hsame).trans hname.symm⟩)
      simp [hname, hothers]
    · simp [hname, ih hvars]

/-- In a valid function, looking a name up gives the one variable that was declared under it. -/
theorem BuiltBy.toList_lookup (h : f.BuiltBy edits) (hf : f.validate = .ok ()) (name : String) :
    (f.lookup name).toList = (edits.filterMap Edit.var?).filter fun v => v.name == name := by
  have hperm := h.vars_perm.filter fun v => v.name == name
  rw [← toList_find?_name (validate_eq_ok_iff.mp hf).2.2] at hperm
  change (f.lookup name).toList.Perm _ at hperm
  cases hlookup : f.lookup name with
  | none =>
    rw [hlookup] at hperm
    exact (List.nil_perm.mp hperm).symm
  | some v =>
    rw [hlookup] at hperm
    exact List.singleton_perm.mp hperm

end Func

namespace Module

variable {m m' : Module} {f : Func}

theorem addFunc_eq_ok_iff : m.addFunc f = .ok m' ↔
    m.func? f.name = none ∧ m' = { m with funcs := m.funcs ++ [f] } := by
  unfold addFunc
  cases m.func? f.name with
  | none => simp [eq_comm]
  | some g => simp

theorem validate_append (hm : m.validate = .ok ()) (hf : f.validate = .ok ())
    (hname : m.func? f.name = none) :
    ({ m with funcs := m.funcs ++ [f] } : Module).validate = .ok () := by
  rw [validate_eq_ok_iff] at hm ⊢
  obtain ⟨hwell, hfuncs, hnodup⟩ := hm
  refine ⟨hwell, ?_, ?_⟩
  · intro g hg
    rcases List.mem_append.mp hg with hold | hnew
    · exact hfuncs g hold
    · rwa [List.mem_singleton.mp hnew]
  · rw [List.map_append, List.map_singleton, List.nodup_append']
    refine ⟨hnodup, List.nodup_singleton _, ?_⟩
    rw [List.disjoint_singleton, List.mem_map]
    rintro ⟨g, hg, hsame⟩
    have hfound := isSome_func?_iff.mpr ⟨g, hg, hsame⟩
    rw [hname] at hfound
    cases hfound

end Module

/-- What a caller holds: the functions and modules made so far. -/
structure Session where
  funcs : List Func := []
  modules : List Module := []

/-- Calls. Functions and modules are given by their positions in the session. -/
inductive Call where
  | newFunc (name : String)
  | newModule (name : String)
  | edit (func : Nat) (e : Func.Edit)
  /-- Adds a copy of a function, which stays at hand. -/
  | addFunc (module func : Nat)

namespace Call

/-- The name of a new function or module is well-formed. -/
def NamesWell : Call → Prop
  | .newFunc name => checkName (.func name) name = .ok ()
  | .newModule name => checkName .document name = .ok ()
  | .edit .. | .addFunc .. => True

/-- The change that a call makes to the function at `i`. -/
def edit? (i : Nat) : Call → Option Func.Edit
  | .edit j e => if j = i then some e else none
  | _ => none

/-- The function that a call adds to the module at `j`, out of those at hand. -/
def added? (j : Nat) (funcs : List Func) : Call → Option Func
  | .addFunc k i => if k = j then funcs[i]? else none
  | _ => none

end Call

namespace Session

/-- The answer to a call: the session after it, or the error. A call on what does not exist has no
answer. -/
def answer (s : Session) : Call → Option (Except NameError Session)
  | .newFunc name => some (.ok { s with funcs := s.funcs ++ [{ name }] })
  | .newModule name => some (.ok { s with modules := s.modules ++ [{ name }] })
  | .edit i e => s.funcs[i]?.map fun f =>
      (f.edit e).map fun f' => { s with funcs := s.funcs.set i f' }
  | .addFunc j i => s.modules[j]?.bind fun m => s.funcs[i]?.map fun f =>
      (m.addFunc f).map fun m' => { s with modules := s.modules.set j m' }

/-- The session after a call, which is as before when the call fails. -/
def exec (s : Session) (call : Call) : Session :=
  match s.answer call with
  | some (.ok s') => s'
  | _ => s

/-- The session after several calls. -/
def run (s : Session) (calls : List Call) : Session :=
  calls.foldl exec s

/-- The calls that succeed, each with the session it was made in. -/
def log (s : Session) : List Call → List (Session × Call)
  | [] => []
  | call :: rest =>
    match s.answer call with
    | some (.ok s') => (s, call) :: s'.log rest
    | _ => s.log rest

/-- The changes made to the function at `i`. -/
def edits (i : Nat) (entries : List (Session × Call)) : List Func.Edit :=
  entries.filterMap fun entry => entry.2.edit? i

/-- The functions added to the module at `j`, as they were when they were added. -/
def added (j : Nat) (entries : List (Session × Call)) : List Func :=
  entries.filterMap fun entry => entry.2.added? j entry.1.funcs

variable {s s' : Session} {calls : List Call} {call : Call} {entries : List (Session × Call)}

theorem run_concat (s : Session) (calls : List Call) (call : Call) :
    s.run (calls ++ [call]) = (s.run calls).exec call := by
  rw [run, List.foldl_concat]
  rfl

/-- A call succeeds, and the log gets longer by it, or it changes neither session nor log. -/
theorem concat_cases (s : Session) (calls : List Call) (call : Call) :
    (∃ s', (s.run calls).answer call = some (.ok s') ∧ s.run (calls ++ [call]) = s' ∧
      s.log (calls ++ [call]) = s.log calls ++ [(s.run calls, call)]) ∨
    s.run (calls ++ [call]) = s.run calls ∧ s.log (calls ++ [call]) = s.log calls := by
  have hlog : s.log (calls ++ [call]) = s.log calls ++ (s.run calls).log [call] := by
    induction calls generalizing s with
    | nil => rfl
    | cons first calls ih =>
      rw [List.cons_append, log, log, run, List.foldl_cons, exec]
      split
      · next s' _ => rw [ih s']; rfl
      · rw [ih s]; rfl
  rw [run_concat, hlog, log, exec]
  split
  · next s' hanswer => exact .inl ⟨s', hanswer, rfl, rfl⟩
  · exact .inr ⟨rfl, by simp [log]⟩

/-- Each entry of a list fits what is recorded for its position, and nothing is recorded for a
position that the list does not have. -/
structure Records {α β : Type} (Fits : α → List β → Prop) (recorded : Nat → List β)
    (l : List α) : Prop where
  fits : ∀ i a, l[i]? = some a → Fits a (recorded i)
  fresh : ∀ i, l.length ≤ i → recorded i = []

namespace Records

variable {α β : Type} {Fits : α → List β → Prop} {recorded recorded' : Nat → List β} {l : List α}

theorem nil : Records Fits (fun _ => []) [] :=
  ⟨by simp, fun _ _ => rfl⟩

theorem concat (h : Records Fits recorded l) {a : α} (ha : Fits a []) :
    Records Fits recorded (l ++ [a]) := by
  refine ⟨?_, fun i hi => h.fresh i (by simp at hi; omega)⟩
  intro i b hb
  rcases Nat.lt_trichotomy i l.length with hlt | rfl | hgt
  · rw [List.getElem?_append_left hlt] at hb
    exact h.fits i b hb
  · rw [List.getElem?_concat_length] at hb
    rwa [← Option.some.inj hb, h.fresh _ (Nat.le_refl _)]
  · rw [List.getElem?_eq_none (by simp; omega)] at hb
    cases hb

/-- Changing one entry is recorded for its position only. -/
theorem set (h : Records Fits recorded l) {k : Nat} {a b : α} (hk : l[k]? = some a) {x : β}
    (hb : Fits b (recorded k ++ [x]))
    (hrecorded : ∀ i, recorded' i = recorded i ++ (if k = i then some x else none).toList) :
    Records Fits recorded' (l.set k b) := by
  have hlt := (List.getElem?_eq_some_iff.mp hk).1
  refine ⟨?_, ?_⟩
  · intro i c hc
    rw [hrecorded i]
    by_cases hki : k = i
    · subst hki
      rw [List.getElem?_set_self hlt] at hc
      rw [if_pos rfl, ← Option.some.inj hc]
      exact hb
    · rw [List.getElem?_set_ne hki] at hc
      rw [if_neg hki, Option.toList_none, List.append_nil]
      exact h.fits i c hc
  · intro i hi
    rw [List.length_set] at hi
    rw [hrecorded i, h.fresh i hi, if_neg (by omega)]
    rfl

end Records

/-- What is at hand is valid and is what the log tells. -/
structure Logged (s : Session) (entries : List (Session × Call)) : Prop where
  funcs : Records (fun f es => f.validate = .ok () ∧ f.BuiltBy es) (edits · entries) s.funcs
  modules : Records (fun m fs => m.validate = .ok () ∧ m.funcs = fs) (added · entries) s.modules

theorem edits_concat (entries : List (Session × Call)) (s : Session) (call : Call) (i : Nat) :
    edits i (entries ++ [(s, call)]) = edits i entries ++ (call.edit? i).toList := by
  rw [edits, List.filterMap_append, List.filterMap_cons]
  cases call.edit? i <;> simp [edits]

theorem added_concat (entries : List (Session × Call)) (s : Session) (call : Call) (j : Nat) :
    added j (entries ++ [(s, call)]) = added j entries ++ (call.added? j s.funcs).toList := by
  rw [added, List.filterMap_append, List.filterMap_cons]
  cases call.added? j s.funcs <;> simp [added]

/-- A call that succeeds keeps everything valid and makes the change that the log tells. -/
theorem Logged.concat (h : s.Logged entries) (hcall : call.NamesWell)
    (hanswer : s.answer call = some (.ok s')) : s'.Logged (entries ++ [(s, call)]) := by
  have hedits := edits_concat entries s call
  have hadded := added_concat entries s call
  cases call with
  | newFunc name =>
    cases hanswer
    simp only [Call.edit?, Call.added?, Option.toList_none, List.append_nil] at hedits hadded
    refine ⟨?_, by simpa only [hadded] using h.modules⟩
    simp only [hedits]
    apply h.funcs.concat
    refine ⟨Func.validate_eq_ok_iff.mpr ⟨checkName_eq_ok_iff.mp hcall, ?_, ?_⟩, rfl, rfl, rfl⟩
    · simp [Func.vars]
    · simp [Func.vars]
  | newModule name =>
    cases hanswer
    simp only [Call.edit?, Call.added?, Option.toList_none, List.append_nil] at hedits hadded
    refine ⟨by simpa only [hedits] using h.funcs, ?_⟩
    simp only [hadded]
    apply h.modules.concat
    refine ⟨Module.validate_eq_ok_iff.mpr ⟨checkName_eq_ok_iff.mp hcall, ?_, ?_⟩, rfl⟩
    · simp
    · simp
  | edit k e =>
    obtain ⟨f, hf, hedit⟩ := Option.map_eq_some_iff.mp hanswer
    obtain ⟨f', hchange, rfl⟩ := map_eq_ok_iff.mp hedit
    obtain ⟨haccepts, rfl⟩ := Func.edit_eq_ok_iff.mp hchange
    obtain ⟨hvalid, hbuilt⟩ := h.funcs.fits k f hf
    simp only [Call.added?, Option.toList_none, List.append_nil] at hadded
    refine ⟨h.funcs.set hf ?_ hedits, by simpa only [hadded] using h.modules⟩
    exact ⟨Func.validate_change hvalid haccepts, hbuilt.change e⟩
  | addFunc j k =>
    obtain ⟨m, hm, hfound⟩ := Option.bind_eq_some_iff.mp hanswer
    obtain ⟨f, hf, hadd⟩ := Option.map_eq_some_iff.mp hfound
    obtain ⟨m', hchange, rfl⟩ := map_eq_ok_iff.mp hadd
    obtain ⟨hname, rfl⟩ := Module.addFunc_eq_ok_iff.mp hchange
    obtain ⟨hvalid, hfuncs⟩ := h.modules.fits j m hm
    simp only [Call.edit?, Option.toList_none, List.append_nil] at hedits
    simp only [Call.added?, hf] at hadded
    refine ⟨by simpa only [hedits] using h.funcs, h.modules.set hm ?_ hadded⟩
    exact ⟨Module.validate_append hvalid (h.funcs.fits k f hf).1 hname, by rw [hfuncs]⟩

theorem logged_run (hcalls : ∀ call ∈ calls, call.NamesWell) :
    (run {} calls).Logged (log {} calls) := by
  induction calls using List.reverseRecOn with
  | nil => exact ⟨Records.nil, Records.nil⟩
  | append_singleton calls call ih =>
    rw [List.forall_mem_append, List.forall_mem_singleton] at hcalls
    obtain ⟨s', hanswer, hrun, hlog⟩ | ⟨hrun, hlog⟩ := concat_cases {} calls call
    · rw [hrun, hlog]
      exact (ih hcalls.1).concat hcalls.2 hanswer
    · rw [hrun, hlog]
      exact ih hcalls.1

/-- The log keeps sessions that the run went through. -/
theorem exists_of_mem_log {entry : Session × Call} (hentry : entry ∈ s.log calls) :
    ∃ earlier, earlier <+: calls ∧ entry.1 = s.run earlier := by
  induction calls using List.reverseRecOn with
  | nil => cases hentry
  | append_singleton calls call ih =>
    have hprefix : calls <+: calls ++ [call] := List.prefix_append _ _
    have hearlier (hentry : entry ∈ s.log calls) :
        ∃ earlier, earlier <+: calls ++ [call] ∧ entry.1 = s.run earlier := by
      obtain ⟨earlier, hcalls, hrun⟩ := ih hentry
      exact ⟨earlier, hcalls.trans hprefix, hrun⟩
    obtain ⟨s', _, _, hlog⟩ | ⟨_, hlog⟩ := concat_cases s calls call
    · rw [hlog, List.mem_append, List.mem_singleton] at hentry
      rcases hentry with hold | rfl
      · exact hearlier hold
      · exact ⟨calls, hprefix, rfl⟩
    · rw [hlog] at hentry
      exact hearlier hentry

/-- What was added to a module was at hand earlier in the run. -/
theorem exists_of_mem_added {j : Nat} {f : Func} (hf : f ∈ added j (s.log calls)) :
    ∃ earlier, earlier <+: calls ∧ f ∈ (s.run earlier).funcs := by
  obtain ⟨⟨held, call⟩, hentry, hadded⟩ := List.mem_filterMap.mp hf
  obtain ⟨earlier, hearlier, rfl⟩ := exists_of_mem_log hentry
  refine ⟨earlier, hearlier, ?_⟩
  unfold Call.added? at hadded
  split at hadded
  · split at hadded
    · exact List.mem_of_getElem? hadded
    · cases hadded
  · cases hadded

theorem answer_edit_succeeds_iff {i : Nat} {f : Func} (hf : s.funcs[i]? = some f)
    (e : Func.Edit) : (∃ s', s.answer (.edit i e) = some (.ok s')) ↔ f.Accepts e := by
  rw [answer, hf]
  simp only [Option.map_some, Option.some.injEq, map_eq_ok_iff, Func.edit_eq_ok_iff]
  exact ⟨fun ⟨_, _, ⟨haccepts, _⟩, _⟩ => haccepts, fun haccepts => ⟨_, _, ⟨haccepts, rfl⟩, rfl⟩⟩

theorem answer_addFunc_succeeds_iff {i j : Nat} {f : Func} {m : Module}
    (hf : s.funcs[i]? = some f) (hm : s.modules[j]? = some m) :
    (∃ s', s.answer (.addFunc j i) = some (.ok s')) ↔ m.func? f.name = none := by
  rw [answer, hf, hm]
  simp only [Option.bind_some, Option.map_some, Option.some.injEq, map_eq_ok_iff,
    Module.addFunc_eq_ok_iff]
  exact ⟨fun ⟨_, _, ⟨hname, _⟩, _⟩ => hname, fun hname => ⟨_, _, ⟨hname, rfl⟩, rfl⟩⟩

/-- After any calls that give well-formed names to functions and modules, all functions and modules
are valid. A function holds the variables and results of the calls on it that succeeded, in their
order, and looking up a name finds the one variable declared under it. A module holds the functions
that were added to it, each as it was earlier in the run. Calls fail only for a bad or repeated
name, and a call that fails changes nothing. -/
theorem run_holds_what_succeeded {calls : List Call} (hcalls : ∀ call ∈ calls, call.NamesWell) :
    let s := run {} calls
    let done := log {} calls
    (∀ f ∈ s.funcs, f.validate = .ok ()) ∧
    (∀ m ∈ s.modules, m.validate = .ok ()) ∧
    (∀ (i : Nat) (f : Func), s.funcs[i]? = some f →
      f.params = (edits i done).filterMap Func.Edit.param? ∧
      f.results = (edits i done).filterMap Func.Edit.result? ∧
      f.locals = (edits i done).filterMap Func.Edit.local? ∧
      (∀ name, (f.lookup name).toList =
        ((edits i done).filterMap Func.Edit.var?).filter fun v => v.name == name) ∧
      ∀ e, (∃ s', s.answer (.edit i e) = some (.ok s')) ↔
        ∀ v ∈ e.var?, IsName v.name ∧ f.lookup v.name = none) ∧
    (∀ (j : Nat) (m : Module), s.modules[j]? = some m →
      m.funcs = added j done ∧
      (∀ f ∈ m.funcs, ∃ earlier, earlier <+: calls ∧ f ∈ (run {} earlier).funcs) ∧
      ∀ (i : Nat) (f : Func), s.funcs[i]? = some f →
        ((∃ s', s.answer (.addFunc j i) = some (.ok s')) ↔ m.func? f.name = none)) ∧
    ∀ call e, s.answer call = some (.error e) → s.exec call = s := by
  intro s done
  have hlogged : s.Logged done := logged_run hcalls
  refine ⟨?_, ?_, ?_, ?_, ?_⟩
  · intro f hf
    obtain ⟨i, hi⟩ := List.mem_iff_getElem?.mp hf
    exact (hlogged.funcs.fits i f hi).1
  · intro m hm
    obtain ⟨j, hj⟩ := List.mem_iff_getElem?.mp hm
    exact (hlogged.modules.fits j m hj).1
  · intro i f hf
    obtain ⟨hvalid, hbuilt⟩ := hlogged.funcs.fits i f hf
    exact ⟨hbuilt.params, hbuilt.results, hbuilt.locals, hbuilt.toList_lookup hvalid,
      answer_edit_succeeds_iff hf⟩
  · intro j m hm
    have hfuncs := (hlogged.modules.fits j m hm).2
    refine ⟨hfuncs, ?_, fun i f hf => answer_addFunc_succeeds_iff hf hm⟩
    rw [hfuncs]
    exact fun f hf => exists_of_mem_added hf
  · intro call e hanswer
    rw [exec, hanswer]

/-- A local that repeats a parameter and a function that repeats the name of another are refused.
The module keeps the function as it was before its last parameter. -/
theorem run_holds_what_succeeded_interleaved :
    let calls : List Call := [.newModule "m", .newFunc "f", .newFunc "f",
      .edit 0 (.addLocal ⟨"y", .f64⟩), .edit 0 (.addParam ⟨"x", .i32⟩),
      .edit 0 (.addLocal ⟨"x", .i64⟩), .addFunc 0 0, .addFunc 0 1, .edit 0 (.addParam ⟨"z", .u32⟩)]
    let f : Func := { name := "f", params := [⟨"x", .i32⟩], locals := [⟨"y", .f64⟩] }
    let f' : Func := { f with params := [⟨"x", .i32⟩, ⟨"z", .u32⟩] }
    run {} calls = { funcs := [f', { name := "f" }], modules := [{ name := "m", funcs := [f] }] } ∧
      f'.validate = .ok () ∧ f'.params = (edits 0 (log {} calls)).filterMap Func.Edit.param? := by
  intro calls f f'
  have hcalls : ∀ call ∈ calls, call.NamesWell := by
    simp only [calls, List.forall_mem_cons]
    refine ⟨rfl, rfl, rfl, trivial, trivial, trivial, trivial, trivial, trivial, by simp⟩
  obtain ⟨hfuncs, _, hheld, _⟩ := run_holds_what_succeeded hcalls
  exact ⟨rfl, hfuncs f' List.mem_cons_self, (hheld 0 f' rfl).1⟩

end Session

end Codegen.Wasm
