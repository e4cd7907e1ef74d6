import Codegen.Proofs.Ir.Emission
import Mathlib.Data.List.Induction

namespace Codegen.Ir

namespace Naming

variable {n n' : Naming} {keys : List Key} {key : Key}

/-- Once an identity has a spelling, giving it another one fails and tells the one it has. -/
theorem assign_of_spelling? {existing : Spelling} (hkey : n.spelling? key = some existing)
    (spelling : Spelling) : n.assign key spelling = .error (.alreadySpelled existing) := by
  rw [assign, hkey]

theorem spelling?_getD_assign (n : Naming) (key key' : Key) (spelling : Spelling) :
    ((n.assign key spelling).toOption.getD n).spelling? key' =
      (n.spelling? key').or (if key = key' then some spelling else none) := by
  cases hkey : n.spelling? key with
  | some existing =>
    rw [assign_of_spelling? hkey]
    by_cases hsame : key = key'
    · rw [← hsame, hkey]
      simp [Except.toOption, hkey]
    · simp [Except.toOption, hsame]
  | none =>
    have hassign := assign_of_unassigned hkey spelling
    rw [hassign]
    change Naming.spelling? { n with entries := (key, spelling) :: n.entries } key' = _
    rw [spelling?_assign hassign]
    by_cases hsame : key = key'
    · simp [← hsame, hkey]
    · simp [hsame, Ne.symm hsame]

theorem spelling?_getD_setName (n : Naming) (key key' : Key) (name : String) :
    ((n.setName key name).toOption.getD n).spelling? key' =
      (n.spelling? key').or (if key = key' then Spelling.ofName? name else none) := by
  unfold setName
  split
  · next spelling hname =>
    rw [hname]
    exact spelling?_getD_assign n key key' spelling
  · next hname => simp [hname, Except.toOption]

theorem setName_of_ne_empty {name : String} (hname : name ≠ "") :
    n.setName key name = n.assign key (.name name) := by
  simp [setName, Spelling.ofName?, hname]

theorem setName_empty (n : Naming) (key : Key) : n.setName key "" = .ok n :=
  rfl

/-- What numbering leaves an identity with: its own spelling, or its place among those without. -/
theorem Numbers.spelling?_eq (h : n.Numbers keys 0 n') (key : Key) :
    n'.spelling? key =
      (n.spelling? key).or (((n.unassigned keys).idxOf? key).map Spelling.number) := by
  cases hplace : (n.unassigned keys).idxOf? key with
  | none =>
    rw [h.kept key (List.idxOf?_eq_none_iff.mp hplace)]
    simp
  | some i =>
    obtain ⟨hi, hget, _⟩ := List.idxOf?_eq_some_iff.mp hplace
    have hget : (n.unassigned keys)[i]? = some key := by rw [List.getElem?_eq_getElem hi, hget]
    have hnone := (mem_unassigned.mp (List.mem_of_getElem? hget)).2
    rw [h.numbered i key hget, hnone, Nat.zero_add]
    rfl

/-- The number that an identity gets from passes over functions one after the other, which stop at
the first function in which two identities share a name. -/
def numberByPasses (n : Naming) (key : Key) : List Function → Option Nat
  | [] => none
  | f :: rest =>
    if n.NamesDistinct f.keys then
      ((n.unassigned f.keys).idxOf? key).or (n.numberByPasses key rest)
    else none

theorem numberByPasses_congr {functions : List Function}
    (h : ∀ key ∈ functions.flatMap Function.keys, n'.spelling? key = n.spelling? key)
    (key : Key) : n'.numberByPasses key functions = n.numberByPasses key functions := by
  induction functions with
  | nil => rfl
  | cons f rest ih =>
    rw [List.flatMap_cons, List.forall_mem_append] at h
    have hnames : n'.NamesDistinct f.keys ↔ n.NamesDistinct f.keys :=
      namesDistinct_congr fun key hkey => by rw [name?, name?, h.1 key hkey]
    simp only [numberByPasses, hnames, unassigned_congr h.1, ih h.2]

end Naming

/-- A pass numbers the identities of a function without a spelling, or it fails and does nothing. -/
theorem Function.spelling?_getD_assignNumbers {f : Function} (n : Naming) (hkeys : f.keys.Nodup)
    (key : Key) :
    ((f.assignNumbers n).toOption.getD n).spelling? key =
      (n.spelling? key).or ((n.numberByPasses key [f]).map Spelling.number) := by
  rw [Naming.numberByPasses, Naming.numberByPasses]
  cases hpass : f.assignNumbers n with
  | error e =>
    have hshared : ¬ n.NamesDistinct f.keys := by
      rw [← exists_assignNumbers_iff hkeys, hpass]
      simp
    rw [if_neg hshared]
    simp [Except.toOption]
  | ok n' =>
    rw [if_pos ((exists_assignNumbers_iff hkeys).mp ⟨n', hpass⟩), Option.or_none]
    exact (assignNumbers_eq_ok hkeys hpass).2.spelling?_eq key

/-- Printing numbers what passes over the functions number. -/
theorem Module.spelling?_emitAfter (n : Naming) (out : String) {functions : List Function}
    (hkeys : (functions.flatMap Function.keys).Nodup) (key : Key) :
    (emitAfter n out functions).2.spelling? key =
      (n.spelling? key).or ((n.numberByPasses key functions).map Spelling.number) := by
  induction functions generalizing n out with
  | nil => simp [emitAfter, Naming.numberByPasses]
  | cons f rest ih =>
    rw [List.flatMap_cons, List.nodup_append'] at hkeys
    obtain ⟨hf, hrest, hdisjoint⟩ := hkeys
    have hfirst := Function.spelling?_getD_assignNumbers n hf key
    simp only [Naming.numberByPasses, Option.or_none] at hfirst ⊢
    cases hpass : f.assignNumbers n with
    | error e =>
      have hshared : ¬ n.NamesDistinct f.keys := by
        rw [← Function.exists_assignNumbers_iff hf, hpass]
        simp
      rw [emitAfter, hpass, if_neg hshared]
      simp
    | ok n₁ =>
      have hdistinct := (Function.exists_assignNumbers_iff hf).mp ⟨n₁, hpass⟩
      have htouches := (Function.assignNumbers_eq_ok hf hpass).2.touches
      rw [hpass, if_pos hdistinct] at hfirst
      change n₁.spelling? key = _ at hfirst
      have hothers : n₁.numberByPasses key rest = n.numberByPasses key rest :=
        Naming.numberByPasses_congr
          (fun key' hkey' => htouches.kept key' (.inr fun hmem => hdisjoint hmem hkey')) key
      rw [emitAfter_cons out rest hpass, ih n₁ _ hrest, hothers, hfirst, if_pos hdistinct,
        Option.map_or, Option.or_assoc]

namespace Session

variable {s : Session} {call : Call} {key : Key}

/-- The identity that a call creates, and the spelling it has from the start. -/
def creates (s : Session) : Call → Option (Key × Option Spelling)
  | .constant c => some ((Value.ofConstant s.naming c).1.key, none)
  | .loose d => some ((d.place s.naming).1.key, d.spelling)
  | .block none => some ((Block.unnamed s.naming).1.key, none)
  | .block (some name) => some ((Block.named s.naming name).1.key, Spelling.ofName? name)
  | .append i d => s.blocks[i]?.map fun b => ((b.append d s.naming).1.key, d.spelling)
  | .build i operation => s.blocks[i]?.bind fun b =>
      (b.build (Draft.checked operation) s.naming).toOption.map fun built => (built.1.key, none)
  | .param i name type => s.functions[i]?.map fun f =>
      ((f.addParam name type s.naming).1.key, Spelling.ofName? name)
  | _ => none

/-- The functions that a call passes over, in order. -/
def passedBy (s : Session) : Call → List Function
  | .assignNumbers i => s.allFunctions[i]?.toList
  | .emit _ => s.module.functions
  | .compile _ ⟨.ir64, _⟩ => s.module.functions
  | _ => []

/-- The spelling that a call offers an identity: a name that is not empty, a number, or the number
that a pass gives. -/
def offers (s : Session) (call : Call) (key : Key) : Option Spelling :=
  match call with
  | .setName key' name => if key' = key then Spelling.ofName? name else none
  | .setNumber key' number => if key' = key then some (.number number) else none
  | call => (s.naming.numberByPasses key (s.passedBy call)).map Spelling.number

/-- The first spelling that several calls offer an identity. -/
def firstOffer (s : Session) (key : Key) : List Call → Option Spelling
  | [] => none
  | call :: rest => (s.offers call key).or ((s.exec call).firstOffer key rest)

/-- A call that creates an identity takes the next unused key for it, and offers nothing to those
that exist. -/
theorem exec_of_creates {made : Option Spelling} (hcreates : s.creates call = some (key, made)) :
    key = ⟨s.naming.next⟩ ∧ (s.exec call).naming = (s.naming.fresh made).2 ∧
      ∀ key', s.offers call key' = none := by
  cases call with
  | constant c =>
    cases hcreates
    exact ⟨rfl, rfl, fun _ => rfl⟩
  | loose d =>
    cases hcreates
    exact ⟨rfl, rfl, fun _ => rfl⟩
  | block name =>
    cases name <;> cases hcreates <;> exact ⟨rfl, rfl, fun _ => rfl⟩
  | append i d =>
    obtain ⟨b, hb, hmade⟩ := Option.map_eq_some_iff.mp hcreates
    cases hmade
    refine ⟨rfl, ?_, fun _ => rfl⟩
    simp [exec, updateBlock, hb, Block.append, Draft.place]
  | build i operation =>
    obtain ⟨b, hb, hbuild⟩ := Option.bind_eq_some_iff.mp hcreates
    cases hdraft : Draft.checked operation with
    | error e =>
      rw [hdraft] at hbuild
      cases hbuild
    | ok d =>
      rw [hdraft] at hbuild
      cases hbuild
      refine ⟨rfl, ?_, fun _ => rfl⟩
      have hexec : (s.exec (.build i operation)).naming = (s.naming.fresh d.spelling).2 := by
        simp only [exec, updateBlock, hb, hdraft]
        rfl
      rw [hexec, Draft.spelling_checked hdraft]
  | param i name type =>
    obtain ⟨f, hf, hmade⟩ := Option.map_eq_some_iff.mp hcreates
    cases hmade
    refine ⟨rfl, ?_, fun _ => rfl⟩
    simp [exec, hf, Function.addParam]
  | terminate | function | addBlock | addFunction | setName | setNumber | assignNumbers | emit
  | compile => cases hcreates

theorem spelling?_respell {key' : Key} {result : Except IrError Naming} {given : Option Spelling}
    (hresult : ∀ key, (result.toOption.getD s.naming).spelling? key =
      (s.naming.spelling? key).or (if key' = key then given else none))
    (hkey : key.index < s.naming.next) :
    (s.respell key' result).naming.spelling? key =
      (s.naming.spelling? key).or (if key' = key then given else none) := by
  unfold respell
  split
  · exact hresult key
  · next hmissing =>
    have hne : key' ≠ key := fun hsame => hmissing (hsame ▸ hkey)
    rw [if_neg hne, Option.or_none]

theorem next_respell {key' : Key} {result : Except IrError Naming}
    (hresult : s.naming.Touches [key'] (result.toOption.getD s.naming)) :
    (s.respell key' result).naming.next = s.naming.next := by
  unfold respell
  split
  · exact hresult.next_eq
  · rfl

theorem Owned.spelling?_emit (hs : s.Owned) (withHeader : Bool) (key : Key) :
    (s.module.emit withHeader s.naming).2.spelling? key = (s.naming.spelling? key).or
      ((s.naming.numberByPasses key s.module.functions).map Spelling.number) :=
  Module.spelling?_emitAfter _ _ hs.module_keys_nodup key

/-- A call that creates no identity gives those that exist what it offers them, where they have no
spelling yet. -/
theorem exec_of_creates_none (hs : s.Owned) (hcreates : s.creates call = none) :
    (s.exec call).naming.next = s.naming.next ∧ ∀ key, key.index < s.naming.next →
      (s.exec call).naming.spelling? key = (s.naming.spelling? key).or (s.offers call key) := by
  have hquiet (hnaming : (s.exec call).naming = s.naming)
      (hoffers : ∀ key, s.offers call key = none) :
      (s.exec call).naming.next = s.naming.next ∧ ∀ key, key.index < s.naming.next →
        (s.exec call).naming.spelling? key = (s.naming.spelling? key).or (s.offers call key) := by
    refine ⟨by rw [hnaming], fun key _ => ?_⟩
    rw [hnaming, hoffers, Option.or_none]
  cases call with
  | constant c => cases hcreates
  | loose d => cases hcreates
  | block name => cases name <;> cases hcreates
  | append i d =>
    have hb : s.blocks[i]? = none := Option.map_eq_none_iff.mp hcreates
    exact hquiet (by simp [exec, updateBlock, hb]) fun _ => rfl
  | build i operation =>
    refine hquiet ?_ fun _ => rfl
    cases hb : s.blocks[i]? with
    | none => simp [exec, updateBlock, hb]
    | some b =>
      simp only [creates, hb, Option.bind_some, Option.map_eq_none_iff] at hcreates
      simp [exec, updateBlock, hb, hcreates]
  | param i name type =>
    have hf : s.functions[i]? = none := Option.map_eq_none_iff.mp hcreates
    exact hquiet (by simp [exec, hf]) fun _ => rfl
  | terminate i t =>
    refine hquiet ?_ fun _ => rfl
    cases hb : s.blocks[i]? <;> simp [exec, updateBlock, hb]
  | function name returnType => exact hquiet rfl fun _ => rfl
  | addBlock i j =>
    refine hquiet ?_ fun _ => rfl
    simp only [exec]
    split <;> rfl
  | addFunction i =>
    refine hquiet ?_ fun _ => rfl
    simp only [exec]
    split <;> rfl
  | setName key' name =>
    exact ⟨next_respell (Naming.touches_setName s.naming key' name), fun key hkey =>
      spelling?_respell (fun key => Naming.spelling?_getD_setName s.naming key' key name) hkey⟩
  | setNumber key' number =>
    exact ⟨next_respell (Naming.touches_assign s.naming key' (.number number)), fun key hkey =>
      spelling?_respell (fun key => Naming.spelling?_getD_assign s.naming key' key _) hkey⟩
  | assignNumbers i =>
    cases hf : s.allFunctions[i]? with
    | none =>
      exact hquiet (by simp [exec, hf]) fun _ => by
        simp [offers, passedBy, hf, Naming.numberByPasses]
    | some f =>
      have hkeys := hs.keys_nodup (List.mem_of_getElem? hf)
      have hexec : (s.exec (.assignNumbers i)).naming =
          (f.assignNumbers s.naming).toOption.getD s.naming := by
        simp only [exec, hf]
      refine ⟨?_, fun key _ => ?_⟩
      · rw [hexec, (Function.touches_assignNumbers s.naming hkeys).next_eq]
      · rw [hexec, Function.spelling?_getD_assignNumbers s.naming hkeys key]
        simp only [offers, passedBy, hf, Option.toList_some]
  | emit withHeader =>
    exact ⟨(touches_emit hs withHeader).next_eq, fun key _ => hs.spelling?_emit withHeader key⟩
  | compile wasm options =>
    obtain ⟨target, header⟩ := options
    cases target with
    | wasm32 => exact hquiet rfl fun _ => rfl
    | wasm32Wasi => exact hquiet rfl fun _ => rfl
    | ir64 => exact ⟨(touches_emit hs header).next_eq, fun key _ => hs.spelling?_emit header key⟩

/-- A call gives an identity that exists what it offers it, unless the identity has a spelling. -/
theorem Owned.spelling?_exec (hs : s.Owned) (call : Call) (hkey : key.index < s.naming.next) :
    (s.exec call).naming.spelling? key = (s.naming.spelling? key).or (s.offers call key) := by
  cases hcreates : s.creates call with
  | none => exact (exec_of_creates_none hs hcreates).2 key hkey
  | some created =>
    obtain ⟨_, hnaming, hoffers⟩ := exec_of_creates hcreates
    have hne : key ≠ ⟨s.naming.next⟩ := by
      rintro rfl
      exact Nat.lt_irrefl _ hkey
    rw [hnaming, hs.bounded.spelling?_fresh, if_neg hne, hoffers, Option.or_none]

/-- At the end of a run an identity has the spelling it had at the start, or else the first that it
was offered. -/
theorem Owned.spelling?_run (hs : s.Owned) (calls : List Call) (hkey : key.index < s.naming.next) :
    (s.run calls).naming.spelling? key =
      (s.naming.spelling? key).or (s.firstOffer key calls) := by
  induction calls generalizing s with
  | nil => exact Option.or_none.symm
  | cons call calls ih =>
    have hgrows := hs.grows_exec call
    have hrest := ih (hs.of_grows hgrows) (Nat.lt_of_lt_of_le hkey hgrows.next_le)
    rw [hs.spelling?_exec call hkey, Option.or_assoc] at hrest
    exact hrest

/-- A parameter, block or instruction that was not there before a call was created by it. -/
theorem Owned.creates_of_mem_keys (hs : s.Owned) {call : Call} (hkey : key ∈ (s.exec call).keys)
    (hnew : key ∉ s.keys) : ∃ made, s.creates call = some (key, made) := by
  obtain ⟨added, hperm, _, hfresh⟩ := (hs.grows_exec call).keys_perm
  have hadded : key ∈ added :=
    (List.mem_append.mp (hperm.mem_iff.mp hkey)).resolve_right hnew
  obtain ⟨hle, hlt⟩ := hfresh key hadded
  cases hcreates : s.creates call with
  | none =>
    rw [(exec_of_creates_none hs hcreates).1] at hlt
    omega
  | some created =>
    obtain ⟨key', made⟩ := created
    obtain ⟨rfl, hnaming, _⟩ := exec_of_creates hcreates
    rw [hnaming, Naming.next_fresh] at hlt
    have hindex : key.index = s.naming.next := by omega
    exact ⟨made, by rw [← hindex]⟩

theorem run_append (s : Session) (calls more : List Call) :
    s.run (calls ++ more) = (s.run calls).run more :=
  List.foldl_append

/-- Every parameter, block and instruction was created by a call of the run. -/
theorem exists_creates_of_mem_keys {name : String} {calls : List Call}
    (hkey : key ∈ ((start name).run calls).keys) :
    ∃ before call after made, calls = before ++ call :: after ∧
      ((start name).run before).creates call = some (key, made) := by
  induction calls using List.reverseRecOn with
  | nil => cases hkey
  | append_singleton calls call ih =>
    by_cases hold : key ∈ ((start name).run calls).keys
    · obtain ⟨before, creator, after, made, rfl, hcreates⟩ := ih hold
      exact ⟨before, creator, after ++ [call], made, by simp, hcreates⟩
    · rw [run_append] at hkey
      obtain ⟨made, hcreates⟩ := ((owned_start name).run calls).creates_of_mem_keys hkey hold
      exact ⟨calls, call, [], made, rfl, hcreates⟩

/-- A parameter, a block or an instruction in a block has the spelling that it was created with, or
else the first that it was offered afterwards, at every point of every run. Once it has one, it
keeps it: to number or to name it again fails, and the message shows it. An empty name is never
refused and changes nothing. -/
theorem spelled_once_in_every_run {name : String} {calls : List Call}
    (hkey : key ∈ ((start name).run calls).keys) :
    (∃ before call after made, calls = before ++ call :: after ∧
      ((start name).run before).creates call = some (key, made) ∧
      ∀ more, ((start name).run (before ++ call :: more)).naming.spelling? key =
        made.or (((start name).run (before ++ [call])).firstOffer key more)) ∧
    (∀ spelling, ((start name).run calls).naming.spelling? key = some spelling → ∀ more,
      let n := ((start name).run (calls ++ more)).naming
      n.spelling? key = some spelling ∧
      (∀ number, n.setNumber key number = .error (.alreadySpelled spelling)) ∧
      (∀ text, text ≠ "" → n.setName key text = .error (.alreadySpelled spelling)) ∧
      (IrError.alreadySpelled spelling).message =
        "identifier already assigned as " ++ n.ident key) ∧
    ∀ key', ((start name).run calls).naming.setName key' "" =
      .ok ((start name).run calls).naming := by
  have howned := (owned_start name).run calls
  refine ⟨?_, ?_, fun key' => Naming.setName_empty _ key'⟩
  · obtain ⟨before, call, after, made, hcalls, hcreates⟩ := exists_creates_of_mem_keys hkey
    refine ⟨before, call, after, made, hcalls, hcreates, fun more => ?_⟩
    have hbefore := (owned_start name).run before
    have hafter := (owned_start name).run (before ++ [call])
    obtain ⟨rfl, hnaming, _⟩ := exec_of_creates hcreates
    have hrun : ((start name).run (before ++ [call])).naming =
        (((start name).run before).naming.fresh made).2 := by
      rw [run_append]
      exact hnaming
    have hallocated : (⟨((start name).run before).naming.next⟩ : Key).index <
        ((start name).run (before ++ [call])).naming.next := by
      rw [hrun]
      exact Nat.lt_succ_self _
    have hspelling := hafter.spelling?_run more hallocated
    rw [List.append_cons, run_append, hspelling, hrun, hbefore.bounded.spelling?_fresh, if_pos rfl]
  · intro spelling hspelling more n
    have hkept : n.spelling? key = some spelling := by
      have hlater := howned.spelling?_run more (howned.allocated key hkey)
      rw [hspelling, ← run_append] at hlater
      exact hlater
    refine ⟨hkept, fun number => Naming.assign_of_spelling? hkept _, fun text htext => ?_, ?_⟩
    · rw [Naming.setName_of_ne_empty htext, Naming.assign_of_spelling? hkept]
    · rw [Naming.ident_of_spelling? hkept]
      rfl

/-- An unnamed parameter is numbered, while an instruction is named before the pass that would have
numbered it. Neither takes another spelling. -/
theorem spelled_once_number_and_name :
    let calls : List Call := [.function "f" .i32, .param 0 "" (.vector 2 .i32), .block (some "b"),
      .build 0 (.extractElement (.param ⟨0⟩ (.vector 2 .i32)) (.param ⟨0⟩ .i32)),
      .setName ⟨2⟩ "", .setName ⟨2⟩ "x", .addBlock 0 0, .addFunction 0, .emit true]
    let n := ((start "m").run calls).naming
    ((start "m").run calls).keys.map n.ident = ["%0", "%b", "%x"] ∧
      n.setNumber ⟨0⟩ 7 = .error (.alreadySpelled (.number 0)) ∧
      n.setName ⟨2⟩ "y" = .error (.alreadySpelled (.name "x")) := by
  intro calls n
  have hparam : (⟨0⟩ : Key) ∈ ((start "m").run calls).keys := by decide
  have hresult : (⟨2⟩ : Key) ∈ ((start "m").run calls).keys := by decide
  refine ⟨by decide, ?_, ?_⟩
  · exact ((spelled_once_in_every_run hparam).2.1 (.number 0) (by decide) []).2.1 7
  · exact ((spelled_once_in_every_run hresult).2.1 (.name "x") (by decide) []).2.2.1 "y" (by decide)

end Session

end Codegen.Ir
