import Codegen.Proofs.Ir.Identities

namespace Codegen.Ir

theorem firstRepeatedAfter_eq_some_iff {seen names : List String} {name : String} :
    firstRepeatedAfter seen names = some name ↔ ∃ front back, names = front ++ name :: back ∧
      firstRepeatedAfter seen front = none ∧ (name ∈ seen ∨ name ∈ front) := by
  induction names generalizing seen with
  | nil => simp [firstRepeatedAfter]
  | cons first rest ih =>
    by_cases hfirst : first ∈ seen
    · have hstop (rest : List String) : firstRepeatedAfter seen (first :: rest) = some first := by
        simp [firstRepeatedAfter, hfirst]
      rw [hstop, Option.some.injEq]
      constructor
      · rintro rfl
        exact ⟨[], rest, rfl, rfl, .inl hfirst⟩
      · rintro ⟨front, back, hnames, hfront, _⟩
        cases front with
        | nil => exact (List.cons.inj hnames).1
        | cons head front =>
          rw [← (List.cons.inj hnames).1, hstop] at hfront
          cases hfront
    · have hskip (rest : List String) :
          firstRepeatedAfter seen (first :: rest) = firstRepeatedAfter (first :: seen) rest := by
        simp [firstRepeatedAfter, hfirst]
      rw [hskip, ih]
      constructor
      · rintro ⟨front, back, rfl, hfront, hname⟩
        refine ⟨first :: front, back, rfl, by rwa [hskip], ?_⟩
        simpa [or_left_comm, or_assoc] using hname
      · rintro ⟨front, back, hnames, hfront, hname⟩
        cases front with
        | nil =>
          obtain ⟨rfl, _⟩ := List.cons.inj hnames
          simp [hfirst] at hname
        | cons head front =>
          obtain ⟨rfl, rfl⟩ := List.cons.inj hnames
          refine ⟨front, back, rfl, by rwa [hskip] at hfront, ?_⟩
          simpa [or_left_comm, or_assoc] using hname

namespace Naming

variable {n n' : Naming} {keys : List Key}

/-- No two identities among `keys` have the same name. -/
def NamesDistinct (n : Naming) (keys : List Key) : Prop :=
  keys.Pairwise fun key key' => ∀ name, n.name? key = some name → n.name? key' ≠ some name

/-- Among `keys` in order, `name` is the first to stand for a second time. -/
def FirstShared (n : Naming) (keys : List Key) (name : String) : Prop :=
  ∃ front key back, keys = front ++ key :: back ∧ n.name? key = some name ∧
    (∃ key' ∈ front, n.name? key' = some name) ∧ n.NamesDistinct front

theorem firstRepeated_names_eq_none_iff :
    firstRepeated (keys.filterMap n.name?) = none ↔ n.NamesDistinct keys := by
  rw [firstRepeated_eq_none_iff, NamesDistinct, List.Nodup, List.pairwise_filterMap]
  refine iff_of_eq (congrArg (fun r => List.Pairwise r keys) ?_)
  grind

theorem firstRepeated_names_eq_some_iff {name : String} :
    firstRepeated (keys.filterMap n.name?) = some name ↔ n.FirstShared keys name := by
  simp only [FirstShared, ← firstRepeated_names_eq_none_iff, firstRepeated,
    firstRepeatedAfter_eq_some_iff]
  constructor
  · rintro ⟨front, back, hnames, hfront, hname⟩
    obtain ⟨before, after, rfl, rfl, hafter⟩ := List.filterMap_eq_append_iff.mp hnames
    -- Identities without a name may stand before the one that repeats.
    obtain ⟨unnamed, key, rest, rfl, hunnamed, hkey, -⟩ := List.filterMap_eq_cons_iff.mp hafter
    have hnone : unnamed.filterMap n.name? = [] := List.filterMap_eq_nil_iff.mpr hunnamed
    refine ⟨before ++ unnamed, key, rest, (List.append_assoc ..).symm, hkey, ?_, ?_⟩
    · obtain ⟨key', hkey', hname'⟩ := List.mem_filterMap.mp (hname.resolve_left List.not_mem_nil)
      exact ⟨key', List.mem_append_left _ hkey', hname'⟩
    · rwa [List.filterMap_append, hnone, List.append_nil]
  · rintro ⟨front, key, back, rfl, hkey, ⟨key', hkey', hname⟩, hfront⟩
    refine ⟨front.filterMap n.name?, back.filterMap n.name?, ?_, hfront, .inr ?_⟩
    · rw [List.filterMap_append, List.filterMap_cons_some hkey]
    · exact List.mem_filterMap.mpr ⟨key', hkey', hname⟩

instance : Decidable (n.NamesDistinct keys) :=
  decidable_of_iff _ firstRepeated_names_eq_none_iff

theorem FirstShared.not_namesDistinct {name : String} (h : n.FirstShared keys name) :
    ¬ n.NamesDistinct keys := by
  rw [← firstRepeated_names_eq_none_iff, firstRepeated_names_eq_some_iff.mpr h]
  exact Option.some_ne_none name

/-- Whether names are distinct depends on the names only. -/
theorem namesDistinct_congr (h : ∀ key ∈ keys, n'.name? key = n.name? key) :
    n'.NamesDistinct keys ↔ n.NamesDistinct keys := by
  rw [← firstRepeated_names_eq_none_iff, ← firstRepeated_names_eq_none_iff, List.filterMap_congr h]

theorem firstShared_congr {name : String} (h : ∀ key ∈ keys, n'.name? key = n.name? key) :
    n'.FirstShared keys name ↔ n.FirstShared keys name := by
  rw [← firstRepeated_names_eq_some_iff, ← firstRepeated_names_eq_some_iff, List.filterMap_congr h]

/-- Numbering gives the same spellings to `keys` whatever other identities are spelled. -/
theorem Numbers.spelling?_congr {m m' : Naming} {start : Nat} (hm : n.Numbers keys start m)
    (hm' : n'.Numbers keys start m') (h : ∀ key ∈ keys, n'.spelling? key = n.spelling? key) :
    ∀ key ∈ keys, m'.spelling? key = m.spelling? key := by
  have hunassigned := unassigned_congr h
  intro key hkey
  by_cases hmem : key ∈ n.unassigned keys
  · obtain ⟨i, hi⟩ := List.mem_iff_getElem?.mp hmem
    rw [hm.numbered i key hi, hm'.numbered i key (by rwa [hunassigned])]
  · rw [hm.kept key hmem, hm'.kept key (by rwa [hunassigned]), h key hkey]

end Naming

namespace Function

variable {f : Function} {n n' : Naming}

/-- A pass succeeds on a function whose names are distinct, and only on such a function. -/
theorem exists_assignNumbers_iff (hkeys : f.keys.Nodup) :
    (∃ n', f.assignNumbers n = .ok n') ↔ n.NamesDistinct f.keys := by
  rw [← Naming.firstRepeated_names_eq_none_iff]
  unfold assignNumbers localNames
  cases hnames : firstRepeated (f.keys.filterMap n.name?) with
  | some name => simp
  | none =>
    obtain ⟨n', hrun, _⟩ := n.numberFrom_spec 0 hkeys
    exact iff_of_true ⟨n', hrun⟩ rfl

/-- A pass that fails names the function and the first name that stands twice. -/
theorem assignNumbers_eq_error (hkeys : f.keys.Nodup) {e : IrError}
    (h : f.assignNumbers n = .error e) :
    ∃ name, n.FirstShared f.keys name ∧ e = .duplicateLocal f.name name := by
  unfold assignNumbers at h
  split at h
  · next name hname =>
    cases h
    exact ⟨name, Naming.firstRepeated_names_eq_some_iff.mp hname, rfl⟩
  · obtain ⟨n', hrun, _⟩ := n.numberFrom_spec 0 hkeys
    rw [hrun] at h
    cases h

end Function

namespace Module

variable {n n' : Naming}

/-- `n'` is `n` with each of the functions numbered by a pass over it, and nothing else. -/
structure NumbersEach (n : Naming) (functions : List Function) (n' : Naming) : Prop where
  numbered : ∀ f ∈ functions, ∃ m, f.assignNumbers n = .ok m ∧
    ∀ key ∈ f.keys, n'.spelling? key = m.spelling? key
  kept : ∀ key, key ∉ functions.flatMap Function.keys → n'.spelling? key = n.spelling? key

theorem numbersEach_nil (n : Naming) : NumbersEach n [] n :=
  ⟨by simp, fun _ _ => rfl⟩

/-- A pass over one function does not show in the passes over the others. -/
theorem NumbersEach.cons {f : Function} {rest : List Function} {n₁ : Naming}
    (hkeys : ((f :: rest).flatMap Function.keys).Nodup) (hpass : f.assignNumbers n = .ok n₁)
    (hrest : NumbersEach n₁ rest n') : NumbersEach n (f :: rest) n' := by
  rw [List.flatMap_cons, List.nodup_append'] at hkeys
  obtain ⟨hf, hothers, hdisjoint⟩ := hkeys
  have hnumbers := (Function.assignNumbers_eq_ok hf hpass).2
  refine ⟨?_, ?_⟩
  · rw [List.forall_mem_cons]
    refine ⟨⟨n₁, hpass, fun key hkey => hrest.kept key (hdisjoint hkey)⟩, ?_⟩
    intro g hg
    have hg' : g.keys.Nodup := (List.nodup_flatMap.mp hothers).1 g hg
    obtain ⟨m₁, hpass₁, hspelling₁⟩ := hrest.numbered g hg
    have hnames : n.NamesDistinct g.keys := by
      rw [← Naming.namesDistinct_congr fun key _ => hnumbers.name?_eq key]
      exact (Function.exists_assignNumbers_iff hg').mp ⟨m₁, hpass₁⟩
    obtain ⟨m, hpass'⟩ := (Function.exists_assignNumbers_iff hg').mpr hnames
    refine ⟨m, hpass', ?_⟩
    have hagree : ∀ key ∈ g.keys, n₁.spelling? key = n.spelling? key := fun key hkey =>
      hnumbers.touches.kept key
        (.inr fun hmem => hdisjoint hmem (List.mem_flatMap.mpr ⟨g, hg, hkey⟩))
    intro key hkey
    rw [hspelling₁ key hkey]
    exact (Function.assignNumbers_eq_ok hg' hpass').2.spelling?_congr
      (Function.assignNumbers_eq_ok hg' hpass₁).2 hagree key hkey
  · intro key hkey
    rw [List.flatMap_cons, List.mem_append, not_or] at hkey
    rw [hrest.kept key hkey.2, hnumbers.touches.kept key (.inr hkey.1)]

theorem emitAfter_cons {f : Function} {n₁ : Naming} (out : String) (rest : List Function)
    (hpass : f.assignNumbers n = .ok n₁) :
    emitAfter n out (f :: rest) =
      emitAfter n₁ ((if out.isEmpty then "" else out ++ "\n") ++ f.text n₁) rest := by
  rw [emitAfter, hpass]

/-- Printing succeeds and numbers every function, or it stops at the first function in which two
identities share a name, with those before it numbered. -/
theorem emitAfter_cases (n : Naming) (out : String) {functions : List Function}
    (hkeys : (functions.flatMap Function.keys).Nodup) :
    (∃ text n', emitAfter n out functions = (.ok text, n') ∧
      (∀ f ∈ functions, n.NamesDistinct f.keys) ∧ NumbersEach n functions n') ∨
    ∃ front f back name n', functions = front ++ f :: back ∧
      emitAfter n out functions = (.error (.duplicateLocal f.name name), n') ∧
      (∀ g ∈ front, n.NamesDistinct g.keys) ∧ n.FirstShared f.keys name ∧
      NumbersEach n front n' := by
  induction functions generalizing n out with
  | nil => exact .inl ⟨out, n, rfl, by simp, numbersEach_nil n⟩
  | cons f rest ih =>
    have hf : f.keys.Nodup := (List.nodup_flatMap.mp hkeys).1 f List.mem_cons_self
    have hrest : (rest.flatMap Function.keys).Nodup := by
      rw [List.flatMap_cons] at hkeys
      exact hkeys.of_append_right
    rw [emitAfter]
    cases hpass : f.assignNumbers n with
    | error e =>
      obtain ⟨name, hshared, rfl⟩ := Function.assignNumbers_eq_error hf hpass
      exact .inr ⟨[], f, rest, name, n, rfl, rfl, by simp, hshared, numbersEach_nil n⟩
    | ok n₁ =>
      have hdistinct := (Function.exists_assignNumbers_iff hf).mp ⟨n₁, hpass⟩
      have hnames := (Function.assignNumbers_eq_ok hf hpass).2.name?_eq
      have hcons {others : List Function} (hothers : ∀ g ∈ others, n₁.NamesDistinct g.keys) :
          ∀ g ∈ f :: others, n.NamesDistinct g.keys := by
        rw [List.forall_mem_cons]
        exact ⟨hdistinct, fun g hg =>
          (Naming.namesDistinct_congr fun key _ => hnames key).mp (hothers g hg)⟩
      obtain ⟨text, n', hemit, hothers, heach⟩ |
        ⟨front, g, back, name, n', rfl, hemit, hothers, hshared, heach⟩ := ih n₁ _ hrest
      · exact .inl ⟨text, n', hemit, hcons hothers, heach.cons hkeys hpass⟩
      · refine .inr ⟨f :: front, g, back, name, n', rfl, hemit, hcons hothers, ?_, ?_⟩
        · exact (Naming.firstShared_congr fun key _ => hnames key).mp hshared
        · refine heach.cons ?_ hpass
          rw [← List.cons_append, List.flatMap_append] at hkeys
          exact hkeys.of_append_left

end Module

namespace Session

/-- Printing fails exactly when two identities of a function share a name. The error tells the first
such function and the name that is the first in it to stand for a second time. Then the functions
before it are numbered as a pass over each of them does, and the identities of the others are as
they were. Compiling to the intermediate representation fails in the same cases. -/
theorem emit_refuses_first_shared_name {s : Session} (hs : s.Reachable) (withHeader : Bool)
    {result : Except IrError String} {after : Naming}
    (hemit : s.module.emit withHeader s.naming = (result, after)) :
    let identities (f : Function) : List Key := f.params.map Param.key ++
      f.blocks.flatMap fun b => b.key :: b.instructions.map Instruction.key
    ((∃ e, result = .error e) ↔
      ∃ f ∈ s.module.functions, ¬ s.naming.NamesDistinct (identities f)) ∧
    (∀ e, result = .error e → ∃ front f back name,
      s.module.functions = front ++ f :: back ∧ e = .duplicateLocal f.name name ∧
      (∀ g ∈ front, s.naming.NamesDistinct (identities g)) ∧
      s.naming.FirstShared (identities f) name ∧
      (∀ g ∈ front, ∃ n, g.assignNumbers s.naming = .ok n ∧
        ∀ key ∈ identities g, after.spelling? key = n.spelling? key) ∧
      ∀ g ∈ f :: back, ∀ key ∈ identities g, after.spelling? key = s.naming.spelling? key) ∧
    ∀ p : Program, p.ir = s.module →
      p.compile ⟨.ir64, withHeader⟩ s.naming = (result.mapError (·.diagnostic none), after) := by
  intro identities
  have hidentities : identities = Function.keys := rfl
  rw [hidentities]
  have hkeys := hs.owned.module_keys_nodup
  have hcompile (p : Program) (hp : p.ir = s.module) :
      p.compile ⟨.ir64, withHeader⟩ s.naming = (result.mapError (·.diagnostic none), after) := by
    simp only [Program.compile, hp, hemit]
  rw [Module.emit] at hemit
  obtain ⟨text, n', hrun, hdistinct, _⟩ |
    ⟨front, f, back, name, n', hsplit, hrun, hdistinct, hshared, heach⟩ :=
    Module.emitAfter_cases s.naming (if withHeader then s.module.header else "") hkeys
  · obtain ⟨rfl, rfl⟩ := Prod.mk.inj (hrun.symm.trans hemit)
    refine ⟨iff_of_false (by simp) ?_, by simp, hcompile⟩
    rintro ⟨f, hf, hshares⟩
    exact hshares (hdistinct f hf)
  · obtain ⟨rfl, rfl⟩ := Prod.mk.inj (hrun.symm.trans hemit)
    refine ⟨iff_of_true ⟨_, rfl⟩ ⟨f, by simp [hsplit], hshared.not_namesDistinct⟩, ?_, hcompile⟩
    rintro e ⟨⟩
    refine ⟨front, f, back, name, hsplit, rfl, hdistinct, hshared, heach.numbered, ?_⟩
    intro g hg key hkey
    apply heach.kept
    rw [hsplit, List.flatMap_append] at hkeys
    exact fun hmem => List.disjoint_of_nodup_append hkeys hmem (List.mem_flatMap.mpr ⟨g, hg, hkey⟩)

/-- In the second of three functions a result has the name of its block, and there are unnamed
identities before and behind it: the first function is numbered, the others are not. -/
theorem emit_refuses_second_of_three :
    let lanes : Value := .param ⟨1⟩ (.vector 2 .i32)
    let lane : Draft := { operation := .extractElement lanes (.param ⟨0⟩ .i32), type := .i32 }
    let s := (start "m").run [.function "f" .void, .param 0 "" .i32, .addFunction 0,
      .function "g" .i32, .param 0 "" (.vector 2 .i32), .block (some "x"),
      .append 0 (lane.withName "x"), .append 0 lane, .addBlock 0 0, .addFunction 0,
      .function "h" .void, .param 0 "" .i32, .addFunction 0]
    (s.module.emit true s.naming).1 = .error (.duplicateLocal "g" "x") ∧
      (∃ f ∈ s.module.functions, ¬ s.naming.NamesDistinct (f.params.map Param.key ++
        f.blocks.flatMap fun b => b.key :: b.instructions.map Instruction.key)) ∧
      [Key.mk 0, ⟨1⟩, ⟨2⟩, ⟨3⟩, ⟨4⟩, ⟨5⟩].map (s.module.emit true s.naming).2.ident =
        ["%0", "%<unassigned>", "%x", "%x", "%<unassigned>", "%<unassigned>"] := by
  refine ⟨by decide, ?_, by decide⟩
  exact (emit_refuses_first_shared_name ⟨"m", _, rfl⟩ true rfl).1.mp ⟨_, rfl⟩

end Session

end Codegen.Ir
