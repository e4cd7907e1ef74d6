import Codegen.Proofs.Ir.Identities

namespace Codegen.Ir

/-- Calls that leave all numbers to passes and every function with the caller. -/
def Call.numbersByPass : Call → Bool
  | .setNumber .. | .addFunction _ => false
  | .loose d | .append _ d => (d.spelling.bind Spelling.number?).isNone
  | _ => true

/-- How the numbers among `keys` look after `count` passes that numbered something. -/
structure Naming.NumberedBy (n : Naming) (keys : List Key) (count : Nat) : Prop where
  distinct_iff : n.NumbersDistinct keys ↔ count ≤ 1
  zero : 1 ≤ count → ∃ key ∈ keys, n.number? key = some 0
  none : count = 0 → ∀ key ∈ keys, n.number? key = Option.none

namespace Naming.NumberedBy

variable {n n' : Naming} {keys keys' : List Key} {count : Nat}

theorem of_none (hnone : ∀ key ∈ keys, n.number? key = Option.none) : n.NumberedBy keys 0 := by
  refine ⟨iff_of_true ?_ (Nat.zero_le 1), by simp, fun _ => hnone⟩
  intro key hkey _ _ value hvalue _
  rw [hnone key hkey] at hvalue
  cases hvalue

/-- Identities without a number may join. -/
theorem extend (h : n.NumberedBy keys count)
    (hnumber : ∀ key ∈ keys', n'.number? key = n.number? key)
    (hsubset : keys ⊆ keys')
    (hadded : ∀ key ∈ keys', key ∉ keys → n.number? key = Option.none) :
    n'.NumberedBy keys' count := by
  have hold {key : Key} {value : Nat} (hkey : key ∈ keys') (hvalue : n.number? key = some value) :
      key ∈ keys := by
    by_contra hnew
    rw [hadded key hkey hnew] at hvalue
    cases hvalue
  refine ⟨?_, ?_, ?_⟩
  · rw [← h.distinct_iff]
    constructor
    · intro hdistinct key hkey key' hkey' value hvalue hvalue'
      rw [← hnumber key (hsubset hkey)] at hvalue
      rw [← hnumber key' (hsubset hkey')] at hvalue'
      exact hdistinct key (hsubset hkey) key' (hsubset hkey') value hvalue hvalue'
    · intro hdistinct key hkey key' hkey' value hvalue hvalue'
      rw [hnumber key hkey] at hvalue
      rw [hnumber key' hkey'] at hvalue'
      exact hdistinct key (hold hkey hvalue) key' (hold hkey' hvalue') value hvalue hvalue'
  · intro hcount
    obtain ⟨key, hkey, hzero⟩ := h.zero hcount
    exact ⟨key, hsubset hkey, by rw [hnumber key (hsubset hkey), hzero]⟩
  · intro hcount key hkey
    rw [hnumber key hkey]
    by_cases hmem : key ∈ keys
    · exact h.none hcount key hmem
    · exact hadded key hkey hmem

/-- A pass counts if it numbers something: it then gives zero once more. -/
theorem pass (h : n.NumberedBy keys count) (hnumbers : n.Numbers keys 0 n') (hkeys : keys.Nodup) :
    n'.NumberedBy keys (count + if !(n.unassigned keys).isEmpty then 1 else 0) := by
  cases hunassigned : n.unassigned keys with
  | nil =>
    apply h.extend _ (List.Subset.refl keys) fun key hkey hnew => absurd hkey hnew
    intro key _
    rw [number?, number?, hnumbers.kept key (by simp [hunassigned])]
  | cons first rest =>
    have hfirst : first ∈ keys := (mem_unassigned.mp (hunassigned ▸ List.mem_cons_self)).1
    change n'.NumberedBy keys (count + 1)
    refine ⟨?_, ?_, by simp⟩
    · rw [hnumbers.numbersDistinct_iff hkeys]
      constructor
      · rintro ⟨_, hbound⟩
        by_contra hcount
        obtain ⟨key, hkey, hzero⟩ := h.zero (by omega)
        have hle := hbound key hkey 0 hzero
        rw [hunassigned] at hle
        simp at hle
      · intro hcount
        obtain rfl : count = 0 := by omega
        refine ⟨h.distinct_iff.mpr (Nat.zero_le 1), ?_⟩
        intro key hkey value hvalue
        rw [h.none rfl key hkey] at hvalue
        cases hvalue
    · intro _
      exact ⟨first, hfirst,
        hnumbers.number?_eq_some_iff.mpr (.inr ⟨0, by simp [hunassigned], rfl⟩)⟩

end Naming.NumberedBy

namespace Session

/-- Whether a call is a pass over the function at `i` that succeeds and numbers something. -/
def numbersAt (s : Session) (i : Nat) : Call → Bool
  | .assignNumbers j =>
    j == i && s.functions[i]?.any fun f =>
      (f.assignNumbers s.naming).isOk && !(s.naming.unassigned f.keys).isEmpty
  | _ => false

/-- The number of passes over the function at `i` that succeed and number something. -/
def passes (s : Session) (i : Nat) : List Call → Nat
  | [] => 0
  | call :: calls => (if s.numbersAt i call then 1 else 0) + (s.exec call).passes i calls

/-- The function at `i` has seen `count` passes that numbered something, and nothing outside of the
functions has a number. -/
structure CountedAt (s : Session) (i count : Nat) : Prop where
  owned : s.Owned
  unplaced : s.module.functions = []
  blocks : ∀ b ∈ s.blocks, ∀ key ∈ b.keys, s.naming.number? key = none
  function : ∀ f, s.functions[i]? = some f → s.naming.NumberedBy f.keys count
  missing : s.functions[i]? = none → count = 0

variable {s s' : Session} {i count : Nat}

theorem countedAt_start (name : String) (i : Nat) : (start name).CountedAt i 0 := by
  refine ⟨owned_start name, rfl, ?_, ?_, fun _ => rfl⟩
  · intro b hb
    cases hb
  · intro f hf
    cases hf

/-- The function at `i` keeps its identities and gets only new ones without a number. -/
def KeepsFunction (s s' : Session) (i : Nat) : Prop :=
  (∀ f', s'.functions[i]? = some f' → s.functions[i]? = none ∧ f'.keys = [] ∨
    ∃ f, s.functions[i]? = some f ∧ f.keys ⊆ f'.keys ∧
      ∀ key ∈ f'.keys, key ∉ f.keys → s.naming.number? key = none) ∧
  (s'.functions[i]? = none → s.functions[i]? = none)

theorem keepsFunction_of_eq (h : s'.functions[i]? = s.functions[i]?) : s.KeepsFunction s' i := by
  rw [KeepsFunction, h]
  refine ⟨?_, id⟩
  intro f hf
  exact .inr ⟨f, hf, List.Subset.refl _, fun key hkey hnew => absurd hkey hnew⟩

theorem keepsFunction_set {j : Nat} {g g' : Function} (h : s'.functions = s.functions.set j g')
    (hg : s.functions[j]? = some g) (hsubset : g.keys ⊆ g'.keys)
    (hadded : ∀ key ∈ g'.keys, key ∉ g.keys → s.naming.number? key = none) :
    s.KeepsFunction s' i := by
  by_cases hij : j = i
  · subst hij
    have hset : s'.functions[j]? = some g' := by
      rw [h, List.getElem?_set_self (List.getElem?_eq_some_iff.mp hg).1]
    refine ⟨?_, by simp [hset]⟩
    intro f' hf'
    rw [hset] at hf'
    cases hf'
    exact .inr ⟨g, hg, hsubset, hadded⟩
  · apply keepsFunction_of_eq
    rw [h, List.getElem?_set_ne hij]

/-- A call that changes no number keeps the count. -/
theorem CountedAt.of_quiet (h : s.CountedAt i count) (howned : s'.Owned)
    (hnumber : ∀ key, s'.naming.number? key = s.naming.number? key)
    (hmodule : s'.module = s.module)
    (hblocks : ∀ b ∈ s'.blocks, ∀ key ∈ b.keys, s.naming.number? key = none)
    (hfunction : s.KeepsFunction s' i) : s'.CountedAt i count := by
  refine ⟨howned, by rw [hmodule, h.unplaced], ?_, ?_, ?_⟩
  · intro b hb key hkey
    rw [hnumber, hblocks b hb key hkey]
  · intro f' hf'
    rcases hfunction.1 f' hf' with ⟨hmissing, hkeys⟩ | ⟨f, hf, hsubset, hadded⟩
    · rw [h.missing hmissing, hkeys]
      exact .of_none (by simp)
    · exact (h.function f hf).extend (fun key _ => hnumber key) hsubset hadded
  · intro hmissing
    exact h.missing (hfunction.2 hmissing)

theorem keepsFunction_append {g : Function} (h : s'.functions = s.functions ++ [g])
    (hg : g.keys = []) : s.KeepsFunction s' i := by
  by_cases hi : i < s.functions.length
  · apply keepsFunction_of_eq
    rw [h, List.getElem?_append_left hi]
  · have hmissing : s.functions[i]? = none := List.getElem?_eq_none (by omega)
    refine ⟨?_, fun _ => hmissing⟩
    intro f' hf'
    rw [h, List.getElem?_append_right (by omega)] at hf'
    obtain rfl : g = f' := List.mem_singleton.mp (List.mem_of_getElem? hf') |>.symm
    exact .inl ⟨hmissing, hg⟩

theorem CountedAt.number?_next (h : s.CountedAt i count) :
    s.naming.number? ⟨s.naming.next⟩ = none := by
  rw [Naming.number?, h.owned.bounded.spelling?_eq_none (Nat.le_refl _)]
  rfl

theorem CountedAt.blocks_set (h : s.CountedAt i count) {j : Nat} {b' : Block}
    (hb' : ∀ key ∈ b'.keys, s.naming.number? key = none) :
    ∀ b ∈ s.blocks.set j b', ∀ key ∈ b.keys, s.naming.number? key = none := by
  intro b hb
  rcases List.mem_or_eq_of_mem_set hb with hmem | rfl
  · exact h.blocks b hmem
  · exact hb'

theorem CountedAt.append (h : s.CountedAt i count) {j : Nat} {b : Block}
    (hb : s.blocks[j]? = some b)
    {d : Draft} (hd : d.spelling.bind Spelling.number? = none) :
    CountedAt { s with
      naming := (b.append d s.naming).2.2
      blocks := s.blocks.set j (b.append d s.naming).2.1 } i count := by
  refine h.of_quiet (h.owned.of_grows (grows_append hb d)) (h.owned.bounded.number?_fresh hd) rfl ?_
    (keepsFunction_of_eq rfl)
  apply h.blocks_set
  intro key hkey
  rcases List.mem_cons.mp ((keys_append_perm b d s.naming).mem_iff.mp hkey) with rfl | hold
  · exact h.number?_next
  · exact h.blocks b (List.mem_of_getElem? hb) key hold

theorem CountedAt.updateBlock (h : s.CountedAt i count) {j : Nat}
    {change : Block → Option (Block × Naming)}
    (hchange : ∀ b b' n, s.blocks[j]? = some b → change b = some (b', n) →
      CountedAt { s with naming := n, blocks := s.blocks.set j b' } i count) :
    (s.updateBlock j change).CountedAt i count := by
  obtain hsame | ⟨b, b', n, hb, hb', hupdate⟩ := updateBlock_cases s j change
  · rwa [hsame]
  · rw [hupdate]
    exact hchange b b' n hb hb'

/-- A call that is no pass changes no number of the function at `i`. -/
theorem CountedAt.exec_of_ne (h : s.CountedAt i count) {call : Call}
    (hcall : call.numbersByPass = true) (hpass : ∀ j, call ≠ .assignNumbers j) :
    (s.exec call).CountedAt i count := by
  have howned : (s.exec call).Owned := h.owned.of_grows (h.owned.grows_exec call)
  cases call with
  | constant c =>
    exact h.of_quiet howned (h.owned.bounded.number?_fresh rfl) rfl h.blocks (keepsFunction_of_eq rfl)
  | loose d =>
    have hd : d.spelling.bind Spelling.number? = none := by simpa [Call.numbersByPass] using hcall
    exact h.of_quiet howned (h.owned.bounded.number?_fresh hd) rfl h.blocks (keepsFunction_of_eq rfl)
  | block name =>
    have hblock {b : Block} (hkeys : b.keys = [⟨s.naming.next⟩]) :
        ∀ b' ∈ s.blocks ++ [b], ∀ key ∈ b'.keys, s.naming.number? key = none := by
      intro b' hb' key hkey
      rcases List.mem_append.mp hb' with hold | hnew
      · exact h.blocks b' hold key hkey
      · rw [List.mem_singleton.mp hnew, hkeys, List.mem_singleton] at hkey
        rw [hkey, h.number?_next]
    cases name with
    | none =>
      exact h.of_quiet howned (h.owned.bounded.number?_fresh rfl) rfl (hblock rfl)
        (keepsFunction_of_eq rfl)
    | some name =>
      exact h.of_quiet howned (h.owned.bounded.number?_fresh (Naming.bind_number?_ofName? name)) rfl
        (hblock rfl) (keepsFunction_of_eq rfl)
  | append j d =>
    have hd : d.spelling.bind Spelling.number? = none := by simpa [Call.numbersByPass] using hcall
    apply h.updateBlock
    intro b b' n hb hb'
    cases hb'
    exact h.append hb hd
  | build j operation =>
    apply h.updateBlock
    intro b b' n hb hb'
    cases hdraft : Draft.checked operation with
    | error e =>
      rw [hdraft] at hb'
      cases hb'
    | ok d =>
      rw [hdraft] at hb'
      cases hb'
      exact h.append hb (by rw [Draft.spelling_checked hdraft]; rfl)
  | terminate j t =>
    apply h.updateBlock
    intro b b' n hb hb'
    cases hb'
    exact h.of_quiet (h.owned.of_grows (grows_setTerminator hb t)) (fun _ => rfl) rfl
      (h.blocks_set (h.blocks b (List.mem_of_getElem? hb))) (keepsFunction_of_eq rfl)
  | function name returnType =>
    exact h.of_quiet howned (fun _ => rfl) rfl h.blocks (keepsFunction_append rfl rfl)
  | param j name type =>
    simp only [exec] at howned ⊢
    split
    · next f hf =>
      simp only [hf] at howned
      refine h.of_quiet howned
        (h.owned.bounded.number?_fresh (Naming.bind_number?_ofName? name)) rfl h.blocks ?_
      have hkeys := keys_addParam_perm f name type s.naming
      refine keepsFunction_set rfl hf ?_ ?_
      · intro key hkey
        exact hkeys.mem_iff.mpr (List.mem_cons_of_mem _ hkey)
      · intro key hkey hnew
        rw [(List.mem_cons.mp (hkeys.mem_iff.mp hkey)).resolve_right hnew, h.number?_next]
    · exact h
  | addBlock j k =>
    simp only [exec] at howned ⊢
    split
    · next f b hf hb =>
      simp only [hf, hb] at howned
      refine h.of_quiet howned (fun _ => rfl) rfl ?_ ?_
      · intro b' hb'
        exact h.blocks b' (List.mem_of_mem_eraseIdx hb')
      · refine keepsFunction_set rfl hf ?_ ?_
        · rw [keys_addBlock]
          exact List.subset_append_left _ _
        · intro key hkey hnew
          rw [keys_addBlock] at hkey
          exact h.blocks b (List.mem_of_getElem? hb) key ((List.mem_append.mp hkey).resolve_left hnew)
    · exact h
  | addFunction j => cases hcall
  | setName key name =>
    simp only [exec] at howned ⊢
    obtain hsame | ⟨_, hrespell⟩ := respell_cases s key (s.naming.setName key name)
    · rwa [hsame]
    · rw [hrespell] at howned ⊢
      exact h.of_quiet howned (s.naming.number?_setName key name) rfl h.blocks
        (keepsFunction_of_eq rfl)
  | setNumber key number => cases hcall
  | assignNumbers j => exact absurd rfl (hpass j)
  | emit withHeader =>
    refine h.of_quiet howned (fun key => ?_) rfl h.blocks (keepsFunction_of_eq rfl)
    simp only [exec, Module.emit, h.unplaced]
    rfl
  | compile wasm options =>
    refine h.of_quiet howned (fun key => ?_) rfl h.blocks (keepsFunction_of_eq rfl)
    simp only [exec, Program.compile, Module.emit, h.unplaced]
    split <;> rfl

theorem numbersAt_of_ne {j : Nat} (hij : j ≠ i) : s.numbersAt i (.assignNumbers j) = false := by
  simp [numbersAt, hij]

theorem numbersAt_of_assignNumbers {f : Function} {n : Naming} (hf : s.functions[i]? = some f)
    (hpass : f.assignNumbers s.naming = .ok n) :
    s.numbersAt i (.assignNumbers i) = !(s.naming.unassigned f.keys).isEmpty := by
  simp [numbersAt, hf, hpass, Except.isOk, Except.toBool]

/-- A pass fails and is not counted, or it puts the numbers of one function in the naming. -/
theorem exec_assignNumbers_cases (i : Nat) (hunplaced : s.module.functions = []) (j : Nat) :
    (s.exec (.assignNumbers j) = s ∧ s.numbersAt i (.assignNumbers j) = false) ∨
      ∃ f n, s.functions[j]? = some f ∧ f.assignNumbers s.naming = .ok n ∧
        s.exec (.assignNumbers j) = { s with naming := n } := by
  have hall : s.allFunctions = s.functions := by rw [allFunctions, hunplaced, List.append_nil]
  cases hf : s.functions[j]? with
  | none =>
    refine .inl ⟨by simp [exec, hall, hf], ?_⟩
    by_cases hij : j = i
    · subst hij
      simp [numbersAt, hf]
    · exact numbersAt_of_ne hij
  | some f =>
    cases hpass : f.assignNumbers s.naming with
    | error e =>
      refine .inl ⟨by simp [exec, hall, hf, hpass, Except.toOption], ?_⟩
      by_cases hij : j = i
      · subst hij
        simp [numbersAt, hf, hpass, Except.isOk, Except.toBool]
      · exact numbersAt_of_ne hij
    | ok n =>
      exact .inr ⟨f, n, rfl, hpass, by simp [exec, hall, hf, hpass, Except.toOption]⟩

/-- A pass counts when it succeeds and numbers something; a pass over another function changes
nothing here. -/
theorem CountedAt.exec_assignNumbers (h : s.CountedAt i count) (j : Nat) :
    (s.exec (.assignNumbers j)).CountedAt i
      (count + if s.numbersAt i (.assignNumbers j) then 1 else 0) := by
  have howned := h.owned.of_grows (h.owned.grows_exec (.assignNumbers j))
  have hall : s.allFunctions = s.functions := by rw [allFunctions, h.unplaced, List.append_nil]
  obtain ⟨hsame, hquiet⟩ | ⟨g, n, hg, hpass, hexec⟩ := exec_assignNumbers_cases i h.unplaced j
  · rw [hsame, hquiet]
    exact h
  rw [hexec] at howned ⊢
  rw [← hall] at hg
  have hmem : g ∈ s.allFunctions := List.mem_of_getElem? hg
  have hnumbers := (Function.assignNumbers_eq_ok (h.owned.keys_nodup hmem) hpass).2
  have hkept {key : Key} (hkey : key ∉ g.keys) : n.number? key = s.naming.number? key := by
    rw [Naming.number?, Naming.number?, hnumbers.touches.kept key (.inr hkey)]
  refine ⟨howned, h.unplaced, ?_, ?_, ?_⟩
  · intro b hb key hkey
    rw [← h.blocks b hb key hkey]
    exact hkept (h.owned.not_mem_keys_of_mem_block hb hkey hmem)
  · intro f hf
    have hcount := h.function f hf
    by_cases hij : j = i
    · subst hij
      rw [hall] at hg
      obtain rfl : g = f := Option.some.inj (hg.symm.trans hf)
      rw [numbersAt_of_assignNumbers hg hpass]
      exact hcount.pass hnumbers (h.owned.keys_nodup hmem)
    · rw [numbersAt_of_ne hij]
      apply hcount.extend _ (List.Subset.refl _) fun key hkey hnew => absurd hkey hnew
      intro key hkey
      rw [← hall] at hf
      exact hkept (h.owned.not_mem_keys_of_ne (Ne.symm hij) hf hg hkey)
  · intro hmissing
    have hne : j ≠ i := by
      rintro rfl
      rw [hall, hmissing] at hg
      cases hg
    rw [numbersAt_of_ne hne]
    exact h.missing hmissing

theorem CountedAt.exec (h : s.CountedAt i count) {call : Call} (hcall : call.numbersByPass = true) :
    (s.exec call).CountedAt i (count + if s.numbersAt i call then 1 else 0) := by
  by_cases hpass : ∃ j, call = .assignNumbers j
  · obtain ⟨j, rfl⟩ := hpass
    exact h.exec_assignNumbers j
  · have hquiet : s.numbersAt i call = false := by
      unfold numbersAt
      split
      · next j => exact absurd ⟨j, rfl⟩ hpass
      · rfl
    rw [hquiet]
    exact h.exec_of_ne hcall fun j hj => hpass ⟨j, hj⟩

theorem CountedAt.run (h : s.CountedAt i count) {calls : List Call}
    (hcalls : ∀ call ∈ calls, call.numbersByPass = true) :
    (s.run calls).CountedAt i (count + s.passes i calls) := by
  induction calls generalizing s count with
  | nil => exact h
  | cons call calls ih =>
    rw [passes, ← Nat.add_assoc]
    exact ih (h.exec (hcalls call List.mem_cons_self))
      fun call' hcall' => hcalls call' (List.mem_cons_of_mem _ hcall')

theorem passes_append (s : Session) (i : Nat) (calls : List Call) (call : Call) :
    s.passes i (calls ++ [call]) =
      s.passes i calls + if (s.run calls).numbersAt i call then 1 else 0 := by
  induction calls generalizing s with
  | nil => exact (Nat.zero_add _).symm
  | cons call' calls ih =>
    rw [List.cons_append, passes, ih, passes, Nat.add_assoc]
    rfl

/-- In a session that leaves all numbers to passes, a pass over a function that succeeds leaves its
spellings distinct exactly when at most one pass over it, this one included, numbered something. -/
theorem nodup_idents_iff_passes_le_one (name : String) {calls : List Call}
    (hcalls : ∀ call ∈ calls, call.numbersByPass = true) {i : Nat} {f : Function}
    (hf : ((start name).run calls).functions[i]? = some f) {n : Naming}
    (hpass : f.assignNumbers ((start name).run calls).naming = .ok n) :
    ((f.params.map Param.key ++
        f.blocks.flatMap fun b => b.key :: b.instructions.map Instruction.key).map n.ident).Nodup ↔
      (start name).passes i (calls ++ [.assignNumbers i]) ≤ 1 := by
  have hcounted := (countedAt_start name i).run hcalls
  have hmem : f ∈ ((start name).run calls).allFunctions :=
    List.mem_append_left _ (List.mem_of_getElem? hf)
  have hkeys := hcounted.owned.keys_nodup hmem
  obtain ⟨hnames, hnumbers⟩ := Function.assignNumbers_eq_ok hkeys hpass
  have hcount := hcounted.function f hf
  rw [Nat.zero_add] at hcount
  rw [← f.keys_eq, passes_append, numbersAt_of_assignNumbers hf hpass,
    Naming.nodup_idents_iff hkeys (fun _ => hnumbers.isAssigned) (hnumbers.nodup_names hnames)]
  exact (hcount.pass hnumbers hkeys).distinct_iff

/-- Numbering once, after everything is in place. -/
theorem nodup_idents_of_one_pass :
    let identities (f : Function) : List Key := f.params.map Param.key ++
      f.blocks.flatMap fun b => b.key :: b.instructions.map Instruction.key
    let lane : Operation Value :=
      .extractElement (.param ⟨0⟩ (.vector 2 .i32)) (.param ⟨1⟩ .i32)
    let calls : List Call := [.function "f" .i32, .param 0 "" (.vector 2 .i32), .param 0 "" .i32,
      .block none, .build 0 lane, .addBlock 0 0]
    let s := (start "m").run calls
    ∃ f n, s.functions[0]? = some f ∧ f.assignNumbers s.naming = .ok n ∧
      (identities f).map n.ident = ["%0", "%1", "%2", "%3"] ∧
      ((identities f).map n.ident).Nodup := by
  intro identities lane calls s
  have hcalls : ∀ call ∈ calls, call.numbersByPass = true := by simp [calls, Call.numbersByPass]
  have hpasses : (start "m").passes 0 (calls ++ [.assignNumbers 0]) ≤ 1 := by decide
  exact ⟨_, _, rfl, rfl, by decide,
    (nodup_idents_iff_passes_le_one "m" hcalls rfl rfl).mpr hpasses⟩

/-- A parameter, a label and a result that join after a pass: the parameter gets the number that the
first one has. -/
theorem not_nodup_idents_of_two_passes :
    let identities (f : Function) : List Key := f.params.map Param.key ++
      f.blocks.flatMap fun b => b.key :: b.instructions.map Instruction.key
    let lane : Operation Value :=
      .extractElement (.param ⟨0⟩ (.vector 2 .i32)) (.param ⟨1⟩ .i32)
    let s := (start "m").run [.function "f" .i32, .param 0 "" (.vector 2 .i32), .assignNumbers 0,
      .param 0 "" .i32, .block none, .build 0 lane, .addBlock 0 0]
    ∃ f n, s.functions[0]? = some f ∧ f.assignNumbers s.naming = .ok n ∧
      (identities f).map n.ident = ["%0", "%0", "%1", "%2"] ∧
      ¬ ((identities f).map n.ident).Nodup :=
  ⟨_, _, rfl, rfl, by decide, by decide⟩

end Session

end Codegen.Ir
