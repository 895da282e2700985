import BreadLang.Codegen.ScopeAgreement
import BreadLang.Runtime.Declarations

/-!
# Global and local variables

`let x: T = v` and `x = v` are lowered in three ways.  At top level the runtime keeps the
variable, and converts what is stored to the type that it has.  In a function the variable is
in a slot, which takes a copy of the value, or the value out of its box.

## Main results

* `declared_alike_iff`: when a variable reads alike in the three places.
-/

namespace BreadLang

open Stateful

/-! ### Places -/

/-- Where a variable is kept. -/
inductive VarPlace where
  /-- By the runtime, under its name. -/
  | runtime
  | boxed (slot : StackSlot)
  | unboxed (type : UnboxedType) (slot : StackSlot)

namespace VarPlace

/-- The place of a variable of a function. -/
def ofVar (var : CgVar) : VarPlace :=
  match var.unboxedType with
  | some type => .unboxed type var.alloca
  | none => .boxed var.alloca

/-- The place of a name. -/
def find (cg : Cg) (fn : Option CgCallee) (name : Ident) : Option VarPlace :=
  match fn with
  | none => some .runtime
  | some _ => (cg.scopeFindVar name).map ofVar

/-- A statement that stores into the slot, with or without a mirror. -/
def StoresSlot (mirror : Option VarMirror) : VarPlace → CodeStmt → Prop
  | .runtime, _ => False
  | .boxed slot, s => ∃ value, s = .storeSlot slot value mirror
  | .unboxed t slot, s => ∃ value, s = .storeUnboxed slot t value mirror

/-- The statement that declares a variable of this name and type. -/
def Declares (name : Ident) (type : VarType) : VarPlace → CodeStmt → Prop
  | .runtime, s => ∃ value, s = .varDecl name type false value
  | p, s => p.StoresSlot (some ⟨name, type, false⟩) s

/-- The statement that assigns to it. -/
def Assigns (name : Ident) : VarPlace → CodeStmt → Prop
  | .runtime, s => ∃ value, s = .varAssign name value
  | p, s => p.StoresSlot none s

/-- The code that reads it. -/
def code (name : Ident) : VarPlace → Code
  | .runtime => .varLoad name
  | .boxed slot => .cloneSlot slot
  | .unboxed t slot => .op (.box t) [.load t slot]

/-- The place that a declaration chooses for a variable of this type. -/
def Fits (fn : Option CgCallee) (type : VarType) : VarPlace → Prop
  | .runtime => fn = none
  | .boxed _ => fn.isSome
  | .unboxed t _ => fn.isSome ∧ varTypeToUnboxed type = some t

end VarPlace

/-! ### What the generator emits -/

/-- `let x: T = init`, and then assignments to `x`. -/
def varStmts (name : Ident) (t : TypeDescriptor) (init : ASTExpr) (values : List ASTExpr) :
    List ASTStmt :=
  .varDecl name t.baseType (some t) init false :: values.map fun value => .varAssign name value none

section Generator

variable {n : ℕ} {cg : Cg} {fn : Option CgCallee} {name : Ident} {type : VarType}
  {p : VarPlace} {code : List CodeStmt}

/-- The code that reads a variable. -/
theorem buildVar_eq (hp : VarPlace.find cg fn name = some p) :
    buildVar cg fn name = p.code name := by
  cases fn with
  | none =>
      cases hp
      rfl
  | some f =>
      obtain ⟨var, hvar, rfl⟩ := Option.map_eq_some_iff.mp hp
      rw [buildVar, Option.bind_some, hvar, VarPlace.ofVar]
      dsimp only
      cases var.unboxedType <;> rfl

/-- A declaration is one statement, and the variable is at its place afterwards. -/
theorem buildVarDecl_place {typeDesc : Option TypeDescriptor} {init : ASTExpr}
    (h : (buildVarDecl (builder n) fn name type typeDesc init false).result cg = .ok code) :
    ∃ p s, code = [s] ∧ p.Fits fn type ∧ p.Declares name type s ∧
      VarPlace.find ((buildVarDecl (builder n) fn name type typeDesc init false).final cg) fn name =
        some p := by
  unfold buildVarDecl at h ⊢
  cases fn with
  | none =>
      obtain ⟨value, -, hcode, -⟩ := bind_ok h
      cases hcode
      exact ⟨.runtime, _, rfl, rfl, ⟨value, rfl⟩, rfl⟩
  | some f =>
      dsimp only at h ⊢
      split at h
      · rename_i t ht
        obtain ⟨value, -, h₁, hfinal⟩ := bind_ok h
        cases h₁
        refine ⟨.unboxed t _, _, rfl, ⟨rfl, ?_⟩, ⟨value, rfl⟩, ?_⟩
        · split at ht
          · exact ht
          · cases ht
        · rw [hfinal]
          show (Option.map _ (List.find? _ (_ :: _))) = _
          rw [List.find?_cons_of_pos (by exact beq_self_eq_true name)]
          rfl
      · obtain ⟨value, -, h₁, hfinal⟩ := bind_ok h
        cases h₁
        refine ⟨.boxed _, _, rfl, rfl, ⟨value, rfl⟩, ?_⟩
        rw [hfinal]
        show (Option.map _ (List.find? _ (_ :: _))) = _
        rw [List.find?_cons_of_pos (by exact beq_self_eq_true name)]
        rfl

/-- An assignment is one statement, and the variable stays at its place. -/
theorem buildVarAssign_place {value : ASTExpr} (hp : VarPlace.find cg fn name = some p)
    (h : (buildVarAssign (builder n) fn name value none).result cg = .ok code) :
    ∃ s, code = [s] ∧ p.Assigns name s ∧
      VarPlace.find ((buildVarAssign (builder n) fn name value none).final cg) fn name = some p := by
  cases fn with
  | none =>
      cases hp
      unfold buildVarAssign at h
      rw [result_get_bind] at h
      obtain ⟨v, -, h₁, -⟩ := bind_ok h
      obtain ⟨⟨⟩, -, h₂, -⟩ := bind_ok h₁
      cases h₂
      exact ⟨_, rfl, ⟨v, rfl⟩, rfl⟩
  | some f =>
      obtain ⟨var, hvar, rfl⟩ := Option.map_eq_some_iff.mp hp
      have hsame : SameScope cg ((buildVarAssign (builder n) (some f) name value none).final cg) :=
        buildVarAssign_sameScope (.inr (Option.isSome_of_eq_some hvar))
      have hfind : VarPlace.find
          ((buildVarAssign (builder n) (some f) name value none).final cg) (some f) name =
            some (.ofVar var) := by
        rw [VarPlace.find, Cg.scopeFindVar, hsame.1]
        exact hp
      have hunboxed : unboxedSlot cg (some f) name =
          var.unboxedType.map fun t => (t, var.alloca) := by
        rw [unboxedSlot, Option.bind_some, hvar]
      unfold buildVarAssign at h
      rw [result_get_bind, hunboxed] at h
      cases htype : var.unboxedType with
      | some t =>
          rw [htype] at h
          obtain ⟨⟨⟩, -, h₁, -⟩ := bind_ok h
          obtain ⟨v, -, h₂, -⟩ := bind_ok h₁
          have hstored : ∃ value, code = [.storeUnboxed var.alloca t value none] := by
            cases v with
            | unboxed t' c =>
                cases h₂
                exact ⟨_, rfl⟩
            | boxed c =>
                cases c with
                | none => cases h₂
                | some c =>
                    cases h₂
                    exact ⟨_, rfl⟩
          obtain ⟨value, rfl⟩ := hstored
          refine ⟨_, rfl, ?_, hfind⟩
          rw [VarPlace.ofVar, htype]
          exact ⟨value, rfl⟩
      | none =>
          rw [htype] at h
          obtain ⟨v, -, h₁, -⟩ := bind_ok h
          have hvalue := sameScope_of_keeps ((builder_keepsScope n cg).expr (some f) value)
          have hlocal : localVar (((builder n).expr (some f) value).final cg) (some f) name =
              some var := by
            show Cg.scopeFindVar _ name = _
            rw [Cg.scopeFindVar, hvalue.1]
            exact hvar
          dsimp only at h₁
          rw [result_get_bind, hlocal] at h₁
          obtain ⟨⟨⟩, -, h₂, -⟩ := bind_ok h₁
          cases h₂
          refine ⟨_, rfl, ?_, hfind⟩
          rw [VarPlace.ofVar, htype]
          exact ⟨v, rfl⟩

/-- **The code of a variable's life**: it is declared at a place, and assigned to there. -/
def VarPlace.Lowers (p : VarPlace) (name : Ident) (type : VarType) : List CodeStmt → Prop
  | [] => False
  | s :: rest => p.Declares name type s ∧ ∀ r ∈ rest, p.Assigns name r

theorem buildStmts_assigns (values : List ASTExpr) :
    ∀ {cg : Cg} {code : List CodeStmt}, VarPlace.find cg fn name = some p →
      (buildStmts (builder (n + 1)) fn
        (values.map fun value => .varAssign name value none)).result cg = .ok code →
      code.length = values.length ∧ (∀ s ∈ code, p.Assigns name s) ∧
        VarPlace.find ((buildStmts (builder (n + 1)) fn
          (values.map fun value => .varAssign name value none)).final cg) fn name = some p := by
  induction values with
  | nil =>
      intro cg code hp h
      cases h
      exact ⟨rfl, fun s hs => absurd hs List.not_mem_nil, hp⟩
  | cons value values ih =>
      intro cg code hp h
      obtain ⟨first, rest, hfirst, hrest, rfl, hfinal⟩ := buildStmts_cons_ok h
      obtain ⟨s, rfl, hassigns, hp'⟩ := buildVarAssign_place hp hfirst
      obtain ⟨hlength, hall, hp''⟩ := ih hp' hrest
      refine ⟨congrArg (· + 1) hlength, List.forall_mem_cons.mpr ⟨hassigns, hall⟩, ?_⟩
      rw [List.map_cons, hfinal]
      exact hp''

/-- What the generator makes of the declaration and the assignments. -/
theorem buildStmts_lowers {t : TypeDescriptor} {init : ASTExpr} {values : List ASTExpr}
    (h : (buildStmts (builder (n + 1)) fn (varStmts name t init values)).result cg = .ok code) :
    ∃ p : VarPlace, p.Fits fn t.baseType ∧ p.Lowers name t.baseType code ∧
      code.length = values.length + 1 ∧
        buildVar ((buildStmts (builder (n + 1)) fn (varStmts name t init values)).final cg) fn name =
          p.code name := by
  obtain ⟨first, rest, hfirst, hrest, rfl, hfinal⟩ := buildStmts_cons_ok h
  obtain ⟨p, s, rfl, hfits, hdeclares, hp⟩ := buildVarDecl_place hfirst
  obtain ⟨hlength, hall, hp'⟩ := buildStmts_assigns values hp hrest
  refine ⟨p, hfits, ⟨hdeclares, hall⟩, congrArg (· + 1) hlength, ?_⟩
  rw [varStmts, hfinal]
  exact buildVar_eq hp'

end Generator

/-! ### What the code does -/

/-- The variables: those of the runtime, and the slots.  A slot out of its box is the value
with the tag of its type. -/
structure VarCells where
  scopes : ScopeStack
  slots : StackSlot → VarValue

/-- `bread_value_get_int`, `bread_value_get_bool` and `bread_value_get_double`. -/
def VarValue.unbox (casts : NumericCasts) : UnboxedType → VarValue → VarValue
  | .int, .int n => .int n
  | .int, _ => .int 0
  | .bool, .bool b => .bool b
  | .bool, _ => .bool false
  | .double, .double d => .double d
  | .double, .int n => .double (casts.intToDouble n)
  | .double, _ => .double ⟨0⟩

namespace VarCells

variable (casts : NumericCasts)

/-- Write a slot, and declare the variable that mirrors it if it is missing. -/
def storeSlot (c : VarCells) (slot : StackSlot) (stored v : VarValue) (mirror : Option VarMirror) :
    Exec VarCells :=
  match mirror with
  | none => .ok { c with slots := Function.update c.slots slot stored }
  | some m => do
      let declared ← breadVarDeclIfMissing casts c.scopes m.name m.type m.isConst (some v)
      return ⟨declared.2, Function.update c.slots slot stored⟩

/-- A statement that stores a value in a variable.  The value is in a register already, or in
its box. -/
def store (c : VarCells) (v : VarValue) : CodeStmt → Exec VarCells
  | .varDecl name type isConst _ => do
      return { c with scopes := (← breadVarDecl casts c.scopes name type isConst (some v)).2 }
  | .varAssign name _ => do
      return { c with scopes := (← breadVarAssign casts c.scopes name v).2 }
  | .storeSlot slot _ mirror => c.storeSlot casts slot v v mirror
  | .storeUnboxed slot _ (.unboxed _ _) mirror => c.storeSlot casts slot v v mirror
  | .storeUnboxed slot type (.boxed _) mirror =>
      c.storeSlot casts slot (v.unbox casts type) v mirror
  | _ => .ok c

/-- The code that reads a variable.  A name that is not found leaves nil. -/
def read (c : VarCells) : Code → VarValue
  | .varLoad name => (breadVarLoad c.scopes name).getD .nil
  | .cloneSlot slot => c.slots slot
  | .op (.box _) [.load _ slot] => c.slots slot
  | _ => .nil

/-- **The reads of a variable**, after each of some statements that store values. -/
def reads (code : Code) : VarCells → List (CodeStmt × VarValue) → Exec (List VarValue)
  | _, [] => .ok []
  | c, (s, v) :: rest => do
      let c ← c.store casts v s
      return c.read code :: (← c.reads code rest)

end VarCells

/-! ### Reads of a variable in a slot -/

section Reads

variable {casts : NumericCasts} {c : VarCells} {name : Ident} {type : VarType} {p : VarPlace}
  {s : CodeStmt} {v : VarValue}

theorem VarValue.unbox_of_type {t : UnboxedType} (h : varTypeToUnboxed v.type = some t) :
    v.unbox casts t = v := by
  cases v <;> cases h <;> rfl

/-- A place in a slot that can hold the value. -/
def VarPlace.Holds (v : VarValue) : VarPlace → Prop
  | .runtime => False
  | .boxed _ => True
  | .unboxed t _ => varTypeToUnboxed v.type = some t

/-- A store into a slot that has no mirror, or one that can be declared. -/
theorem storeSlot_read {slot : StackSlot} {stored : VarValue} {mirror : Option VarMirror}
    (hmirror : ∀ m, mirror = some m → Declarable c.scopes m.name) :
    ∃ c', c.storeSlot casts slot stored v mirror = .ok c' ∧ c'.slots slot = stored := by
  cases mirror with
  | none => exact ⟨_, rfl, Function.update_self ..⟩
  | some m =>
      obtain ⟨scope, rest, hscopes, hfresh, hroom, hlength⟩ := hmirror m rfl
      have hdeclared : ∃ r, breadVarDeclIfMissing casts c.scopes m.name m.type m.isConst (some v) =
          .ok r := by
        rw [breadVarDeclIfMissing]
        cases getVariable c.scopes m.name with
        | some w => exact ⟨_, rfl⟩
        | none =>
            rw [hscopes]
            exact ⟨_, breadVarDecl_eq hfresh hroom hlength⟩
      obtain ⟨r, hr⟩ := hdeclared
      exact ⟨_, bind_eq_ok.mpr ⟨r, hr, rfl⟩, Function.update_self ..⟩

/-- After a store into its slot a variable reads as what was stored. -/
theorem store_slot {mirror : Option VarMirror}
    (hmirror : ∀ m, mirror = some m → Declarable c.scopes m.name) (hholds : p.Holds v)
    (hs : p.StoresSlot mirror s) :
    ∃ c', c.store casts v s = .ok c' ∧ c'.read (p.code name) = v := by
  have hstore {slot : StackSlot} :
      ∃ c', c.storeSlot casts slot v v mirror = .ok c' ∧ c'.slots slot = v :=
    storeSlot_read hmirror
  cases p with
  | runtime => exact hholds.elim
  | boxed slot =>
      obtain ⟨value, rfl⟩ := hs
      exact hstore
  | unboxed t slot =>
      obtain ⟨value, rfl⟩ := hs
      cases value with
      | unboxed t' code => exact hstore
      | boxed code =>
          have hunbox : v.unbox casts t = v := VarValue.unbox_of_type hholds
          show ∃ c', c.storeSlot casts slot (v.unbox casts t) v mirror = .ok c' ∧ _
          rw [hunbox]
          exact hstore

theorem VarPlace.Assigns.storesSlot (hholds : p.Holds v) (hs : p.Assigns name s) :
    p.StoresSlot none s := by
  cases p with
  | runtime => exact hholds.elim
  | _ => exact hs

theorem VarPlace.Declares.storesSlot (hholds : p.Holds v) (hs : p.Declares name type s) :
    p.StoresSlot (some ⟨name, type, false⟩) s := by
  cases p with
  | runtime => exact hholds.elim
  | _ => exact hs

theorem reads_assigns (code : List CodeStmt) :
    ∀ (c : VarCells) (vs : List VarValue), code.length = vs.length →
      (∀ s ∈ code, p.Assigns name s) → (∀ v ∈ vs, p.Holds v) →
        c.reads casts (p.code name) (code.zip vs) = .ok vs := by
  induction code with
  | nil =>
      intro c vs hlength _ _
      rw [List.length_eq_zero_iff.mp hlength.symm]
      rfl
  | cons s code ih =>
      intro c vs hlength hassigns hholds
      obtain ⟨v, vs, rfl⟩ := List.exists_cons_of_length_eq_add_one hlength.symm
      obtain ⟨hs, hcode⟩ := List.forall_mem_cons.mp hassigns
      obtain ⟨hv, hvs⟩ := List.forall_mem_cons.mp hholds
      obtain ⟨c', hstore, hread⟩ :
          ∃ c', c.store casts v s = .ok c' ∧ c'.read (p.code name) = v :=
        store_slot (fun m hm => by cases hm) hv (VarPlace.Assigns.storesSlot hv hs)
      have hrest := ih c' vs (Nat.succ.inj hlength) hcode hvs
      refine bind_eq_ok.mpr ⟨c', hstore, bind_eq_ok.mpr ⟨vs, hrest, ?_⟩⟩
      rw [hread]
      rfl

/-- A variable in a slot reads as what was stored last. -/
theorem reads_slot {code : List CodeStmt} {vs : List VarValue}
    (hcode : p.Lowers name type code) (hlength : code.length = vs.length)
    (hdecl : Declarable c.scopes name) (hholds : ∀ v ∈ vs, p.Holds v) :
    c.reads casts (p.code name) (code.zip vs) = .ok vs := by
  cases code with
  | nil => exact hcode.elim
  | cons s code =>
      obtain ⟨v, vs, rfl⟩ := List.exists_cons_of_length_eq_add_one hlength.symm
      obtain ⟨hs, hrest⟩ := hcode
      obtain ⟨hv, hvs⟩ := List.forall_mem_cons.mp hholds
      have hmirror : ∀ m, some (⟨name, type, false⟩ : VarMirror) = some m →
          Declarable c.scopes m.name := by
        rintro m ⟨⟩
        exact hdecl
      obtain ⟨c', hstore, hread⟩ :
          ∃ c', c.store casts v s = .ok c' ∧ c'.read (p.code name) = v :=
        store_slot hmirror hv (VarPlace.Declares.storesSlot hv hs)
      have hreads : c'.reads casts (p.code name) (code.zip vs) = .ok vs :=
        reads_assigns code c' vs (Nat.succ.inj hlength) hrest hvs
      refine bind_eq_ok.mpr ⟨c', hstore, bind_eq_ok.mpr ⟨vs, hreads, ?_⟩⟩
      rw [hread]
      rfl

/-! ### Reads of a variable of the runtime -/

/-- The values of a variable while some values are assigned to it. -/
def assignedValues (casts : NumericCasts) : VarValue → List VarValue → List VarValue
  | _, [] => []
  | target, v :: vs =>
      assignedValue casts target v :: assignedValues casts (assignedValue casts target v) vs

/-- Every value is stored as it is exactly when each one is taken by a variable that has the
one before. -/
theorem assignedValues_eq_iff (vs : List VarValue) :
    ∀ target, assignedValues casts target vs = vs ↔
      (target :: vs).IsChain VarValue.Accepts := by
  induction vs with
  | nil => exact fun target => iff_of_true rfl (.singleton target)
  | cons v vs ih =>
      intro target
      rw [assignedValues, List.cons_eq_cons, List.isChain_cons_cons, ← ih v]
      constructor
      · rintro ⟨hvalue, hrest⟩
        rw [hvalue] at hrest
        exact ⟨assignedValue_eq_iff.mp hvalue, hrest⟩
      · rintro ⟨haccepts, hrest⟩
        have hvalue : assignedValue casts target v = v := assignedValue_eq_iff.mpr haccepts
        exact ⟨hvalue, by rw [hvalue, hrest]⟩

theorem getVariable_assignFound {scopes : ScopeStack} {w : Variable}
    (hw : getVariable scopes name = some w) :
    getVariable (assignFound casts scopes w v).2 name =
      some { w with value := assignedValue casts w.value v } := by
  have hname := isVariableName_of_getVariable hw
  rw [getVariable_eq hname] at hw ⊢
  rw [view_assignFound (by rw [getVariable_eq hname, hw]), View.visible_set, hw]
  rfl

theorem reads_runtime_assigns (code : List CodeStmt) :
    ∀ (c : VarCells) (w : Variable) (vs : List VarValue), code.length = vs.length →
      (∀ s ∈ code, VarPlace.runtime.Assigns name s) → getVariable c.scopes name = some w →
        w.isConst = false →
          c.reads casts (.varLoad name) (code.zip vs) = .ok (assignedValues casts w.value vs) := by
  induction code with
  | nil =>
      intro c w vs hlength _ _ _
      rw [List.length_eq_zero_iff.mp hlength.symm]
      rfl
  | cons s code ih =>
      intro c w vs hlength hassigns hw hconst
      obtain ⟨v, vs, rfl⟩ := List.exists_cons_of_length_eq_add_one hlength.symm
      obtain ⟨⟨value, rfl⟩, hcode⟩ := List.forall_mem_cons.mp hassigns
      have hassign : breadVarAssign casts c.scopes name v = .ok (assignFound casts c.scopes w v) :=
        breadVarAssign_of_getVariable hw hconst
      have hw' : getVariable (assignFound casts c.scopes w v).2 name =
          some { w with value := assignedValue casts w.value v } := getVariable_assignFound hw
      have hrest := ih ⟨(assignFound casts c.scopes w v).2, c.slots⟩ _ vs
        (Nat.succ.inj hlength) hcode hw' hconst
      refine bind_eq_ok.mpr ⟨_, bind_eq_ok.mpr ⟨_, hassign, rfl⟩,
        bind_eq_ok.mpr ⟨_, hrest, ?_⟩⟩
      show Except.ok ((breadVarLoad _ name).getD .nil :: _) = _
      rw [breadVarLoad, hw']
      rfl

/-- A declaration leaves a variable with the value, converted to the type. -/
theorem breadVarDecl_found {scopes : ScopeStack} (hdecl : Declarable scopes name)
    (hname : name ≠ []) :
    ∃ r, breadVarDecl casts scopes name type false (some v) = .ok r ∧
      getVariable r.2 name = some ⟨name, assignedValue casts type.zero v, false⟩ := by
  obtain ⟨scope, rest, rfl, hfresh, hroom, hlong⟩ := hdecl
  have hvalid : isVariableName name = true := by
    have hpos : name.length ≠ 0 := fun h => hname (List.length_eq_zero_iff.mp h)
    simp [isVariableName, hpos, hlong]
  exact ⟨_, (breadVarDecl_eq hfresh hroom hlong).trans (congrArg _ (if_neg hname)),
    getVariable_assignFound (getVariable_declare hfresh hvalid)⟩

/-- A variable of the runtime reads as the last value that it took, converted to its type. -/
theorem reads_runtime {code : List CodeStmt} {vs : List VarValue}
    (hcode : VarPlace.runtime.Lowers name type code) (hlength : code.length = vs.length)
    (hdecl : Declarable c.scopes name) (hname : name ≠ []) :
    c.reads casts (.varLoad name) (code.zip vs) =
      .ok (assignedValues casts type.zero vs) := by
  cases code with
  | nil => exact hcode.elim
  | cons s code =>
      obtain ⟨v, vs, rfl⟩ := List.exists_cons_of_length_eq_add_one hlength.symm
      obtain ⟨⟨value, rfl⟩, hassigns⟩ := hcode
      obtain ⟨r, hdeclare, hw⟩ : ∃ r, breadVarDecl casts c.scopes name type false (some v) =
          .ok r ∧ getVariable r.2 name = some ⟨name, assignedValue casts type.zero v, false⟩ :=
        breadVarDecl_found hdecl hname
      have hrest : VarCells.reads casts (.varLoad name) { c with scopes := r.2 } (code.zip vs) =
          .ok (assignedValues casts (assignedValue casts type.zero v) vs) :=
        reads_runtime_assigns code ⟨r.2, c.slots⟩ ⟨name, assignedValue casts type.zero v, false⟩ vs
          (Nat.succ.inj hlength) hassigns hw rfl
      refine bind_eq_ok.mpr ⟨_, bind_eq_ok.mpr ⟨_, hdeclare, rfl⟩,
        bind_eq_ok.mpr ⟨_, hrest, ?_⟩⟩
      show Except.ok ((breadVarLoad _ name).getD .nil :: _) = _
      rw [breadVarLoad, hw]
      rfl

end Reads

/-! ### The three places -/

/-- A value of a type that may be stored in a variable of this type. -/
def Assignable (t : TypeDescriptor) (v : VarValue) : Prop :=
  ∃ d : TypeDescriptor, d.compatible t = true ∧ v.type = d.baseType

section Places

variable {casts : NumericCasts} {t : TypeDescriptor} {v : VarValue} {p : VarPlace}
  {cg cg' : Cg} {f : CgCallee} {name : Ident} {init : ASTExpr} {values : List ASTExpr}
  {code code' : List CodeStmt} {c c' : VarCells} {vs : List VarValue} {n : ℕ}

/-- The types that are kept out of their box are compatible with themselves only. -/
theorem Assignable.unboxed {u : UnboxedType} (hv : Assignable t v)
    (ht : varTypeToUnboxed t.baseType = some u) : varTypeToUnboxed v.type = some u := by
  obtain ⟨d, hcompatible, htype⟩ := hv
  have hbase : d.baseType = t.baseType := by
    cases t <;> cases ht <;> cases d <;>
      simp [TypeDescriptor.compatible, TypeDescriptor.equals, TypeDescriptor.baseType]
        at hcompatible ⊢
  rw [htype, hbase, ht]

theorem Assignable.holds (hv : Assignable t v) (hp : p.Fits (some f) t.baseType) : p.Holds v := by
  cases p with
  | runtime => cases hp
  | boxed slot => trivial
  | unboxed u slot => exact hv.unboxed hp.2

/-- **Global and local variables read alike** exactly when every value is one that a variable
with the value before takes as it is, beginning with the zero of the type. -/
theorem declared_alike_iff
    (hglobal : (buildStmts (builder (n + 1)) none (varStmts name t init values)).result cg =
      .ok code)
    (hlocal : (buildStmts (builder (n + 1)) (some f) (varStmts name t init values)).result cg' =
      .ok code')
    (hdecl : Declarable c.scopes name) (hdecl' : Declarable c'.scopes name) (hname : name ≠ [])
    (hlength : vs.length = values.length + 1) (hvs : ∀ v ∈ vs, Assignable t v) :
    c.reads casts (buildVar ((buildStmts (builder (n + 1)) none
        (varStmts name t init values)).final cg) none name) (code.zip vs) =
      c'.reads casts (buildVar ((buildStmts (builder (n + 1)) (some f)
        (varStmts name t init values)).final cg') (some f) name) (code'.zip vs) ↔
      (t.baseType.zero :: vs).IsChain VarValue.Accepts := by
  obtain ⟨p, hfits, hlowers, hcode, hread⟩ := buildStmts_lowers hglobal
  obtain ⟨p', hfits', hlowers', hcode', hread'⟩ := buildStmts_lowers hlocal
  obtain rfl : p = .runtime := by
    cases p with
    | runtime => rfl
    | boxed slot => cases hfits
    | unboxed u slot => cases hfits.1
  have hruntime : c.reads casts (.varLoad name) (code.zip vs) =
      .ok (assignedValues casts t.baseType.zero vs) :=
    reads_runtime hlowers (hcode.trans hlength.symm) hdecl hname
  have hslot : c'.reads casts (p'.code name) (code'.zip vs) = .ok vs :=
    reads_slot hlowers' (hcode'.trans hlength.symm) hdecl' fun v hv => (hvs v hv).holds hfits'
  rw [hread, hread']
  show c.reads casts (.varLoad name) _ = _ ↔ _
  rw [hruntime, hslot, Except.ok.injEq]
  exact assignedValues_eq_iff vs t.baseType.zero

/-- The variables where nothing is declared. -/
def noCells : VarCells where
  scopes := [[]]
  slots _ := .nil

theorem declarable_noCells : Declarable noCells.scopes ['x'] :=
  ⟨[], [], rfl, rfl, by decide, by decide⟩

/-- `let x: Int = 1` and `x = 2`. -/
theorem declared_alike_ints :
    noCells.reads zeroCasts (buildVar ((buildStmts (builder 3) none
        (varStmts ['x'] .int (.int 1) [.int 2])).final .init) none ['x'])
        ([.varDecl ['x'] .typeInt false (.op (.box .int) [.op (.constInt 1) []]),
          .varAssign ['x'] (.op (.box .int) [.op (.constInt 2) []])].zip [.int 1, .int 2]) =
      noCells.reads zeroCasts (buildVar ((buildStmts (builder 3) (some ⟨[], false, none⟩)
        (varStmts ['x'] .int (.int 1) [.int 2])).final .init) (some ⟨[], false, none⟩) ['x'])
        ([.storeUnboxed (.alloca 0) .int (.unboxed .int (.op (.constInt 1) []))
            (some ⟨['x'], .typeInt, false⟩),
          .storeUnboxed (.alloca 0) .int (.unboxed .int (.op (.constInt 2) [])) none].zip
            [.int 1, .int 2]) ↔
      [VarType.typeInt.zero, .int 1, .int 2].IsChain VarValue.Accepts :=
  declared_alike_iff (t := .int) (n := 2) rfl rfl declarable_noCells declarable_noCells
    (List.cons_ne_nil _ _) rfl fun v hv => ⟨.int, rfl, by
      rcases List.mem_pair.mp hv with rfl | rfl <;> rfl⟩

/-- After `let x: Int? = 1` a variable of the runtime holds an optional, and one in a slot the
integer. -/
theorem declared_optional_differs :
    Assignable (.optional .int) (.int 1) ∧
      (buildStmts (builder 3) none (varStmts ['x'] (.optional .int) (.int 1) [])).result .init =
        .ok [.varDecl ['x'] .typeOptional false (.op (.box .int) [.op (.constInt 1) []])] ∧
      (buildStmts (builder 3) (some ⟨[], false, none⟩)
          (varStmts ['x'] (.optional .int) (.int 1) [])).result .init =
        .ok [.storeSlot (.alloca 0) (.op (.box .int) [.op (.constInt 1) []])
          (some ⟨['x'], .typeOptional, false⟩)] ∧
      noCells.reads zeroCasts (.varLoad ['x'])
          [(.varDecl ['x'] .typeOptional false (.op (.box .int) [.op (.constInt 1) []]), .int 1)] =
        .ok [.optionalSome (.int 1)] ∧
      noCells.reads zeroCasts (.cloneSlot (.alloca 0))
          [(.storeSlot (.alloca 0) (.op (.box .int) [.op (.constInt 1) []])
            (some ⟨['x'], .typeOptional, false⟩), .int 1)] =
        .ok [.int 1] :=
  ⟨⟨.int, rfl, rfl⟩, rfl, rfl, rfl, rfl⟩

end Places

end BreadLang
