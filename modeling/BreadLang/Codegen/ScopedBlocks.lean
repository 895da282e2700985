import BreadLang.Codegen.ScopeStatements

/-!
# The scopes of compiled bodies

Every statement leaves the scopes as it finds them, but for the names that it declares
(`scoped_stmt`), whatever is in its blocks.  So the contexts of a body are facts about its
places (`emitBody_tracked`): on every way to a place that control comes to, the same scopes
are open, and no name has been declared in them that its context does not have.

The scopes of blocks are pushed in `main` only, and only a function returns
(`CodeStmt.Scoped`).
-/

namespace BreadLang

open BasicBlocks BasicBlocks.Builder Stateful

/-! ### Code of one function -/

mutual

/-- **The blocks of a statement have scopes** exactly in `main`, where nothing returns. -/
def CodeStmt.Scoped (inMain : Bool) : CodeStmt → Prop
  | .ifThenElse _ hasScope thenCode none => hasScope = inMain ∧ CodeScoped inMain thenCode
  | .ifThenElse _ hasScope thenCode (some elseCode) =>
      hasScope = inMain ∧ CodeScoped inMain thenCode ∧ CodeScoped inMain elseCode
  | .whileLoop _ hasScope body => hasScope = inMain ∧ CodeScoped inMain body
  | .forRange _ _ _ _ hasScope body => hasScope = inMain ∧ CodeScoped inMain body
  | .forIn _ _ _ hasScope body => hasScope = inMain ∧ CodeScoped inMain body
  | .ret _ => inMain = false
  | _ => True

def CodeScoped (inMain : Bool) : List CodeStmt → Prop
  | [] => True
  | s :: rest => s.Scoped inMain ∧ CodeScoped inMain rest

end

theorem codeScoped_append {inMain : Bool} {code code' : List CodeStmt} :
    CodeScoped inMain (code ++ code') ↔ CodeScoped inMain code ∧ CodeScoped inMain code' := by
  induction code with
  | nil => simp [CodeScoped]
  | cons s code ih => rw [List.cons_append, CodeScoped, CodeScoped, ih, and_assoc]

theorem emitStmts_append (code code' : List CodeStmt) :
    ∀ e : Emission, emitStmts (code ++ code') e = emitStmts code' (emitStmts code e) := by
  induction code with
  | nil => exact fun e => rfl
  | cons s code ih => exact fun e => ih (e.record s (emitStmt s e))

/-! ### Statements -/

/-- The instructions on values and slots. -/
def Instr.isPlain : Instr → Bool
  | .value _ | .cgValue _ | .storeSlot _ | .copyParam _ | .print | .indexGet | .indexSet
  | .memberGet _ | .memberSet _ | .binaryOp _ | .varAssign _ | .copyReturn | .setReturnNil => true
  | _ => false

namespace Emission

/-- A function emits code that declares some names, wherever a statement can be built. -/
def EmitsScoped (inMain : Bool) (names : List Ident) (f : Emission → Emission) : Prop :=
  ∀ e : Emission, e.Ready inMain → Emitted inMain names e (f e)

section Statements

variable {inMain : Bool} {e e' e₀ e₁ : Emission} {pending : List ℕ} {γ : Option Context}
  {names names' : List Ident}

theorem neutral_value (code : Code) : (Instr.value code).IsNeutral :=
  ⟨fun _ _ => rfl, fun _ _ _ h => h⟩

theorem neutral_cgValue (value : CgValue) : (Instr.cgValue value).IsNeutral :=
  ⟨fun _ _ => rfl, fun _ _ _ h => h⟩

theorem neutral_loop (i : LoopInstr) : (Instr.loop i).IsNeutral :=
  ⟨fun _ _ => rfl, fun _ _ _ _ => trivial⟩

theorem neutral_varAssign (name : Ident) : (Instr.varAssign name).IsNeutral :=
  ⟨fun _ _ => rfl, fun _ _ _ _ => trivial⟩

theorem neutral_of_isPlain : ∀ {i : Instr}, i.isPlain = true → i.IsNeutral := by
  intro i h
  cases i with
  | value code => exact neutral_value code
  | cgValue value => exact neutral_cgValue value
  | _ => first
    | exact ⟨fun _ _ => rfl, fun _ _ _ _ => trivial⟩
    | cases h

/-- The context of a place in a statement that has declared names. -/
theorem Ready.usable_declareAll (he : e.Ready inMain) (names : List Ident) :
    ∀ δ, (e.context.map fun γ => γ.declareAll names) = some δ → δ.Usable inMain e.size := by
  intro δ hδ
  obtain ⟨γ, hγ, rfl⟩ := Option.map_eq_some_iff.mp hδ
  have husable := he.usable γ hγ
  refine ⟨?_, ?_, ?_, ?_⟩
  · rw [Context.depth_declareAll]
    exact husable.deep
  · rw [Context.depths_declareAll]
    exact husable.known
  · rw [Context.depths_declareAll]
    exact husable.slot
  · intro hfn
    rw [Context.declareAll_of_unfollowed (husable.unfollowed hfn)]
    exact husable.unfollowed hfn

/-- A statement is complete where the names have been declared. -/
theorem Laid.emittedNames (h : Laid inMain e₀ e₁ pending γ e) (he : e₀.Ready inMain)
    (hloop : SameLoop e₀ e) (hγ : γ = e₀.context.map fun γ => γ.declareAll names) :
    Emitted inMain names e₀ e := by
  subst hγ
  refine h.emitted hloop (fun δ hδ => (he.usable_declareAll names δ hδ).mono h.grows₀.blocks.1) ?_
  intro δ hδ
  obtain ⟨γ, hγ, rfl⟩ := Option.map_eq_some_iff.mp hδ
  refine ⟨γ, hγ, rfl, fun source _ => ?_⟩
  rw [Context.depths_declareAll]

theorem Ready.deep (he : e.Ready inMain) : ∀ δ, e.context = some δ → 1 ≤ δ.depth :=
  fun δ hδ => (he.usable δ hδ).deep

theorem Ready.deep_declare (he : e.Ready inMain) {name : Ident} :
    ∀ δ, e.context.map (·.declare name) = some δ → 1 ≤ δ.depth :=
  fun δ hδ => (he.usable_declareAll [name] δ hδ).deep

theorem Ready.usable_declare (he : e.Ready inMain) (name : Ident) :
    ∀ δ, e.context.map (·.declare name) = some δ → δ.Usable inMain e.size :=
  he.usable_declareAll [name]

theorem map_declareAll_nil : (γ.map fun δ => δ.declareAll []) = γ :=
  congrFun Option.map_id γ

/-- What declares no name. -/
theorem Laid.emittedNil (h : Laid inMain e₀ e₁ pending γ e) (he : e₀.Ready inMain)
    (hloop : SameLoop e₀ e) (hγ : γ = e₀.context) : Emitted inMain [] e₀ e :=
  h.emittedNames he hloop (hγ.trans map_declareAll_nil.symm)

/-- A name is declared in the innermost scope. -/
theorem Laid.declare (h : Laid inMain e₀ e₁ pending γ e) (hdeep : ∀ δ, γ = some δ → 1 ≤ δ.depth)
    {i : Instr} {name : Ident} (hi : ∀ block δ, i.context block δ = some (δ.declare name))
    (hsuits : ∀ contexts δ, 1 ≤ δ.depth → Suits inMain contexts (.instr i) δ) :
    Laid inMain e₀ e₁ pending (γ.map (·.declare name)) (e.instr i) := by
  have hlaid := h.instr i fun δ hδ => hsuits e₁.contexts δ (hdeep δ hδ)
  have hcontext : (γ.bind fun δ => i.context e.current δ) = γ.map (·.declare name) := by
    cases γ with
    | none => rfl
    | some δ => exact hi _ δ
  rwa [hcontext] at hlaid

theorem Laid.varDeclIfMissing (h : Laid inMain e₀ e₁ pending γ e)
    (hdeep : ∀ δ, γ = some δ → 1 ≤ δ.depth) (mirror : VarMirror) :
    Laid inMain e₀ e₁ pending (γ.map (·.declare mirror.name))
      (e.instr (.varDeclIfMissing mirror)) :=
  h.declare hdeep (fun _ _ => rfl) fun _ _ hδ => hδ

theorem neutral_of_all {instrs : List Instr} (h : instrs.all Instr.isPlain = true) :
    ∀ i ∈ instrs, i.IsNeutral :=
  fun i hi => neutral_of_isPlain (List.all_eq_true.mp h i hi)

/-- Instructions that do not matter to the scopes. -/
theorem emitsScoped_plain (instrs : List Instr) (h : instrs.all Instr.isPlain = true)
    (he : e.Ready inMain) : Emitted inMain [] e (e.instrs instrs) :=
  ((laid_start he).neutrals (neutral_of_all h) he.deep).emittedNil he (sameLoop_instrs instrs e) rfl

/-- A store into a slot, with its mirror. -/
theorem emitsScoped_store (instrs : List Instr) (h : instrs.all Instr.isPlain = true)
    (mirror : VarMirror) (he : e.Ready inMain) :
    Emitted inMain [mirror.name] e (e.instrs (instrs ++ mirrorInstrs (some mirror))) := by
  have hstored := ((laid_start he).neutrals (neutral_of_all h) he.deep).varDeclIfMissing he.deep
    mirror
  have hcode : e.instrs (instrs ++ mirrorInstrs (some mirror)) =
      (e.instrs instrs).instr (.varDeclIfMissing mirror) := by
    rw [Emission.instrs, List.foldl_append]
    rfl
  have hloop := (sameLoop_instrs instrs e).trans
    (sameLoop_instrs [.varDeclIfMissing mirror] (e.instrs instrs))
  rw [hcode]
  exact hstored.emittedNames he hloop rfl

theorem emitsScoped_varDecl {name : Ident} {type : VarType} {isConst : Bool} {value : Code} :
    EmitsScoped inMain [name] (Emission.varDecl name type isConst value) := by
  intro e he
  have hvalue := (laid_start he).neutral (neutral_value value) he.deep
  have hcontext := hvalue.context
  have hblocks := hvalue.self.addBlocks 3 (e.instr (.value value)).context
  have hloop := hvalue.known_addBlocks (n := 3) (δ := (e.instr (.value value)).context) le_rfl
    (by omega)
  have hbody := hvalue.known_addBlocks (i := (e.instr (.value value)).size + 1) (n := 3)
    (δ := (e.instr (.value value)).context) (by omega) (by omega)
  have hend := hvalue.known_addBlocks (i := (e.instr (.value value)).size + 2) (n := 3)
    (δ := (e.instr (.value value)).context) (by omega) (by omega)
  have hdeep := hcontext.symm ▸ he.deep
  have htest := (((hblocks.neutral (neutral_loop .initName) hdeep).br hloop).moveTo hloop).neutral
    (neutral_loop .testName) hdeep
  have hcopy := ((htest.condBr hend hbody (.refl _) (.refl _)).moveTo hbody).neutral
    (neutral_loop .copyByte) hdeep
  have hdeclared := ((hcopy.br hloop).moveTo hend).declare (i := .varDecl name type isConst) hdeep
    (fun _ _ => rfl) fun _ _ hδ => hδ
  have hsame : SameLoop e (e.varDecl name type isConst value) := by simp [Emission.varDecl]
  exact hdeclared.emittedNames he hsame (congrArg _ hcontext)

theorem emitsScoped_ifThenElse {condition : Code} {thenCode : Emission → Emission}
    {elseCode : Option (Emission → Emission)} (hthen : EmitsScoped inMain names thenCode)
    (helse : ∀ f, elseCode = some f → ∃ names', EmitsScoped inMain names' f) :
    EmitsScoped inMain [] (Emission.ifThenElse condition inMain thenCode elseCode) := by
  intro e he
  have hvalue := (laid_start he).neutral (neutral_value condition) he.deep
  have hcontext := hvalue.context
  have hsize : (e.instr (.value condition)).size = e.size := size_append _ _
  have hblocks := hvalue.self.addBlocks 3 (e.instr (.value condition)).context
  have hthenBlock := hvalue.known_addBlocks (n := 3) (δ := (e.instr (.value condition)).context)
    le_rfl (by omega)
  have helseBlock := hvalue.known_addBlocks (i := (e.instr (.value condition)).size + 1) (n := 3)
    (δ := (e.instr (.value condition)).context) (by omega) (by omega)
  have hend := hvalue.known_addBlocks (i := (e.instr (.value condition)).size + 2) (n := 3)
    (δ := (e.instr (.value condition)).context) (by omega) (by omega)
  have hbranch := hblocks.condBr hthenBlock helseBlock (.refl _) (.refl _)
  have hentered := hbranch.moveTo hthenBlock
  have hnew : e.size ≤ (Emission.positionAt _ (e.instr (.value condition)).size).current :=
    (hbranch.current_positionAt.trans hsize).ge
  obtain ⟨γ', hthenLaid, hback, hsame⟩ := hentered.scopedBranch hcontext he (by simp) hnew hthen
  have hleft := hthenLaid.branchIfOpen hback hend
  have hother := hleft.moveTo helseBlock
  cases elseCode with
  | none =>
      have hdone := (hother.branchIfOpen (.refl _) hend).moveTo hend
      exact hdone.emittedNil he (by simpa using hsame) hcontext
  | some elseCode =>
      have hnew' : e.size ≤
          (Emission.positionAt _ ((e.instr (.value condition)).size + 1)).current :=
        hleft.current_positionAt.ge.trans' (by omega)
      obtain ⟨names', hcode⟩ := helse elseCode rfl
      obtain ⟨γ'', helseLaid, hback', hsame'⟩ := hother.scopedBranch hcontext he
        (by simpa using hsame) hnew' hcode
      have hdone := (helseLaid.branchIfOpen hback' hend).moveTo hend
      exact hdone.emittedNil he (by simpa using hsame') hcontext

/-- A turn of a loop, to whose blocks `break` and `continue` go. -/
theorem Laid.turn (h : Laid inMain e₀ e₁ pending γ e) (outer : Emission)
    {breakBlock continueBlock : ℕ}
    (hsame : SameLoop (outer.setupLoopState breakBlock continueBlock) e)
    (hnew : e₀.size ≤ e.current) (hγ : ∀ δ, γ = some δ → δ.Usable inMain e₀.size)
    (hbase : inMain = false → outer.loopBase = none) (hbreak : Known e₁ breakBlock γ)
    (hcontinue : Known e₁ continueBlock γ) {enter : List Instr} (henter : ∀ i ∈ enter, i.IsNeutral)
    {body : Emission → Emission} (hbody : EmitsScoped inMain names body) {next : ℕ}
    (hnext : Known e₁ next γ) :
    Laid inMain e₀ e₁ pending none (e.loopBody inMain enter body next) := by
  refine h.loopBody hnew hγ (fun hfn => hsame.loopBase.trans (hbase hfn)) ?_ ?_ henter hbody hnext
  · rw [hsame.loopTargets_eq]
    exact List.cons_ne_nil _ _
  intro t ht
  rw [hsame.loopTargets_eq] at ht
  rcases List.mem_cons.mp ht with rfl | ht
  · exact hbreak
  · obtain rfl := List.mem_singleton.mp ht
    exact hcontinue

theorem emitsScoped_whileLoop {condition : Code} {body : Emission → Emission}
    (hbody : EmitsScoped inMain names body) (he : e.Ready inMain) :
    Emitted inMain [] e (e.whileLoop condition inMain body) ∧
      Known (e.whileLoop condition inMain body) e.size e.context := by
  have hblocks := (laid_start he).addBlocks 3 e.context
  have hcond := (laid_start he).known_addBlocks (n := 3) (δ := e.context) le_rfl (by omega)
  have hstart := (laid_start he).known_addBlocks (i := e.size + 1) (n := 3) (δ := e.context)
    (by omega) (by omega)
  have hend := (laid_start he).known_addBlocks (i := e.size + 2) (n := 3) (δ := e.context)
    (by omega) (by omega)
  have htest := (((hblocks.setupLoopState (e.size + 2) e.size).br hcond).moveTo hcond).neutral (neutral_value condition) he.deep
  have hbranch := htest.condBr hstart hend (.refl _) (.refl _)
  have hnew : e.size ≤ (Emission.positionAt _ (e.size + 1)).current :=
    hbranch.current_positionAt.ge.trans' (by omega)
  have hturn := (hbranch.moveTo hstart).turn (e.addBlocks 3 e.context) (by simp) hnew he.usable
    he.base hend hcond (List.forall_mem_nil _) hbody hcond
  have hdone := (hturn.restoreLoopState e).moveTo hend
  exact ⟨hdone.emittedNil he (by simp) rfl, hcond.grows hdone.grows⟩

theorem emitsScoped_forRange {name : Ident} {start stop step : ℤ} {body : Emission → Emission}
    (hbody : EmitsScoped inMain names body) (he : e.Ready inMain) :
    Emitted inMain [name] e (e.forRange name start stop step inMain body) ∧
      Known (e.forRange name start stop step inMain body) e.size
        (e.context.map (·.declare name)) := by
  have hblocks := (laid_start he).addBlocks 4 (e.context.map (·.declare name))
  have hcond := (laid_start he).known_addBlocks (n := 4) (δ := e.context.map (·.declare name))
    le_rfl (by omega)
  have hstart := (laid_start he).known_addBlocks (i := e.size + 1) (n := 4)
    (δ := e.context.map (·.declare name)) (by omega) (by omega)
  have hcontinue := (laid_start he).known_addBlocks (i := e.size + 2) (n := 4)
    (δ := e.context.map (·.declare name)) (by omega) (by omega)
  have hend := (laid_start he).known_addBlocks (i := e.size + 3) (n := 4)
    (δ := e.context.map (·.declare name)) (by omega) (by omega)
  have hdeclared := ((hblocks.setupLoopState (e.size + 3) (e.size + 2)).neutral
    (neutral_loop (.initRange start)) he.deep).varDeclIfMissing he.deep ⟨name, .typeInt, false⟩
  have htest := ((hdeclared.br hcond).moveTo hcond).neutral (neutral_loop (.testRange stop step))
    he.deep_declare
  have hbranch := htest.condBr hstart hend (.refl _) (.refl _)
  have hnew : e.size ≤ (Emission.positionAt _ (e.size + 1)).current :=
    hbranch.current_positionAt.ge.trans' (by omega)
  have hturn := (hbranch.moveTo hstart).turn (e.addBlocks 4 (e.context.map (·.declare name)))
    (by simp) hnew (he.usable_declare name) he.base hend hcontinue
    (List.forall_mem_singleton.mpr (neutral_varAssign name)) hbody hcontinue
  have hstep := ((hturn.moveTo hcontinue).neutral (neutral_loop (.stepRange step))
    he.deep_declare).br hcond
  have hdone := (hstep.restoreLoopState e).moveTo hend
  exact ⟨hdone.emittedNames he (by simp) rfl, hcond.grows hdone.grows⟩

/-- The test of the keys leaves the loop before its variable is declared. -/
theorem Laid.checkKeys (h : Laid inMain e₀ e₁ pending γ e)
    (hdeep : ∀ δ, γ = some δ → 1 ≤ δ.depth) {leave : ℕ} {γ' : Option Context}
    (hleave : Known e₁ leave γ') (hfits : FitsBack γ' γ) :
    Laid inMain e₀ e₁ pending γ (e.checkKeys leave) := by
  have hblocks := h.self.addBlocks 2 e.context
  have hsuccess := h.known_addBlocks (n := 2) (δ := e.context) le_rfl (by omega)
  have hfail := h.known_addBlocks (i := e.size + 1) (n := 2) (δ := e.context) (by omega) (by omega)
  have htest := ((hblocks.neutral (neutral_loop .testKeys) (h.context.symm ▸ hdeep)).condBr
    hsuccess hfail (.refl _) (.refl _)).perm (List.Perm.swap _ _ pending)
  have hgrows := h.grows.trans (grows_addBlocks e 2 e.context)
  have hfailed := (htest.moveTo hfail).branchBack (h.context ▸ hfits) (hleave.grows hgrows)
  have hdone := (hfailed.moveTo hsuccess).weaken hgrows
  exact hdone.congr h.context

/-- A test leaves the loop. -/
theorem Laid.testOrLeave (h : Laid inMain e₀ e₁ pending γ e)
    (hdeep : ∀ δ, γ = some δ → 1 ≤ δ.depth) (test : LoopInstr) {leave : ℕ}
    {γ' : Option Context} (hleave : Known e₁ leave γ') (hfits : FitsBack γ' γ)
    {δ : Option Context} (hδ : δ = γ) :
    Laid inMain e₀ e₁ pending γ (e.testOrLeave test δ leave) := by
  have htested := h.neutral (neutral_loop test) hdeep
  have hsize : (e.instr (.loop test)).size = e.size := size_append _ _
  have hblocks : Laid inMain e₀ _ (e.size :: pending) γ _ :=
    hsize ▸ htested.addBlocks 1 δ
  have hnext := htested.known_addBlocks (i := e.size) (n := 1) (δ := δ) hsize.le (by omega)
  have hgrows := htested.grows.trans (grows_addBlocks (e.instr (.loop test)) 1 δ)
  have hbranch := hblocks.condBr hnext (hleave.grows hgrows) (hδ ▸ .refl _) hfits
  exact ((hbranch.moveTo hnext).weaken hgrows).congr hδ

theorem Laid.keysIfDict (h : Laid inMain e₀ e₁ pending γ e) (isDict : Bool)
    (hdeep : ∀ δ, γ = some δ → 1 ≤ δ.depth) {leave : ℕ} {γ' : Option Context}
    (hleave : Known e₁ leave γ') (hfits : FitsBack γ' γ) :
    Laid inMain e₀ e₁ pending γ (if isDict then e.checkKeys leave else e) := by
  split
  · exact h.checkKeys hdeep hleave hfits
  · exact h

theorem current_testOrLeave (e : Emission) (test : LoopInstr) (γ : Option Context) (leave : ℕ) :
    (e.testOrLeave test γ leave).current = e.size := by
  refine BasicBlocks.Builder.current_positionAt ?_
  show e.size < (((e.toBuilder.append (.instr (.loop test))).addBlocks 1).append _).size
  rw [size_append, size_addBlocks, size_append]
  exact Nat.lt_succ_self _

@[simp] theorem sameLoop_checkKeys {leave : ℕ} :
    SameLoop e (e'.checkKeys leave) ↔ SameLoop e e' := by
  simp [Emission.checkKeys]

@[simp] theorem sameLoop_ite {c : Prop} [Decidable c] {e'' : Emission} :
    SameLoop e (if c then e' else e'') ↔ if c then SameLoop e e' else SameLoop e e'' := by
  split <;> rfl

@[simp] theorem sameLoop_testOrLeave {test : LoopInstr} {leave : ℕ} :
    SameLoop e (e'.testOrLeave test γ leave) ↔ SameLoop e e' := by
  simp [Emission.testOrLeave]

theorem emitsScoped_forIn {name : Ident} {iterable : Code} {isDict : Bool}
    {body : Emission → Emission} (hbody : EmitsScoped inMain names body) (he : e.Ready inMain) :
    Emitted inMain [name] e (e.forIn name iterable isDict inMain body) ∧
      Known (e.forIn name iterable isDict inMain body) (e.size + 1)
        (e.context.map (·.declare name)) := by
  have hfirst := (laid_start he).addBlocks 1 e.context
  have hsize : (e.addBlocks 1 e.context).size = e.size + 1 := size_addBlocks _ _
  have hblocks := hfirst.addBlocks 4 (e.context.map (·.declare name))
  have hgrows := grows_addBlocks (e.addBlocks 1 e.context) 4 (e.context.map (·.declare name))
  have hsetup := ((laid_start he).known_addBlocks (n := 1) (δ := e.context) le_rfl
    (by omega)).grows hgrows
  have hcond := hfirst.known_addBlocks (i := e.size + 1) (n := 4)
    (δ := e.context.map (·.declare name)) (by omega) (by omega)
  have hstart := hfirst.known_addBlocks (i := e.size + 2) (n := 4)
    (δ := e.context.map (·.declare name)) (by omega) (by omega)
  have hcontinue := hfirst.known_addBlocks (i := e.size + 3) (n := 4)
    (δ := e.context.map (·.declare name)) (by omega) (by omega)
  have hend := hfirst.known_addBlocks (i := e.size + 4) (n := 4)
    (δ := e.context.map (·.declare name)) (by omega) (by omega)
  have hordered : Laid inMain e _ (List.range' e.size 1 ++ List.range' (e.size + 1) 4)
      e.context _ := hblocks.perm (by rw [hsize]; exact List.perm_append_comm)
  have hentry := (hordered.setupLoopState (e.size + 4) (e.size + 3)).br hsetup
  have hvalue := (hentry.moveTo hsetup).neutral (neutral_value iterable) he.deep
  have harray := ((hvalue.keysIfDict isDict he.deep hend (fitsBack_declare _ name)).neutral
    (neutral_loop .initIndex) he.deep).neutral (neutral_loop .arrayLength) he.deep
  have hlength := harray.testOrLeave he.deep .testLength hend
    (fitsBack_declare _ name) harray.context
  have hdeclared := (hlength.varDeclIfMissing he.deep ⟨name, .typeNil, false⟩).br hcond
  have htest := (hdeclared.moveTo hcond).neutral (neutral_loop .testIndex) he.deep_declare
  have hbranch := (htest.condBr hstart hend (.refl _) (.refl _)).moveTo hstart
  have hget := hbranch.neutral (neutral_loop .arrayGet) he.deep_declare
  have helement := hget.testOrLeave he.deep_declare .testElement hend
    (.refl _) rfl
  have hnew := (current_testOrLeave _ .testElement (e.context.map (·.declare name))
    (e.size + 4)).ge.trans' hget.grows₀.blocks.1
  have hturn := helement.turn ((e.addBlocks 1 e.context).addBlocks 4
    (e.context.map (·.declare name))) (by simp) hnew (he.usable_declare name) he.base hend hcontinue
    (List.forall_mem_singleton.mpr (neutral_varAssign name)) hbody hcontinue
  have hstep := ((hturn.moveTo hcontinue).neutral (neutral_loop .stepIndex)
    he.deep_declare).br hcond
  have hdone := (hstep.restoreLoopState e).moveTo hend
  exact ⟨hdone.emittedNames he (by simp) rfl, hcond.grows hdone.grows⟩

theorem emitsScoped_leaveLoop {popsScope : Bool} {target : Option ℕ} (he : e.Ready inMain)
    (htarget : ∀ t, target = some t → t ∈ e.loopTargets) :
    Emitted inMain [] e (e.leaveLoop popsScope target) := by
  have hstart := laid_start he
  have hdone {e' : Emission} {γ : Option Context} (h : Laid inMain e e [] γ e')
      (hsame : SameLoop e e') (hfits : ∀ t ∈ e.loopTargets, ∀ δ, γ = some δ →
        ∃ γ', e.contexts.getD t none = some γ' ∧ δ.Fits γ') :
      Emitted inMain [] e (e'.terminate (.br target)) := by
    have hleft := h.terminate (.br target) fun δ hδ j hj =>
      hfits j (htarget j (Option.mem_toList.mp hj)) δ hδ
    exact hleft.emitted (sameLoop_terminate.mpr hsame) (by rintro _ ⟨⟩) (by rintro _ ⟨⟩)
  rw [Emission.leaveLoop]
  cases hbase : e.loopBase with
  | some b =>
      obtain ⟨t, ht⟩ := List.exists_mem_of_ne_nil _ (he.inLoop (by rw [hbase]; exact Option.some_ne_none b))
      have hpopped := hstart.instr (.popTo (.loopSlot b)) fun γ hγ => by
        obtain ⟨γ', -, hleaves⟩ := he.leaves t ht γ hγ
        obtain ⟨d, hd, hlt, -⟩ := hleaves.1 b hbase
        exact ⟨d, hd, ((he.usable γ hγ).known _ d hd).2, hlt.le⟩
      refine hdone hpopped (by simp) fun t ht δ hδ => ?_
      obtain ⟨γ, hγ, hpop⟩ := Option.bind_eq_some_iff.mp hδ
      obtain ⟨γ', hγ', hleaves⟩ := he.leaves t ht γ hγ
      obtain ⟨d, hd, -, hfits⟩ := hleaves.1 b hbase
      have hpop : (γ.depths (.loopSlot b)).map γ.popTo = some δ := hpop
      rw [hd] at hpop
      obtain rfl := Option.some.inj hpop
      exact ⟨γ', hγ', hfits⟩
  | none =>
      cases popsScope with
      | true =>
          refine hdone (hstart.instr .popForeign fun _ _ => trivial) (by simp) fun t ht δ hδ => ?_
          obtain ⟨γ, -, hnone⟩ := Option.bind_eq_some_iff.mp hδ
          cases hnone
      | false =>
          refine hdone hstart (.refl e) fun t ht δ hδ => ?_
          obtain ⟨γ', hγ', hleaves⟩ := he.leaves t ht δ hδ
          exact ⟨γ', hγ', (hleaves.2 hbase).2⟩

/-- A function returns when its scopes are gone. -/
theorem Laid.returns (h : Laid false e₀ e₁ pending γ e)
    (hslot : ∀ δ, γ = some δ → δ.depths .functionSlot = some 0) {i : Instr}
    (hi : ∀ block δ, i.context block δ = (δ.depths .functionSlot).map δ.popTo)
    (hsuits : ∀ contexts δ, δ.depths .functionSlot = some 0 →
      Suits false contexts (.instr i) δ) :
    Laid false e₀ e₁ pending none ((e.instr i).terminate .retVoid) := by
  refine (h.instr i fun δ hδ => hsuits _ δ (hslot δ hδ)).terminate .retVoid fun δ hδ => ?_
  obtain ⟨γ', hγ', hpop⟩ := Option.bind_eq_some_iff.mp hδ
  rw [hi, hslot γ' hγ'] at hpop
  obtain rfl := Option.some.inj hpop
  exact Context.depth_popTo (Nat.zero_le _)

theorem emitsScoped_ret {value : Code} :
    EmitsScoped false [] fun e =>
      (e.instrs [.value value, .copyReturn, .popToSafe]).terminate .retVoid := by
  intro e he
  have hcopied := ((laid_start he).neutral (neutral_value value) he.deep).neutral
    (neutral_of_isPlain (i := .copyReturn) rfl) he.deep
  have hleft := hcopied.returns (i := .popToSafe) (fun γ hγ => (he.usable γ hγ).slot rfl)
    (fun _ _ => rfl) fun _ _ hδ => ⟨rfl, hδ⟩
  exact hleft.emitted ⟨rfl, rfl, rfl⟩ nofun nofun

/-- The head of the loop that a statement is, if it is one, has a context that differs from
the one before it by the names that it declares. -/
def HeadKnown (s : CodeStmt) (e e' : Emission) : Prop :=
  ∀ b, s.loopHead e.size = some b →
    ∃ γ, Known e' b γ ∧ Declares e.context γ s.declares

theorem headKnown_of_none {s : CodeStmt} (h : ∀ size, s.loopHead size = none) :
    HeadKnown s e e' := by
  intro b hb
  rw [h] at hb
  cases hb

theorem declares_map {before : Option Context} {name : Ident} :
    Declares before (before.map (·.declare name)) [name] := by
  intro γ' hγ'
  obtain ⟨γ, hγ, rfl⟩ := Option.map_eq_some_iff.mp hγ'
  exact ⟨γ, hγ, rfl⟩

/-- **The span of a statement** is recorded. -/
theorem Emitted.record {s : CodeStmt} (h : Emitted inMain s.declares e e') (he : e.Ready inMain)
    (hhead : HeadKnown s e e') : Emitted inMain s.declares e (e.record s e') := by
  have hstart : e'.factAt e.current (e.block e.current).length = e.context := by
    rw [factAt_of_grows h.grows (he.tracked.length ▸ e.current_lt) le_rfl]
    exact he.tracked.context
  have hstop : Declares e.context (e'.factAt e'.current (e'.block e'.current).length)
      s.declares := by
    rw [h.tracked.context]
    exact h.carries.declares
  refine ⟨?_, h.usable, ⟨h.grows.1, h.grows.2⟩, ⟨h.stays.1, h.stays.2⟩,
    ⟨h.sameLoop.1, h.sameLoop.2, h.sameLoop.3⟩, h.carries⟩
  refine ⟨h.tracked.length, h.tracked.context, h.tracked.sound, fun span hspan => ?_⟩
  rcases List.mem_cons.mp hspan with rfl | hspan
  · refine ⟨e.current_lt.trans_le h.grows.blocks.1, (h.grows.blocks.2 _).length_le, hstart,
      e'.current_lt, le_rfl, hstop, fun b hb => ?_⟩
    obtain ⟨γ, hknown, hdeclares⟩ := hhead b hb
    exact ⟨hknown.1, hknown.2.symm ▸ hdeclares⟩
  · exact (h.tracked.spans span hspan).grows h.tracked.length ⟨.refl _, List.prefix_rfl⟩

end Statements

end Emission

open Emission

mutual

/-- **A statement** leaves the scopes as it finds them, but for what it declares. -/
theorem scoped_stmt {inMain : Bool} : ∀ s : CodeStmt, s.Scoped inMain →
    ∀ e : Emission, e.Ready inMain →
      Emitted inMain s.declares e (emitStmt s e) ∧ HeadKnown s e (emitStmt s e)
  | .eval value, _, _, he =>
      ⟨emitsScoped_plain [.value value] rfl he, headKnown_of_none fun _ => rfl⟩
  | .print value, _, _, he =>
      ⟨emitsScoped_plain [.value value, .print] rfl he,
        headKnown_of_none fun _ => rfl⟩
  | .storeSlot slot value none, _, _, he =>
      ⟨emitsScoped_plain [.value value, .storeSlot slot] rfl he,
        headKnown_of_none fun _ => rfl⟩
  | .storeSlot slot value (some mirror), _, _, he =>
      ⟨emitsScoped_store [.value value, .storeSlot slot] rfl mirror he,
        headKnown_of_none fun _ => rfl⟩
  | .storeUnboxed slot _ value none, _, _, he =>
      ⟨emitsScoped_plain [.cgValue value, .storeSlot slot] rfl he,
        headKnown_of_none fun _ => rfl⟩
  | .storeUnboxed slot _ value (some mirror), _, _, he =>
      ⟨emitsScoped_store [.cgValue value, .storeSlot slot] rfl mirror he,
        headKnown_of_none fun _ => rfl⟩
  | .varDecl _ _ _ _, _, e, he => ⟨emitsScoped_varDecl e he, headKnown_of_none fun _ => rfl⟩
  | .varAssign name value, _, _, he =>
      ⟨emitsScoped_plain [.value value, .varAssign name] rfl he,
        headKnown_of_none fun _ => rfl⟩
  | .indexSet index target value, _, _, he =>
      ⟨emitsScoped_plain [.value index, .value target, .value value, .indexSet] rfl he,
        headKnown_of_none fun _ => rfl⟩
  | .indexUpdate index target op value, _, _, he =>
      ⟨emitsScoped_plain [.value index, .value target, .indexGet, .value value,
        .binaryOp op, .indexSet] rfl he, headKnown_of_none fun _ => rfl⟩
  | .memberSet target member value, _, _, he =>
      ⟨emitsScoped_plain [.value target, .value value, .memberSet member] rfl he,
        headKnown_of_none fun _ => rfl⟩
  | .memberUpdate target member op value, _, _, he =>
      ⟨emitsScoped_plain [.value target, .memberGet member, .value value, .binaryOp op,
        .memberSet member] rfl he, headKnown_of_none fun _ => rfl⟩
  | .ifThenElse condition hasScope thenCode none, h, e, he => by
      obtain ⟨rfl, hthen⟩ := h
      have hemitted : Emitted hasScope [] e
          (e.ifThenElse condition hasScope (emitStmts thenCode) none) :=
        emitsScoped_ifThenElse (scoped_stmts thenCode hthen) (fun _ hf => by cases hf) e he
      exact ⟨hemitted, headKnown_of_none fun _ => rfl⟩
  | .ifThenElse condition hasScope thenCode (some elseCode), h, e, he => by
      obtain ⟨rfl, hthen, helse⟩ := h
      have hemitted : Emitted hasScope [] e
          (e.ifThenElse condition hasScope (emitStmts thenCode) (some (emitStmts elseCode))) := by
        refine emitsScoped_ifThenElse (scoped_stmts thenCode hthen) (fun f hf => ?_) e he
        obtain rfl := Option.some.inj hf
        exact ⟨_, scoped_stmts elseCode helse⟩
      exact ⟨hemitted, headKnown_of_none fun _ => rfl⟩
  | .whileLoop _ _ body, h, e, he => by
      obtain ⟨rfl, hbody⟩ := h
      obtain ⟨hemitted, hknown⟩ := emitsScoped_whileLoop (scoped_stmts body hbody) he
      refine ⟨hemitted, fun b hb => ?_⟩
      obtain rfl := Option.some.inj hb
      exact ⟨_, hknown, fun γ hγ => ⟨γ, hγ, rfl⟩⟩
  | .forRange _ _ _ _ _ body, h, e, he => by
      obtain ⟨rfl, hbody⟩ := h
      obtain ⟨hemitted, hknown⟩ := emitsScoped_forRange (scoped_stmts body hbody) he
      refine ⟨hemitted, fun b hb => ?_⟩
      obtain rfl := Option.some.inj hb
      exact ⟨_, hknown, declares_map⟩
  | .forIn _ _ _ _ body, h, e, he => by
      obtain ⟨rfl, hbody⟩ := h
      obtain ⟨hemitted, hknown⟩ := emitsScoped_forIn (scoped_stmts body hbody) he
      refine ⟨hemitted, fun b hb => ?_⟩
      obtain rfl := Option.some.inj hb
      exact ⟨_, hknown, declares_map⟩
  | .breakLoop _, _, e, he => by
      refine ⟨emitsScoped_leaveLoop he fun t ht => ?_, headKnown_of_none fun _ => rfl⟩
      exact List.mem_append_left _ (Option.mem_toList.mpr ht)
  | .continueLoop _, _, e, he => by
      refine ⟨emitsScoped_leaveLoop he fun t ht => ?_, headKnown_of_none fun _ => rfl⟩
      exact List.mem_append_right _ (Option.mem_toList.mpr ht)
  | .ret _, h, e, he => by
      obtain rfl := h
      exact ⟨emitsScoped_ret e he, headKnown_of_none fun _ => rfl⟩
  | .truncated, _, _, he =>
      ⟨emitsScoped_plain [.value (.op .setNil [])] rfl he,
        headKnown_of_none fun _ => rfl⟩

/-- A list of statements. -/
theorem scoped_stmts {inMain : Bool} : ∀ code : List CodeStmt, CodeScoped inMain code →
    EmitsScoped inMain (code.flatMap CodeStmt.declares) (emitStmts code)
  | [], _, _, he => .refl he
  | s :: rest, h, e, he => by
      obtain ⟨hemitted, hhead⟩ := scoped_stmt s h.1 e he
      have hrecorded := hemitted.record he hhead
      exact hrecorded.trans (scoped_stmts rest h.2 _ (hrecorded.ready he))

end

/-! ### Bodies -/

section Bodies

theorem tracked_entry (inMain : Bool) : Emission.entry.Tracked inMain where
  length := rfl
  context := rfl
  sound := by
    intro i k x γ hx
    have hempty : Emission.entry.block i = [] := by
      cases i <;> rfl
    rw [hempty] at hx
    cases hx
  spans := nofun

/-- The scope of a function, whose names are not followed. -/
theorem ready_function : (Emission.entry.instrs [.scopeDepth, .storeFunctionBase,
    .pushScope]).Ready false where
  tracked := (((tracked_entry false).instr .scopeDepth fun _ _ => trivial).instr
    .storeFunctionBase fun _ _ => trivial).instr .pushScope fun _ _ => trivial
  usable := by
    intro γ hγ
    obtain rfl := Option.some.inj hγ
    refine ⟨le_rfl, fun source d hd => ⟨?_, Nat.zero_le d⟩, fun _ => rfl, fun _ => rfl⟩
    by_cases hslot : source = .functionSlot
    · subst hslot
      exact Nat.one_pos
    · by_cases hresult : source = .result 0
      · subst hresult
        exact Nat.one_pos
      · have hnone : (((Context.empty.keep (.result 0) (some 0)).keep .functionSlot
            (some 0)).push).depths source = none := by
          rw [Context.depths_push, Context.depths_keep_of_ne hslot,
            Context.depths_keep_of_ne hresult]
          rfl
        cases hnone.symm.trans hd
  base _ := rfl
  inLoop h := absurd rfl h
  mainBase := nofun
  leaves := nofun

/-- The parameters are copied into variables of the scope. -/
theorem emitted_params {inMain : Bool} (params : List Ident) : ∀ {e : Emission},
    e.Ready inMain → Emitted inMain params e (e.instrs (params.flatMap fun name =>
      [.copyParam name, .varDeclIfMissing ⟨name, .typeNil, false⟩])) := by
  induction params with
  | nil => exact fun he => .refl he
  | cons name params ih =>
      intro e he
      have hfirst := emitsScoped_store [.copyParam name] rfl ⟨name, .typeNil, false⟩ he
      exact hfirst.trans (ih (hfirst.ready he))

theorem ready_main : (Emission.entry.instrs [.runtimeInit]).Ready true where
  tracked := (tracked_entry true).instr .runtimeInit fun _ _ => rfl
  usable := by
    intro γ hγ
    obtain rfl := Option.some.inj hγ
    exact ⟨le_rfl, nofun, nofun, nofun⟩
  base _ := rfl
  inLoop h := absurd rfl h
  mainBase _ _ := rfl
  leaves := nofun

/-- The statements of a body can be built behind its prologue. -/
theorem ready_prologue (kind : BodyKind) :
    (Emission.entry.instrs kind.prologue).Ready kind.cleansUp := by
  cases kind with
  | main => exact ready_main
  | function params =>
      have hprologue : Emission.entry.instrs (BodyKind.prologue (.function params)) =
          (Emission.entry.instrs [.scopeDepth, .storeFunctionBase, .pushScope]).instrs
            (params.flatMap fun name =>
              [.copyParam name, .varDeclIfMissing ⟨name, .typeNil, false⟩]) :=
        List.foldl_append
      rw [hprologue]
      exact (emitted_params params ready_function).ready ready_function
  | method isConstructor => exact ready_function

/-- The end of a function pops its scope. -/
theorem Emission.Ready.tracked_epilogue {e : Emission} (he : e.Ready false) (kind : BodyKind)
    (hkind : kind.cleansUp = false) :
    ((e.instrs kind.epilogue).terminate .retVoid).Tracked false := by
  have hslot : ∀ γ, e.context = some γ → γ.depths .functionSlot = some 0 :=
    fun γ hγ => (he.usable γ hγ).slot rfl
  have hpop {e' : Emission} (h : Laid false e e [] e.context e') :
      ((e'.instr (.popTo .functionSlot)).terminate .retVoid).Tracked false :=
    (h.returns (i := .popTo .functionSlot) hslot (fun _ _ => rfl)
      fun _ _ hδ => ⟨0, hδ, le_rfl, Nat.zero_le _⟩).tracked
  cases kind with
  | main => cases hkind
  | function params =>
      exact ((laid_start he).returns (i := .popToSafe) hslot (fun _ _ => rfl)
        fun _ _ hδ => ⟨rfl, hδ⟩).tracked
  | method isConstructor =>
      cases isConstructor with
      | true => exact hpop (laid_start he)
      | false =>
          exact hpop ((laid_start he).neutral (neutral_of_isPlain (i := .setReturnNil) rfl) he.deep)

/-- **The contexts of a body** are facts about its places. -/
theorem emitBody_tracked (kind : BodyKind) {code : List CodeStmt}
    (h : CodeScoped kind.cleansUp code) : (emitBody kind code).Tracked kind.cleansUp := by
  have hstart := ready_prologue kind
  have hemitted := scoped_stmts code h _ hstart
  have hready := hemitted.ready hstart
  have hfunction (hkind : kind.cleansUp = false) :
      (if (emitStmts code (Emission.entry.instrs kind.prologue)).hasTerminator then
          emitStmts code (Emission.entry.instrs kind.prologue)
        else ((emitStmts code (Emission.entry.instrs kind.prologue)).instrs
          kind.epilogue).terminate .retVoid).Tracked kind.cleansUp := by
    split
    · exact hemitted.tracked
    · rw [hkind] at hready ⊢
      exact hready.tracked_epilogue kind hkind
  cases kind with
  | main =>
      have hcleaned := hemitted.tracked.instr .runtimeCleanup fun _ _ => rfl
      show (if _ then _ else _ : Emission).Tracked true
      split
      · exact hcleaned
      · exact hcleaned.terminate .ret fun _ _ => nofun
  | function params => exact hfunction rfl
  | method isConstructor => exact hfunction rfl

/-- What is emitted after the statements changes nothing before it. -/
theorem grows_finish (kind : BodyKind) (e : Emission) : Grows e (kind.finish e) := by
  have hfunction (instrs : List Instr) :
      Grows e (if e.hasTerminator then e else (e.instrs instrs).terminate .retVoid) := by
    split
    · exact .refl e
    · exact (grows_instrs instrs e).trans (grows_terminate _ _)
  cases kind with
  | main =>
      show Grows e (if _ then _ else _ : Emission)
      split
      · exact grows_instr e .runtimeCleanup
      · exact (grows_instr e .runtimeCleanup).trans (grows_terminate _ _)
  | function params => exact hfunction _
  | method isConstructor => exact hfunction _

theorem grows_statements (kind : BodyKind) {code : List CodeStmt}
    (h : CodeScoped kind.cleansUp code) :
    Grows (Emission.entry.instrs kind.prologue) (emitBody kind code) :=
  (scoped_stmts code h _ (ready_prologue kind)).grows.trans (grows_finish kind _)

/-- No scope is open where a body begins. -/
theorem factAt_entry (kind : BodyKind) {code : List CodeStmt}
    (h : CodeScoped kind.cleansUp code) : (emitBody kind code).factAt 0 0 = some .empty :=
  factAt_of_grows (e := .entry)
    ((grows_instrs kind.prologue .entry).trans (grows_statements kind h)) Nat.one_pos
    (Nat.zero_le _)

/-- The context between the statements of `main`. -/
theorem factAt_between {code code' : List CodeStmt} (h : CodeScoped true (code ++ code')) :
    (emitBody .main (code ++ code')).factAt
        (emitStmts code (Emission.entry.instrs [.runtimeInit])).here.block
        (emitStmts code (Emission.entry.instrs [.runtimeInit])).here.index =
      (emitStmts code (Emission.entry.instrs [.runtimeInit])).context := by
  obtain ⟨hcode, hcode'⟩ := codeScoped_append.mp h
  have hemitted := scoped_stmts code hcode _ ready_main
  have hrest := scoped_stmts code' hcode' _ (hemitted.ready ready_main)
  have hgrows := hrest.grows.trans (grows_finish .main _)
  rw [← emitStmts_append] at hgrows
  have htracked := hemitted.tracked
  rw [← htracked.context]
  exact factAt_of_grows hgrows (htracked.length ▸ current_lt _) le_rfl

/-- `main` begins with the initialization of the runtime. -/
theorem item_entry_main {code : List CodeStmt} (h : CodeScoped true code) :
    ((emitBody .main code).block 0)[0]? = some (.instr .runtimeInit) := by
  obtain ⟨rest, hrest⟩ := (grows_statements .main h).blocks.2 0
  rw [← hrest]
  rfl

end Bodies

end BreadLang
