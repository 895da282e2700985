import BreadLang.Codegen.InferenceAgreement
import BreadLang.Codegen.Steps

/-!
# Inference in the code generator

`cg_infer_expr_type_desc_with_function` against the inference of the semantic analysis.  It
infers calls, method calls and operators itself and leaves all other constructs to
`cg_infer_expr_type_desc_simple`, which does not look into the scope of the function.

## Main results

* `inference_agrees_iff`: when the three inferences agree on an expression.
* `inference_agrees`: they agree where no part of it is of a kind that they treat differently.
-/

namespace BreadLang

open Reporting

/-! ### The tables of the generator -/

/-- What a class declares, without the functions compiled for it. -/
def CgClass.declared (c : CgClass) : CgClass :=
  { c with methodFunctions := [], constructorFunction := none }

theorem CgClass.eq_of_declared {c' c : CgClass} (h : c'.declared = c.declared) :
    c'.name = c.name ∧ c'.parentName = c.parentName ∧ c'.fields = c.fields ∧
      c'.methods = c.methods := by
  simp only [CgClass.declared, CgClass.mk.injEq, and_true] at h
  exact ⟨h.1, h.2.1, h.2.2.1, h.2.2.2.1⟩

theorem CgClass.typeDesc_of_declared {c' c : CgClass} (h : c'.declared = c.declared) :
    c'.typeDesc = c.typeDesc := by
  obtain ⟨hname, hparent, hfields, -⟩ := CgClass.eq_of_declared h
  rw [CgClass.typeDesc, CgClass.typeDesc, hname, hparent, hfields]

/-- The tables that the code generator shares with the analysis: the same structs and classes,
and functions that it has added. -/
structure Cg.Shares (cg cg' : Cg) : Prop where
  structs : cg'.structs = cg.structs
  classes : cg'.classes.map CgClass.declared = cg.classes.map CgClass.declared
  functions : cg.functions <:+ cg'.functions

section Shares

variable {cg cg' : Cg}

theorem Cg.Shares.refl (cg : Cg) : cg.Shares cg :=
  ⟨rfl, rfl, List.suffix_rfl⟩

theorem CgStep.shares {start : Cg} (hstep : CgStep cg cg') (h : start.Shares cg) :
    start.Shares cg' := by
  obtain ⟨hstructs, hclasses, hfunctions⟩ := h
  cases hstep with
  | function entry => exact ⟨hstructs, hclasses, hfunctions.trans (List.suffix_cons _ _)⟩
  | constructor name fn =>
      refine ⟨hstructs, ?_, hfunctions⟩
      rw [← hclasses, List.map_map]
      refine List.map_congr_left fun c _ => ?_
      rw [Function.comp_apply]
      split <;> rfl
  | method name index fn =>
      refine ⟨hstructs, ?_, hfunctions⟩
      rw [← hclasses, List.map_map]
      refine List.map_congr_left fun c _ => ?_
      rw [Function.comp_apply]
      split <;> rfl
  | _ => exact ⟨hstructs, hclasses, hfunctions⟩

/-- **The code generator** shares its tables with the state that it starts in, from the first
step to the last. -/
theorem Reaches.shares (h : Reaches cg cg') : cg.Shares cg' :=
  h.invariant (fun _ _ hstep hI => hstep.shares hI) (.refl cg)

variable (h : cg.Shares cg')
include h

theorem Cg.Shares.findStruct (name : Ident) : cg'.findStruct name = cg.findStruct name := by
  rw [Cg.findStruct, Cg.findStruct, h.structs]

/-- Both states find a class under a name, with the same declaration, or neither does. -/
theorem Cg.Shares.findClass (name : Ident) :
    (cg'.findClass name = none ∧ cg.findClass name = none) ∨
      ∃ c' c, cg'.findClass name = some c' ∧ cg.findClass name = some c ∧
        c'.declared = c.declared := by
  have hfind (cg : Cg) : (cg.findClass name).map CgClass.declared =
      (cg.classes.map CgClass.declared).find? fun c => c.name == name := by
    rw [List.find?_map]
    rfl
  have hsame : (cg'.findClass name).map CgClass.declared =
      (cg.findClass name).map CgClass.declared := by
    rw [hfind, hfind, h.classes]
  cases hc' : cg'.findClass name with
  | none =>
      cases hc : cg.findClass name with
      | none => exact .inl ⟨rfl, rfl⟩
      | some c =>
          rw [hc, hc'] at hsame
          cases hsame
  | some c' =>
      cases hc : cg.findClass name with
      | none =>
          rw [hc, hc'] at hsame
          cases hsame
      | some c =>
          rw [hc, hc'] at hsame
          exact .inr ⟨c', c, rfl, rfl, Option.some.inj hsame⟩

/-- **A walk over the ancestors** of a class looks at the same declarations. -/
theorem Cg.Shares.searchAncestors {α : Type} {p p' : CgClass → CgResult (Option α)}
    (hp : ∀ c' c, c'.declared = c.declared → p' c' = p c) {c' c : CgClass}
    (hc : c'.declared = c.declared) :
    cg'.searchAncestors c' p' = cg.searchAncestors c p := by
  have hloop (n : ℕ) : ∀ {c' c : CgClass}, c'.declared = c.declared →
      cg'.searchAncestorsLoop p' n c' = cg.searchAncestorsLoop p n c := by
    induction n with
    | zero => exact fun _ => rfl
    | succ n ih =>
        intro c' c hc
        rw [Cg.searchAncestorsLoop, Cg.searchAncestorsLoop, hp c' c hc]
        unfold Cg.parentClass
        rw [(CgClass.eq_of_declared hc).2.1]
        cases c.parentName with
        | none => rfl
        | some parent =>
            rw [Option.bind_some, Option.bind_some]
            obtain ⟨hnone', hnone⟩ | ⟨b', b, hb', hb, hsame⟩ := h.findClass parent
            · rw [hnone', hnone]
            · rw [hb', hb]
              dsimp only
              rw [ih hsame]
  have hlength : cg'.classes.length = cg.classes.length := by
    simpa using congrArg List.length h.classes
  rw [Cg.searchAncestors, Cg.searchAncestors, hlength]
  exact hloop _ hc

/-- The class of a nominal type, if it has one. -/
theorem Cg.Shares.nominalClass (type : TypeDescriptor) :
    ((Cg.nominalName type).bind cg'.findClass = none ∧
        (Cg.nominalName type).bind cg.findClass = none) ∨
      ∃ c' c, (Cg.nominalName type).bind cg'.findClass = some c' ∧
        (Cg.nominalName type).bind cg.findClass = some c ∧ c'.declared = c.declared := by
  cases Cg.nominalName type with
  | none => exact .inl ⟨rfl, rfl⟩
  | some name => exact h.findClass name

theorem Cg.Shares.commonSuperclassDesc (a b : TypeDescriptor) :
    cg'.commonSuperclassDesc a b = cg.commonSuperclassDesc a b := by
  unfold Cg.commonSuperclassDesc
  obtain ⟨ha', ha⟩ | ⟨ca', ca, ha', ha, hsameA⟩ := h.nominalClass a
  · rw [ha', ha]
  · obtain ⟨hb', hb⟩ | ⟨cb', cb, hb', hb, hsameB⟩ := h.nominalClass b
    · rw [ha', ha, hb', hb]
    · rw [ha', ha, hb', hb]
      refine h.searchAncestors (fun a' a ha => h.searchAncestors (fun b' b hb => ?_) hsameB) hsameA
      rw [(CgClass.eq_of_declared ha).1, (CgClass.eq_of_declared hb).1,
        CgClass.typeDesc_of_declared ha]

theorem Cg.Shares.methodTypeDesc (target : TypeDescriptor) (name : Ident) :
    cg'.methodTypeDesc target name = cg.methodTypeDesc target name := by
  unfold Cg.methodTypeDesc
  obtain ⟨hnone', hnone⟩ | ⟨c', c, hc', hc, hsame⟩ := h.nominalClass target
  · rw [hnone', hnone]
  · have hdecl : cg'.findClassMethodDecl c' name = cg.findClassMethodDecl c name := by
      refine h.searchAncestors (fun c' c hsame => ?_) hsame
      rw [Cg.ownMethodDecl, Cg.ownMethodDecl, (CgClass.eq_of_declared hsame).2.2.2]
    rw [hc', hc]
    dsimp only
    rw [hdecl]

theorem Cg.Shares.memberTypeDesc (target : TypeDescriptor) (member : Ident) :
    cg'.memberTypeDesc target member = cg.memberTypeDesc target member := by
  unfold Cg.memberTypeDesc
  cases target with
  | struct name fields =>
      dsimp only
      rw [h.findStruct]
  | «class» name parentName fields =>
      obtain ⟨hnone', hnone⟩ | ⟨c', c, hc', hc, hsame⟩ := h.findClass name
      · dsimp only
        rw [hnone', hnone]
      · have hfield : (cg'.searchAncestors c' fun c => .ok (Cg.fieldType c.fields member)) =
            cg.searchAncestors c fun c => .ok (Cg.fieldType c.fields member) := by
          refine h.searchAncestors (fun c' c hsame => ?_) hsame
          rw [(CgClass.eq_of_declared hsame).2.2.1]
        dsimp only
        rw [hc', hc]
        dsimp only
        rw [hfield]
  | _ => rfl

end Shares

/-! ### The scope of the analysis, seen from the generator -/

/-- A call that the inference settles before it looks at the table of functions. -/
def isKnownCall (name : Ident) : Bool :=
  name == "range".toList || (builtinLookup name).isSome

/-- **The names that the tables of the generator have with this type**: a variable of the global
scope, and a function with the return type unless there is none under the name. -/
def Cg.Resolves (cg' : Cg) (d : TypeDescriptor) : ASTExpr → Prop
  | .var name => (cg'.findVarInScope name).bind CgVar.typeDesc = some d
  | .call name _ => isKnownCall name = true ∨
      ∀ func, cg'.findFunction name = some func → func.returnTypeDesc = .ok d
  | _ => True

/-- `cg_infer_expr_type_desc_simple` infers in the generator what it infers in the analysis. -/
def Cg.Reinferred (cg cg' : Cg) (e : ASTExpr) : Prop :=
  ∀ d, cg.inferTypeDesc e = .ok d → cg'.inferTypeDesc e = .ok d

theorem inferBoth_ok {α β : Type} {a : α} {b : β} {m : CgResult α} {n : CgResult β}
    (hm : m = .ok a) (hn : n = .ok b) : inferBoth m n = .ok (a, b) := by
  rw [hm, hn, inferBoth]

section Reinferred

variable {cg cg' : Cg} {e : ASTExpr} {d : TypeDescriptor}

theorem reinferred_elements (h : cg.Shares cg') {type type' : TypeDescriptor} :
    ∀ {elements : List ASTExpr}, (∀ x ∈ elements, cg.Reinferred cg' x) →
      cg.inferElements type elements = .ok type' → cg'.inferElements type elements = .ok type'
  | [], _, hok => by
      rw [Cg.inferElements] at hok ⊢
      exact hok
  | element :: elements, hparts, hok => by
      obtain ⟨hfirst, hparts⟩ := List.forall_mem_cons.mp hparts
      rw [Cg.inferElements] at hok ⊢
      obtain ⟨t, ht, hok⟩ := bind_eq_ok.mp hok
      refine bind_eq_ok.mpr ⟨t, hfirst t ht, ?_⟩
      split at hok
      · rename_i hequals
        rw [if_pos hequals]
        exact reinferred_elements h hparts hok
      · rename_i hequals
        rw [if_neg hequals, h.commonSuperclassDesc]
        obtain ⟨common, hcommon, hok⟩ := bind_eq_ok.mp hok
        refine bind_eq_ok.mpr ⟨common, hcommon, ?_⟩
        cases common with
        | none => cases hok
        | some common => exact reinferred_elements h hparts hok

theorem reinferred_entries {key value : TypeDescriptor} :
    ∀ {entries : List (ASTExpr × ASTExpr)},
      (∀ entry ∈ entries, cg.Reinferred cg' entry.1 ∧ cg.Reinferred cg' entry.2) →
        cg.inferEntries key value entries = .ok () → cg'.inferEntries key value entries = .ok ()
  | [], _, _ => by rw [Cg.inferEntries]
  | (k, v) :: entries, hparts, hok => by
      obtain ⟨⟨hkey, hvalue⟩, hparts⟩ := List.forall_mem_cons.mp hparts
      rw [Cg.inferEntries] at hok ⊢
      obtain ⟨⟨dk, dv⟩, hboth, hok⟩ := bind_eq_ok.mp hok
      obtain ⟨hk, hv⟩ := inferBoth_eq_ok hboth
      refine bind_eq_ok.mpr ⟨(dk, dv), inferBoth_ok (hkey dk hk) (hvalue dv hv), ?_⟩
      dsimp only at hok ⊢
      split at hok
      · cases hok
      · rename_i hequals
        rw [if_neg hequals]
        exact reinferred_entries hparts hok

theorem reinferred_fields :
    ∀ {fields : List (Ident × ASTExpr)}, (∀ field ∈ fields, cg.Reinferred cg' field.2) →
      ∀ {types : List (Ident × TypeDescriptor)}, cg.inferFields fields = .ok types →
        cg'.inferFields fields = .ok types
  | [], _, types, hok => by
      rw [Cg.inferFields] at hok ⊢
      exact hok
  | (name, value) :: fields, hparts, types, hok => by
      obtain ⟨hfirst, hparts⟩ := List.forall_mem_cons.mp hparts
      rw [Cg.inferFields] at hok ⊢
      obtain ⟨t, ht, hok⟩ := bind_eq_ok.mp hok
      obtain ⟨rest, hrest, hok⟩ := bind_eq_ok.mp hok
      exact bind_eq_ok.mpr ⟨t, hfirst t ht,
        bind_eq_ok.mpr ⟨rest, reinferred_fields hparts hrest, hok⟩⟩

/-- The resolution of a call in the generator. -/
theorem reinferred_call_iff (h : cg.Shares cg') {name : Ident} {args : List ASTExpr}
    (hok : cg.inferTypeDesc (.call name args) = .ok d) :
    cg'.inferTypeDesc (.call name args) = .ok d ↔ cg'.Resolves d (.call name args) := by
  rw [Cg.inferTypeDesc] at hok ⊢
  unfold Cg.callTypeDesc at hok ⊢
  unfold Cg.Resolves isKnownCall
  dsimp only
  by_cases hrange : name == "range".toList
  · rw [if_pos hrange] at hok ⊢
    rw [hrange]
    exact iff_of_true hok (.inl rfl)
  · rw [if_neg hrange] at hok ⊢
    rw [(Bool.not_eq_true _).mp hrange, Bool.false_or]
    cases hbuiltin : builtinLookup name with
    | some builtin =>
        rw [hbuiltin] at hok
        exact iff_of_true hok (.inl rfl)
    | none =>
        rw [hbuiltin] at hok
        dsimp only at hok ⊢
        rw [Option.isSome_none, or_iff_right Bool.false_ne_true]
        cases hfind : cg'.findFunction name with
        | some func =>
            exact ⟨fun hd func' hfunc' => Option.some.inj hfunc' ▸ hd, fun hall => hall func rfl⟩
        | none =>
            -- what the generator has not, the analysis has not either
            have hnone : cg.findFunction name = none := by
              obtain ⟨added, hadded⟩ := h.functions
              rw [Cg.findFunction, ← hadded, List.find?_append, Option.or_eq_none_iff] at hfind
              exact hfind.2
            rw [hnone] at hok
            dsimp only at hok ⊢
            refine iff_of_true ?_ fun func hfunc => by cases hfunc
            obtain ⟨-, hclass⟩ | ⟨c', c, hc', hc, hsame⟩ := h.findClass name
            · rw [hclass] at hok
              cases hok
            · rw [hc] at hok
              rw [hc']
              dsimp only
              rw [CgClass.typeDesc_of_declared hsame]
              exact hok

/-- **One construct**, whose parts have the same types in the generator, has the same type there
exactly when the tables of the generator have the name that it looks up. -/
theorem reinferred_iff (h : cg.Shares cg') (hok : cg.inferTypeDesc e = .ok d)
    (hparts : ∀ c ∈ e.inferred, cg.Reinferred cg' c) :
    cg'.inferTypeDesc e = .ok d ↔ cg'.Resolves d e := by
  cases e with
  | var name =>
      rw [Cg.inferTypeDesc]
      unfold Cg.Resolves
      dsimp only
      cases (cg'.findVarInScope name).bind CgVar.typeDesc with
      | none => exact iff_of_false (fun h => by cases h) fun h => by cases h
      | some d' =>
          exact ⟨fun h => congrArg some (Except.ok.inj h), fun h => congrArg _ (Option.some.inj h)⟩
  | call name args => exact reinferred_call_iff h hok
  | binary op left right =>
      refine iff_of_true ?_ trivial
      rw [Cg.inferTypeDesc] at hok ⊢
      obtain ⟨⟨l, r⟩, hboth, hok⟩ := bind_eq_ok.mp hok
      obtain ⟨hl, hr⟩ := inferBoth_eq_ok hboth
      exact bind_eq_ok.mpr ⟨(l, r), inferBoth_ok (hparts left (by simp [ASTExpr.inferred]) l hl)
        (hparts right (by simp [ASTExpr.inferred]) r hr), hok⟩
  | unary op operand =>
      refine iff_of_true ?_ trivial
      rw [Cg.inferTypeDesc] at hok ⊢
      obtain ⟨x, hx, hok⟩ := bind_eq_ok.mp hok
      exact bind_eq_ok.mpr ⟨x, hparts operand List.mem_cons_self x hx, hok⟩
  | index target index =>
      refine iff_of_true ?_ trivial
      rw [Cg.inferTypeDesc] at hok ⊢
      obtain ⟨t, ht, hok⟩ := bind_eq_ok.mp hok
      obtain ⟨i, hi, hok⟩ := bind_eq_ok.mp hok
      exact bind_eq_ok.mpr ⟨t, hparts target (by simp [ASTExpr.inferred]) t ht,
        bind_eq_ok.mpr ⟨i, hparts index (by simp [ASTExpr.inferred]) i hi, hok⟩⟩
  | member target member isOptionalChain =>
      refine iff_of_true ?_ trivial
      rw [Cg.inferTypeDesc] at hok ⊢
      obtain ⟨t, ht, hok⟩ := bind_eq_ok.mp hok
      refine bind_eq_ok.mpr ⟨t, hparts target List.mem_cons_self t ht, ?_⟩
      rw [h.memberTypeDesc]
      exact hok
  | methodCall target name args isOptionalChain =>
      refine iff_of_true ?_ trivial
      rw [Cg.inferTypeDesc] at hok ⊢
      obtain ⟨t, ht, hok⟩ := bind_eq_ok.mp hok
      refine bind_eq_ok.mpr ⟨t, hparts target List.mem_cons_self t ht, ?_⟩
      rw [h.methodTypeDesc]
      exact hok
  | arrayLiteral elements =>
      refine iff_of_true ?_ trivial
      cases elements with
      | nil =>
          rw [Cg.inferTypeDesc] at hok ⊢
          exact hok
      | cons element elements =>
          obtain ⟨hfirst, hrest⟩ := List.forall_mem_cons.mp hparts
          rw [Cg.inferTypeDesc] at hok ⊢
          obtain ⟨t, ht, hok⟩ := bind_eq_ok.mp hok
          obtain ⟨t', ht', hok⟩ := bind_eq_ok.mp hok
          exact bind_eq_ok.mpr ⟨t, hfirst t ht,
            bind_eq_ok.mpr ⟨t', reinferred_elements h hrest ht', hok⟩⟩
  | dict entries =>
      refine iff_of_true ?_ trivial
      cases entries with
      | nil =>
          rw [Cg.inferTypeDesc] at hok ⊢
          exact hok
      | cons entry entries =>
          obtain ⟨key, value⟩ := entry
          have hentry : ∀ entry ∈ (key, value) :: entries,
              cg.Reinferred cg' entry.1 ∧ cg.Reinferred cg' entry.2 := fun entry hentry =>
            ⟨hparts _ (List.mem_flatMap.mpr ⟨entry, hentry, by simp⟩),
              hparts _ (List.mem_flatMap.mpr ⟨entry, hentry, by simp⟩)⟩
          obtain ⟨⟨hkey, hvalue⟩, hrest⟩ := List.forall_mem_cons.mp hentry
          rw [Cg.inferTypeDesc] at hok ⊢
          obtain ⟨⟨k, v⟩, hboth, hok⟩ := bind_eq_ok.mp hok
          obtain ⟨⟨⟩, hentries, hok⟩ := bind_eq_ok.mp hok
          obtain ⟨hk, hv⟩ := inferBoth_eq_ok hboth
          exact bind_eq_ok.mpr ⟨(k, v), inferBoth_ok (hkey k hk) (hvalue v hv),
            bind_eq_ok.mpr ⟨(), reinferred_entries hrest hentries, hok⟩⟩
  | structLiteral name fields =>
      refine iff_of_true ?_ trivial
      have hfields : ∀ field ∈ fields, cg.Reinferred cg' field.2 := fun field hfield =>
        hparts _ (List.mem_map_of_mem hfield)
      rw [Cg.inferTypeDesc] at hok ⊢
      obtain ⟨types, htypes, hok⟩ := bind_eq_ok.mp hok
      exact bind_eq_ok.mpr ⟨types, reinferred_fields hfields htypes, hok⟩
  | classLiteral name fields =>
      refine iff_of_true ?_ trivial
      have hfields : ∀ field ∈ fields, cg.Reinferred cg' field.2 := fun field hfield =>
        hparts _ (List.mem_map_of_mem hfield)
      rw [Cg.inferTypeDesc] at hok ⊢
      obtain ⟨types, htypes, hok⟩ := bind_eq_ok.mp hok
      exact bind_eq_ok.mpr ⟨types, reinferred_fields hfields htypes, hok⟩
  | _ =>
      refine iff_of_true ?_ trivial
      rw [Cg.inferTypeDesc] at hok ⊢
      exact hok

/-- **An expression and all its parts** have the same types in the generator exactly when its
tables have the names in it. -/
theorem all_reinferred_iff (h : cg.Shares cg') (e : ASTExpr) :
    (∀ f, e.Part f → cg.Reinferred cg' f) ↔
      ∀ f, e.Part f → ∀ d, cg.inferTypeDesc f = .ok d → cg'.Resolves d f := by
  have hstep (f : ASTExpr) (hparts : ∀ c ∈ f.inferred, cg.Reinferred cg' c) :
      cg.Reinferred cg' f ↔ ∀ d, cg.inferTypeDesc f = .ok d → cg'.Resolves d f :=
    forall₂_congr fun d hok => reinferred_iff h hok hparts
  exact Tree.forall_reaches_iff ASTExpr.sizeOf_inferred hstep e

end Reinferred

/-! ### Inference in a function -/

/-- The parts that `cg_infer_expr_type_desc_with_function` infers itself. -/
def ASTExpr.followed : ASTExpr → List ASTExpr
  | .methodCall target _ _ _ => [target]
  | .binary _ left right => [left, right]
  | .unary _ operand => [operand]
  | _ => []

/-- The expressions that `cg_infer_expr_type_desc_with_function` leaves to
`cg_infer_expr_type_desc_simple`. -/
def ASTExpr.isLeft : ASTExpr → Bool
  | .var _ | .call _ _ | .methodCall _ _ _ _ | .binary _ _ _ | .unary _ _ => false
  | _ => true

/-- The methods that `cg_infer_expr_type_desc_with_function` knows, all of which return `Nil`. -/
def isKnownMethod (name : Ident) : TypeDescriptor → Bool
  | .array _ => name == "append".toList
  | .dict _ _ => name == "set".toList
  | .class _ _ _ => true
  | _ => false

namespace Cg

variable (cg cg' : Cg)

/-- **The expressions of this type that `cg_infer_expr_type_desc_with_function` follows**: a call
of a built-in function or of one that the table has with the return type, a known method, an
operator that it has a case for, and no negation of a `Float`.  Of what it leaves to the other
inference, the tables have the names. -/
def Follows (d : TypeDescriptor) : ASTExpr → Prop
  | .var _ => True
  | .call name _ => isKnownCall name = true ∨
      ∃ func, cg'.findFunction name = some func ∧ func.returnTypeDesc = .ok d
  | .methodCall target name _ _ => d = .nil ∧
      ∀ t, cg.inferTypeDesc target = .ok t → isKnownMethod name t = true
  | .binary op _ _ => op ≠ 'l' ∧ op ≠ 'g' ∧ op ≠ '=' ∧ op ≠ '!'
  | .unary op operand => op = '-' → ∀ t, cg.inferTypeDesc operand = .ok t → t.baseType ≠ .typeFloat
  | e => ∀ f, e.Part f → ∀ d, cg.inferTypeDesc f = .ok d → cg'.Resolves d f

/-- The scope of the function holds the variables of the analysis, with their types. -/
def HoldsVars : Prop :=
  ∀ name d, (cg.findVarInScope name).bind CgVar.typeDesc = some d →
    (cg'.scopeFindVar name).bind CgVar.typeDesc = some d

/-- `cg_infer_expr_type_desc_with_function` infers the type that the analysis infers, and so
does the inference that it leaves an expression to on all parts. -/
def Followed (fn : CgCallee) (e : ASTExpr) : Prop :=
  ∀ d, cg.inferTypeDesc e = .ok d → cg'.inferTypeDescWithFunction (some fn) e = .ok d ∧
    (e.isLeft = true → ∀ f, e.Part f → cg.Reinferred cg' f)

end Cg

section Function

variable {cg cg' : Cg} {fn : CgCallee} {e : ASTExpr} {d : TypeDescriptor}

theorem withFunction_var (hscope : cg.HoldsVars cg') {name : Ident}
    (hok : cg.inferTypeDesc (.var name) = .ok d) :
    cg'.inferTypeDescWithFunction (some fn) (.var name) = .ok d := by
  rw [Cg.inferTypeDesc] at hok
  have hdesc : (cg.findVarInScope name).bind CgVar.typeDesc = some d := by
    cases hvar : (cg.findVarInScope name).bind CgVar.typeDesc with
    | none =>
        rw [hvar] at hok
        cases hok
    | some d' =>
        rw [hvar] at hok
        exact congrArg some (Except.ok.inj hok)
  rw [Cg.inferTypeDescWithFunction, Cg.varTypeDescWithFunction, Option.bind_some]
  dsimp only
  rw [hscope name d hdesc]

theorem withFunction_call_iff {name : Ident} {args : List ASTExpr}
    (hok : cg.inferTypeDesc (.call name args) = .ok d) :
    cg'.inferTypeDescWithFunction (some fn) (.call name args) = .ok d ↔
      cg.Follows cg' d (.call name args) := by
  rw [Cg.inferTypeDesc] at hok
  rw [Cg.inferTypeDescWithFunction]
  unfold Cg.callTypeDesc at hok
  unfold Cg.callTypeDescWithFunction Cg.Follows isKnownCall
  dsimp only
  by_cases hrange : name == "range".toList
  · rw [if_pos hrange] at hok ⊢
    rw [hrange]
    exact iff_of_true hok (.inl rfl)
  · rw [if_neg hrange] at hok ⊢
    rw [(Bool.not_eq_true _).mp hrange, Bool.false_or]
    cases hbuiltin : builtinLookup name with
    | some builtin =>
        rw [hbuiltin] at hok
        exact iff_of_true hok (.inl rfl)
    | none =>
        dsimp only
        rw [Option.isSome_none, or_iff_right Bool.false_ne_true]
        cases cg'.findFunction name with
        | some func =>
            refine ⟨fun hd => ⟨func, rfl, hd⟩, ?_⟩
            rintro ⟨func', hfunc', hd⟩
            obtain rfl := Option.some.inj hfunc'
            exact hd
        | none =>
            refine iff_of_false (fun h => by cases h) ?_
            rintro ⟨func', hfunc', -⟩
            cases hfunc'

/-- A primitive type is known by its base type. -/
theorem eq_of_createPrimitive {d' : TypeDescriptor}
    (h : TypeDescriptor.createPrimitive d.baseType = some d') : d = d' := by
  cases d <;> cases h <;> rfl

theorem isNumeric_congr {left right : TypeDescriptor} (h : left.baseType = right.baseType) :
    isNumeric right = isNumeric left := by
  rw [isNumeric, isNumeric, h]

/-- The operators that both inferences have a case for. -/
theorem binaryWithFunction_iff {op : Char} {left right : TypeDescriptor}
    (hok : binaryTypeDesc op left right = .ok d) :
    Cg.binaryTypeDescWithFunction op left right = .ok d ↔
      op ≠ 'l' ∧ op ≠ 'g' ∧ op ≠ '=' ∧ op ≠ '!' := by
  rcases binaryTypeDesc_cases hok with ⟨rfl, hleft, hright, rfl⟩ | ⟨hop, hsame, hnumeric, hd⟩ |
    ⟨hcompare, hop, rfl⟩ | ⟨hop, hleft, hright, rfl⟩
  · obtain rfl : d = .string := eq_of_createPrimitive (by rw [hleft]; rfl)
    obtain rfl : right = .string := eq_of_createPrimitive (by rw [hright]; rfl)
    exact iff_of_true rfl (by decide)
  · have hcases := hop
    unfold isArithmeticOp at hcases
    simp only [Bool.or_eq_true, beq_iff_eq] at hcases
    refine iff_of_true ?_ ?_
    · rw [Cg.binaryTypeDescWithFunction, if_pos hop, isNumeric_congr hsame, hnumeric, ← hsame]
      by_cases hint : left.baseType = .typeInt
      · rw [if_pos hint] at hd
        obtain rfl : d = .int := eq_of_createPrimitive (by rw [hd]; rfl)
        rw [if_pos (by simpa using hint)]
      · rw [if_neg hint] at hd
        obtain rfl : d = .double := eq_of_createPrimitive (by rw [hd]; rfl)
        rw [if_neg (by simpa using hint), Bool.and_self, if_pos rfl]
    · rcases hcases with (((rfl | rfl) | rfl) | rfl) | rfl <;> decide
  · rw [Cg.binaryTypeDescWithFunction, if_neg (by rw [hop]; exact Bool.false_ne_true)]
    unfold isComparisonOp at hcompare
    simp only [Bool.or_eq_true, beq_iff_eq] at hcompare
    rcases hcompare with ((((rfl | rfl) | rfl) | rfl) | rfl) | rfl
    · exact iff_of_false (fun h => by cases h) (by decide)
    · exact iff_of_false (fun h => by cases h) (by decide)
    · exact iff_of_true rfl (by decide)
    · exact iff_of_true rfl (by decide)
    · exact iff_of_false (fun h => by cases h) (by decide)
    · exact iff_of_false (fun h => by cases h) (by decide)
  · obtain rfl : left = .bool := eq_of_createPrimitive (by rw [hleft]; rfl)
    obtain rfl : right = .bool := eq_of_createPrimitive (by rw [hright]; rfl)
    rcases hop with rfl | rfl
    · exact iff_of_true rfl (by decide)
    · exact iff_of_true rfl (by decide)

theorem unaryWithFunction_iff {op : Char} {operand : TypeDescriptor}
    (hok : unaryTypeDesc op operand = .ok d) :
    Cg.unaryTypeDescWithFunction op operand = .ok d ↔
      (op = '-' → operand.baseType ≠ .typeFloat) := by
  unfold unaryTypeDesc at hok
  split at hok
  · rename_i hop
    obtain rfl : op = '-' := by simpa using hop
    split at hok
    · cases hok
    · rename_i hnumeric
      unfold isNumeric at hnumeric
      simp only [Bool.or_eq_true, beq_iff_eq, Bool.not_eq_true', Bool.not_eq_false] at hnumeric
      rcases hnumeric with (hbase | hbase) | hbase
      · obtain rfl : operand = .int := eq_of_createPrimitive (by rw [hbase]; rfl)
        exact iff_of_true hok fun _ h => by cases h
      · obtain rfl : operand = .double := eq_of_createPrimitive (by rw [hbase]; rfl)
        exact iff_of_true hok fun _ h => by cases h
      · obtain rfl : operand = .float := eq_of_createPrimitive (by rw [hbase]; rfl)
        exact iff_of_false (fun h => by cases h) fun h => h rfl rfl
  · split at hok
    · rename_i hminus hop
      obtain rfl : op = '!' := by simpa using hop
      split at hok
      · cases hok
      · rename_i hbool
        obtain rfl : operand = .bool := eq_of_createPrimitive (by
          rw [show operand.baseType = .typeBool by simpa using hbool]
          rfl)
        exact iff_of_true hok fun h => by cases h
    · cases hok

theorem methodWithFunction_iff {target : TypeDescriptor} {name : Ident} :
    Cg.methodTypeDescWithFunction target name = .ok d ↔
      d = .nil ∧ isKnownMethod name target = true := by
  have hnil {p : Prop} [Decidable p] :
      (if p then .ok .nil else failed : CgResult TypeDescriptor) = .ok d ↔ d = .nil ∧ p := by
    split
    · rename_i hp
      exact ⟨fun h => ⟨(Except.ok.inj h).symm, hp⟩, fun h => h.1 ▸ rfl⟩
    · rename_i hp
      exact iff_of_false (fun h => by cases h) fun h => hp h.2
  cases target with
  | array element => exact hnil
  | dict key value => exact hnil
  | «class» className parentName fields =>
      exact ⟨fun h => ⟨(Except.ok.inj h).symm, rfl⟩, fun h => h.1 ▸ rfl⟩
  | _ => exact iff_of_false (fun h => by cases h) fun h => by cases h.2

/-- **One construct**, whose parts are followed, is followed exactly when
`cg_infer_expr_type_desc_with_function` has a case for it. -/
theorem followed_iff (hshares : cg.Shares cg') (hscope : cg.HoldsVars cg')
    (hok : cg.inferTypeDesc e = .ok d) (hparts : ∀ c ∈ e.followed, cg.Followed cg' fn c) :
    (cg'.inferTypeDescWithFunction (some fn) e = .ok d ∧
        (e.isLeft = true → ∀ f, e.Part f → cg.Reinferred cg' f)) ↔ cg.Follows cg' d e := by
  have hleft (hfollows : cg.Follows cg' d e ↔
        ∀ f, e.Part f → ∀ d, cg.inferTypeDesc f = .ok d → cg'.Resolves d f)
      (hsame : cg'.inferTypeDescWithFunction (some fn) e = cg'.inferTypeDesc e)
      (hisLeft : e.isLeft = true) :
      (cg'.inferTypeDescWithFunction (some fn) e = .ok d ∧
        (e.isLeft = true → ∀ f, e.Part f → cg.Reinferred cg' f)) ↔ cg.Follows cg' d e := by
    rw [hfollows, ← all_reinferred_iff hshares e]
    refine ⟨fun h => h.2 hisLeft, fun h => ⟨?_, fun _ => h⟩⟩
    rw [hsame]
    exact h e .refl d hok
  have hcase (hisLeft : e.isLeft = false)
      (hiff : cg'.inferTypeDescWithFunction (some fn) e = .ok d ↔ cg.Follows cg' d e) :
      (cg'.inferTypeDescWithFunction (some fn) e = .ok d ∧
        (e.isLeft = true → ∀ f, e.Part f → cg.Reinferred cg' f)) ↔ cg.Follows cg' d e := by
    rw [← hiff, hisLeft]
    exact and_iff_left fun h => by cases h
  cases e with
  | var name => exact hcase rfl (iff_of_true (withFunction_var hscope hok) trivial)
  | call name args => exact hcase rfl (withFunction_call_iff hok)
  | methodCall target name args isOptionalChain =>
      refine hcase rfl ?_
      rw [Cg.inferTypeDesc] at hok
      obtain ⟨t, ht, -⟩ := bind_eq_ok.mp hok
      have htarget := (hparts target List.mem_cons_self t ht).1
      rw [Cg.inferTypeDescWithFunction, htarget]
      refine methodWithFunction_iff.trans (and_congr_right fun _ => ?_)
      exact ⟨fun h t' ht' => Except.ok.inj (ht.symm.trans ht') ▸ h, fun h => h t ht⟩
  | binary op left right =>
      refine hcase rfl ?_
      obtain ⟨l, r, hl, hr, hop⟩ := inferTypeDesc_binary hok
      have hleft := (hparts left (by simp [ASTExpr.followed]) l hl).1
      have hright := (hparts right (by simp [ASTExpr.followed]) r hr).1
      rw [Cg.inferTypeDescWithFunction, hleft, hright]
      exact binaryWithFunction_iff hop
  | unary op operand =>
      refine hcase rfl ?_
      obtain ⟨x, hx, hop⟩ := inferTypeDesc_unary hok
      have hoperand := (hparts operand List.mem_cons_self x hx).1
      rw [Cg.inferTypeDescWithFunction, hoperand]
      refine (unaryWithFunction_iff hop).trans (forall_congr' fun _ => ?_)
      exact ⟨fun h t' ht' => Except.ok.inj (hx.symm.trans ht') ▸ h, fun h => h x hx⟩
  | _ => exact hleft Iff.rfl rfl rfl

theorem ASTExpr.sizeOf_followed (e : ASTExpr) : ∀ c ∈ e.followed, sizeOf c < sizeOf e := by
  intro c hc
  refine ASTExpr.sizeOf_inferred e c ?_
  cases e with
  | methodCall | binary | unary => exact hc
  | _ => cases hc

/-- **What the function infers** of an expression and the parts that it follows is what the
analysis infers exactly when it has a case for all of them. -/
theorem all_followed_iff (hshares : cg.Shares cg') (hscope : cg.HoldsVars cg') (e : ASTExpr) :
    (∀ f, Tree.Reaches ASTExpr.followed e f → cg.Followed cg' fn f) ↔
      ∀ f, Tree.Reaches ASTExpr.followed e f →
        ∀ d, cg.inferTypeDesc f = .ok d → cg.Follows cg' d f := by
  have hstep (f : ASTExpr) (hparts : ∀ c ∈ f.followed, cg.Followed cg' fn c) :
      cg.Followed cg' fn f ↔ ∀ d, cg.inferTypeDesc f = .ok d → cg.Follows cg' d f :=
    forall₂_congr fun d hok => followed_iff hshares hscope hok hparts
  exact Tree.forall_reaches_iff ASTExpr.sizeOf_followed hstep e

end Function

/-! ### The agreement -/

namespace Cg

variable (cg cg' : Cg)

/-- `cg_infer_expr_type_desc_with_function` infers the type that the analysis infers. -/
def InferredInFunction (fn : CgCallee) (e : ASTExpr) : Prop :=
  ∀ d, cg.inferTypeDesc e = .ok d → cg'.inferTypeDescWithFunction (some fn) e = .ok d

/-- **The inferences agree** on an expression: where there is a descriptor, its base type is the
one inferred without descriptors, and the function infers the same descriptor. -/
def InferencesAgree (fn : CgCallee) (e : ASTExpr) : Prop :=
  cg.BaseInferred e ∧ cg.InferredInFunction cg' fn e

end Cg

section Agreement

variable {cg cg' : Cg} {fn : CgCallee} {e : ASTExpr} {t : Option TypeDescriptor}

/-- **The inferences and their parts**: the base types of all parts are those of their
descriptors, and the function follows all parts, exactly when all are guessed right and it has a
case for all. -/
theorem inferences_agree_iff (fn : CgCallee) (hvars : cg.VarsTyped) (hshares : cg.Shares cg')
    (hscope : cg.HoldsVars cg') (haccept : cg.analyzeExpr e = .ok t) :
    ((∀ f, e.Part f → cg.BaseInferred f) ↔
        ∀ f, e.Part f → ∀ d, cg.inferTypeDesc f = .ok d → cg.Guessed d f) ∧
      ((∀ f, Tree.Reaches ASTExpr.followed e f → cg.Followed cg' fn f) ↔
        ∀ f, Tree.Reaches ASTExpr.followed e f →
          ∀ d, cg.inferTypeDesc f = .ok d → cg.Follows cg' d f) :=
  ⟨base_inferred_iff hvars haccept, all_followed_iff hshares hscope e⟩

/-- **Agreement of the inferences**, in every scope of the analysis and every state of the
generator with its tables and a function that holds its variables. -/
theorem inferences_agree (fn : CgCallee) (hvars : cg.VarsTyped) (hshares : cg.Shares cg')
    (hscope : cg.HoldsVars cg') (haccept : cg.analyzeExpr e = .ok t) :
    ((∀ f, e.Part f → ∀ d, cg.inferTypeDesc f = .ok d → cg.Guessed d f) →
        cg.BaseInferred e) ∧
      ((∀ f, Tree.Reaches ASTExpr.followed e f →
          ∀ d, cg.inferTypeDesc f = .ok d → cg.Follows cg' d f) →
        cg.InferredInFunction cg' fn e) := by
  obtain ⟨hbase, hfollowed⟩ := inferences_agree_iff fn hvars hshares hscope haccept
  refine ⟨fun hguessed => hbase.mpr hguessed e .refl, fun hfollows d hd => ?_⟩
  exact (hfollowed.mpr hfollows e .refl d hd).1

end Agreement

/-- The array variable `xs`. -/
def arrayVar (alloca : StackSlot) : CgVar where
  name := ['x', 's']
  alloca := alloca
  type := .typeArray
  typeDesc := some (.array .int)
  unboxedType := none
  isConst := false
  isInitialized := 0

/-- An analysed scope with that variable. -/
def scopeWithArray : Cg :=
  { Cg.init with globalVars := [arrayVar .unset] }

/-- The generator, in a function with that variable. -/
def functionWithArray : Cg :=
  { scopeWithArray with scope := [arrayVar (.alloca 0)] }

/-- The element `xs[0]`. -/
def firstElement : ASTExpr :=
  .index (.var ['x', 's']) (.int 0)

/-- The inferences agree on `xs[0]`. -/
theorem inferences_agree_firstElement :
    scopeWithArray.InferencesAgree functionWithArray ⟨[], false, none⟩ firstElement := by
  have hvars : scopeWithArray.VarsTyped := by
    refine List.forall_mem_singleton.mpr fun d hd => ?_
    obtain rfl := Option.some.inj hd
    rfl
  have hshares : scopeWithArray.Shares functionWithArray := ⟨rfl, rfl, List.suffix_rfl⟩
  have hscope : scopeWithArray.HoldsVars functionWithArray := by
    intro name d h
    by_cases hname : ['x', 's'] = name
    · subst hname
      exact h
    · have hnone : scopeWithArray.findVarInScope name = none :=
        List.find?_eq_none.mpr (List.forall_mem_singleton.mpr (by simp [arrayVar, hname]))
      rw [hnone] at h
      cases h
  obtain ⟨hbase, hfunction⟩ := inferences_agree ⟨[], false, none⟩ hvars hshares hscope
    (show scopeWithArray.analyzeExpr firstElement = .ok (some .int) from rfl)
  refine ⟨hbase (Tree.Reaches.forall_iff.mpr ⟨fun d hd => ?_, fun c hc => ?_⟩),
    hfunction (Tree.Reaches.forall_iff.mpr ⟨fun d hd => ?_, fun c hc => by cases hc⟩)⟩
  · obtain rfl : TypeDescriptor.int = d := Except.ok.inj hd
    exact fun h => by cases h
  · rcases List.mem_cons.mp hc with rfl | hc
    · exact Tree.Reaches.forall_iff.mpr ⟨fun d _ => trivial, fun c hc => by cases hc⟩
    · obtain rfl := List.mem_singleton.mp hc
      exact Tree.Reaches.forall_iff.mpr ⟨fun d _ => trivial, fun c hc => by cases hc⟩
  · refine Tree.Reaches.forall_iff.mpr ⟨fun d _ => trivial, fun c hc => ?_⟩
    rcases List.mem_cons.mp hc with rfl | hc
    · refine Tree.Reaches.forall_iff.mpr ⟨fun d hd => ?_, fun c hc => by cases hc⟩
      exact congrArg some (Except.ok.inj hd : TypeDescriptor.array .int = d)
    · obtain rfl := List.mem_singleton.mp hc
      exact Tree.Reaches.forall_iff.mpr ⟨fun d _ => trivial, fun c hc => by cases hc⟩

/-- A program that declares a class `C` with a method `m` that returns an `Int`. -/
def scopeWithClass : Cg :=
  { Cg.init with classes := [{
      name := ['C']
      parentName := none
      fields := []
      methods := [⟨['m'], [], .typeInt, some .int, none⟩]
      constructor := none
      methodFunctions := [none]
      constructorFunction := none }] }

/-- **The inferences differ** on accepted expressions: a member of a dictionary of doubles is an
`Int` without descriptors, and the function infers `Nil` for a method that returns an `Int`. -/
theorem inferences_differ :
    (∃ t, Cg.init.analyzeExpr
        (.member (.dict [(.stringLiteral ['a'], .double ⟨0⟩)]) ['a'] false) = .ok t) ∧
      Cg.init.VarsTyped ∧ Cg.init.Shares Cg.init ∧ Cg.init.HoldsVars Cg.init ∧
      ¬Cg.init.InferencesAgree Cg.init ⟨[], false, none⟩
        (.member (.dict [(.stringLiteral ['a'], .double ⟨0⟩)]) ['a'] false) ∧
      (∃ t, scopeWithClass.analyzeExpr
        (.methodCall (.classLiteral ['C'] []) ['m'] [] false) = .ok t) ∧
      scopeWithClass.VarsTyped ∧ scopeWithClass.Shares scopeWithClass ∧
      scopeWithClass.HoldsVars scopeWithClass ∧
      ¬scopeWithClass.InferencesAgree scopeWithClass ⟨[], false, none⟩
        (.methodCall (.classLiteral ['C'] []) ['m'] [] false) := by
  refine ⟨⟨some .double, rfl⟩, Cg.varsTyped_of_nil rfl, .refl _, ?_, fun h => ?_,
    ⟨some .int, rfl⟩, Cg.varsTyped_of_nil rfl, .refl _, ?_, fun h => ?_⟩
  · rintro name d ⟨⟩
  · cases h.1 .double rfl []
  · rintro name d ⟨⟩
  · cases h.2 .int rfl

end BreadLang
