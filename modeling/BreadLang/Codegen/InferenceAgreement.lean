import BreadLang.Codegen.IndexTyping
import BreadLang.Codegen.InferSimple
import BreadLang.Codegen.ValueFlows
import BreadLang.Compiler.Occurrences

/-!
# Agreement of the inferences

Three functions infer the type of an expression: `cg_infer_expr_type_desc_simple` and
`cg_infer_expr_type_simple` on the scope of the semantic analysis, and
`cg_infer_expr_type_desc_with_function` on that of the function being built.

An inference looks at some of the parts of an expression.  The inferences agree on an
expression when none of its parts is of a kind that they treat differently.
-/

namespace BreadLang

/-! ### Parts -/

/-- The parts of an expression that `cg_infer_expr_type_desc_simple` infers the types of. -/
def ASTExpr.inferred : ASTExpr → List ASTExpr
  | .binary _ left right => [left, right]
  | .unary _ operand => [operand]
  | .dict entries => entries.flatMap fun entry => [entry.1, entry.2]
  | .index target i => [target, i]
  | .member target _ _ => [target]
  | .methodCall target _ _ _ => [target]
  | .arrayLiteral elements => elements
  | .structLiteral _ fields | .classLiteral _ fields => fields.map Prod.snd
  | _ => []

/-- A part of an expression that is inferred with it, or the expression itself. -/
def ASTExpr.Part (e f : ASTExpr) : Prop :=
  Tree.Reaches ASTExpr.inferred e f

theorem ASTExpr.mem_children_of_inferred {e c : ASTExpr} (h : c ∈ e.inferred) :
    c ∈ e.children := by
  cases e with
  | methodCall target name args isOptionalChain =>
      obtain rfl := List.mem_singleton.mp h
      exact List.mem_cons_self
  | call name args => cases h
  | array items => cases h
  | _ => exact h

theorem ASTExpr.sizeOf_inferred (e : ASTExpr) : ∀ c ∈ e.inferred, sizeOf c < sizeOf e :=
  fun _ h => ASTNode.sizeOf_child (ASTExpr.mem_children_of_inferred h)

section Parts

variable {cg : Cg} {e c : ASTExpr} {d : TypeDescriptor} {t : Option TypeDescriptor}

theorem inferElements_mem {type type' : TypeDescriptor} :
    ∀ {elements : List ASTExpr}, cg.inferElements type elements = .ok type' →
      ∀ x ∈ elements, ∃ d, cg.inferTypeDesc x = .ok d
  | [], _ => fun x hx => absurd hx List.not_mem_nil
  | element :: elements, h => by
      rw [Cg.inferElements] at h
      obtain ⟨d, hd, h⟩ := bind_eq_ok.mp h
      refine List.forall_mem_cons.mpr ⟨⟨d, hd⟩, ?_⟩
      split at h
      · exact inferElements_mem h
      · obtain ⟨common, -, h⟩ := bind_eq_ok.mp h
        cases common with
        | some common => exact inferElements_mem h
        | none => cases h

theorem inferEntries_mem {key value : TypeDescriptor} :
    ∀ {entries : List (ASTExpr × ASTExpr)}, cg.inferEntries key value entries = .ok () →
      ∀ entry ∈ entries, ∃ k v, cg.inferTypeDesc entry.1 = .ok k ∧
        cg.inferTypeDesc entry.2 = .ok v ∧ k.baseType = key.baseType ∧
          v.baseType = value.baseType
  | [], _ => fun x hx => absurd hx List.not_mem_nil
  | (k, v) :: entries, h => by
      rw [Cg.inferEntries] at h
      obtain ⟨⟨dk, dv⟩, hboth, h⟩ := bind_eq_ok.mp h
      obtain ⟨hk, hv⟩ := inferBoth_eq_ok hboth
      dsimp only at h
      split at h
      · cases h
      · rename_i hequal
        simp only [Bool.or_eq_true, Bool.not_eq_true', not_or, Bool.not_eq_false] at hequal
        exact List.forall_mem_cons.mpr
          ⟨⟨dk, dv, hk, hv, (baseType_of_equals hequal.1).symm, (baseType_of_equals hequal.2).symm⟩,
            inferEntries_mem h⟩

theorem inferFields_mem {types : List (Ident × TypeDescriptor)} :
    ∀ {fields : List (Ident × ASTExpr)}, cg.inferFields fields = .ok types →
      ∀ field ∈ fields, ∃ d, cg.inferTypeDesc field.2 = .ok d
  | [], _ => fun x hx => absurd hx List.not_mem_nil
  | (name, value) :: fields, h => by
      rw [Cg.inferFields] at h
      obtain ⟨d, hd, h⟩ := bind_eq_ok.mp h
      obtain ⟨rest, hrest, -⟩ := bind_eq_ok.mp h
      exact List.forall_mem_cons.mpr ⟨⟨d, hd⟩, inferFields_mem hrest⟩

/-- **An inference that succeeds** has inferred the types of the parts. -/
theorem inferred_ok (h : cg.inferTypeDesc e = .ok d) :
    ∀ c ∈ e.inferred, ∃ dc, cg.inferTypeDesc c = .ok dc := by
  cases e with
  | binary op left right =>
      obtain ⟨l, r, hl, hr, -⟩ := inferTypeDesc_binary h
      exact List.forall_mem_cons.mpr ⟨⟨l, hl⟩, List.forall_mem_singleton.mpr ⟨r, hr⟩⟩
  | unary op operand =>
      obtain ⟨x, hx, -⟩ := inferTypeDesc_unary h
      exact List.forall_mem_singleton.mpr ⟨x, hx⟩
  | index target index =>
      rw [Cg.inferTypeDesc] at h
      obtain ⟨t, ht, h⟩ := bind_eq_ok.mp h
      obtain ⟨i, hi, -⟩ := bind_eq_ok.mp h
      exact List.forall_mem_cons.mpr ⟨⟨t, ht⟩, List.forall_mem_singleton.mpr ⟨i, hi⟩⟩
  | member target member isOptionalChain =>
      rw [Cg.inferTypeDesc] at h
      obtain ⟨t, ht, -⟩ := bind_eq_ok.mp h
      exact List.forall_mem_singleton.mpr ⟨t, ht⟩
  | methodCall target name args isOptionalChain =>
      rw [Cg.inferTypeDesc] at h
      obtain ⟨t, ht, -⟩ := bind_eq_ok.mp h
      exact List.forall_mem_singleton.mpr ⟨t, ht⟩
  | arrayLiteral elements =>
      cases elements with
      | nil => exact fun x hx => absurd hx List.not_mem_nil
      | cons element elements =>
          rw [Cg.inferTypeDesc] at h
          obtain ⟨t, ht, h⟩ := bind_eq_ok.mp h
          obtain ⟨t', helements, -⟩ := bind_eq_ok.mp h
          exact List.forall_mem_cons.mpr ⟨⟨t, ht⟩, inferElements_mem helements⟩
  | dict entries =>
      cases entries with
      | nil => exact fun x hx => absurd hx List.not_mem_nil
      | cons entry entries =>
          obtain ⟨key, value⟩ := entry
          rw [Cg.inferTypeDesc] at h
          obtain ⟨⟨k, v⟩, hboth, h⟩ := bind_eq_ok.mp h
          obtain ⟨⟨⟩, hentries, -⟩ := bind_eq_ok.mp h
          obtain ⟨hk, hv⟩ := inferBoth_eq_ok hboth
          intro c hc
          obtain ⟨entry, hentry, hc⟩ := List.mem_flatMap.mp hc
          rcases List.mem_cons.mp hentry with rfl | hentry
          · rcases List.mem_cons.mp hc with rfl | hc
            · exact ⟨k, hk⟩
            · obtain rfl := List.mem_singleton.mp hc
              exact ⟨v, hv⟩
          · obtain ⟨k', v', hk', hv', -⟩ := inferEntries_mem hentries entry hentry
            rcases List.mem_cons.mp hc with rfl | hc
            · exact ⟨k', hk'⟩
            · obtain rfl := List.mem_singleton.mp hc
              exact ⟨v', hv'⟩
  | structLiteral name fields =>
      rw [Cg.inferTypeDesc] at h
      obtain ⟨types, hfields, -⟩ := bind_eq_ok.mp h
      intro c hc
      obtain ⟨field, hfield, rfl⟩ := List.mem_map.mp hc
      exact inferFields_mem hfields field hfield
  | classLiteral name fields =>
      rw [Cg.inferTypeDesc] at h
      obtain ⟨types, hfields, -⟩ := bind_eq_ok.mp h
      intro c hc
      obtain ⟨field, hfield, rfl⟩ := List.mem_map.mp hc
      exact inferFields_mem hfields field hfield
  | _ => exact fun x hx => absurd hx List.not_mem_nil

theorem analyzeExprs_mem :
    ∀ {es : List ASTExpr}, cg.analyzeExprs es = .ok () →
      ∀ x ∈ es, ∃ t, cg.analyzeExpr x = .ok t
  | [], _ => fun x hx => absurd hx List.not_mem_nil
  | e :: es, h => by
      rw [Cg.analyzeExprs] at h
      obtain ⟨t, ht, h⟩ := bind_eq_ok.mp h
      exact List.forall_mem_cons.mpr ⟨⟨t, ht⟩, analyzeExprs_mem h⟩

theorem analyzeEntries_mem :
    ∀ {entries : List (ASTExpr × ASTExpr)}, cg.analyzeEntries entries = .ok () →
      ∀ entry ∈ entries, (∃ t, cg.analyzeExpr entry.1 = .ok t) ∧
        ∃ t, cg.analyzeExpr entry.2 = .ok t
  | [], _ => fun x hx => absurd hx List.not_mem_nil
  | (key, value) :: entries, h => by
      rw [Cg.analyzeEntries] at h
      obtain ⟨k, hk, h⟩ := bind_eq_ok.mp h
      obtain ⟨v, hv, h⟩ := bind_eq_ok.mp h
      exact List.forall_mem_cons.mpr ⟨⟨⟨k, hk⟩, v, hv⟩, analyzeEntries_mem h⟩

theorem analyzeFields_mem :
    ∀ {fields : List (Ident × ASTExpr)}, cg.analyzeFields fields = .ok () →
      ∀ field ∈ fields, ∃ t, cg.analyzeExpr field.2 = .ok t
  | [], _ => fun x hx => absurd hx List.not_mem_nil
  | (name, value) :: fields, h => by
      rw [Cg.analyzeFields] at h
      obtain ⟨t, ht, h⟩ := bind_eq_ok.mp h
      exact List.forall_mem_cons.mpr ⟨⟨t, ht⟩, analyzeFields_mem h⟩

/-- The analysis accepts the parts of what it accepts. -/
theorem accepted_inferred (h : cg.analyzeExpr e = .ok t) :
    ∀ c ∈ e.inferred, ∃ t, cg.analyzeExpr c = .ok t := by
  cases e with
  | binary op left right =>
      rw [Cg.analyzeExpr] at h
      obtain ⟨l, hl, h⟩ := bind_eq_ok.mp h
      obtain ⟨r, hr, -⟩ := bind_eq_ok.mp h
      exact List.forall_mem_cons.mpr ⟨⟨l, hl⟩, List.forall_mem_singleton.mpr ⟨r, hr⟩⟩
  | unary op operand =>
      rw [Cg.analyzeExpr] at h
      obtain ⟨x, hx, -⟩ := bind_eq_ok.mp h
      exact List.forall_mem_singleton.mpr ⟨x, hx⟩
  | index target index =>
      rw [Cg.analyzeExpr] at h
      obtain ⟨l, hl, h⟩ := bind_eq_ok.mp h
      obtain ⟨r, hr, -⟩ := bind_eq_ok.mp h
      exact List.forall_mem_cons.mpr ⟨⟨l, hl⟩, List.forall_mem_singleton.mpr ⟨r, hr⟩⟩
  | member target member isOptionalChain =>
      rw [Cg.analyzeExpr] at h
      obtain ⟨x, hx, -⟩ := bind_eq_ok.mp h
      exact List.forall_mem_singleton.mpr ⟨x, hx⟩
  | methodCall target name args isOptionalChain =>
      rw [Cg.analyzeExpr] at h
      obtain ⟨x, hx, -⟩ := bind_eq_ok.mp h
      exact List.forall_mem_singleton.mpr ⟨x, hx⟩
  | arrayLiteral elements =>
      rw [Cg.analyzeExpr] at h
      obtain ⟨⟨⟩, helements, -⟩ := bind_eq_ok.mp h
      exact analyzeExprs_mem helements
  | dict entries =>
      rw [Cg.analyzeExpr] at h
      obtain ⟨⟨⟩, hentries, -⟩ := bind_eq_ok.mp h
      intro c hc
      obtain ⟨entry, hentry, hc⟩ := List.mem_flatMap.mp hc
      obtain ⟨hkey, hvalue⟩ := analyzeEntries_mem hentries entry hentry
      rcases List.mem_cons.mp hc with rfl | hc
      · exact hkey
      · obtain rfl := List.mem_singleton.mp hc
        exact hvalue
  | structLiteral name fields =>
      rw [Cg.analyzeExpr] at h
      obtain ⟨⟨⟩, hfields, -⟩ := bind_eq_ok.mp h
      intro c hc
      obtain ⟨field, hfield, rfl⟩ := List.mem_map.mp hc
      exact analyzeFields_mem hfields field hfield
  | classLiteral name fields =>
      rw [Cg.analyzeExpr] at h
      obtain ⟨⟨⟩, hfields, -⟩ := bind_eq_ok.mp h
      intro c hc
      obtain ⟨field, hfield, rfl⟩ := List.mem_map.mp hc
      exact analyzeFields_mem hfields field hfield
  | _ => exact fun x hx => absurd hx List.not_mem_nil

/-- The descriptor in a node of an accepted expression. -/
theorem storedType_eq (h : cg.analyzeExpr e = .ok t) (hd : cg.inferTypeDesc e = .ok d) :
    cg.storedType e = some d := by
  rw [Cg.storedType, h]
  exact analyzeExpr_type h hd

end Parts

/-! ### Base types -/

namespace Reporting

/-- A computation that returns a value, whatever has been reported. -/
def Answers {α : Type} (m : Reporting α) (a : α) : Prop :=
  ∀ reported, m.result reported = .ok a

variable {α β : Type} {m : Reporting α} {f : α → Reporting β} {a a' : α} {b : β}

theorem answers_pure (a : α) : Answers (pure a) a :=
  fun _ => rfl

theorem Answers.bind (hm : Answers m a) (hf : Answers (f a) b) : Answers (m >>= f) b :=
  fun reported => Stateful.result_bind_eq_ok.mpr ⟨a, hm reported, hf _⟩

theorem Answers.unique (h : Answers m a) (h' : Answers m a') : a = a' :=
  Except.ok.inj ((h []).symm.trans (h' []))

theorem Answers.iff_eq (h : Answers m a) : Answers m a' ↔ a = a' :=
  ⟨h.unique, fun heq => heq ▸ h⟩

theorem answers_nilAfter (message : String) : Answers (nilAfter message) .typeNil :=
  fun _ => rfl

end Reporting

open Reporting

section BaseTypes

variable {cg : Cg} {op : Char} {left right operand d : TypeDescriptor}

/-- The binary operators have the base type that their descriptor has. -/
theorem binaryType_answers (h : binaryTypeDesc op left right = .ok d) :
    Answers (binaryType op left.baseType right.baseType) d.baseType := by
  intro reported
  rcases binaryTypeDesc_cases h with ⟨rfl, hleft, hright, rfl⟩ | ⟨hop, hsame, hnumeric, hd⟩ |
    ⟨hcompare, hop, rfl⟩ | ⟨hop, hleft, hright, rfl⟩
  · rw [hleft, hright]
    rfl
  · rw [← hsame, hd]
    unfold isNumeric at hnumeric
    simp only [Bool.or_eq_true, beq_iff_eq] at hnumeric
    unfold binaryType
    rw [hop, if_pos rfl]
    rcases hnumeric with (hbase | hbase) | hbase <;> rw [hbase] <;>
      cases op == '+' <;> rfl
  · unfold binaryType
    rw [hop, if_neg Bool.false_ne_true, if_pos]
    · rfl
    · unfold isComparisonOp at hcompare
      simp only [Bool.or_eq_true, beq_iff_eq] at hcompare ⊢
      tauto
  · rw [hleft, hright]
    rcases hop with rfl | rfl <;> rfl

theorem unaryType_answers (h : unaryTypeDesc op operand = .ok d) :
    Answers (unaryType op operand.baseType) d.baseType := by
  intro reported
  unfold unaryTypeDesc at h
  split at h
  · rename_i hop
    obtain rfl : op = '-' := by simpa using hop
    split at h
    · cases h
    · rename_i hnumeric
      unfold isNumeric at hnumeric
      simp only [Bool.or_eq_true, beq_iff_eq, Bool.not_eq_true', Bool.not_eq_false] at hnumeric
      split at h
      · rename_i hint
        cases h
        have hbase : operand.baseType = .typeInt := by simpa using hint
        rw [hbase]
        rfl
      · rename_i hint
        cases h
        have hbase : operand.baseType ≠ .typeInt := by simpa using hint
        rcases hnumeric with (hbase' | hbase') | hbase'
        · exact absurd hbase' hbase
        · rw [hbase']
          rfl
        · rw [hbase']
          rfl
  · split at h
    · rename_i hop
      obtain rfl : op = '!' := by simpa using hop
      split at h
      · cases h
      · rename_i hbool
        cases h
        have hbase : operand.baseType = .typeBool := by simpa using hbool
        rw [hbase]
        rfl
    · cases h

end BaseTypes

/-! ### The inference of base types -/

namespace Cg

variable (cg : Cg)

/-- The base type of a variable goes with its descriptor. -/
def VarsTyped : Prop :=
  ∀ v ∈ cg.globalVars, ∀ d, v.typeDesc = some d → v.type = d.baseType

/-- What a call has the type of, when classes come before functions and these before the
built-in functions. -/
def callBase (name : Ident) : Option VarType :=
  match cg.findClass name with
  | some _ => some .typeClass
  | none =>
      match cg.findFunction name with
      | some func => func.returnInfo.map Prod.fst
      | none => (builtinLookup name).map BuiltinFunction.returnType

/-- **The expressions with this descriptor that `cg_infer_expr_type_simple` guesses right**: an
`Int` member, a method that returns `Nil`, an index expression that is not `Nil`, a call that
means the same when classes come first, and a literal with elements of one base type. -/
def Guessed (d : TypeDescriptor) : ASTExpr → Prop
  | .member _ _ _ => d.baseType = .typeInt
  | .methodCall _ _ _ _ => d.baseType = .typeNil
  | .index _ _ => d.baseType ≠ .typeNil
  | .call name _ => cg.callBase name = some d.baseType
  | .arrayLiteral elements => ∀ x ∈ elements, ∀ y ∈ elements, ∀ dx dy,
      cg.inferTypeDesc x = .ok dx → cg.inferTypeDesc y = .ok dy → dx.baseType = dy.baseType
  | _ => True

/-- `cg_infer_expr_type_simple` infers the base type of the descriptor. -/
def BaseInferred (e : ASTExpr) : Prop :=
  ∀ d, cg.inferTypeDesc e = .ok d → Answers (cg.inferType cg.storedType e) d.baseType

end Cg

section Nodes

variable {cg : Cg} {e : ASTExpr} {d : TypeDescriptor} {t : Option TypeDescriptor}

theorem var_answers (hvars : cg.VarsTyped) {name : Ident}
    (h : cg.inferTypeDesc (.var name) = .ok d) :
    Answers (cg.inferType cg.storedType (.var name)) d.baseType := by
  intro reported
  rw [Cg.inferTypeDesc] at h
  rw [Cg.inferType]
  cases hfind : cg.findVarInScope name with
  | none =>
      rw [hfind] at h
      cases h
  | some v =>
      rw [hfind] at h
      have hdesc : v.typeDesc = some d := by
        cases hv : v.typeDesc with
        | none =>
            simp only [Option.bind_some, hv] at h
            cases h
        | some d' =>
            simp only [Option.bind_some, hv] at h
            cases h
            rfl
      exact congrArg Except.ok (hvars v (List.mem_of_find?_eq_some hfind) d hdesc)

/-- The resolution of a call that puts classes first. -/
theorem call_answers_iff {name : Ident} {args : List ASTExpr}
    (h : cg.inferTypeDesc (.call name args) = .ok d) :
    Answers (cg.inferType cg.storedType (.call name args)) d.baseType ↔
      cg.callBase name = some d.baseType := by
  have hpure {t : VarType} : Answers (pure t) d.baseType ↔ some t = some d.baseType :=
    (answers_pure t).iff_eq.trans Option.some_inj.symm
  rw [Cg.inferTypeDesc] at h
  rw [Cg.inferType]
  unfold Cg.callType Cg.callBase
  unfold Cg.callTypeDesc at h
  cases hclass : cg.findClass name with
  | some c => exact hpure
  | none =>
      cases hfunction : cg.findFunction name with
      | some func =>
          dsimp only
          cases func.returnInfo with
          | some info => exact hpure
          | none => exact iff_of_false (fun h => by cases h []) fun h => by cases h
      | none =>
          cases hbuiltin : builtinLookup name with
          | some builtin => exact hpure
          | none =>
              -- only `range` has a type and is none of these
              split at h
              · cases h
                exact iff_of_false (fun h => by cases h []) fun h => by cases h
              · rw [hbuiltin, hfunction, hclass] at h
                cases h

/-- The loop over the elements answers `Array` if they are all of one base type. -/
theorem elementTypes_answers (base : VarType) :
    ∀ {elements : List ASTExpr},
      (∀ x ∈ elements, ∃ d, cg.inferTypeDesc x = .ok d) →
      (∀ x ∈ elements, cg.BaseInferred x) →
        ∃ t, Answers (cg.inferElementTypes cg.storedType base elements) t ∧
          (t = .typeArray ↔
            ∀ x ∈ elements, ∀ d, cg.inferTypeDesc x = .ok d → d.baseType = base)
  | [], _, _ => by
      rw [Cg.inferElementTypes]
      exact ⟨.typeArray, answers_pure _,
        iff_of_true rfl fun x hx => absurd hx List.not_mem_nil⟩
  | element :: elements, hinferred, hbase => by
      obtain ⟨⟨d, hd⟩, hinferred⟩ := List.forall_mem_cons.mp hinferred
      obtain ⟨hfirst, hbase⟩ := List.forall_mem_cons.mp hbase
      rw [Cg.inferElementTypes, List.forall_mem_cons]
      by_cases hsame : d.baseType = base
      · obtain ⟨t, ht, hiff⟩ := elementTypes_answers base hinferred hbase
        refine ⟨t, (hfirst d hd).bind ?_, hiff.trans (and_iff_right fun d' hd' => ?_).symm⟩
        · rw [if_neg (by simpa using hsame)]
          exact ht
        · exact Except.ok.inj (hd.symm.trans hd') ▸ hsame
      · have hdiffers : ¬∀ d', cg.inferTypeDesc element = .ok d' → d'.baseType = base :=
          fun h => hsame (h d hd)
        refine ⟨.typeNil, (hfirst d hd).bind ?_,
          iff_of_false (fun h => by cases h) fun h => hdiffers h.1⟩
        rw [if_pos (by simpa using hsame)]
        exact answers_nilAfter _

/-- The loop over the entries of a literal that has a type answers `Dict`. -/
theorem entryTypes_answers {key value : TypeDescriptor} :
    ∀ {entries : List (ASTExpr × ASTExpr)}, cg.inferEntries key value entries = .ok () →
      (∀ entry ∈ entries, cg.BaseInferred entry.1 ∧ cg.BaseInferred entry.2) →
        Answers (cg.inferEntryTypes cg.storedType key.baseType value.baseType entries) .typeDict
  | [], _, _ => by
      rw [Cg.inferEntryTypes]
      exact answers_pure _
  | (k, v) :: entries, h, hbase => by
      obtain ⟨⟨dk, dv, hk, hv, hkey, hvalue⟩, -⟩ := List.forall_mem_cons.mp (inferEntries_mem h)
      obtain ⟨⟨hbasek, hbasev⟩, hbase⟩ := List.forall_mem_cons.mp hbase
      have hentries : cg.inferEntries key value entries = .ok () := by
        rw [Cg.inferEntries] at h
        obtain ⟨both, -, h⟩ := bind_eq_ok.mp h
        dsimp only at h
        split at h
        · cases h
        · exact h
      rw [Cg.inferEntryTypes]
      refine (hbasek dk hk).bind ((hbasev dv hv).bind ?_)
      rw [hkey, hvalue, if_neg (by simp)]
      exact entryTypes_answers hentries hbase

/-- The guess at an index expression. -/
theorem index_answers_iff {target index : ASTExpr}
    (haccept : cg.analyzeExpr target = .ok t) (hbase : cg.BaseInferred target)
    (h : cg.inferTypeDesc (.index target index) = .ok d) :
    Answers (cg.inferType cg.storedType (.index target index)) d.baseType ↔
      d.baseType ≠ .typeNil := by
  rw [Cg.inferTypeDesc] at h
  obtain ⟨dt, hdt, h⟩ := bind_eq_ok.mp h
  obtain ⟨di, -, h⟩ := bind_eq_ok.mp h
  have hanswer {t : VarType}
      (hrest : Answers (indexedType dt.baseType (some dt)) t)
      (hstring : dt.baseType ≠ .typeString) :
      Answers (cg.inferType cg.storedType (.index target index)) t := by
    rw [Cg.inferType]
    refine (hbase dt hdt).bind ?_
    rw [if_neg (by simpa using hstring), storedType_eq haccept hdt]
    exact hrest
  have hheld (hheld : heldType dt = d.baseType)
      (hguess : Answers (guessIndexed dt.baseType) .typeInt)
      (hstring : dt.baseType ≠ .typeString) :
      Answers (cg.inferType cg.storedType (.index target index)) d.baseType ↔
        d.baseType ≠ .typeNil := by
    by_cases hnil : d.baseType = .typeNil
    · have hint : Answers (indexedType dt.baseType (some dt)) .typeInt := by
        rw [indexedType, hheld, hnil]
        exact hguess
      rw [(hanswer hint hstring).iff_eq, hnil]
      exact iff_of_false (fun h => by cases h) fun h => h rfl
    · refine iff_of_true (hanswer ?_ hstring) hnil
      rw [indexedType, hheld, if_pos (by simpa using hnil)]
      exact answers_pure _
  rcases indexTypeDesc_ok h with ⟨rfl, -⟩ | ⟨rfl, -, rfl⟩ | ⟨key, rfl⟩
  · exact hheld rfl (answers_pure _) fun h => by cases h
  · refine iff_of_true ?_ fun h => by cases h
    rw [Cg.inferType]
    exact (hbase _ hdt).bind (answers_pure _)
  · exact hheld rfl (answers_pure _) fun h => by cases h

/-- A literal with elements. -/
theorem arrayLiteral_answers_iff {element : ASTExpr} {elements : List ASTExpr}
    (hbase : ∀ x ∈ element :: elements, cg.BaseInferred x)
    (h : cg.inferTypeDesc (.arrayLiteral (element :: elements)) = .ok d) :
    Answers (cg.inferType cg.storedType (.arrayLiteral (element :: elements))) d.baseType ↔
      cg.Guessed d (.arrayLiteral (element :: elements)) := by
  have hinferred : ∀ x ∈ element :: elements, ∃ d, cg.inferTypeDesc x = .ok d := inferred_ok h
  obtain ⟨⟨first, hfirst⟩, hrest⟩ := List.forall_mem_cons.mp hinferred
  obtain ⟨hbaseFirst, hbaseRest⟩ := List.forall_mem_cons.mp hbase
  obtain ⟨t, ht, hiff⟩ := elementTypes_answers first.baseType hrest hbaseRest
  have hanswer : Answers (cg.inferType cg.storedType (.arrayLiteral (element :: elements))) t := by
    rw [Cg.inferType]
    exact (hbaseFirst first hfirst).bind ht
  have harray : d.baseType = .typeArray := by
    rw [Cg.inferTypeDesc] at h
    obtain ⟨d₁, -, h⟩ := bind_eq_ok.mp h
    obtain ⟨d₂, -, h⟩ := bind_eq_ok.mp h
    cases h
    rfl
  rw [hanswer.iff_eq, harray, hiff]
  constructor
  · intro hsame
    have hall : ∀ x ∈ element :: elements, ∀ d, cg.inferTypeDesc x = .ok d →
        d.baseType = first.baseType :=
      List.forall_mem_cons.mpr
        ⟨fun d hd => by rw [Except.ok.inj (hfirst.symm.trans hd)], hsame⟩
    exact fun x hx y hy dx dy hdx hdy => (hall x hx dx hdx).trans (hall y hy dy hdy).symm
  · exact fun hsame x hx dx hdx =>
      hsame x (List.mem_cons_of_mem _ hx) element List.mem_cons_self dx first hdx hfirst

/-- **One construct**: whose parts have the base types of their descriptors has that of its own
exactly when it is guessed right. -/
theorem baseInferred_iff (hvars : cg.VarsTyped) (haccept : cg.analyzeExpr e = .ok t)
    (h : cg.inferTypeDesc e = .ok d) (hparts : ∀ c ∈ e.inferred, cg.BaseInferred c) :
    Answers (cg.inferType cg.storedType e) d.baseType ↔ cg.Guessed d e := by
  cases e with
  | var name => exact iff_of_true (var_answers hvars h) trivial
  | call name args => exact call_answers_iff h
  | binary op left right =>
      refine iff_of_true ?_ trivial
      obtain ⟨l, r, hl, hr, h⟩ := inferTypeDesc_binary h
      rw [Cg.inferType]
      exact (hparts left (by simp [ASTExpr.inferred]) l hl).bind
        ((hparts right (by simp [ASTExpr.inferred]) r hr).bind (binaryType_answers h))
  | unary op operand =>
      refine iff_of_true ?_ trivial
      obtain ⟨x, hx, h⟩ := inferTypeDesc_unary h
      rw [Cg.inferType]
      exact (hparts operand List.mem_cons_self x hx).bind (unaryType_answers h)
  | index target index =>
      obtain ⟨t, ht⟩ := accepted_inferred haccept target List.mem_cons_self
      exact index_answers_iff ht (hparts target List.mem_cons_self) h
  | member target member isOptionalChain =>
      rw [Cg.inferType, (answers_pure _).iff_eq]
      exact eq_comm
  | methodCall target name args isOptionalChain =>
      rw [Cg.inferTypeDesc] at h
      obtain ⟨dt, hdt, -⟩ := bind_eq_ok.mp h
      have hnil : Answers (cg.inferType cg.storedType
          (.methodCall target name args isOptionalChain)) .typeNil := by
        rw [Cg.inferType]
        exact (hparts target List.mem_cons_self dt hdt).bind (answers_pure _)
      exact hnil.iff_eq.trans eq_comm
  | arrayLiteral elements =>
      cases elements with
      | nil =>
          rw [Cg.inferTypeDesc] at h
          cases h
          rw [Cg.inferType]
          exact iff_of_true (answers_pure _) fun x hx => absurd hx List.not_mem_nil
      | cons element elements => exact arrayLiteral_answers_iff hparts h
  | dict entries =>
      refine iff_of_true ?_ trivial
      cases entries with
      | nil =>
          rw [Cg.inferTypeDesc] at h
          cases h
          rw [Cg.inferType]
          exact answers_pure _
      | cons entry entries =>
          obtain ⟨key, value⟩ := entry
          rw [Cg.inferTypeDesc] at h
          obtain ⟨⟨k, v⟩, hboth, h⟩ := bind_eq_ok.mp h
          obtain ⟨⟨⟩, hentries, h⟩ := bind_eq_ok.mp h
          obtain ⟨hk, hv⟩ := inferBoth_eq_ok hboth
          cases h
          have hentry : ∀ entry ∈ (key, value) :: entries,
              cg.BaseInferred entry.1 ∧ cg.BaseInferred entry.2 := fun entry hentry =>
            ⟨hparts _ (List.mem_flatMap.mpr ⟨entry, hentry, by simp⟩),
              hparts _ (List.mem_flatMap.mpr ⟨entry, hentry, by simp⟩)⟩
          obtain ⟨⟨hkey, hvalue⟩, hrest⟩ := List.forall_mem_cons.mp hentry
          rw [Cg.inferType]
          exact (hkey k hk).bind ((hvalue v hv).bind (entryTypes_answers hentries hrest))
  | structLiteral name fields =>
      rw [Cg.inferTypeDesc] at h
      obtain ⟨types, -, h⟩ := bind_eq_ok.mp h
      cases h
      rw [Cg.inferType]
      exact iff_of_true (answers_pure _) trivial
  | classLiteral name fields =>
      rw [Cg.inferTypeDesc] at h
      obtain ⟨types, -, h⟩ := bind_eq_ok.mp h
      cases h
      rw [Cg.inferType]
      exact iff_of_true (answers_pure _) trivial
  | null | self | super | array items =>
      rw [Cg.inferTypeDesc] at h
      cases h
  | _ =>
      rw [Cg.inferTypeDesc] at h
      cases h
      rw [Cg.inferType]
      exact iff_of_true (answers_pure _) trivial

theorem accepted_part {f : ASTExpr} (haccept : cg.analyzeExpr e = .ok t) (hf : e.Part f) :
    ∃ t, cg.analyzeExpr f = .ok t := by
  induction hf with
  | refl => exact ⟨t, haccept⟩
  | tail _ hc ih =>
      obtain ⟨t, ht⟩ := ih
      exact accepted_inferred ht _ hc

/-- **The base types of an expression** and of all its parts are those of the descriptors
exactly when all parts are guessed right. -/
theorem base_inferred_iff (hvars : cg.VarsTyped) (haccept : cg.analyzeExpr e = .ok t) :
    (∀ f, e.Part f → cg.BaseInferred f) ↔
      ∀ f, e.Part f → ∀ d, cg.inferTypeDesc f = .ok d → cg.Guessed d f := by
  have hiff := Tree.forall_reaches_iff ASTExpr.sizeOf_inferred
    (P := fun f => (∃ t, cg.analyzeExpr f = .ok t) → cg.BaseInferred f)
    (Q := fun f => (∃ t, cg.analyzeExpr f = .ok t) →
      ∀ d, cg.inferTypeDesc f = .ok d → cg.Guessed d f)
    (fun f hgood => forall_congr' fun h => by
      obtain ⟨t, ht⟩ := h
      have hparts : ∀ c ∈ f.inferred, cg.BaseInferred c := fun c hc =>
        hgood c hc (accepted_inferred ht c hc)
      exact forall₂_congr fun d hd => baseInferred_iff hvars ht hd hparts) e
  constructor
  · exact fun h f hf => hiff.mp (fun f hf _ => h f hf) f hf (accepted_part haccept hf)
  · exact fun h f hf => hiff.mpr (fun f hf _ => h f hf) f hf (accepted_part haccept hf)

end Nodes

/-! ### The variables of the analysis -/

theorem Cg.varsTyped_of_nil {cg : Cg} (h : cg.globalVars = []) : cg.VarsTyped := by
  intro v hv
  rw [h] at hv
  cases hv

/-- **Every scope of the semantic analysis** has variables whose base types go with their
descriptors. -/
theorem stable_varsTyped : Analyze.Stable Cg.VarsTyped where
  enterScope _ h := h
  leaveScope _ h := fun v hv => h v (List.mem_of_mem_filter hv)
  declareVar cg cg' name typeDesc isConst hdeclare h := by
    unfold Cg.declareVar at hdeclare
    split at hdeclare
    · cases hdeclare
    · cases typeDesc with
      | none => cases hdeclare
      | some d =>
          cases hdeclare
          refine List.forall_mem_cons.mpr ⟨fun d' hd' => ?_, h⟩
          obtain rfl := Option.some.inj hd'
          rfl
  declareStruct cg cg' name fields hdeclare h := by
    unfold Cg.declareStructFromAst at hdeclare
    split at hdeclare
    · cases hdeclare
    · cases hdeclare
      exact h
  declareClass cg cg' name parentName fields methods constructor hdeclare h := by
    unfold Cg.declareClassFromAst at hdeclare
    split at hdeclare
    · cases hdeclare
    · cases hdeclare
      exact h

end BreadLang
