import BreadLang.Codegen.ScopedBlocks
import BreadLang.Codegen.Terminators
import BreadLang.Library.BlockPaths
import BreadLang.Library.StructuredFlow

/-!
# The paths of compiled code

What the statements of a body do on every path through them, as their structure says it
(`codeWays`): a branch is taken or not, a loop goes from turn to turn, `break` and `continue`
concern the innermost loop.  Which way a test goes is left open, and so are the values.

`emitBody_paths` is the theorem: through the basic blocks that are emitted for the body there
are these paths and no others, with the same instructions in the same order.
-/

namespace BreadLang

open BasicBlocks BasicBlocks.Builder
open scoped Computability

/-! ### Actions -/

/-- What an instruction does.  To which depth the scopes are popped is not followed. -/
inductive Action where
  | does (i : Instr)
  | pops

def Instr.action : Instr → Action
  | .popTo _ => .pops
  | i => .does i

/-- The actions of some instructions. -/
def word (is : List Instr) : Language Action :=
  {is.map Instr.action}

@[simp] theorem word_nil : word [] = 1 := rfl

theorem word_cons (i : Instr) (is : List Instr) : word (i :: is) = {[i.action]} * word is := by
  ext actions
  rw [Language.mem_mul]
  constructor
  · rintro rfl
    exact ⟨_, rfl, _, rfl, rfl⟩
  · rintro ⟨_, rfl, _, rfl, rfl⟩
    rfl

theorem word_append (is js : List Instr) : word (is ++ js) = word is * word js := by
  induction is with
  | nil => rw [List.nil_append, word_nil, one_mul]
  | cons i is ih => rw [List.cons_append, word_cons, word_cons, ih, mul_assoc]

/-! ### Paths of statements -/

/-- Instructions without a branch. -/
def steps (is : List Instr) : Ways (Language Action) :=
  .does (word is)

/-- A test, and a branch out of the loop. -/
def testOr (i : Instr) : Ways (Language Action) :=
  .guard (word [i])

def popping : Ways (Language Action) :=
  .does {[.pops]}

@[simp] theorem meets_steps (is : List Instr) (after : Ways (Language Action)) :
    (steps is).meets after = word is * after.normal :=
  Ways.meets_does _ _

@[simp] theorem meets_testOr (i : Instr) (after : Ways (Language Action)) :
    (testOr i).meets after = {[i.action]} * (after.normal + after.broken) :=
  Ways.meets_guard _ _

@[simp] theorem meets_popping (after : Ways (Language Action)) :
    popping.meets after = {[.pops]} * after.normal :=
  Ways.meets_does _ _

/-- A block, in a scope of its own if it has one. -/
def inBlock (hasScope : Bool) (f : Ways (Language Action)) : Ways (Language Action) :=
  if hasScope then (steps [.scopeDepth, .pushScope]).seq (f.seq popping) else f

/-- A turn of a loop. -/
def turnOf (hasScope : Bool) (enter : List Instr) (f : Ways (Language Action)) :
    Ways (Language Action) :=
  if hasScope then
    (steps ([.scopeDepth, .pushScope, .storeLoopBase] ++ enter)).seq (f.seq popping)
  else (steps enter).seq f

/-- What is popped before a `break` or `continue`, if the loop has a scope: one of this
function, or of another one. -/
def leaving (inScope popsScope : Bool) : Language Action :=
  if inScope then {[.pops]} else if popsScope then word [.popForeign] else 1

/-- The instructions of a statement that has no blocks of its own. -/
def CodeStmt.straight : CodeStmt → Option (List Instr)
  | .eval value => some [.value value]
  | .print value => some [.value value, .print]
  | .storeSlot slot value mirror => some ([.value value, .storeSlot slot] ++ mirrorInstrs mirror)
  | .storeUnboxed slot _ value mirror =>
      some ([.cgValue value, .storeSlot slot] ++ mirrorInstrs mirror)
  | .varAssign name value => some [.value value, .varAssign name]
  | .indexSet index target value => some [.value index, .value target, .value value, .indexSet]
  | .indexUpdate index target op value =>
      some [.value index, .value target, .indexGet, .value value, .binaryOp op, .indexSet]
  | .memberSet target member value => some [.value target, .value value, .memberSet member]
  | .memberUpdate target member op value =>
      some [.value target, .memberGet member, .value value, .binaryOp op, .memberSet member]
  | .truncated => some [.value (.op .setNil [])]
  | _ => none

mutual

/-- **The paths of a statement**, in a loop of this function that has a scope or not. -/
def CodeStmt.ways (inScope : Bool) : CodeStmt → Ways (Language Action)
  | .varDecl name type isConst value =>
      (steps [.value value, .loop .initName]).seq
        ((((testOr (.loop .testName)).seq (steps [.loop .copyByte])).loop 1).seq
          (steps [.varDecl name type isConst]))
  | .ifThenElse condition hasScope thenCode none =>
      (steps [.value condition]).seq ((inBlock hasScope (codeWays inScope thenCode)).choice (steps []))
  | .ifThenElse condition hasScope thenCode (some elseCode) =>
      (steps [.value condition]).seq ((inBlock hasScope (codeWays inScope thenCode)).choice
        (inBlock hasScope (codeWays inScope elseCode)))
  | .whileLoop condition hasScope body =>
      ((testOr (.value condition)).seq
        (turnOf hasScope [] (codeWays (hasScope || inScope) body))).loop 1
  | .forRange name start stop step hasScope body =>
      (steps [.loop (.initRange start), .varDeclIfMissing ⟨name, .typeInt, false⟩]).seq
        (((testOr (.loop (.testRange stop step))).seq
          (turnOf hasScope [.varAssign name] (codeWays (hasScope || inScope) body))).loop
            (word [.loop (.stepRange step)]))
  | .forIn name iterable isDict hasScope body =>
      ((steps [.value iterable]).seq
        ((if isDict then testOr (.loop .testKeys) else steps []).seq
          ((steps [.loop .initIndex, .loop .arrayLength]).seq
            ((testOr (.loop .testLength)).seq
              ((steps [.varDeclIfMissing ⟨name, .typeNil, false⟩]).seq
                (((testOr (.loop .testIndex)).seq ((steps [.loop .arrayGet]).seq
                  ((testOr (.loop .testElement)).seq
                    (turnOf hasScope [.varAssign name]
                      (codeWays (hasScope || inScope) body))))).loop
                        (word [.loop .stepIndex]))))))).catchBreak
  | .breakLoop popsScope => .breaks (leaving inScope popsScope)
  | .continueLoop popsScope => .continues (leaving inScope popsScope)
  | .ret value => .returns (word [.value value, .copyReturn, .popToSafe])
  | s => steps (s.straight.getD [])

/-- The paths of a list of statements. -/
def codeWays (inScope : Bool) : List CodeStmt → Ways (Language Action)
  | [] => steps []
  | s :: rest => (s.ways inScope).seq (codeWays inScope rest)

end

/-- What is emitted at the end of a body that control comes to. -/
def BodyKind.closing : BodyKind → List Instr
  | .main => [.runtimeCleanup]
  | kind => kind.epilogue

/-- **The paths of a body**, from its beginning until it returns. -/
def bodyPaths (kind : BodyKind) (code : List CodeStmt) : Language Action :=
  word kind.prologue * (codeWays false code).meets ⟨word kind.closing, 0, 0, 1⟩

/-! ### Paths through blocks -/

/-- How the blocks are read. -/
def blockReading : Reading Instr Terminator Action where
  letter := Instr.action
  targets := Terminator.targets
  leaves t := t = .retVoid ∨ t = .ret

namespace Emission

/-- What is done from the beginning of a block on, if it is one of this function. -/
def pathsAt (F : BasicBlocks.Builder Instr Terminator) : Option ℕ → Language Action
  | none => 0
  | some i => blockReading.paths F i 0

/-- What is done in the whole function from the place on where the builder is. -/
def ahead (F : BasicBlocks.Builder Instr Terminator) (e : Emission) : Language Action :=
  blockReading.paths F e.here.block e.here.index

/-- What is done after each way out of a piece of code. -/
def after (F : BasicBlocks.Builder Instr Terminator) (e : Emission) (normal : Language Action) :
    Ways (Language Action) :=
  ⟨normal, pathsAt F e.loopEnd, pathsAt F e.loopContinue, 1⟩

/-- **What control goes on with**: the blocks of an emission are those of the whole function as
far as they are emitted, and so much is done from there on. -/
structure GoesOn (F : BasicBlocks.Builder Instr Terminator) (e : Emission) (l : Language Action) :
    Prop where
  within : Extends e.toBuilder F
  ahead : e.ahead F = l

section GoesOn

variable {F b : BasicBlocks.Builder Instr Terminator} {e e' : Emission} {l : Language Action}
  {i j : ℕ} {pending : List ℕ}

theorem goesOn_self (h : Extends e.toBuilder F) : GoesOn F e (e.ahead F) :=
  ⟨h, rfl⟩

/-- An item that has been emitted stands there in the whole function. -/
theorem item_of_extends {x : Item Instr Terminator} (h : Extends (e.toBuilder.append x) F) :
    (F.block e.here.block)[e.here.index]? = some x := by
  have hlast : ((e.toBuilder.append x).block e.current)[(e.block e.current).length]? = some x := by
    rw [block_append_current, List.getElem?_append_right le_rfl, Nat.sub_self]
    rfl
  obtain ⟨rest, hrest⟩ := h.2 e.current
  show (F.block e.current)[(e.block e.current).length]? = some x
  rw [← hrest, List.getElem?_append_left (List.getElem?_eq_some_iff.mp hlast).1]
  exact hlast

theorem GoesOn.instr {i : Instr} (h : GoesOn F (e.instr i) l) :
    GoesOn F e ({[i.action]} * l) := by
  refine ⟨(grows_instr e i).blocks.trans h.within, ?_⟩
  have hhere : (e.instr i).here = ⟨e.here.block, e.here.index + 1⟩ := by
    show Position.mk e.current ((e.toBuilder.append _).block e.current).length = _
    rw [block_append_current, List.length_append]
    rfl
  have hahead := h.ahead
  rw [Emission.ahead, hhere] at hahead
  rw [Emission.ahead, Reading.paths_instr (item_of_extends h.within), hahead]
  rfl

theorem GoesOn.instrs {is : List Instr} : ∀ {e : Emission}, GoesOn F (e.instrs is) l →
    GoesOn F e (word is * l) := by
  induction is with
  | nil =>
      intro e h
      rw [word_nil, one_mul]
      exact h
  | cons i is ih =>
      intro e h
      rw [word_cons, mul_assoc]
      exact (ih h).instr

/-- A branch to a block. -/
theorem goesOn_br {target : Option ℕ} (h : Extends (e.terminate (.br target)).toBuilder F) :
    GoesOn F e (pathsAt F target) := by
  refine ⟨(grows_terminate e _).blocks.trans h, ?_⟩
  have hbranch := Reading.paths_branch (R := blockReading) (item_of_extends h)
    (by rintro (h | h) <;> cases h)
  rw [Emission.ahead, hbranch]
  cases target with
  | none => rfl
  | some j => exact add_zero _

/-- A branch to one of two blocks. -/
theorem goesOn_condBr (h : Extends (e.terminate (.condBr i j)).toBuilder F) :
    GoesOn F e (pathsAt F (some i) + pathsAt F (some j)) := by
  refine ⟨(grows_terminate e _).blocks.trans h, ?_⟩
  have hbranch := Reading.paths_branch (R := blockReading) (item_of_extends h)
    (by rintro (h | h) <;> cases h)
  rw [Emission.ahead, hbranch]
  exact congrArg _ (add_zero _)

/-- The function returns. -/
theorem goesOn_ret {t : Terminator} (ht : t = .retVoid ∨ t = .ret)
    (h : Extends (e.terminate t).toBuilder F) : GoesOn F e 1 := by
  refine ⟨(grows_terminate e _).blocks.trans h, ?_⟩
  refine Reading.paths_leave (R := blockReading) (item_of_extends h) ht ?_
  rcases ht with rfl | rfl <;> rfl

theorem GoesOn.sameCode {e' : Emission} (h : GoesOn F e' l)
    (hcode : e'.toBuilder = e.toBuilder) : GoesOn F e l := by
  obtain ⟨hwithin, hahead⟩ := h
  rw [Emission.ahead, here, hcode] at hahead
  exact ⟨hcode ▸ hwithin, hahead⟩

theorem GoesOn.addBlocks {n : ℕ} {γ : Option Context} (h : GoesOn F (e.addBlocks n γ) l) :
    GoesOn F e l := by
  refine ⟨(grows_addBlocks e n γ).blocks.trans h.within, ?_⟩
  have hahead := h.ahead
  rw [Emission.ahead, show (e.addBlocks n γ).here = e.here by
    show Position.mk e.current ((e.toBuilder.addBlocks n).block e.current).length = _
    rw [block_addBlocks]
    rfl] at hahead
  exact hahead

/-- What is done from the beginning of a pending block on is what is emitted into it. -/
theorem GoesOn.moved (h : GoesOn F (e.positionAt i) l)
    (hlays : Lays true true b (i :: pending) true e.toBuilder) (hopen : IsOpen (b.block b.current)) :
    Extends e.toBuilder F ∧ pathsAt F (some i) = l := by
  have hbuilds : Builds b (i :: pending) true e.toBuilder := hlays.result hopen
  obtain ⟨-, hcurrent, hempty⟩ := hbuilds.progress.positionAt hbuilds.isComplete
  refine ⟨(grows_positionAt e i).blocks.trans h.within, ?_⟩
  have hahead := h.ahead
  rw [Emission.ahead, show (e.positionAt i).here = ⟨i, 0⟩ by
    show Position.mk (e.toBuilder.positionAt i).current
      ((e.toBuilder.positionAt i).block (e.toBuilder.positionAt i).current).length = _
    rw [hcurrent, hempty]
    rfl] at hahead
  exact hahead

end GoesOn

end Emission

end BreadLang
