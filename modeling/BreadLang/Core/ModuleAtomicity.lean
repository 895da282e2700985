import BreadLang.Core.ModuleTermination

/-!
# A program that cannot be preprocessed

`module_preprocess_program` builds the new list from the nodes of the program itself, and
only a run that succeeds stores it in the program.  A run that fails frees the new list and
the statement it has got to, and leaves the head of the program as it was: a pointer to the
first statement, which is one of those it has freed.  `main` frees the program after that.
-/

namespace BreadLang

open Stateful ModuleM

variable {env : ModuleEnv} {casts : NumericCasts} {n : ℕ} {stmts : ASTStmtList}

/-- **What the caller relies on**: the statements that are still reached from the head of
the program are allocated. -/
def KeepsProgram (env : ModuleEnv) (casts : NumericCasts) (n : ℕ) (stmts : ASTStmtList) : Prop :=
  ∀ program, (buildStmtList .entry stmts).result .init = .ok program →
    ∀ a, ((preprocessEntry env casts n stmts).final .init).heap.Reaches program.head a →
      ((preprocessEntry env casts n stmts).final .init).heap.Allocated a

/-- The head of the program is freed by a run that fails. -/
theorem head_freed_of_error {e : ModuleError}
    (h : (preprocessEntry env casts n stmts).result .init = .error (.error e)) :
    ∃ program a, (buildStmtList .entry stmts).result .init = .ok program ∧
      program.head = some a ∧
      ((preprocessEntry env casts n stmts).final .init).heap.cells a = none := by
  obtain ⟨s, program, nodes, hinv, -, -, hbuild, hresult, hfinal⟩ :=
    run_preprocessEntry env casts n stmts
  have hholds := holds_loop casts n (D := True) nodes n hinv
    fun p _ => sound_preprocessModule n p
  rw [hresult] at h
  rw [hfinal]
  rw [h] at hholds
  cases nodes with
  | nil =>
      -- an empty program does not fail: the loop ends in its first turn
      rw [show program.head = none from hinv.restChain] at h
      cases n with
      | zero => cases h
      | succ n => cases h
  | cons x nodes =>
      refine ⟨program, x.1, hbuild, hinv.restChain.1, ?_⟩
      exact (hholds.freed e rfl).2 x.1 (List.mem_append_left _ List.mem_cons_self)

/-- **A run that fails never keeps the program.** -/
theorem not_keepsProgram_of_error {e : ModuleError}
    (h : (preprocessEntry env casts n stmts).result .init = .error (.error e)) :
    ¬ KeepsProgram env casts n stmts := by
  obtain ⟨program, a, hbuild, hhead, hfreed⟩ := head_freed_of_error h
  exact fun hkeeps => hkeeps program hbuild a (.head hhead) hfreed

/-- A file system without files. -/
def noFiles : ModuleEnv := ⟨[], [".".toList]⟩

/-- A program whose first statement imports a module that is not there. -/
theorem missing_module_frees_head : ¬ KeepsProgram noFiles noCasts 5 [importOf "lost"] :=
  not_keepsProgram_of_error (e := .fileNotFound "lost".toList) (by decide +kernel)

/-- `main` frees a program again: a `print`, and an import of a module that is not
there. -/
theorem missing_module_freed_twice :
    ¬ ((∃ e, (preprocessEntry noFiles noCasts 5 [.print (.int 1), importOf "lost"]).result .init =
        .error (.error e)) →
      KeepsProgram noFiles noCasts 5 [.print (.int 1), importOf "lost"]) ∧
    (buildStmtList .entry [.print (.int 1), importOf "lost"] >>= freeStmtList).result .init = .ok () ∧
    (freeStmtList ⟨some 0, some 1⟩).result
        ((preprocessEntry noFiles noCasts 5 [.print (.int 1), importOf "lost"]).final .init) =
      .error (.stopped (.undefined .useAfterFree)) := by
  have herror : (preprocessEntry noFiles noCasts 5 [.print (.int 1), importOf "lost"]).result .init =
      .error (.error (.fileNotFound "lost".toList)) := by
    decide +kernel
  refine ⟨fun h => ?_, by decide +kernel, by decide +kernel⟩
  obtain ⟨program, a, hbuild, hhead, hfreed⟩ := head_freed_of_error herror
  exact h ⟨_, herror⟩ program hbuild a (.head hhead) hfreed

end BreadLang
