import BreadLang.Library.BasicBlocks
import Mathlib.Computability.Language

/-!
# Paths through basic blocks

A path goes from item to item of a block and by a terminator to the beginning of another one,
until a terminator leaves the function.  The words of the paths from a place, with a letter
for each instruction on the way, are a language; each item gives an equation for it.
-/

namespace BreadLang

namespace BasicBlocks

/-- How the items of blocks are read: the letter of an instruction, the blocks that a
terminator may go to, and whether it may leave the function. -/
structure Reading (I T α : Type) where
  letter : I → α
  targets : T → List ℕ
  leaves : T → Prop

namespace Reading

variable {I T α : Type} (R : Reading I T α) (b : Builder I T)

/-- **A path** from a place out of the function, and its word. -/
inductive Path : ℕ → ℕ → List α → Prop where
  | instr {i k : ℕ} {x : I} {word : List α} (hx : (b.block i)[k]? = some (.instr x))
      (h : Path i (k + 1) word) : Path i k (R.letter x :: word)
  | branch {i k j : ℕ} {t : T} {word : List α} (ht : (b.block i)[k]? = some (.terminator t))
      (hj : j ∈ R.targets t) (h : Path j 0 word) : Path i k word
  | leave {i k : ℕ} {t : T} (ht : (b.block i)[k]? = some (.terminator t)) (hleaves : R.leaves t) :
      Path i k []

/-- The words of the paths from a place. -/
def paths (i k : ℕ) : Language α :=
  {word | R.Path b i k word}

variable {R b} {i k : ℕ}

/-- An instruction is the first letter. -/
theorem paths_instr {x : I} (hx : (b.block i)[k]? = some (.instr x)) :
    R.paths b i k = {[R.letter x]} * R.paths b i (k + 1) := by
  ext word
  rw [Language.mem_mul]
  constructor
  · intro h
    cases h with
    | @instr _ _ y word hy h =>
        obtain rfl := Item.instr.inj (Option.some.inj (hy.symm.trans hx))
        exact ⟨[R.letter y], rfl, word, h, rfl⟩
    | branch ht => cases ht.symm.trans hx
    | leave ht => cases ht.symm.trans hx
  · rintro ⟨_, rfl, word, h, rfl⟩
    exact .instr hx h

/-- A terminator goes to one of its blocks. -/
theorem paths_branch {t : T} (ht : (b.block i)[k]? = some (.terminator t))
    (hleaves : ¬ R.leaves t) :
    R.paths b i k = ((R.targets t).map fun j => R.paths b j 0).sum := by
  have hsum (js : List ℕ) (word : List α) :
      word ∈ (js.map fun j => R.paths b j 0).sum ↔ ∃ j ∈ js, R.Path b j 0 word := by
    induction js with
    | nil => simp
    | cons j js ih =>
        rw [List.map_cons, List.sum_cons, Language.mem_add, ih]
        simp only [List.mem_cons, exists_eq_or_imp]
        rfl
  ext word
  rw [hsum]
  constructor
  · intro h
    cases h with
    | instr hx => cases hx.symm.trans ht
    | branch ht' hj h =>
        obtain rfl := Item.terminator.inj (Option.some.inj (ht'.symm.trans ht))
        exact ⟨_, hj, h⟩
    | leave ht' hleaves' =>
        obtain rfl := Item.terminator.inj (Option.some.inj (ht'.symm.trans ht))
        exact absurd hleaves' hleaves
  · rintro ⟨j, hj, h⟩
    exact .branch ht hj h

/-- A terminator that only leaves the function ends the word. -/
theorem paths_leave {t : T} (ht : (b.block i)[k]? = some (.terminator t)) (hleaves : R.leaves t)
    (htargets : R.targets t = []) : R.paths b i k = 1 := by
  ext word
  rw [Language.mem_one]
  constructor
  · intro h
    cases h with
    | instr hx => cases hx.symm.trans ht
    | branch ht' hj =>
        obtain rfl := Item.terminator.inj (Option.some.inj (ht'.symm.trans ht))
        rw [htargets] at hj
        cases hj
    | leave => rfl
  · rintro rfl
    exact .leave ht hleaves

end Reading

end BasicBlocks

end BreadLang
