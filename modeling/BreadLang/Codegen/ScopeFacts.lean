import BreadLang.Codegen.Terminators
import BreadLang.Library.BlockFacts

/-!
# The scopes at the places of compiled code

The contexts that an emission records are facts about its places: what stands at a place
suits the context there (`Emission.Tracked`).  A branch leads to a block whose context has
the same scopes, a pop is to a depth that is kept and is not above the scopes, and a function
returns when the scopes that it has opened are gone.

A statement leaves the scopes as it finds them, but for the names that it declares in the
innermost one, and so do the turns of a loop (`Emission.SpanOk`).
-/

namespace BreadLang

open BasicBlocks BasicBlocks.Builder Stateful

/-! ### Contexts -/

namespace Context

variable {γ γ' : Context} {name : Ident} {names : List Ident} {d : ℕ}

@[simp] theorem depths_declare : (γ.declare name).depths = γ.depths := by
  unfold declare
  split <;> rfl

@[simp] theorem tail_declare : (γ.declare name).scopes.tail = γ.scopes.tail := by
  unfold declare
  split
  · rename_i hscopes
    rw [hscopes]
    rfl
  · rfl

@[simp] theorem depth_declare : (γ.declare name).depth = γ.depth := by
  unfold declare depth
  split
  · rename_i hscopes
    rw [hscopes]
    rfl
  · rfl

/-- Nothing is followed in a function. -/
theorem declare_of_unfollowed (h : γ.scopes.head? = some none) : γ.declare name = γ := by
  unfold declare
  split
  · rename_i hscopes
    rw [hscopes] at h
    cases h
  · rfl

theorem scopes_declare_congr (h : γ.scopes = γ'.scopes) :
    (γ.declare name).scopes = (γ'.declare name).scopes := by
  unfold declare
  rw [h]
  split
  · rfl
  · exact h

/-- Names are declared one after the other. -/
def declareAll (γ : Context) (names : List Ident) : Context :=
  names.foldl declare γ

@[simp] theorem declareAll_nil : γ.declareAll [] = γ := rfl

@[simp] theorem declareAll_singleton : γ.declareAll [name] = γ.declare name := rfl

theorem declareAll_append (names names' : List Ident) :
    γ.declareAll (names ++ names') = (γ.declareAll names).declareAll names' :=
  List.foldl_append

@[simp] theorem depths_declareAll : (γ.declareAll names).depths = γ.depths := by
  induction names generalizing γ with
  | nil => rfl
  | cons name names ih => exact ih.trans depths_declare

@[simp] theorem depth_declareAll : (γ.declareAll names).depth = γ.depth := by
  induction names generalizing γ with
  | nil => rfl
  | cons name names ih => exact ih.trans depth_declare

@[simp] theorem tail_declareAll : (γ.declareAll names).scopes.tail = γ.scopes.tail := by
  induction names generalizing γ with
  | nil => rfl
  | cons name names ih => exact ih.trans tail_declare

theorem declareAll_of_unfollowed (h : γ.scopes.head? = some none) : γ.declareAll names = γ := by
  induction names with
  | nil => rfl
  | cons name names ih =>
      rw [declareAll, List.foldl_cons, declare_of_unfollowed h]
      exact ih

theorem scopes_declareAll_congr (h : γ.scopes = γ'.scopes) :
    (γ.declareAll names).scopes = (γ'.declareAll names).scopes := by
  induction names generalizing γ γ' with
  | nil => exact h
  | cons name names ih => exact ih (scopes_declare_congr h)

/-- The names that are followed in the innermost scope. -/
theorem scopes_declareAll {scope : List Ident} {rest : List (Option (List Ident))}
    (h : γ.scopes = some scope :: rest) :
    (γ.declareAll names).scopes = some (names.reverse ++ scope) :: rest := by
  induction names generalizing γ scope with
  | nil => exact h
  | cons name names ih =>
      have hdeclared : (γ.declare name).scopes = some (name :: scope) :: rest := by
        unfold declare
        rw [h]
      rw [List.reverse_cons, List.append_assoc]
      exact ih hdeclared

/-- What is popped does not matter for what is left. -/
theorem scopes_popTo_congr (htail : γ.scopes.tail = γ'.scopes.tail) (hdepth : γ.depth = γ'.depth)
    (hd : d < γ.depth) : (γ.popTo d).scopes = (γ'.popTo d).scopes := by
  have hdrop : ∀ δ : Context, d < δ.depth →
      (δ.popTo d).scopes = δ.scopes.tail.drop (δ.depth - d - 1) := by
    intro δ hδ
    rw [← List.drop_one, List.drop_drop, show 1 + (δ.depth - d - 1) = δ.depth - d by omega]
    rfl
  rw [hdrop γ hd, hdrop γ' (hdepth ▸ hd), htail, hdepth]

theorem depth_popTo (hd : d ≤ γ.depth) : (γ.popTo d).depth = d := by
  rw [depth, popTo, List.length_drop]
  have hlength : γ.scopes.length = γ.depth := rfl
  omega

@[simp] theorem depth_push : γ.push.depth = γ.depth + 1 := by
  unfold push depth
  split <;> rfl

@[simp] theorem tail_push : γ.push.scopes.tail = γ.scopes := by
  unfold push
  split <;> rfl

@[simp] theorem depths_push : γ.push.depths = γ.depths := by
  unfold push
  split <;> rfl

@[simp] theorem depths_keep_self {source : DepthSource} {depth : Option ℕ} :
    (γ.keep source depth).depths source = depth :=
  Function.update_self _ _ _

theorem depths_keep_of_ne {source source' : DepthSource} {depth : Option ℕ}
    (h : source' ≠ source) : (γ.keep source depth).depths source' = γ.depths source' :=
  Function.update_of_ne h _ _

/-- A scope has no names but those that another one may have. -/
def ScopeLe (scope scope' : Option (List Ident)) : Prop :=
  ∀ names', scope' = some names' → ∃ names, scope = some names ∧ names ⊆ names'

theorem ScopeLe.refl (scope : Option (List Ident)) : ScopeLe scope scope :=
  fun names h => ⟨names, h, List.Subset.refl names⟩

theorem ScopeLe.trans {scope scope' scope'' : Option (List Ident)} (h : ScopeLe scope scope')
    (h' : ScopeLe scope' scope'') : ScopeLe scope scope'' := by
  intro names'' hscope''
  obtain ⟨names', hscope', hsubset'⟩ := h' names'' hscope''
  obtain ⟨names, hscope, hsubset⟩ := h names' hscope'
  exact ⟨names, hscope, List.Subset.trans hsubset hsubset'⟩

theorem forall₂_scopeLe_trans {scopes scopes' scopes'' : List (Option (List Ident))}
    (h : List.Forall₂ ScopeLe scopes scopes') (h' : List.Forall₂ ScopeLe scopes' scopes'') :
    List.Forall₂ ScopeLe scopes scopes'' := by
  induction h generalizing scopes'' with
  | nil =>
      cases h'
      exact .nil
  | cons hfirst _ ih =>
      cases h' with
      | cons hfirst' hrest' => exact .cons (hfirst.trans hfirst') (ih hrest')

/-- **A context fits another one**: it has as many scopes, with no names but those that the
other may have in them, and keeps what the other keeps. -/
def Fits (γ γ' : Context) : Prop :=
  List.Forall₂ ScopeLe γ.scopes γ'.scopes ∧
    ∀ source d, γ'.depths source = some d → γ.depths source = some d

theorem fits_of_scopes (h : γ.scopes = γ'.scopes)
    (hdepths : ∀ source d, γ'.depths source = some d → γ.depths source = some d) : γ.Fits γ' :=
  ⟨h ▸ List.forall₂_same.mpr fun scope _ => ScopeLe.refl scope, hdepths⟩

theorem Fits.refl (γ : Context) : γ.Fits γ :=
  fits_of_scopes rfl fun _ _ h => h

/-- A name that may be declared need not be. -/
theorem fits_declare (γ : Context) (name : Ident) : γ.Fits (γ.declare name) := by
  refine ⟨?_, fun source d hd => depths_declare (γ := γ) ▸ hd⟩
  have hrefl : ∀ scopes, List.Forall₂ ScopeLe scopes scopes := fun scopes =>
    List.forall₂_same.mpr fun scope _ => ScopeLe.refl scope
  unfold declare
  split
  · rename_i names rest hscopes
    rw [hscopes]
    refine .cons (fun names' h => ⟨names, rfl, ?_⟩) (hrefl rest)
    obtain rfl := Option.some.inj h
    exact List.subset_cons_self name names
  · exact hrefl _

theorem forall₂_scopeLe_declareAll (γ : Context) (names : List Ident) :
    List.Forall₂ ScopeLe γ.scopes (γ.declareAll names).scopes := by
  induction names generalizing γ with
  | nil => exact (Fits.refl γ).1
  | cons name names ih =>
      have hrest := ih (γ.declare name)
      have hfirst := (fits_declare γ name).1
      exact forall₂_scopeLe_trans hfirst hrest

end Context

/-- The block that a kept depth is named after. -/
def DepthSource.block : DepthSource → ℕ
  | .result block => block
  | .loopSlot block => block
  | .functionSlot => 0

/-! ### Places -/

/-- The context behind an instruction, as a transfer of facts. -/
def Instr.transfer (block : ℕ) (i : Instr) (γ : Context) : Option Context :=
  i.context block γ

/-- The blocks that a terminator may branch to. -/
def Terminator.targets : Terminator → List ℕ
  | .br target => target.toList
  | .condBr thenBlock elseBlock => [thenBlock, elseBlock]
  | .retVoid => []
  | .ret => []

/-- **What stands at a place suits the context there.**  In `main` the scope of the program
is never popped. -/
def Suits (inMain : Bool) (contexts : List (Option Context)) :
    Item Instr Terminator → Context → Prop
  | .instr (.value _), γ => 1 ≤ γ.depth
  | .instr (.cgValue _), γ => 1 ≤ γ.depth
  | .instr (.varDecl _ _ _), γ => 1 ≤ γ.depth
  | .instr (.varDeclIfMissing _), γ => 1 ≤ γ.depth
  | .instr (.popTo source), γ =>
      ∃ d, γ.depths source = some d ∧ inMain.toNat ≤ d ∧ d ≤ γ.depth
  | .instr .popToSafe, γ => inMain = false ∧ γ.depths .functionSlot = some 0
  | .instr .runtimeInit, _ => inMain = true
  | .instr .runtimeCleanup, _ => inMain = true
  | .instr _, _ => True
  | .terminator .retVoid, γ => γ.depth = 0
  | .terminator t, γ =>
      ∀ j ∈ t.targets, ∃ γ', contexts.getD j none = some γ' ∧ γ.Fits γ'

/-- An instruction that leaves the context as it is and suits every place in a body. -/
def Instr.IsNeutral (i : Instr) : Prop :=
  (∀ block γ, i.context block γ = some γ) ∧
    ∀ inMain contexts γ, 1 ≤ γ.depth → Suits inMain contexts (.instr i) γ

section Suits

variable {inMain : Bool} {contexts contexts' : List (Option Context)} {γ γ' : Context}

theorem getD_of_prefix {j : ℕ} (h : contexts <+: contexts')
    (hj : contexts.getD j none = some γ) : contexts'.getD j none = some γ := by
  obtain ⟨rest, rfl⟩ := h
  have hlt : j < contexts.length := by
    by_contra hle
    rw [List.getD_eq_default _ _ (Nat.le_of_not_lt hle)] at hj
    cases hj
  rwa [List.getD_append _ _ _ _ hlt]

theorem suits_terminator {t : Terminator} (ht : t ≠ .retVoid) :
    Suits inMain contexts (.terminator t) γ ↔
      ∀ j ∈ t.targets, ∃ γ', contexts.getD j none = some γ' ∧ γ.Fits γ' := by
  cases t with
  | retVoid => exact absurd rfl ht
  | _ => rfl

theorem Suits.mono {x : Item Instr Terminator} (h : Suits inMain contexts x γ)
    (hgrown : contexts <+: contexts') : Suits inMain contexts' x γ := by
  cases x with
  | instr i => cases i <;> exact h
  | terminator t =>
      by_cases ht : t = .retVoid
      · subst ht
        exact h
      · rw [suits_terminator ht] at h ⊢
        intro j hj
        obtain ⟨γ', hγ', hfits⟩ := h j hj
        exact ⟨γ', getD_of_prefix hgrown hγ', hfits⟩

end Suits

namespace Emission

/-- What is known at a place. -/
def factAt (e : Emission) (i k : ℕ) : Option Context :=
  e.toBuilder.factAt Instr.transfer e.contexts i k

/-- What has been emitted stays, and so do the contexts of the blocks. -/
structure Grows (e e' : Emission) : Prop where
  blocks : Extends e.toBuilder e'.toBuilder
  contexts : e.contexts <+: e'.contexts

theorem Grows.refl (e : Emission) : Grows e e :=
  ⟨.refl _, List.prefix_rfl⟩

theorem Grows.trans {e e' e'' : Emission} (h : Grows e e') (h' : Grows e' e'') : Grows e e'' :=
  ⟨h.blocks.trans h'.blocks, h.contexts.trans h'.contexts⟩

/-- The context behind a statement has the scopes of the one before it, and the names that
the statement declares in the innermost of them. -/
def Declares (before after : Option Context) (names : List Ident) : Prop :=
  ∀ γ', after = some γ' →
    ∃ γ, before = some γ ∧ γ'.scopes = (γ.declareAll names).scopes

/-- **A span is right**: it lies in the code, its context is the one at its start, and where
it stops, and at the head of the loop, there are the same scopes with the names that the
statement declares. -/
structure SpanOk (e : Emission) (span : Span) : Prop where
  start_block : span.start.block < e.size
  start_index : span.start.index ≤ (e.block span.start.block).length
  start : e.factAt span.start.block span.start.index = span.context
  stop_block : span.stop.block < e.size
  stop_index : span.stop.index ≤ (e.block span.stop.block).length
  stop : Declares span.context (e.factAt span.stop.block span.stop.index) span.declares
  head : ∀ b, span.head = some b → b < e.contexts.length ∧
    Declares span.context (e.contexts.getD b none) span.declares

/-- The contexts of an emission are facts about its places. -/
structure Tracked (inMain : Bool) (e : Emission) : Prop where
  length : e.contexts.length = e.size
  context : e.factAt e.current (e.block e.current).length = e.context
  sound : Sound Instr.transfer (Suits inMain) e.toBuilder e.contexts
  spans : ∀ span ∈ e.spans, e.SpanOk span

section Grows

variable {e e' : Emission} {i k : ℕ}

theorem getD_contexts_of_grows (h : Grows e e') (hi : i < e.contexts.length) :
    e'.contexts.getD i none = e.contexts.getD i none := by
  obtain ⟨rest, hrest⟩ := h.contexts
  rw [← hrest, List.getD_append _ _ _ _ hi]

theorem factAt_of_grows (h : Grows e e') (hi : i < e.contexts.length)
    (hk : k ≤ (e.block i).length) : e'.factAt i k = e.factAt i k :=
  factAt_congr (h.blocks.2 i) hk (getD_contexts_of_grows h hi)

theorem SpanOk.grows {span : Span} (h : e.SpanOk span) (hlength : e.contexts.length = e.size)
    (hgrows : Grows e e') : e'.SpanOk span where
  start_block := h.start_block.trans_le hgrows.blocks.1
  start_index := h.start_index.trans (hgrows.blocks.2 _).length_le
  start := by
    rw [factAt_of_grows hgrows (hlength ▸ h.start_block) h.start_index]
    exact h.start
  stop_block := h.stop_block.trans_le hgrows.blocks.1
  stop_index := h.stop_index.trans (hgrows.blocks.2 _).length_le
  stop := by
    rw [factAt_of_grows hgrows (hlength ▸ h.stop_block) h.stop_index]
    exact h.stop
  head := by
    intro b hb
    obtain ⟨hlt, hhead⟩ := h.head b hb
    rw [getD_contexts_of_grows hgrows hlt]
    exact ⟨hlt.trans_le hgrows.contexts.length_le, hhead⟩

end Grows

/-! ### Steps of the emission -/

section Steps

variable {inMain : Bool} {e : Emission}

theorem grows_instr (e : Emission) (i : Instr) : Grows e (e.instr i) :=
  ⟨(Extends.refl _).append _, List.prefix_rfl⟩

theorem grows_terminate (e : Emission) (t : Terminator) : Grows e (e.terminate t) :=
  ⟨(Extends.refl _).append _, List.prefix_rfl⟩

theorem grows_addBlocks (e : Emission) (n : ℕ) (γ : Option Context) :
    Grows e (e.addBlocks n γ) :=
  ⟨(Extends.refl _).addBlocks n, List.prefix_append _ _⟩

theorem grows_positionAt (e : Emission) (i : ℕ) : Grows e (e.positionAt i) :=
  ⟨(Extends.refl _).positionAt i, List.prefix_rfl⟩

/-- The fact behind an item that has been appended. -/
theorem factAt_appended (e : Emission) (x : Item Instr Terminator) (contexts : List (Option Context)) :
    (e.append x).factAt Instr.transfer contexts e.current ((e.append x).block e.current).length =
      factAfter Instr.transfer e.current
        (e.toBuilder.factAt Instr.transfer contexts e.current (e.block e.current).length) [x] := by
  have hx : ((e.append x).block e.current)[(e.block e.current).length]? = some x := by
    rw [block_append_current, List.getElem?_append_right le_rfl, Nat.sub_self]
    rfl
  rw [block_append_current, List.length_append, List.length_singleton, factAt_succ hx,
    factAt_append_of_le x le_rfl]

theorem Tracked.instr (h : e.Tracked inMain) (i : Instr)
    (hsuits : ∀ γ, e.context = some γ → Suits inMain e.contexts (.instr i) γ) :
    (e.instr i).Tracked inMain where
  length := h.length.trans (size_append _ _).symm
  context := by
    have hcontext := h.context
    rw [Emission.factAt] at hcontext
    refine (factAt_appended e (.instr i) e.contexts).trans ?_
    rw [hcontext]
    rfl
  sound := h.sound.append fun γ hγ => hsuits γ (h.context.symm.trans hγ)
  spans span hspan := (h.spans span hspan).grows h.length (grows_instr e i)

theorem Tracked.terminate (h : e.Tracked inMain) (t : Terminator)
    (hsuits : ∀ γ, e.context = some γ → Suits inMain e.contexts (.terminator t) γ) :
    (e.terminate t).Tracked inMain where
  length := h.length.trans (size_append _ _).symm
  context := factAt_appended e (.terminator t) e.contexts
  sound := h.sound.append fun γ hγ => hsuits γ (h.context.symm.trans hγ)
  spans span hspan := (h.spans span hspan).grows h.length (grows_terminate e t)

theorem Tracked.addBlocks (h : e.Tracked inMain) (n : ℕ) (γ : Option Context) :
    (e.addBlocks n γ).Tracked inMain where
  length := by
    show (e.contexts ++ _).length = (e.toBuilder.addBlocks n).size
    rw [List.length_append, List.length_replicate, size_addBlocks, h.length]
  context := by
    have hfact := factAt_of_grows (grows_addBlocks e n γ) (h.length ▸ e.current_lt)
      (le_refl (e.block e.current).length)
    rw [h.context] at hfact
    show (e.addBlocks n γ).factAt e.current ((e.toBuilder.addBlocks n).block e.current).length = _
    rw [block_addBlocks]
    exact hfact
  sound := h.sound.addBlocks h.length fun x l hx => hx.mono (List.prefix_append _ _)
  spans span hspan := (h.spans span hspan).grows h.length (grows_addBlocks e n γ)

theorem Tracked.positionAt (h : e.Tracked inMain) {i : ℕ} (hi : i < e.size)
    (hempty : e.block i = []) : (e.positionAt i).Tracked inMain where
  length := h.length.trans (size_positionAt _ _).symm
  context := by
    show (e.toBuilder.positionAt i).factAt _ _ (e.toBuilder.positionAt i).current
      ((e.toBuilder.positionAt i).block (e.toBuilder.positionAt i).current).length = _
    rw [current_positionAt hi, block_positionAt, hempty]
    rfl
  sound := h.sound.positionAt i
  spans span hspan := (h.spans span hspan).grows h.length (grows_positionAt e i)

/-- Nothing but fields that are no code have changed. -/
theorem Tracked.sameCode {e' : Emission} (h : e.Tracked inMain)
    (hblocks : e'.toBuilder = e.toBuilder) (hcontexts : e'.contexts = e.contexts)
    (hcontext : e'.context = e.context) (hspans : e'.spans = e.spans) : e'.Tracked inMain where
  length := by
    rw [hcontexts, hblocks]
    exact h.length
  context := by
    rw [hcontext, Emission.factAt, hblocks, hcontexts]
    exact h.context
  sound := by
    rw [hblocks, hcontexts]
    exact h.sound
  spans := by
    intro span hspan
    rw [hspans] at hspan
    refine (h.spans span hspan).grows h.length ⟨?_, ?_⟩
    · rw [hblocks]
      exact .refl _
    · rw [hcontexts]

/-- Control does not come behind a terminator. -/
theorem Tracked.context_of_hasTerminator (h : e.Tracked inMain) (hterm : e.hasTerminator = true) :
    e.context = none := by
  cases hcontext : e.context with
  | none => rfl
  | some γ =>
      have hopen := isOpen_of_factAt (h.context.trans hcontext)
      rw [List.take_length] at hopen
      rw [hasTerminator_of_isOpen hopen] at hterm
      cases hterm

end Steps

end Emission

/-! ### Pieces of code -/

/-- **A context that a statement may start in**: a scope is open, and the depths that are
kept belong to blocks that exist.  In a function the scopes are not followed, and the depth
at the call is kept. -/
structure Context.Usable (inMain : Bool) (size : ℕ) (γ : Context) : Prop where
  deep : 1 ≤ γ.depth
  known : ∀ source d, γ.depths source = some d → source.block < size ∧ inMain.toNat ≤ d
  slot : inMain = false → γ.depths .functionSlot = some 0
  unfollowed : inMain = false → γ.scopes.head? = some none

theorem Context.Usable.mono {inMain : Bool} {size size' : ℕ} {γ : Context}
    (h : γ.Usable inMain size) (hsize : size ≤ size') : γ.Usable inMain size' :=
  { h with known := fun source d hd =>
      ⟨(h.known source d hd).1.trans_le hsize, (h.known source d hd).2⟩ }

namespace Emission

/-- A context can be that of a branch out of the loop: the scope of the loop, if it has one,
is open at a depth that is kept, and behind its pop the context fits the target. -/
def LeavesTo (loopBase : Option ℕ) (γ target : Context) : Prop :=
  (∀ b, loopBase = some b → ∃ d, γ.depths (.loopSlot b) = some d ∧ d < γ.depth ∧
    (γ.popTo d).Fits target) ∧
  (loopBase = none → γ.scopes.head? = some none ∧ γ.Fits target)

/-- The blocks that the innermost loop is left to. -/
def loopTargets (e : Emission) : List ℕ :=
  e.loopEnd.toList ++ e.loopContinue.toList

/-- **The state in which a statement is built.** -/
structure Ready (inMain : Bool) (e : Emission) : Prop where
  tracked : e.Tracked inMain
  usable : ∀ γ, e.context = some γ → γ.Usable inMain e.size
  base : inMain = false → e.loopBase = none
  inLoop : e.loopBase ≠ none → e.loopTargets ≠ []
  mainBase : inMain = true → e.loopBase = none → e.loopTargets = []
  leaves : ∀ t ∈ e.loopTargets, ∀ γ, e.context = some γ →
    ∃ target, e.contexts.getD t none = some target ∧ LeavesTo e.loopBase γ target

/-- Of the old blocks, only the current one has changed. -/
structure Stays (e e' : Emission) : Prop where
  blocks : ∀ i < e.size, i ≠ e.current → e'.block i = e.block i
  current : e'.current = e.current ∨ e.size ≤ e'.current

/-- The fields about the innermost loop are the same. -/
structure SameLoop (e e' : Emission) : Prop where
  loopEnd : e'.loopEnd = e.loopEnd
  loopContinue : e'.loopContinue = e.loopContinue
  loopBase : e'.loopBase = e.loopBase

/-- The context behind a piece of code: it declares names in the innermost scope, and keeps
the depths that belong to the old blocks. -/
def Carries (size : ℕ) (names : List Ident) (before after : Option Context) : Prop :=
  ∀ γ', after = some γ' → ∃ γ, before = some γ ∧ γ'.scopes = (γ.declareAll names).scopes ∧
    ∀ source, source.block < size → γ'.depths source = γ.depths source

/-- **A piece of code has been emitted.** -/
structure Emitted (inMain : Bool) (names : List Ident) (e e' : Emission) : Prop where
  tracked : e'.Tracked inMain
  usable : ∀ γ, e'.context = some γ → γ.Usable inMain e'.size
  grows : Grows e e'
  stays : Stays e e'
  sameLoop : SameLoop e e'
  carries : Carries e.size names e.context e'.context

section Pieces

variable {inMain : Bool} {e e' e'' : Emission} {names names' : List Ident} {size : ℕ}

theorem Stays.refl (e : Emission) : Stays e e :=
  ⟨fun _ _ _ => rfl, .inl rfl⟩

theorem Stays.trans (h : Stays e e') (hsize : e.size ≤ e'.size) (h' : Stays e' e'') :
    Stays e e'' where
  blocks i hi hne := by
    rw [h'.blocks i (hi.trans_le hsize), h.blocks i hi hne]
    rcases h.current with hcurrent | hcurrent
    · rwa [hcurrent]
    · omega
  current := by
    rcases h'.current with hcurrent | hcurrent
    · rw [hcurrent]
      exact h.current
    · exact .inr (hsize.trans hcurrent)

@[simp] theorem SameLoop.refl (e : Emission) : SameLoop e e :=
  ⟨rfl, rfl, rfl⟩

theorem SameLoop.trans (h : SameLoop e e') (h' : SameLoop e' e'') : SameLoop e e'' :=
  ⟨h'.loopEnd.trans h.loopEnd, h'.loopContinue.trans h.loopContinue,
    h'.loopBase.trans h.loopBase⟩

@[simp] theorem sameLoop_instr {i : Instr} : SameLoop e (e'.instr i) ↔ SameLoop e e' := by
  constructor <;> exact fun h => ⟨h.1, h.2, h.3⟩

@[simp] theorem sameLoop_terminate {t : Terminator} :
    SameLoop e (e'.terminate t) ↔ SameLoop e e' := by
  constructor <;> exact fun h => ⟨h.1, h.2, h.3⟩

@[simp] theorem sameLoop_addBlocks {n : ℕ} {γ : Option Context} :
    SameLoop e (e'.addBlocks n γ) ↔ SameLoop e e' := by
  constructor <;> exact fun h => ⟨h.1, h.2, h.3⟩

@[simp] theorem sameLoop_positionAt {i : ℕ} : SameLoop e (e'.positionAt i) ↔ SameLoop e e' := by
  constructor <;> exact fun h => ⟨h.1, h.2, h.3⟩

@[simp] theorem sameLoop_branchIfOpen {target : ℕ} :
    SameLoop e (e'.branchIfOpen target) ↔ SameLoop e e' := by
  rw [branchIfOpen]
  split
  · exact Iff.rfl
  · exact sameLoop_terminate

@[simp] theorem sameLoop_restoreLoopState : SameLoop e (e'.restoreLoopState e) :=
  ⟨rfl, rfl, rfl⟩

theorem SameLoop.loopTargets_eq (h : SameLoop e e') : e'.loopTargets = e.loopTargets := by
  rw [loopTargets, loopTargets, h.loopEnd, h.loopContinue]

theorem carries_refl {γ : Option Context} : Carries size [] γ γ :=
  fun γ' h => ⟨γ', h, rfl, fun _ _ => rfl⟩

theorem Carries.trans {before between after : Option Context} {size' : ℕ}
    (h : Carries size names before between) (hsize : size ≤ size')
    (h' : Carries size' names' between after) :
    Carries size (names ++ names') before after := by
  intro γ'' hγ''
  obtain ⟨γ', hγ', hscopes', hdepths'⟩ := h' γ'' hγ''
  obtain ⟨γ, hγ, hscopes, hdepths⟩ := h γ' hγ'
  refine ⟨γ, hγ, ?_, fun source hsource => ?_⟩
  · rw [Context.declareAll_append, hscopes']
    exact Context.scopes_declareAll_congr hscopes
  · rw [hdepths' source (hsource.trans_le hsize), hdepths source hsource]

theorem Carries.declares {before after : Option Context} (h : Carries size names before after) :
    Declares before after names := by
  intro γ' hγ'
  obtain ⟨γ, hγ, hscopes, -⟩ := h γ' hγ'
  exact ⟨γ, hγ, hscopes⟩

/-- What is declared in the innermost scope does not matter where the loop is left to. -/
theorem LeavesTo.carries {loopBase : Option ℕ} {γ γ' target : Context}
    (h : LeavesTo loopBase γ target) (hscopes : γ'.scopes = (γ.declareAll names).scopes)
    (hdepths : ∀ source d, γ.depths source = some d → γ'.depths source = some d) :
    LeavesTo loopBase γ' target := by
  have htail : γ.scopes.tail = γ'.scopes.tail := by
    rw [hscopes, Context.tail_declareAll]
  have hdepth : γ.depth = γ'.depth := by
    have hdeclared : (γ.declareAll names).depth = γ.depth := Context.depth_declareAll
    rw [Context.depth, ← hscopes] at hdeclared
    exact hdeclared.symm
  refine ⟨fun b hb => ?_, fun hb => ?_⟩
  · obtain ⟨d, hd, hlt, hfits⟩ := h.1 b hb
    refine ⟨d, hdepths _ d hd, hdepth ▸ hlt, ?_, fun source c hc => ?_⟩
    · rw [← Context.scopes_popTo_congr htail hdepth hlt]
      exact hfits.1
    · exact hdepths source c (hfits.2 source c hc)
  · obtain ⟨hhead, hfits⟩ := h.2 hb
    rw [Context.declareAll_of_unfollowed hhead] at hscopes
    refine ⟨hscopes ▸ hhead, hscopes ▸ hfits.1, fun source c hc => ?_⟩
    exact hdepths source c (hfits.2 source c hc)

theorem Emitted.refl (h : e.Ready inMain) : Emitted inMain [] e e where
  tracked := h.tracked
  usable := h.usable
  grows := .refl e
  stays := .refl e
  sameLoop := .refl e
  carries := carries_refl

theorem Emitted.trans (h : Emitted inMain names e e') (h' : Emitted inMain names' e' e'') :
    Emitted inMain (names ++ names') e e'' where
  tracked := h'.tracked
  usable := h'.usable
  grows := h.grows.trans h'.grows
  stays := h.stays.trans h.grows.blocks.1 h'.stays
  sameLoop := h.sameLoop.trans h'.sameLoop
  carries := h.carries.trans h.grows.blocks.1 h'.carries

/-- The next statement can be built. -/
theorem Emitted.ready (h : Emitted inMain names e e') (he : e.Ready inMain) :
    e'.Ready inMain where
  tracked := h.tracked
  usable := h.usable
  base hfn := h.sameLoop.loopBase.trans (he.base hfn)
  inLoop := by
    rw [h.sameLoop.loopBase, h.sameLoop.loopTargets_eq]
    exact he.inLoop
  mainBase hmain hbase := by
    rw [h.sameLoop.loopBase] at hbase
    rw [h.sameLoop.loopTargets_eq]
    exact he.mainBase hmain hbase
  leaves := by
    intro t ht γ' hγ'
    rw [h.sameLoop.loopTargets_eq] at ht
    obtain ⟨γ, hγ, hscopes, hdepths⟩ := h.carries γ' hγ'
    obtain ⟨target, htarget, hleaves⟩ := he.leaves t ht γ hγ
    refine ⟨target, getD_of_prefix h.grows.contexts htarget, ?_⟩
    rw [h.sameLoop.loopBase]
    refine hleaves.carries hscopes fun source d hd => ?_
    rw [hdepths source ((he.usable γ hγ).known source d hd).1, hd]

end Pieces

end Emission

end BreadLang
