import BreadLang.Codegen.BlockRuns
import BreadLang.Codegen.EmittedPaths

/-!
# Runs and paths

A run of a compiled program calls functions within functions.  What a single activation does
between its call and its return is one of the paths of its statements (`activation_path`), with
whatever the activations above it do left out.
-/

namespace BreadLang

open BasicBlocks BasicBlocks.Builder Emission

/-- The action of an item: a terminator has none. -/
def itemActions : Item Instr Terminator → List Action
  | .instr i => [i.action]
  | .terminator _ => []

/-- What is done in a step by the activation that is the `depth`-th from the bottom.  A call is
no action; the instruction that has called is one when it is completed. -/
def BlockMachine.acts (depth : ℕ) (m m' : BlockMachine) : List Action :=
  if m.frames.length = depth ∧ m'.frames.length = depth then
    (m.frames.head?.bind BlockFrame.item).elim [] itemActions
  else []

/-- **A run during an activation**, and what the activation does. -/
inductive Performs (casts : NumericCasts) (functions : List Emission) (depth : ℕ) :
    BlockMachine → List Action → BlockMachine → Prop where
  | refl {m : BlockMachine} : Performs casts functions depth m [] m
  | step {m m₁ m₂ : BlockMachine} {actions : List Action} (hstep : BlockStep casts functions m m₁)
      (hdeep : depth ≤ m₁.frames.length) (hrest : Performs casts functions depth m₁ actions m₂) :
      Performs casts functions depth m (m.acts depth m₁ ++ actions) m₂

section RunPaths

variable {casts : NumericCasts} {functions : List Emission} {m m' : BlockMachine}
  {frame frame' : BlockFrame} {upper rest rest' : List BlockFrame} {actions : List Action}

/-- The paths from the place of an activation. -/
def BlockFrame.Path (frame : BlockFrame) (actions : List Action) : Prop :=
  blockReading.Path frame.body.toBuilder frame.position.block frame.position.index actions

theorem acts_of_above (hm : m.frames = frame' :: (upper ++ frame :: rest)) :
    m.acts (rest.length + 1) m' = [] := by
  refine if_neg fun h => ?_
  have hlength := h.1
  rw [hm, List.length_cons, List.length_append, List.length_cons] at hlength
  omega

theorem acts_of_top {x : Item Instr Terminator} (hm : m.frames = frame :: rest)
    (hm' : m'.frames = frame' :: rest) (hitem : frame.item = some x) :
    m.acts (rest.length + 1) m' = itemActions x := by
  rw [BlockMachine.acts, hm, hm', if_pos ⟨rfl, rfl⟩]
  show frame.item.elim [] itemActions = itemActions x
  rw [hitem]
  rfl

/-- A step leaves the activations below the innermost one in place. -/
theorem BlockStep.frames_below {below : List BlockFrame} (h : BlockStep casts functions m m')
    (hm : m.frames = frame :: below) : ∃ upper', m'.frames = upper' ++ below := by
  cases h with
  | instr | branch =>
      obtain ⟨rfl, rfl⟩ := List.cons_eq_cons.mp hm
      exact ⟨[_], rfl⟩
  | call =>
      obtain ⟨rfl, rfl⟩ := List.cons_eq_cons.mp hm
      exact ⟨[_, _], rfl⟩
  | returned =>
      obtain ⟨rfl, rfl⟩ := List.cons_eq_cons.mp hm
      exact ⟨[], rfl⟩

/-- **One step** leaves an activation and those below it in place.  It does what leads to the
place where it then is. -/
theorem BlockStep.watched (h : BlockStep casts functions m m')
    (hm : m.frames = upper ++ frame :: rest) (hdeep : rest.length + 1 ≤ m'.frames.length) :
    ∃ upper' frame', m'.frames = upper' ++ frame' :: rest ∧ frame'.body = frame.body ∧
      ∀ actions, frame'.Path actions → frame.Path (m.acts (rest.length + 1) m' ++ actions) := by
  cases upper with
  | cons u upper =>
      rw [List.cons_append] at hm
      obtain ⟨upper', hbelow⟩ := h.frames_below hm
      refine ⟨upper' ++ upper, frame, ?_, rfl, fun actions hpath => ?_⟩
      · rw [hbelow, List.append_assoc]
      · rw [acts_of_above hm]
        exact hpath
  | nil =>
      cases h with
      | @instr top below scopes scopes' depths i value hitem hrun =>
          obtain ⟨rfl, rfl⟩ := List.cons_eq_cons.mp hm
          refine ⟨[], _, rfl, rfl, fun actions hpath => ?_⟩
          rw [acts_of_top rfl rfl hitem]
          exact .instr hitem hpath
      | @call top below scopes i body depths hitem hcalls hbody =>
          obtain ⟨rfl, rfl⟩ := List.cons_eq_cons.mp hm
          refine ⟨[_], top, rfl, rfl, fun actions hpath => ?_⟩
          -- The call has pushed an activation, so nothing is done yet.
          rw [BlockMachine.acts, if_neg fun hlength => Nat.succ_ne_self _ hlength.2]
          exact hpath
      | @branch top below scopes t target hitem htarget =>
          obtain ⟨rfl, rfl⟩ := List.cons_eq_cons.mp hm
          refine ⟨[], _, rfl, rfl, fun actions hpath => ?_⟩
          rw [acts_of_top rfl rfl hitem]
          exact .branch hitem htarget hpath
      | returned =>
          obtain ⟨rfl, rfl⟩ := List.cons_eq_cons.mp hm
          exact absurd hdeep (Nat.not_succ_le_self _)

/-- Every run in which the activation does not return is such a run. -/
theorem exists_performs {depth : ℕ} (h : Relation.ReflTransGen
    (fun m m' => BlockStep casts functions m m' ∧ depth ≤ m'.frames.length) m m') :
    ∃ actions, Performs casts functions depth m actions m' := by
  induction h using Relation.ReflTransGen.head_induction_on with
  | refl => exact ⟨[], .refl⟩
  | head hstep _ ih =>
      obtain ⟨actions, hrest⟩ := ih
      exact ⟨_, .step hstep.1 hstep.2 hrest⟩

/-- What an activation does until it returns is a path from its place. -/
theorem Performs.path {t : Terminator}
    (h : Performs casts functions (rest.length + 1) m actions m')
    (hm : m.frames = upper ++ frame :: rest) (hm' : m'.frames = frame' :: rest')
    (hlength : rest'.length = rest.length) (hitem : frame'.item = some (.terminator t))
    (hleaves : blockReading.leaves t) : frame.Path actions ∧ rest' = rest := by
  induction h generalizing upper frame with
  | @refl m =>
      have hupper : upper = [] := by
        have hframes := congrArg List.length (hm.symm.trans hm')
        rw [List.length_append, List.length_cons, List.length_cons] at hframes
        exact List.eq_nil_of_length_eq_zero (by omega)
      rw [hupper, List.nil_append, hm'] at hm
      obtain ⟨rfl, rfl⟩ := List.cons_eq_cons.mp hm
      exact ⟨.leave hitem hleaves, rfl⟩
  | step hstep hdeep _ ih =>
      obtain ⟨upper', next, hnext, -, hpath⟩ := hstep.watched hm hdeep
      obtain ⟨hnextPath, hrest⟩ := ih hnext hm'
      exact ⟨hpath _ hnextPath, hrest⟩

/-- **What an activation does**, in a run from its call to where it returns, is one of the paths
of its statements, and the activations below it stay where they are. -/
theorem activation_path {kind : BodyKind} {code : List CodeStmt} {depths : DepthSource → ℕ}
    {outer : List (List Ident)} {scopes : ScopeStack} {t : Terminator}
    (hwf : WellFormed (emitBody kind code).toBuilder)
    (hrun : Performs casts functions (rest.length + 1)
      ⟨⟨emitBody kind code, ⟨0, 0⟩, depths, outer⟩ :: rest, scopes⟩ actions m)
    (hm : m.frames = frame :: rest') (hlength : rest'.length = rest.length)
    (hitem : frame.item = some (.terminator t)) (hleaves : t = .retVoid ∨ t = .ret) :
    actions ∈ bodyPaths kind code ∧ rest' = rest := by
  obtain ⟨hpath, hrest⟩ := hrun.path (List.nil_append _).symm hm hlength hitem hleaves
  have hpaths : blockReading.paths (emitBody kind code).toBuilder 0 0 = bodyPaths kind code :=
    (goesOn_body hwf).ahead
  refine ⟨?_, hrest⟩
  rw [← hpaths]
  exact hpath

end RunPaths

section Calling

open BlockProgram BlockProgram.callingProgram

/-- The function of the calling program, from its call to its return. -/
theorem callingProgram_activation :
    ∃ actions, Performs zeroCasts callingProgram.bodies 2 entered actions atReturn ∧
      actions ∈ bodyPaths (.function []) [] := by
  have hsteps := @steps_called
    (fun m m' => BlockStep zeroCasts callingProgram.bodies m m' ∧ 2 ≤ m'.frames.length)
    fun _ _ hstep hlength => ⟨hstep, hlength.ge⟩
  obtain ⟨actions, hrun⟩ := exists_performs (hsteps.1.tail hsteps.2)
  have hwf : WellFormed (emitBody (.function []) []).toBuilder :=
    (emitBody_wellFormed_iff_code _ _).mpr ⟨rfl, fun _ => rfl⟩
  have hframes : atReturn.frames = [calledFrame 4, mainFrame 1] := rfl
  have hitem : (calledFrame 4).item = some (.terminator .retVoid) := rfl
  exact ⟨actions, hrun, (@activation_path _ _ _ _ [mainFrame 1] _ _ _ _ _ _ _ _ hwf hrun hframes
    rfl hitem (.inl rfl)).1⟩

end Calling

end BreadLang
