import BreadLang.Codegen.ScopeFacts

/-!
# The scopes around the statements of compiled code

Each statement is emitted in a few steps from a state in which it can be built
(`Emission.Ready`), with some blocks pending that have a context already and no code yet
(`Emission.Laid`).  What opens a scope closes it on every way out (`Context.Inside`): at its
end, and by `break` and `continue`.
-/

namespace BreadLang

open BasicBlocks BasicBlocks.Builder Stateful

/-! ### Inside of a scope -/

namespace Context

/-- `push_scope_if_global`, in a block. -/
def enterBranch (block : ℕ) (γ : Context) : Context :=
  (γ.keep (.result block) (some γ.depth)).push

/-- `setup_loop_scope`, in a block. -/
def enterLoop (block : ℕ) (γ : Context) : Context :=
  (γ.enterBranch block).keep (.loopSlot block) (some γ.depth)

/-- **A context inside of the scope** that has been opened in a block: the scopes around it
are those outside, and the depth outside is kept. -/
structure Inside (block : ℕ) (outside γ : Context) : Prop where
  tail : γ.scopes.tail = outside.scopes
  depth : γ.depth = outside.depth + 1
  result : γ.depths (.result block) = some outside.depth
  depths : ∀ source d, outside.depths source = some d → γ.depths source = some d

variable {inMain : Bool} {size block : ℕ} {outside γ γ' : Context} {names : List Ident}

theorem Usable.push (h : γ.Usable true size) : γ.push.Usable true size where
  deep := by
    rw [depth_push]
    omega
  known source d hd := h.known source d (depths_push ▸ hd)
  slot := nofun
  unfollowed := nofun

theorem Usable.keep (h : γ.Usable true size) (source : DepthSource) (hblock : source.block < size) :
    ∀ d, 1 ≤ d → (γ.keep source (some d)).Usable true size := by
  intro d hd
  refine ⟨h.deep, fun source' c hc => ?_, nofun, nofun⟩
  by_cases hsource : source' = source
  · subst hsource
    rw [depths_keep_self] at hc
    obtain rfl := Option.some.inj hc
    exact ⟨hblock, hd⟩
  · rw [depths_keep_of_ne hsource] at hc
    exact h.known source' c hc

theorem usable_enterBranch (h : γ.Usable true size) (hblock : block < size) :
    (γ.enterBranch block).Usable true size :=
  (h.keep (.result block) hblock γ.depth h.deep).push

theorem usable_enterLoop (h : γ.Usable true size) (hblock : block < size) :
    (γ.enterLoop block).Usable true size :=
  (usable_enterBranch h hblock).keep (.loopSlot block) hblock γ.depth h.deep

/-- The depths of a new block are not among those that have been kept. -/
theorem Usable.ne_of_known (h : γ.Usable inMain size) (hblock : size ≤ block)
    {source : DepthSource} {d : ℕ} (hd : γ.depths source = some d) : source.block ≠ block :=
  ((h.known source d hd).1.trans_le hblock).ne

theorem inside_enterBranch (h : γ.Usable inMain size) (hblock : size ≤ block) :
    Inside block γ (γ.enterBranch block) where
  tail := tail_push
  depth := depth_push
  result := by
    rw [enterBranch, depths_push, depths_keep_self]
  depths := by
    intro source d hd
    have hne : source ≠ .result block := by
      rintro rfl
      exact h.ne_of_known hblock hd rfl
    rw [enterBranch, depths_push, depths_keep_of_ne hne, hd]

theorem inside_enterLoop (h : γ.Usable inMain size) (hblock : size ≤ block) :
    Inside block γ (γ.enterLoop block) where
  tail := (inside_enterBranch h hblock).tail
  depth := (inside_enterBranch h hblock).depth
  result := by
    rw [enterLoop, depths_keep_of_ne (by simp)]
    exact (inside_enterBranch h hblock).result
  depths := by
    intro source d hd
    have hne : source ≠ .loopSlot block := by
      rintro rfl
      exact h.ne_of_known hblock hd rfl
    rw [enterLoop, depths_keep_of_ne hne]
    exact (inside_enterBranch h hblock).depths source d hd

@[simp] theorem depths_enterLoop_loopSlot :
    (γ.enterLoop block).depths (.loopSlot block) = some γ.depth :=
  depths_keep_self

/-- A context that comes of one inside of a scope is inside of it. -/
theorem Inside.carries (h : Inside block outside γ)
    (hscopes : γ'.scopes = (γ.declareAll names).scopes)
    (hdepths : ∀ source d, γ.depths source = some d → γ'.depths source = some d) :
    Inside block outside γ' where
  tail := by
    rw [hscopes, tail_declareAll, h.tail]
  depth := by
    have hdepth : (γ.declareAll names).depth = γ.depth := depth_declareAll
    rw [Context.depth, ← hscopes] at hdepth
    exact hdepth.trans h.depth
  result := hdepths _ _ h.result
  depths source d hd := hdepths _ _ (h.depths source d hd)

/-- **Popping the scope** leads back to the context outside. -/
theorem Inside.popTo_fits (h : Inside block outside γ) : (γ.popTo outside.depth).Fits outside := by
  refine fits_of_scopes ?_ h.depths
  show γ.scopes.drop (γ.depth - outside.depth) = outside.scopes
  rw [h.depth, Nat.add_sub_cancel_left, List.drop_one, h.tail]

end Context

namespace Emission

/-! ### Pending blocks -/

/-- **The middle of a statement** that starts at `e₀`: the blocks of `e₁` have their
contexts, and the pending ones have no code yet. -/
structure Laid (inMain : Bool) (e₀ e₁ : Emission) (pending : List ℕ) (γ : Option Context)
    (e : Emission) : Prop where
  tracked : e.Tracked inMain
  context : e.context = γ
  grows₀ : Grows e₀ e
  grows : Grows e₁ e
  stays : Stays e₀ e
  nodup : pending.Nodup
  pending : ∀ i ∈ pending, e₀.size ≤ i ∧ i < e.size ∧ i ≠ e.current ∧ e.block i = []

section Laid

variable {inMain : Bool} {e e' e₀ e₁ : Emission} {pending : List ℕ} {γ δ : Option Context}
  {i : ℕ} {names : List Ident}

theorem Laid.congr (h : Laid inMain e₀ e₁ pending γ e) (hγ : γ = δ) :
    Laid inMain e₀ e₁ pending δ e :=
  hγ ▸ h

theorem Laid.self (h : Laid inMain e₀ e₁ pending γ e) :
    Laid inMain e₀ e₁ pending e.context e :=
  h.congr h.context.symm

theorem Laid.append (h : Laid inMain e₀ e₁ pending γ e) (x : Item Instr Terminator)
    (hblocks : e'.toBuilder = e.append x) (hcontexts : e'.contexts = e.contexts)
    (htracked : e'.Tracked inMain) : Laid inMain e₀ e₁ pending e'.context e' := by
  have hgrows : Grows e e' := by
    refine ⟨?_, ?_⟩
    · rw [hblocks]
      exact (Extends.refl _).append x
    · rw [hcontexts]
  have hsize : e'.size = e.size := by
    rw [hblocks, size_append]
  have hcurrent : e'.current = e.current := by
    rw [hblocks]
    rfl
  have hblock : ∀ i ≠ e.current, e'.block i = e.block i := by
    intro i hi
    rw [hblocks, block_append, if_neg hi]
  refine ⟨htracked, rfl, h.grows₀.trans hgrows, h.grows.trans hgrows,
    h.stays.trans h.grows₀.blocks.1 ⟨fun i _ hi => hblock i hi, .inl hcurrent⟩, h.nodup, ?_⟩
  intro i hi
  obtain ⟨hle, hlt, hne, hempty⟩ := h.pending i hi
  rw [hsize, hcurrent, hblock i hne]
  exact ⟨hle, hlt, hne, hempty⟩

theorem Laid.instr (h : Laid inMain e₀ e₁ pending γ e) (i : Instr)
    (hsuits : ∀ δ, γ = some δ → Suits inMain e₁.contexts (.instr i) δ) :
    Laid inMain e₀ e₁ pending (γ.bind fun δ => i.context e.current δ) (e.instr i) := by
  have htracked := h.tracked.instr i fun δ hδ =>
    (hsuits δ (h.context.symm.trans hδ)).mono h.grows.contexts
  have hlaid : Laid inMain e₀ e₁ pending (e.instr i).context (e.instr i) :=
    h.append (.instr i) rfl rfl htracked
  rw [← h.context]
  exact hlaid

/-- An instruction that does not matter to the scopes. -/
theorem Laid.neutral (h : Laid inMain e₀ e₁ pending γ e) {i : Instr} (hi : i.IsNeutral)
    (hdeep : ∀ δ, γ = some δ → 1 ≤ δ.depth) :
    Laid inMain e₀ e₁ pending γ (e.instr i) := by
  have hlaid := h.instr i fun δ hδ => hi.2 inMain e₁.contexts δ (hdeep δ hδ)
  have hcontext : (γ.bind fun δ => i.context e.current δ) = γ := by
    cases γ with
    | none => rfl
    | some δ => exact hi.1 _ δ
  rwa [hcontext] at hlaid

theorem Laid.neutrals {instrs : List Instr} (hinstrs : ∀ i ∈ instrs, i.IsNeutral)
    (hdeep : ∀ δ, γ = some δ → 1 ≤ δ.depth) :
    ∀ {e : Emission}, Laid inMain e₀ e₁ pending γ e →
      Laid inMain e₀ e₁ pending γ (e.instrs instrs) := by
  induction instrs with
  | nil => exact fun h => h
  | cons i instrs ih =>
      intro e h
      exact ih (fun j hj => hinstrs j (List.mem_cons_of_mem i hj))
        (h.neutral (hinstrs i List.mem_cons_self) hdeep)

theorem Laid.terminate (h : Laid inMain e₀ e₁ pending γ e) (t : Terminator)
    (hsuits : ∀ δ, γ = some δ → Suits inMain e₁.contexts (.terminator t) δ) :
    Laid inMain e₀ e₁ pending none (e.terminate t) := by
  have htracked := h.tracked.terminate t fun δ hδ =>
    (hsuits δ (h.context.symm.trans hδ)).mono h.grows.contexts
  have hlaid : Laid inMain e₀ e₁ pending (e.terminate t).context (e.terminate t) :=
    h.append (.terminator t) rfl rfl htracked
  exact hlaid

/-- The context of a block is known. -/
def Known (e : Emission) (i : ℕ) (γ : Option Context) : Prop :=
  i < e.contexts.length ∧ e.contexts.getD i none = γ

theorem Known.grows (h : Known e i γ) (hgrows : Grows e e') : Known e' i γ :=
  ⟨h.1.trans_le hgrows.contexts.length_le, (getD_contexts_of_grows hgrows h.1).trans h.2⟩

/-- What is known at a place fits what is known at another one. -/
def FitsBack (outside γ : Option Context) : Prop :=
  ∀ δ', γ = some δ' → ∃ δ, outside = some δ ∧ δ'.Fits δ

theorem fitsBack_none : FitsBack δ none :=
  nofun

theorem FitsBack.refl (γ : Option Context) : FitsBack γ γ :=
  fun δ hδ => ⟨δ, hδ, .refl δ⟩

theorem fitsBack_declare (γ : Option Context) (name : Ident) :
    FitsBack (γ.map (·.declare name)) γ := by
  rintro δ rfl
  exact ⟨δ.declare name, rfl, Context.fits_declare δ name⟩

/-- A branch to a block with the same context. -/
theorem Laid.br (h : Laid inMain e₀ e₁ pending γ e) (hi : Known e₁ i γ) :
    Laid inMain e₀ e₁ pending none (e.terminate (.br (some i))) := by
  refine h.terminate _ fun δ hδ j hj => ?_
  obtain rfl : i = j := Option.some.inj (Option.mem_toList.mp hj)
  exact ⟨δ, hi.2.trans hδ, .refl δ⟩

/-- A branch to one of two blocks that the context fits. -/
theorem Laid.condBr (h : Laid inMain e₀ e₁ pending γ e) {j : ℕ} {γ₁ γ₂ : Option Context}
    (hi : Known e₁ i γ₁) (hj : Known e₁ j γ₂) (h₁ : FitsBack γ₁ γ) (h₂ : FitsBack γ₂ γ) :
    Laid inMain e₀ e₁ pending none (e.terminate (.condBr i j)) := by
  refine h.terminate _ fun δ hδ k hk => ?_
  rcases List.mem_cons.mp hk with rfl | hk
  · obtain ⟨δ', hδ', hfits⟩ := h₁ δ hδ
    exact ⟨δ', hi.2.trans hδ', hfits⟩
  · obtain rfl := List.mem_singleton.mp hk
    obtain ⟨δ', hδ', hfits⟩ := h₂ δ hδ
    exact ⟨δ', hj.2.trans hδ', hfits⟩

/-- The next pending block. -/
theorem Laid.moveTo (h : Laid inMain e₀ e₁ (i :: pending) γ e) (hi : Known e₁ i δ) :
    Laid inMain e₀ e₁ pending δ (e.positionAt i) := by
  obtain ⟨hle, hlt, -, hempty⟩ := h.pending i List.mem_cons_self
  obtain ⟨hnew, hnodup⟩ := List.nodup_cons.mp h.nodup
  have hcurrent : (e.toBuilder.positionAt i).current = i := current_positionAt hlt
  have hgrows := grows_positionAt e i
  refine ⟨h.tracked.positionAt hlt hempty, (hi.grows h.grows).2,
    h.grows₀.trans hgrows, h.grows.trans hgrows, ?_, hnodup, ?_⟩
  · refine ⟨fun j hj hne => ?_, .inr ?_⟩
    · show (e.toBuilder.positionAt i).block j = _
      rw [block_positionAt]
      exact h.stays.blocks j hj hne
    · show e₀.size ≤ (e.toBuilder.positionAt i).current
      rw [hcurrent]
      exact hle
  · intro j hj
    obtain ⟨hle', hlt', -, hempty'⟩ := h.pending j (List.mem_cons_of_mem i hj)
    show _ ∧ j < (e.toBuilder.positionAt i).size ∧ j ≠ (e.toBuilder.positionAt i).current ∧
      (e.toBuilder.positionAt i).block j = []
    rw [size_positionAt, hcurrent, block_positionAt]
    exact ⟨hle', hlt', fun heq => hnew (heq ▸ hj), hempty'⟩

/-- A piece of code is emitted in the middle of a statement. -/
theorem Laid.piece (h : Laid inMain e₀ e₁ pending γ e) (hpiece : Emitted inMain names e e') :
    Laid inMain e₀ e₁ pending e'.context e' where
  tracked := hpiece.tracked
  context := rfl
  grows₀ := h.grows₀.trans hpiece.grows
  grows := h.grows.trans hpiece.grows
  stays := h.stays.trans h.grows₀.blocks.1 hpiece.stays
  nodup := h.nodup
  pending := by
    intro i hi
    obtain ⟨hle, hlt, hne, hempty⟩ := h.pending i hi
    refine ⟨hle, hlt.trans_le hpiece.grows.blocks.1, ?_, ?_⟩
    · rcases hpiece.stays.current with hcurrent | hcurrent
      · rwa [hcurrent]
      · omega
    · rw [hpiece.stays.blocks i hlt hne, hempty]

/-- The statement is complete. -/
theorem Laid.emitted (h : Laid inMain e₀ e₁ pending γ e) (hloop : SameLoop e₀ e)
    (husable : ∀ δ, γ = some δ → δ.Usable inMain e.size)
    (hcarries : Carries e₀.size names e₀.context γ) : Emitted inMain names e₀ e where
  tracked := h.tracked
  usable := by
    rw [h.context]
    exact husable
  grows := h.grows₀
  stays := h.stays
  sameLoop := hloop
  carries := by
    rw [h.context]
    exact hcarries

/-- Nothing but fields that are no code have changed. -/
theorem Laid.sameCode (h : Laid inMain e₀ e₁ pending γ e) (hblocks : e'.toBuilder = e.toBuilder)
    (hcontexts : e'.contexts = e.contexts) (hcontext : e'.context = e.context)
    (hspans : e'.spans = e.spans) : Laid inMain e₀ e₁ pending γ e' := by
  have hgrows : Grows e e' := by
    refine ⟨?_, ?_⟩
    · rw [hblocks]
      exact .refl _
    · rw [hcontexts]
  have hstays : Stays e e' := by
    refine ⟨fun i _ _ => ?_, .inl ?_⟩ <;> rw [hblocks]
  refine ⟨h.tracked.sameCode hblocks hcontexts hcontext hspans, hcontext.trans h.context,
    h.grows₀.trans hgrows, h.grows.trans hgrows, h.stays.trans h.grows₀.blocks.1 hstays,
    h.nodup, ?_⟩
  rw [hblocks]
  exact h.pending

theorem Laid.setupLoopState (h : Laid inMain e₀ e₁ pending γ e) (endBlock continueBlock : ℕ) :
    Laid inMain e₀ e₁ pending γ (e.setupLoopState endBlock continueBlock) :=
  h.sameCode rfl rfl rfl rfl

theorem Laid.restoreLoopState (h : Laid inMain e₀ e₁ pending γ e) (outer : Emission) :
    Laid inMain e₀ e₁ pending γ (e.restoreLoopState outer) :=
  h.sameCode rfl rfl rfl rfl

/-- The order of the pending blocks does not matter. -/
theorem Laid.perm (h : Laid inMain e₀ e₁ pending γ e) {pending' : List ℕ}
    (hperm : pending'.Perm pending) : Laid inMain e₀ e₁ pending' γ e :=
  { h with
    nodup := hperm.nodup_iff.mpr h.nodup
    pending := fun i hi => h.pending i (hperm.mem_iff.mp hi) }

/-- Less may be known of the blocks. -/
theorem Laid.weaken {e₂ : Emission} (h : Laid inMain e₀ e₂ pending γ e) (hgrows : Grows e₁ e₂) :
    Laid inMain e₀ e₁ pending γ e :=
  { h with grows := hgrows.trans h.grows }

/-- The beginning of a statement. -/
theorem laid_start (h : e.Ready inMain) : Laid inMain e e [] e.context e where
  tracked := h.tracked
  context := rfl
  grows₀ := .refl e
  grows := .refl e
  stays := .refl e
  nodup := List.nodup_nil
  pending := nofun

/-- The context of a new block. -/
theorem Laid.known_addBlocks (h : Laid inMain e₀ e₁ pending γ e) {n : ℕ} (hle : e.size ≤ i)
    (hlt : i < e.size + n) : Known (e.addBlocks n δ) i δ := by
  have hlength := h.tracked.length
  refine ⟨?_, ?_⟩
  · show i < (e.contexts ++ List.replicate n δ).length
    rw [List.length_append, List.length_replicate]
    omega
  · show (e.contexts ++ List.replicate n δ).getD i none = δ
    rw [List.getD_append_right _ _ _ _ (by omega), List.getD_replicate _ (by omega)]

/-- New blocks are created. -/
theorem Laid.addBlocks (h : Laid inMain e₀ e₁ pending γ e) (n : ℕ) (δ : Option Context) :
    Laid inMain e₀ (e.addBlocks n δ) (List.range' e.size n ++ pending) γ (e.addBlocks n δ) where
  tracked := h.tracked.addBlocks n δ
  context := h.context
  grows₀ := h.grows₀.trans (grows_addBlocks e n δ)
  grows := .refl _
  stays := by
    refine h.stays.trans h.grows₀.blocks.1 ⟨fun i _ _ => ?_, .inl rfl⟩
    exact block_addBlocks e.toBuilder n i
  nodup := by
    refine List.nodup_append.mpr ⟨List.nodup_range', h.nodup, fun i hi j hj => ?_⟩
    have hle := (List.mem_range'_1.mp hi).1
    have hlt := (h.pending j hj).2.1
    omega
  pending := by
    intro i hi
    have hsize : e₀.size ≤ e.size := h.grows₀.blocks.1
    have hlt : e.current < e.size := e.current_lt
    show _ ∧ i < (e.toBuilder.addBlocks n).size ∧ i ≠ e.current ∧
      (e.toBuilder.addBlocks n).block i = []
    rw [size_addBlocks, block_addBlocks]
    rcases List.mem_append.mp hi with hi | hi
    · have hi := List.mem_range'_1.mp hi
      rw [block_of_size_le (by omega)]
      exact ⟨by omega, by omega, by omega, rfl⟩
    · obtain ⟨hle, hlt, hne, hempty⟩ := h.pending i hi
      exact ⟨hle, by omega, hne, hempty⟩

theorem Laid.current_positionAt (h : Laid inMain e₀ e₁ (i :: pending) γ e) :
    (e.positionAt i).current = i :=
  BasicBlocks.Builder.current_positionAt (h.pending i List.mem_cons_self).2.1

/-! ### Scopes of blocks -/

/-- The branch behind a block. -/
theorem Laid.branchBack (h : Laid inMain e₀ e₁ pending γ e) {outside : Option Context}
    (hback : FitsBack outside γ) {target : ℕ} (htarget : Known e₁ target outside) :
    Laid inMain e₀ e₁ pending none (e.terminate (.br (some target))) := by
  refine h.terminate _ fun δ hδ => ?_
  obtain ⟨δ', hδ', hfits⟩ := hback δ hδ
  intro j hj
  obtain rfl : j = target := (Option.mem_toList.mp hj |> Option.some.inj).symm
  exact ⟨δ', htarget.2.trans hδ', hfits⟩

theorem Laid.branchIfOpen (h : Laid inMain e₀ e₁ pending γ e) {outside : Option Context}
    (hback : FitsBack outside γ) {target : ℕ} (htarget : Known e₁ target outside) :
    Laid inMain e₀ e₁ pending none (e.branchIfOpen target) := by
  rw [Emission.branchIfOpen]
  split
  · rename_i hterm
    have hnone := h.tracked.context_of_hasTerminator hterm
    rw [h.context] at hnone
    exact hnone ▸ h
  · exact h.branchBack hback htarget

/-- The pop at the end of a block. -/
theorem Laid.popScope (h : Laid true e₀ e₁ pending γ e) {outside : Option Context} {block : ℕ}
    (hinside : ∀ δ', γ = some δ' →
      ∃ δ, outside = some δ ∧ 1 ≤ δ.depth ∧ Context.Inside block δ δ') :
    ∃ γ', Laid true e₀ e₁ pending γ' (e.instr (.popTo (.result block))) ∧
      FitsBack outside γ' := by
  refine ⟨_, h.instr _ fun δ' hδ' => ?_, fun δ'' hδ'' => ?_⟩
  · obtain ⟨δ, -, hdeep, hin⟩ := hinside δ' hδ'
    exact ⟨δ.depth, hin.result, hdeep, hin.depth ▸ Nat.le_succ _⟩
  · obtain ⟨δ', hδ', hpop⟩ := Option.bind_eq_some_iff.mp hδ''
    obtain ⟨δ, hδ, -, hin⟩ := hinside δ' hδ'
    have hpop : (δ'.depths (.result block)).map δ'.popTo = some δ'' := hpop
    rw [hin.result] at hpop
    obtain rfl := Option.some.inj hpop
    exact ⟨δ, hδ, hin.popTo_fits⟩

theorem LeavesTo.inside {b block : ℕ} {δ δ' target : Context} (h : LeavesTo (some b) δ target)
    (hin : Context.Inside block δ δ') : LeavesTo (some b) δ' target := by
  refine ⟨fun b' hb' => ?_, nofun⟩
  obtain ⟨d, hd, hlt, hfits⟩ := h.1 b' hb'
  refine ⟨d, hin.depths _ d hd, ?_, ?_, fun source c hc => hin.depths _ c (hfits.2 source c hc)⟩
  · rw [hin.depth]
    omega
  · have hdrop : δ'.scopes.drop (δ'.depth - d) = δ.scopes.drop (δ.depth - d) := by
      rw [hin.depth, ← hin.tail, ← List.drop_one, List.drop_drop]
      congr 1
      omega
    show List.Forall₂ _ (δ'.scopes.drop (δ'.depth - d)) _
    rw [hdrop]
    exact hfits.1

/-- What is carried to the end of a block is inside of its scope. -/
theorem inside_of_carries {size block : ℕ} {before after outside : Option Context}
    (hcarries : Carries size names before after)
    (hbefore : ∀ δ', before = some δ' → (∀ source d, δ'.depths source = some d → source.block < size) ∧
      ∃ δ, outside = some δ ∧ 1 ≤ δ.depth ∧ Context.Inside block δ δ') :
    ∀ δ', after = some δ' → ∃ δ, outside = some δ ∧ 1 ≤ δ.depth ∧ Context.Inside block δ δ' := by
  intro δ'' hδ''
  obtain ⟨δ', hδ', hscopes, hdepths⟩ := hcarries δ'' hδ''
  obtain ⟨hknown, δ, hδ, hdeep, hin⟩ := hbefore δ' hδ'
  refine ⟨δ, hδ, hdeep, hin.carries hscopes fun source d hd => ?_⟩
  rw [hdepths source (hknown source d hd), hd]

/-- A statement can be built in the middle of another one, where the context is the one before
or inside of a scope of its own. -/
theorem Laid.ready (h : Laid inMain e₀ e₁ pending γ e) (he : e₀.Ready inMain)
    (hloop : SameLoop e₀ e)
    (hγ : ∀ δ, γ = some δ → δ.Usable inMain e.size ∧ ∃ δ₀, e₀.context = some δ₀ ∧
      (δ = δ₀ ∨ inMain = true ∧ ∃ block, Context.Inside block δ₀ δ)) : e.Ready inMain where
  tracked := h.tracked
  usable := by
    rw [h.context]
    exact fun δ hδ => (hγ δ hδ).1
  base hfn := hloop.loopBase.trans (he.base hfn)
  inLoop := by
    rw [hloop.loopBase, hloop.loopTargets_eq]
    exact he.inLoop
  mainBase hmain hbase := by
    rw [hloop.loopBase] at hbase
    rw [hloop.loopTargets_eq]
    exact he.mainBase hmain hbase
  leaves := by
    intro t ht δ hδ
    rw [h.context] at hδ
    rw [hloop.loopTargets_eq] at ht
    obtain ⟨-, δ₀, hδ₀, hcases⟩ := hγ δ hδ
    obtain ⟨target, htarget, hleaves⟩ := he.leaves t ht δ₀ hδ₀
    refine ⟨target, getD_of_prefix h.grows₀.contexts htarget, ?_⟩
    rw [hloop.loopBase]
    rcases hcases with rfl | ⟨hmain, block, hin⟩
    · exact hleaves
    · cases hbase : e₀.loopBase with
      | none =>
          rw [he.mainBase hmain hbase] at ht
          cases ht
      | some b =>
          rw [hbase] at hleaves
          exact hleaves.inside hin

/-- In a function the statements of a block leave the context as it was. -/
theorem fitsBack_of_emitted (he : e.Ready false) (h : Emitted false names e e') :
    FitsBack e.context e'.context := by
  intro δ' hδ'
  obtain ⟨δ, hδ, hscopes, hdepths⟩ := h.carries δ' hδ'
  have husable := he.usable δ hδ
  refine ⟨δ, hδ, Context.fits_of_scopes ?_ fun source d hd => ?_⟩
  · rw [hscopes, Context.declareAll_of_unfollowed (husable.unfollowed rfl)]
  · rw [hdepths source (husable.known source d hd).1, hd]

/-- **A block with a scope** leaves the context as it was, if control comes to its end. -/
theorem Laid.scopedBranch (h : Laid inMain e₀ e₁ pending γ e) (hγ : γ = e₀.context)
    (he : e₀.Ready inMain) (hloop : SameLoop e₀ e) (hnew : e₀.size ≤ e.current)
    {body : Emission → Emission}
    (hbody : ∀ e, e.Ready inMain → Emitted inMain names e (body e)) :
    ∃ γ', Laid inMain e₀ e₁ pending γ' (e.scopedBranch inMain body) ∧
      FitsBack γ γ' ∧ SameLoop e₀ (e.scopedBranch inMain body) := by
  subst hγ
  cases inMain with
  | false =>
      have hready : e.Ready false := h.ready he hloop fun δ hδ =>
        ⟨(he.usable δ hδ).mono h.grows₀.blocks.1, δ, hδ, .inl rfl⟩
      have hemitted := hbody e hready
      refine ⟨_, h.piece hemitted, ?_, hloop.trans hemitted.sameLoop⟩
      exact h.context ▸ fitsBack_of_emitted hready hemitted
  | true =>
      have hentered := (h.instr .scopeDepth fun _ _ => trivial).instr .pushScope fun _ _ => trivial
      have hcontext : ((e₀.context.bind fun δ => Instr.context e.current δ .scopeDepth).bind
          fun δ => Instr.context (e.instr .scopeDepth).current δ .pushScope) =
          e₀.context.map (Context.enterBranch e.current) := by
        cases e₀.context <;> rfl
      rw [hcontext] at hentered
      have hlt : e.current < ((e.instr .scopeDepth).instr .pushScope).size :=
        ((e.instr .scopeDepth).instr .pushScope).current_lt
      have hinside : ∀ δ', e₀.context.map (Context.enterBranch e.current) = some δ' →
          δ'.Usable true ((e.instr .scopeDepth).instr .pushScope).size ∧
            ∃ δ, e₀.context = some δ ∧ 1 ≤ δ.depth ∧ Context.Inside e.current δ δ' := by
        intro δ' hδ'
        obtain ⟨δ, hδ, rfl⟩ := Option.map_eq_some_iff.mp hδ'
        have husable := he.usable δ hδ
        exact ⟨Context.usable_enterBranch (husable.mono hentered.grows₀.blocks.1) hlt, δ, hδ,
          husable.deep, Context.inside_enterBranch husable hnew⟩
      have hpushed : SameLoop e₀ ((e.instr .scopeDepth).instr .pushScope) :=
        hloop.trans ⟨rfl, rfl, rfl⟩
      have hready := hentered.ready he hpushed fun δ' hδ' => by
        obtain ⟨husable, δ, hδ, -, hin⟩ := hinside δ' hδ'
        exact ⟨husable, δ, hδ, .inr ⟨rfl, _, hin⟩⟩
      have hemitted := hbody _ hready
      have hend := inside_of_carries hemitted.carries fun δ' hδ' => by
        rw [hentered.context] at hδ'
        obtain ⟨husable, hout⟩ := hinside δ' hδ'
        exact ⟨fun source d hd => (husable.known source d hd).1, hout⟩
      have hlaid := hentered.piece hemitted
      have hsame := hpushed.trans hemitted.sameLoop
      have hcode : e.scopedBranch true body =
          if (body ((e.instr .scopeDepth).instr .pushScope)).hasTerminator then
            body ((e.instr .scopeDepth).instr .pushScope)
          else (body ((e.instr .scopeDepth).instr .pushScope)).instr (.popTo (.result e.current)) :=
        rfl
      rw [hcode]
      split
      · rename_i hterm
        refine ⟨_, hlaid, ?_, hsame⟩
        rw [hlaid.tracked.context_of_hasTerminator hterm]
        exact fitsBack_none
      · obtain ⟨γ', hpopped, hback⟩ := hlaid.popScope hend
        exact ⟨γ', hpopped, hback, hsame.trans ⟨rfl, rfl, rfl⟩⟩

/-! ### Bodies of loops -/

theorem sameLoop_instrs (instrs : List Instr) : ∀ e : Emission, SameLoop e (e.instrs instrs) := by
  induction instrs with
  | nil => exact fun e => .refl e
  | cons i instrs ih =>
      intro e
      have hfirst : SameLoop e (e.instr i) := ⟨rfl, rfl, rfl⟩
      exact hfirst.trans (ih (e.instr i))

theorem grows_instrs (instrs : List Instr) : ∀ e : Emission, Grows e (e.instrs instrs) := by
  induction instrs with
  | nil => exact fun e => .refl e
  | cons i instrs ih => exact fun e => (grows_instr e i).trans (ih (e.instr i))

theorem context_setupLoopScope (block : ℕ) (γ : Option Context) :
    (((γ.bind fun δ => Instr.context block δ .scopeDepth).bind
      fun δ => Instr.context block δ .pushScope).bind
      fun δ => Instr.context block δ .storeLoopBase) = γ.map (Context.enterLoop block) := by
  cases γ with
  | none => rfl
  | some δ =>
      show some ((δ.enterBranch block).keep _ ((δ.enterBranch block).depths (.result block))) = _
      rw [Context.enterBranch, Context.depths_push, Context.depths_keep_self]
      rfl

/-- The body of a loop can be built. -/
theorem Laid.readyBody (h : Laid inMain e₀ e₁ pending γ e) {outside : Option Context}
    (hbase : inMain = false → e.loopBase = none) (hmainBase : inMain = true → e.loopBase ≠ none)
    (hne : e.loopTargets ≠ []) (htargets : ∀ t ∈ e.loopTargets, Known e₁ t outside)
    (hγ : ∀ δ, γ = some δ → δ.Usable inMain e.size ∧
      ∃ target, outside = some target ∧ LeavesTo e.loopBase δ target) : e.Ready inMain where
  tracked := h.tracked
  usable := by
    rw [h.context]
    exact fun δ hδ => (hγ δ hδ).1
  base := hbase
  inLoop _ := hne
  mainBase hmain hnone := absurd hnone (hmainBase hmain)
  leaves := by
    intro t ht δ hδ
    rw [h.context] at hδ
    obtain ⟨-, target, htarget, hleaves⟩ := hγ δ hδ
    exact ⟨target, getD_of_prefix h.grows.contexts ((htargets t ht).2.trans htarget), hleaves⟩

/-- In the scope of a loop, `break` and `continue` pop it. -/
theorem leavesTo_enterLoop {size block : ℕ} {δ : Context} (h : δ.Usable true size)
    (hblock : size ≤ block) : LeavesTo (some block) (δ.enterLoop block) δ := by
  have hin := Context.inside_enterLoop h hblock
  refine ⟨fun b hb => ?_, nofun⟩
  obtain rfl := Option.some.inj hb
  exact ⟨δ.depth, Context.depths_enterLoop_loopSlot, hin.depth ▸ Nat.lt_succ_self _, hin.popTo_fits⟩

/-- **The body of a loop** leads to the next turn in the context at its beginning. -/
theorem Laid.loopBody (h : Laid inMain e₀ e₁ pending γ e) (hnew : e₀.size ≤ e.current)
    (hγ : ∀ δ, γ = some δ → δ.Usable inMain e₀.size)
    (hbase : inMain = false → e.loopBase = none) (hne : e.loopTargets ≠ [])
    (htargets : ∀ t ∈ e.loopTargets, Known e₁ t γ) {enter : List Instr}
    (henter : ∀ i ∈ enter, i.IsNeutral) {body : Emission → Emission}
    (hbody : ∀ e, e.Ready inMain → Emitted inMain names e (body e)) {next : ℕ}
    (hnext : Known e₁ next γ) :
    Laid inMain e₀ e₁ pending none (e.loopBody inMain enter body next) := by
  cases inMain with
  | false =>
      have hentered := h.neutrals henter fun δ hδ => (hγ δ hδ).deep
      have hsame := sameLoop_instrs enter e
      have hready : (e.instrs enter).Ready false := by
        refine hentered.readyBody (fun hfn => hsame.loopBase.trans (hbase hfn)) nofun
          (hsame.loopTargets_eq.symm ▸ hne) (fun t ht => htargets t (hsame.loopTargets_eq ▸ ht)) fun δ hδ => ?_
        have husable := hγ δ hδ
        refine ⟨husable.mono hentered.grows₀.blocks.1, δ, hδ, ?_, fun _ => ?_⟩
        · rw [hsame.loopBase, hbase rfl]
          exact nofun
        · exact ⟨husable.unfollowed rfl, .refl δ⟩
      have hemitted := hbody _ hready
      have hback := fitsBack_of_emitted hready hemitted
      rw [hentered.context] at hback
      have hlaid := hentered.piece hemitted
      have hcode : e.loopBody false enter body next =
          (body (e.instrs enter)).branchIfOpen next := rfl
      rw [hcode]
      exact hlaid.branchIfOpen hback hnext
  | true =>
      have hpushed := ((h.instr .scopeDepth fun _ _ => trivial).instr .pushScope
        fun _ _ => trivial).instr .storeLoopBase fun _ _ => trivial
      have hscope : Laid true e₀ e₁ pending (γ.map (Context.enterLoop e.current))
          (((e.instr .scopeDepth).instr .pushScope).instr .storeLoopBase) :=
        context_setupLoopScope e.current γ ▸ hpushed
      have hstart : Laid true e₀ e₁ pending (γ.map (Context.enterLoop e.current))
          (e.setupLoopScope true) := hscope.sameCode rfl rfl rfl rfl
      have hinside : ∀ δ', γ.map (Context.enterLoop e.current) = some δ' →
          ∃ δ, γ = some δ ∧ 1 ≤ δ.depth ∧ Context.Inside e.current δ δ' := by
        intro δ' hδ'
        obtain ⟨δ, hδ, rfl⟩ := Option.map_eq_some_iff.mp hδ'
        exact ⟨δ, hδ, (hγ δ hδ).deep, Context.inside_enterLoop (hγ δ hδ) hnew⟩
      have hentered := hstart.neutrals henter fun δ' hδ' => by
        obtain ⟨δ, -, hdeep, hin⟩ := hinside δ' hδ'
        rw [hin.depth]
        omega
      have hsame := sameLoop_instrs enter (e.setupLoopScope true)
      have hlt : e.current < ((e.setupLoopScope true).instrs enter).size :=
        (e.setupLoopScope true).current_lt.trans_le (grows_instrs enter _).blocks.1
      have husable : ∀ δ', γ.map (Context.enterLoop e.current) = some δ' →
          δ'.Usable true ((e.setupLoopScope true).instrs enter).size := by
        intro δ' hδ'
        obtain ⟨δ, hδ, rfl⟩ := Option.map_eq_some_iff.mp hδ'
        exact Context.usable_enterLoop ((hγ δ hδ).mono hentered.grows₀.blocks.1) hlt
      have hready : ((e.setupLoopScope true).instrs enter).Ready true := by
        refine hentered.readyBody nofun (fun _ hnone => ?_) (hsame.loopTargets_eq.symm ▸ hne)
          (fun t ht => htargets t (hsame.loopTargets_eq ▸ ht)) fun δ' hδ' => ?_
        · rw [hsame.loopBase] at hnone
          cases hnone
        · refine ⟨husable δ' hδ', ?_⟩
          obtain ⟨δ, hδ, rfl⟩ := Option.map_eq_some_iff.mp hδ'
          refine ⟨δ, hδ, ?_⟩
          rw [hsame.loopBase]
          exact leavesTo_enterLoop (hγ δ hδ) hnew
      have hemitted := hbody _ hready
      have hend := inside_of_carries hemitted.carries fun δ' hδ' => by
        rw [hentered.context] at hδ'
        exact ⟨fun source d hd => ((husable δ' hδ').known source d hd).1, hinside δ' hδ'⟩
      have hlaid := hentered.piece hemitted
      have hcode : e.loopBody true enter body next =
          if (body ((e.setupLoopScope true).instrs enter)).hasTerminator then
            body ((e.setupLoopScope true).instrs enter)
          else ((body ((e.setupLoopScope true).instrs enter)).instr
            (.popTo (.result e.current))).terminate (.br (some next)) := rfl
      rw [hcode]
      split
      · rename_i hterm
        rwa [hlaid.tracked.context_of_hasTerminator hterm] at hlaid
      · obtain ⟨γ', hpopped, hback⟩ := hlaid.popScope hend
        exact hpopped.branchBack hback hnext

end Laid

end Emission

end BreadLang
