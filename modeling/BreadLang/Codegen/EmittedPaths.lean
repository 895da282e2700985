import BreadLang.Codegen.CodePaths

/-!
# The blocks of a body have its paths

Each function that emits a piece of code is shown to emit code with the paths of the piece
(`EmitsPaths`).  The equations of the places are taken from the end of the piece to its beginning;
that of the head of a loop has one solution.
-/

namespace BreadLang

open BasicBlocks BasicBlocks.Builder Emission

/-- **A function emits code with these paths**, given whether the loop around it has a scope.
If its own end is an exit, it does not matter what would be done behind it. -/
structure EmitsPaths (f : Emission → Emission) (w : Bool → Ways (Language Action)) (exits : Bool) :
    Prop where
  emits : ∃ written, Emits f true written exits
  sameLoop : ∀ e, SameLoop e (f e)
  paths : ∀ (e : Emission) F l l', Builder.IsOpen (e.block e.current) → GoesOn F (f e) l →
    (exits = false → l' = l) → GoesOn F e ((w e.loopBase.isSome).meets (e.after F l'))

section Pieces

variable {F b : BasicBlocks.Builder Instr Terminator} {e : Emission} {exits exits' : Bool}
  {w w' : Bool → Ways (Language Action)} {body body' : Emission → Emission} {pending : List ℕ}

theorem EmitsPaths.builds (h : EmitsPaths body w exits) (hopen : IsOpen (e.block e.current)) :
    Builds e.toBuilder [] exits (body e).toBuilder :=
  let ⟨_, hemits⟩ := h.emits
  (hemits e).result hopen

theorem BasicBlocks.Builder.Lays.isOpen {written : Bool}
    (h : Lays true written b pending false e.toBuilder) (hopen : IsOpen (b.block b.current)) :
    IsOpen (e.block e.current) :=
  Builds.isOpen (h.result hopen)

theorem emitsPaths_instrs (is : List Instr) : EmitsPaths (·.instrs is) (fun _ => steps is) false where
  emits := by
    cases is with
    | nil => exact ⟨false, fun e => .start e.toBuilder⟩
    | cons i is => exact ⟨true, fun e => ((Lays.start e.toBuilder).emitInstr i).emitInstrs is⟩
  sameLoop := sameLoop_instrs is
  paths e F l l' _ h hl := by
    rw [meets_steps, after, hl rfl]
    exact h.instrs

/-- One piece after another. -/
theorem EmitsPaths.seq (hemits : Emits body true true false) (h : EmitsPaths body w false)
    (h' : EmitsPaths body' w' exits) :
    EmitsPaths (fun e => body' (body e)) (fun s => (w s).seq (w' s)) exits where
  emits :=
    let ⟨_, hemits'⟩ := h'.emits
    ⟨true, fun e => (hemits e).trans (hemits' _)⟩
  sameLoop e := (h.sameLoop e).trans (h'.sameLoop _)
  paths e F l l' hopen hl hnormal := by
    have hrest := h'.paths _ F l l' (h.builds hopen).isOpen hl hnormal
    have hsame := h.sameLoop e
    have hafter : (body e).after F l' = e.after F l' := by
      rw [after, after, hsame.loopEnd, hsame.loopContinue]
    rw [hsame.loopBase, hafter] at hrest
    rw [Ways.meets_seq]
    exact h.paths e F _ _ hopen hrest fun _ => rfl

/-- What is emitted behind a piece unless it ends in an exit. -/
theorem EmitsPaths.unlessTerminated {e' : Emission} {l : Language Action} (h : EmitsPaths body w exits)
    (hopen : IsOpen (e.block e.current))
    (hF : Extends (if (body e).hasTerminator then body e else e').toBuilder F)
    (hl : Extends e'.toBuilder F → GoesOn F (body e) l) :
    GoesOn F e ((w e.loopBase.isSome).meets (e.after F l)) := by
  rw [(h.builds hopen).hasTerminator_eq] at hF
  cases exits with
  | true => exact h.paths e F _ l hopen (goesOn_self hF) (by rintro ⟨⟩)
  | false => exact h.paths e F _ l hopen (hl hF) fun _ => rfl

theorem EmitsPaths.sameLoop_iff {e' : Emission} (h : EmitsPaths body w exits) :
    SameLoop e (body e') ↔ SameLoop e e' := by
  have hsame := h.sameLoop e'
  refine ⟨fun h' => ⟨?_, ?_, ?_⟩, fun h' => h'.trans hsame⟩
  · exact hsame.loopEnd.symm.trans h'.loopEnd
  · exact hsame.loopContinue.symm.trans h'.loopContinue
  · exact hsame.loopBase.symm.trans h'.loopBase

/-- A piece, and a branch behind it unless it ends in an exit. -/
theorem EmitsPaths.goesOn_branch (h : EmitsPaths body w exits) (hopen : IsOpen (e.block e.current))
    (outer : Emission) (hsame : SameLoop outer e) {target : ℕ}
    (hF : Extends ((body e).branchIfOpen target).toBuilder F) :
    GoesOn F e ((w outer.loopBase.isSome).meets (outer.after F (pathsAt F (some target)))) := by
  have hbody := h.unlessTerminated hopen hF fun hbranch => goesOn_br hbranch
  rw [hsame.loopBase, after, hsame.loopEnd, hsame.loopContinue] at hbody
  exact hbody

/-! ### Blocks with scopes -/

theorem emitsPaths_scopedBranch (hasScope : Bool) (h : EmitsPaths body w exits) :
    EmitsPaths (scopedBranch hasScope body) (fun s => inBlock hasScope (w s)) exits := by
  cases hasScope with
  | false => exact h
  | true =>
      obtain ⟨written, hemits⟩ := h.emits
      refine ⟨⟨true, emits_scopedBranch true hemits⟩, fun e => ?_, fun e F l l' hopen hl hnormal => ?_⟩
      · have hsame := (sameLoop_instrs [.scopeDepth, .pushScope] e).trans (h.sameLoop _)
        show SameLoop e (if (body _).hasTerminator then body _ else (body _).instr _)
        split
        · exact hsame
        · exact hsame.trans ⟨rfl, rfl, rfl⟩
      · have hopen' := ((emitsPaths_instrs [.scopeDepth, .pushScope]).builds hopen).isOpen
        have hcode : e.scopedBranch true body =
            if exits then body (e.instrs [.scopeDepth, .pushScope])
            else (body (e.instrs [.scopeDepth, .pushScope])).instr (.popTo (.result e.current)) := by
          rw [← (h.builds hopen').hasTerminator_eq]
          rfl
        rw [hcode] at hl
        rw [inBlock, if_pos rfl, Ways.meets_seq, Ways.meets_seq, meets_steps, meets_popping]
        cases exits with
        | true => exact (h.paths _ F l _ hopen' hl (by rintro ⟨⟩)).instrs
        | false => exact (h.paths _ F _ _ hopen' hl.instr fun _ => by rw [after, hnormal rfl]; rfl).instrs

/-- The body of a loop, and the branch to the next turn. -/
theorem EmitsPaths.goesOn_loopBody (hasScope : Bool) (h : EmitsPaths body w exits)
    (hopen : IsOpen (e.block e.current)) {enter : List Instr} {next : ℕ}
    (hF : Extends (e.loopBody hasScope enter body next).toBuilder F) :
    GoesOn F e ((turnOf hasScope enter (w (hasScope || e.loopBase.isSome))).meets
      (e.after F (pathsAt F (some next)))) := by
  have hentered (is : List Instr) : IsOpen ((e.instrs is).block (e.instrs is).current) :=
    ((emitsPaths_instrs is).builds hopen).isOpen
  cases hasScope with
  | false =>
      have hbody := h.unlessTerminated (hentered enter) hF fun hbranch => goesOn_br hbranch
      have hsame := sameLoop_instrs enter e
      rw [hsame.loopBase, after, hsame.loopEnd, hsame.loopContinue] at hbody
      rw [turnOf, if_neg Bool.false_ne_true, Ways.meets_seq, meets_steps]
      exact hbody.instrs
  | true =>
      have hbody := h.unlessTerminated (F := F) (e := (e.setupLoopScope true).instrs enter)
        ?_ hF fun hbranch => (goesOn_br hbranch).instr
      · have hsame := sameLoop_instrs enter (e.setupLoopScope true)
        rw [hsame.loopBase, after, hsame.loopEnd, hsame.loopContinue] at hbody
        rw [turnOf, if_pos rfl, Ways.meets_seq, meets_steps, word_append, mul_assoc,
          Ways.meets_seq, meets_popping]
        have hscope : GoesOn F (e.instrs [.scopeDepth, .pushScope, .storeLoopBase]) _ :=
          hbody.instrs.sameCode rfl
        exact hscope.instrs
      · exact ((emitsPaths_instrs enter).builds (e := e.setupLoopScope true)
          (hentered [.scopeDepth, .pushScope, .storeLoopBase])).isOpen

/-- A turn of a loop, to whose blocks `break` and `continue` go. -/
theorem EmitsPaths.goesOn_turn (hasScope : Bool) (h : EmitsPaths body w exits)
    (hopen : IsOpen (e.block e.current)) (outer : Emission) (breakBlock continueBlock : ℕ)
    (hsame : SameLoop (outer.setupLoopState breakBlock continueBlock) e) {enter : List Instr}
    {next : ℕ} (hF : Extends (e.loopBody hasScope enter body next).toBuilder F) :
    GoesOn F e ((turnOf hasScope enter (w (hasScope || outer.loopBase.isSome))).meets
      ⟨pathsAt F (some next), pathsAt F (some breakBlock), pathsAt F (some continueBlock), 1⟩) := by
  have hbody := h.goesOn_loopBody hasScope hopen hF
  rw [after, hsame.loopEnd, hsame.loopContinue, hsame.loopBase] at hbody
  exact hbody

/-- The head of a loop that begins with a test. -/
theorem pathsAt_head {i : Instr} {turn after : Ways (Language Action)} {step head : Language Action}
    (h : head = {[i.action]} * (turn.meets ⟨step * head, after.normal, step * head, after.returned⟩ +
      after.normal)) : head = (((testOr i).seq turn).loop step).meets after := by
  refine Ways.eq_meets_loop (Ways.nil_notMem_again_guard _ _ _ _) (h.trans ?_)
  rw [Ways.meets_seq, meets_testOr]

/-! ### Statements with blocks of their own -/

theorem emitsPaths_varDecl (name : Ident) (type : VarType) (isConst : Bool) (value : Code) :
    EmitsPaths (Emission.varDecl name type isConst value) (fun _ =>
      (steps [.value value, .loop .initName]).seq
        ((((testOr (.loop .testName)).seq (steps [.loop .copyByte])).loop 1).seq
          (steps [.varDecl name type isConst]))) false where
  emits := ⟨true, emits_varDecl⟩
  sameLoop e := by simp [Emission.varDecl]
  paths e F l l' hopen hl hnormal := by
    have hvalue := ((Lays.start e.toBuilder).emitInstr (.value value)).emitBlocks 3
      (e.instr (.value value)).context
    have htest := (hvalue.emitInstr (.loop .initName)).emitTerminator
      (.br (some (e.instr (.value value)).size))
    have hcopy := (htest.moveTo.emitInstr (.loop .testName)).emitTerminator
      (.condBr ((e.instr (.value value)).size + 2) ((e.instr (.value value)).size + 1))
    have hend := (hcopy.moveTo.emitInstr (.loop .copyByte)).emitTerminator
      (.br (some (e.instr (.value value)).size))
    obtain ⟨hF₃, hdeclare⟩ := hl.instr.moved hend hopen
    obtain ⟨hF₂, hagain⟩ := (goesOn_br hF₃).instr.moved hcopy hopen
    obtain ⟨hF₁, hhead⟩ := (goesOn_condBr hF₂).instr.moved htest hopen
    rw [hdeclare, hagain, add_comm] at hhead
    have hloop : pathsAt F (some (e.instr (.value value)).size) =
        (((testOr (.loop .testName)).seq (steps [.loop .copyByte])).loop 1).meets
          { e.after F l with normal := (steps [.varDecl name type isConst]).meets (e.after F l) } := by
      refine pathsAt_head ?_
      simp only [meets_steps, one_mul]
      exact hhead
    have hinit : GoesOn F (e.instrs [.value value]) _ := (goesOn_br hF₁).instr.addBlocks
    rw [hnormal rfl, Ways.meets_seq, Ways.meets_seq, ← hloop, meets_steps, word_cons, mul_assoc]
    exact hinit.instrs

theorem emitsPaths_ifThenElse (condition : Code) (hasScope : Bool)
    (elseCode : Option (Emission → Emission)) (h : EmitsPaths body w exits)
    (helse : EmitsPaths (elseCode.elim id (scopedBranch hasScope)) w' exits') :
    EmitsPaths (Emission.ifThenElse condition hasScope body elseCode) (fun s =>
      (steps [.value condition]).seq ((inBlock hasScope (w s)).choice (w' s))) false where
  emits := by
    obtain ⟨written, hemits⟩ := h.emits
    obtain ⟨written', hemits'⟩ := helse.emits
    exact ⟨true, emits_ifThenElse hasScope condition elseCode hemits hemits'⟩
  sameLoop e := by
    have hthen := emitsPaths_scopedBranch hasScope h
    cases elseCode with
    | none => simp [Emission.ifThenElse, hthen.sameLoop_iff]
    | some elseCode =>
        have hother : EmitsPaths (scopedBranch hasScope elseCode) w' exits' := helse
        simp [Emission.ifThenElse, hthen.sameLoop_iff, hother.sameLoop_iff]
  paths e F l l' hopen hl hnormal := by
    obtain ⟨written, hemits⟩ := h.emits
    obtain ⟨written', hemits'⟩ := helse.emits
    have hthen := emitsPaths_scopedBranch hasScope h
    have hstart := ((Lays.start e.toBuilder).emitInstr (.value condition)).emitBlocks 3
      (e.instr (.value condition)).context
    have hbranch := hstart.emitTerminator (.condBr (e.instr (.value condition)).size
      ((e.instr (.value condition)).size + 1))
    have hbody := (hbranch.moveTo.trans (emits_scopedBranch hasScope hemits _)).branchIfOpen
      ((e.instr (.value condition)).size + 2)
    have hboth := (hbody.moveTo.trans (hemits' _)).branchIfOpen
      ((e.instr (.value condition)).size + 2)
    have hmoved := fun hgoes => GoesOn.moved (F := F) (l := l) hgoes hboth hopen
    obtain ⟨hF₃, hend⟩ : _ ∧ pathsAt F (some ((e.instr (.value condition)).size + 2)) = l := hmoved (by
      cases elseCode with
      | none => exact hl
      | some elseCode => exact hl)
    obtain ⟨hF₂, hother⟩ := (helse.goesOn_branch (hbody.moveTo.isOpen hopen) e
      (by simp [hthen.sameLoop_iff]) hF₃).moved hbody hopen
    obtain ⟨hF₁, htaken⟩ := (hthen.goesOn_branch (hbranch.moveTo.isOpen hopen) e
      (by simp) hF₂).moved hbranch hopen
    have hhere : GoesOn F (e.instrs [.value condition]) _ := (goesOn_condBr hF₁).addBlocks
    rw [htaken, hother, hend] at hhere
    rw [hnormal rfl, Ways.meets_seq, meets_steps, Ways.meets_choice]
    exact hhere.instrs

theorem emitsPaths_whileLoop (condition : Code) (hasScope : Bool) (h : EmitsPaths body w exits) :
    EmitsPaths (Emission.whileLoop condition hasScope body) (fun s =>
      ((testOr (.value condition)).seq (turnOf hasScope [] (w (hasScope || s)))).loop 1) false where
  emits :=
    let ⟨_, hemits⟩ := h.emits
    ⟨true, emits_whileLoop hasScope hemits⟩
  sameLoop e := by simp [Emission.whileLoop]
  paths e F l l' hopen hl hnormal := by
    obtain ⟨written, hemits⟩ := h.emits
    have hstart : Lays true false e.toBuilder (List.range' e.size 3) false
        ((e.addBlocks 3 e.context).setupLoopState (e.size + 2) e.size).toBuilder :=
      (Lays.start e.toBuilder).emitBlocks 3 e.context
    have hcond := hstart.emitTerminator (.br (some e.size))
    have htest := (hcond.moveTo.emitInstr (.value condition)).emitTerminator
      (.condBr (e.size + 1) (e.size + 2))
    have hturn := lays_loopBody hasScope hemits [] e.size htest.moveTo
    obtain ⟨hF₃, hend⟩ := hl.moved hturn hopen
    obtain ⟨hF₂, hbody⟩ := (h.goesOn_turn hasScope (htest.moveTo.isOpen hopen)
      (e.addBlocks 3 e.context) (e.size + 2) e.size (by simp) hF₃).moved htest hopen
    obtain ⟨hF₁, hhead⟩ := (goesOn_condBr hF₂).instr.moved hcond hopen
    have hhere : GoesOn F (e.addBlocks 3 e.context) _ := (goesOn_br hF₁).sameCode rfl
    rw [hbody, hend] at hhead
    have hloop : pathsAt F (some e.size) = (((testOr (.value condition)).seq (turnOf hasScope []
        (w (hasScope || e.loopBase.isSome)))).loop 1).meets (e.after F l) :=
      pathsAt_head (by rw [one_mul]; exact hhead)
    rw [hnormal rfl, ← hloop]
    exact hhere.addBlocks

theorem emitsPaths_forRange (name : Ident) (start stop step : ℤ) (hasScope : Bool)
    (h : EmitsPaths body w exits) :
    EmitsPaths (Emission.forRange name start stop step hasScope body) (fun s =>
      (steps [.loop (.initRange start), .varDeclIfMissing ⟨name, .typeInt, false⟩]).seq
        (((testOr (.loop (.testRange stop step))).seq
          (turnOf hasScope [.varAssign name] (w (hasScope || s)))).loop
            (word [.loop (.stepRange step)]))) false where
  emits :=
    let ⟨_, hemits⟩ := h.emits
    ⟨true, emits_forRange hasScope hemits⟩
  sameLoop e := by simp [Emission.forRange, Emission.instrs]
  paths e F l l' hopen hl hnormal := by
    obtain ⟨written, hemits⟩ := h.emits
    have hblocks : Lays true false e.toBuilder (List.range' e.size 4) false
        ((e.addBlocks 4 (e.context.map (·.declare name))).setupLoopState (e.size + 3)
          (e.size + 2)).toBuilder :=
      (Lays.start e.toBuilder).emitBlocks 4 (e.context.map (·.declare name))
    have hcond := ((hblocks.emitInstr (.loop (.initRange start))).emitInstr
      (.varDeclIfMissing ⟨name, .typeInt, false⟩)).emitTerminator (.br (some e.size))
    have htest := (hcond.moveTo.emitInstr (.loop (.testRange stop step))).emitTerminator
      (.condBr (e.size + 1) (e.size + 3))
    have hturn := lays_loopBody hasScope hemits [.varAssign name] (e.size + 2) htest.moveTo
    have hstep := (hturn.moveTo.emitInstr (.loop (.stepRange step))).emitTerminator
      (.br (some e.size))
    obtain ⟨hF₄, hend⟩ := hl.moved hstep hopen
    obtain ⟨hF₃, hnext⟩ := (goesOn_br hF₄).instr.moved hturn hopen
    obtain ⟨hF₂, hbody⟩ := (h.goesOn_turn hasScope (htest.moveTo.isOpen hopen)
      (e.addBlocks 4 (e.context.map (·.declare name))) (e.size + 3) (e.size + 2) (by simp) hF₃).moved htest hopen
    obtain ⟨hF₁, hhead⟩ := (goesOn_condBr hF₂).instr.moved hcond hopen
    have hinit : GoesOn F (Emission.instrs _ [.loop (.initRange start),
        .varDeclIfMissing ⟨name, .typeInt, false⟩]) _ := goesOn_br hF₁
    have hhere : GoesOn F (e.addBlocks 4 (e.context.map (·.declare name))) _ :=
      hinit.instrs.sameCode rfl
    rw [hbody, hend, hnext] at hhead
    have hloop : pathsAt F (some e.size) = (((testOr (.loop (.testRange stop step))).seq
        (turnOf hasScope [.varAssign name] (w (hasScope || e.loopBase.isSome)))).loop
          (word [.loop (.stepRange step)])).meets (e.after F l) :=
      pathsAt_head hhead
    rw [hnormal rfl, Ways.meets_seq, ← hloop, meets_steps]
    exact hhere.addBlocks

/-- A test that goes on in a new block, or leaves. -/
theorem goesOn_testOrLeave {test : LoopInstr} {γ : Option Context} {leave : ℕ} {l : Language Action}
    (hopen : IsOpen (e.block e.current)) (hl : GoesOn F (e.testOrLeave test γ leave) l) :
    GoesOn F e ({[Action.does (.loop test)]} * (l + pathsAt F (some leave))) := by
  have hblocks := ((Lays.start e.toBuilder).emitInstr (.loop test)).emitBlocks 1 γ
  rw [show (e.instr (.loop test)).size = e.size from size_append _ _] at hblocks
  obtain ⟨hF, hnext⟩ := hl.moved (hblocks.emitTerminator (.condBr e.size leave)) hopen
  rw [← hnext]
  exact (goesOn_condBr hF).addBlocks.instr

/-- The keys of a dictionary, if the iterable is one. -/
theorem goesOn_keys {isDict : Bool} {leave : ℕ} {l : Language Action}
    (hopen : IsOpen (e.block e.current)) (after : Ways (Language Action))
    (hafter : after.broken = pathsAt F (some leave)) (hnormal : after.normal = l)
    (hl : GoesOn F (if isDict then e.checkKeys leave else e) l) :
    GoesOn F e ((if isDict then testOr (.loop .testKeys) else steps []).meets after) := by
  cases isDict with
  | false =>
      rw [if_neg Bool.false_ne_true, meets_steps, word_nil, one_mul, hnormal]
      exact hl
  | true =>
      have hblocks : Lays true false e.toBuilder [e.size + 1, e.size] false
          (e.addBlocks 2 e.context).toBuilder := by
        -- The block of the failure is filled first.
        have hmem : ∀ i, i ∈ [e.size + 1, e.size] ↔ e.size ≤ i ∧ i < e.size + 2 := by
          intro i
          rw [List.mem_cons, List.mem_singleton]
          omega
        exact (Lays.start e.toBuilder).addBlocks 2 (by simp) hmem
      have htest := (hblocks.emitInstr (.loop .testKeys)).emitTerminator
        (.condBr e.size (e.size + 1))
      have hfail := htest.moveTo.emitTerminator (.br (some leave))
      obtain ⟨hF₂, hsuccess⟩ := GoesOn.moved hl hfail hopen
      obtain ⟨hF₁, hfailure⟩ := (goesOn_br hF₂).moved htest hopen
      rw [if_pos rfl, meets_testOr, hafter, hnormal, ← hsuccess, ← hfailure]
      exact (goesOn_condBr hF₁).instr.addBlocks

theorem emitsPaths_forIn (name : Ident) (iterable : Code) (isDict hasScope : Bool)
    (h : EmitsPaths body w exits) :
    EmitsPaths (Emission.forIn name iterable isDict hasScope body) (fun s =>
      ((steps [.value iterable]).seq
        ((if isDict then testOr (.loop .testKeys) else steps []).seq
          ((steps [.loop .initIndex, .loop .arrayLength]).seq
            ((testOr (.loop .testLength)).seq
              ((steps [.varDeclIfMissing ⟨name, .typeNil, false⟩]).seq
                (((testOr (.loop .testIndex)).seq ((steps [.loop .arrayGet]).seq
                  ((testOr (.loop .testElement)).seq
                    (turnOf hasScope [.varAssign name] (w (hasScope || s)))))).loop
                      (word [.loop .stepIndex]))))))).catchBreak) false where
  emits :=
    let ⟨_, hemits⟩ := h.emits
    ⟨true, emits_forIn hasScope hemits⟩
  sameLoop e := by simp [Emission.forIn]
  paths e F l l' hopen hl hnormal := by
    obtain ⟨written, hemits⟩ := h.emits
    have hblocks : Lays true false e.toBuilder (List.range' e.size 5) false
        (((e.addBlocks 1 e.context).addBlocks 4 (e.context.map (·.declare name))).setupLoopState
          (e.size + 4) (e.size + 3)).toBuilder := by
      show Lays true false _ _ false ((e.toBuilder.addBlocks 1).addBlocks 4)
      rw [addBlocks_addBlocks]
      exact (Lays.start e.toBuilder).emitBlocks 5 e.context
    have hsetup := hblocks.emitTerminator (.br (some e.size))
    have hiterable := hsetup.moveTo.emitInstr (.value iterable)
    have hkeys := hiterable.trans (emits_keys isDict (e.size + 4) _)
    have hlength := hkeys.emitInstrs [.loop .initIndex, .loop .arrayLength]
    have hcond := ((hlength.trans (emits_testOrLeave .testLength Emission.context (e.size + 4)
      _)).emitInstr (.varDeclIfMissing ⟨name, .typeNil, false⟩)).emitTerminator
        (.br (some (e.size + 1)))
    have htest := (hcond.moveTo.emitInstr (.loop .testIndex)).emitTerminator
      (.condBr (e.size + 2) (e.size + 4))
    have hget := htest.moveTo.emitInstr (.loop .arrayGet)
    have helement := hget.trans
      (emits_testOrLeave .testElement (fun _ => e.context.map (·.declare name)) (e.size + 4) _)
    have hturn := lays_loopBody hasScope hemits [.varAssign name] (e.size + 3) helement
    have hstep := (hturn.moveTo.emitInstr (.loop .stepIndex)).emitTerminator
      (.br (some (e.size + 1)))
    -- From the end back to the head of the loop.
    obtain ⟨hF₄, hend⟩ := hl.moved hstep hopen
    obtain ⟨hF₃, hnext⟩ := (goesOn_br hF₄).instr.moved hturn hopen
    have hbody := h.goesOn_turn hasScope (helement.isOpen hopen)
      ((e.addBlocks 1 e.context).addBlocks 4 (e.context.map (·.declare name)))
      (e.size + 4) (e.size + 3) (by simp [Emission.instrs]) hF₃
    obtain ⟨hF₂, hgotten⟩ := (goesOn_testOrLeave (hget.isOpen hopen) hbody).instr.moved htest hopen
    obtain ⟨hF₁, hhead⟩ := (goesOn_condBr hF₂).instr.moved hcond hopen
    have hloop : pathsAt F (some (e.size + 1)) =
        (((testOr (.loop .testIndex)).seq ((steps [.loop .arrayGet]).seq
          ((testOr (.loop .testElement)).seq (turnOf hasScope [.varAssign name]
            (w (hasScope || e.loopBase.isSome)))))).loop (word [.loop .stepIndex])).meets
              { e.after F l with broken := l } := by
      refine pathsAt_head ?_
      rw [Ways.meets_seq, meets_steps, Ways.meets_seq, meets_testOr]
      rw [hgotten, hnext, hend] at hhead
      exact hhead
    -- From there back to the beginning.
    have hdeclared := (goesOn_br hF₁).instr
    have hmeasured := (goesOn_testOrLeave (hlength.isOpen hopen) hdeclared).instrs
    rw [hloop, hend] at hmeasured
    have hopened := goesOn_keys (hiterable.isOpen hopen) { e.after F l with normal := _, broken := l }
      hend.symm rfl hmeasured
    obtain ⟨hF₀, hiterated⟩ := hopened.instr.moved hsetup hopen
    have hhere : GoesOn F ((e.addBlocks 1 e.context).addBlocks 4 (e.context.map (·.declare name))) _ :=
      (goesOn_br hF₀).sameCode rfl
    rw [hnormal rfl, Ways.meets_catchBreak]
    simp only [Ways.meets_seq, meets_steps, meets_testOr]
    rw [hiterated] at hhere
    exact hhere.addBlocks.addBlocks

/-- `break` and `continue`. -/
theorem goesOn_leaveLoop {popsScope : Bool} {target : Option ℕ}
    (hF : Extends (e.leaveLoop popsScope target).toBuilder F) :
    GoesOn F e (leaving e.loopBase.isSome popsScope * pathsAt F target) := by
  rw [Emission.leaveLoop] at hF
  cases hbase : e.loopBase with
  | some base =>
      rw [hbase] at hF
      exact (goesOn_br hF).instr
  | none =>
      rw [hbase] at hF
      cases popsScope with
      | true => exact (goesOn_br hF).instr
      | false =>
          show GoesOn F e (1 * pathsAt F target)
          rw [one_mul]
          exact goesOn_br hF

theorem sameLoop_leaveLoop {popsScope : Bool} {target : Option ℕ} :
    SameLoop e (e.leaveLoop popsScope target) := by
  rw [Emission.leaveLoop]
  cases e.loopBase with
  | some base => simp
  | none => cases popsScope <;> simp

theorem emitsPaths_ret (value : Code) :
    EmitsPaths (fun e => (e.instrs [.value value, .copyReturn, .popToSafe]).terminate .retVoid)
      (fun _ => .returns (word [.value value, .copyReturn, .popToSafe])) true where
  emits := ⟨true, fun e => (((Lays.start e.toBuilder).emitInstr (.value value)).emitInstrs
    [.copyReturn, .popToSafe]).emitTerminator .retVoid⟩
  sameLoop e := by simp [Emission.instrs]
  paths e F l l' _ hl _ := by
    rw [Ways.meets_returns]
    exact (goesOn_ret (.inl rfl) hl.within).instrs

/-! ### Statements -/

theorem EmitsPaths.congr {f : Emission → Emission} {v : Bool → Ways (Language Action)}
    (h : EmitsPaths body w exits) (hf : ∀ e, f e = body e) (hv : ∀ inScope, v inScope = w inScope) :
    EmitsPaths f v exits := by
  obtain rfl : f = body := funext hf
  obtain rfl : v = w := funext hv
  exact h

/-- A statement without blocks of its own. -/
theorem emitsPaths_straight {s : CodeStmt} {is : List Instr} (h : s.straight = some is) :
    EmitsPaths (emitStmt s) (fun inScope => s.ways inScope) s.isExit := by
  have hcode : (∀ e, emitStmt s e = e.instrs is) ∧ (∀ inScope, s.ways inScope = steps is) ∧
      s.isExit = false := by
    cases s with
    | varDecl | ifThenElse | whileLoop | forRange | forIn | breakLoop | continueLoop | ret => cases h
    | _ =>
        obtain rfl := Option.some.inj h
        refine ⟨fun e => ?_, fun inScope => ?_, rfl⟩
        · unfold emitStmt
          rfl
        · unfold CodeStmt.ways
          rfl
  rw [hcode.2.2]
  exact (emitsPaths_instrs is).congr hcode.1 hcode.2.1

theorem EmitsPaths.record {s : CodeStmt} {f : Emission → Emission} (h : EmitsPaths f w exits) :
    EmitsPaths (fun e => e.record s (f e)) w exits where
  emits := h.emits
  sameLoop e := (h.sameLoop e).trans ⟨rfl, rfl, rfl⟩
  paths e F l l' hopen hl hnormal := h.paths e F l l' hopen (hl.sameCode rfl) hnormal

mutual

/-- **A statement** has the paths of its structure. -/
theorem emitsPaths_stmt : ∀ s : CodeStmt, s.exitsLast = true →
    EmitsPaths (emitStmt s) (fun inScope => s.ways inScope) s.isExit
  | .varDecl name type isConst value, _ =>
      (emitsPaths_varDecl name type isConst value).congr (fun _ => by rw [emitStmt])
        fun _ => by rw [CodeStmt.ways]
  | .ifThenElse condition hasScope thenCode none, h => by
      have helse : EmitsPaths id (fun _ => steps []) false := emitsPaths_instrs []
      have hif := emitsPaths_ifThenElse condition hasScope none (emitsPaths_stmts thenCode h) helse
      exact hif.congr (fun _ => by rw [emitStmt]) fun _ => by rw [CodeStmt.ways]
  | .ifThenElse condition hasScope thenCode (some elseCode), h => by
      have hboth := Bool.and_eq_true_iff.mp h
      have helse := emitsPaths_scopedBranch hasScope (emitsPaths_stmts elseCode hboth.2)
      have hif := emitsPaths_ifThenElse condition hasScope (some (emitStmts elseCode))
        (emitsPaths_stmts thenCode hboth.1) helse
      exact hif.congr (fun _ => by rw [emitStmt]) fun _ => by rw [CodeStmt.ways]
  | .whileLoop condition hasScope body, h =>
      (emitsPaths_whileLoop condition hasScope (emitsPaths_stmts body h)).congr
        (fun _ => by rw [emitStmt]) fun _ => by rw [CodeStmt.ways]
  | .forRange name start stop step hasScope body, h =>
      (emitsPaths_forRange name start stop step hasScope (emitsPaths_stmts body h)).congr
        (fun _ => by rw [emitStmt]) fun _ => by rw [CodeStmt.ways]
  | .forIn name iterable isDict hasScope body, h =>
      (emitsPaths_forIn name iterable isDict hasScope (emitsPaths_stmts body h)).congr
        (fun _ => by rw [emitStmt]) fun _ => by rw [CodeStmt.ways]
  | .breakLoop popsScope, _ =>
      { emits := ⟨true, emits_leaveLoop popsScope Emission.loopEnd⟩
        sameLoop := fun _ => sameLoop_leaveLoop
        paths := fun e F l l' _ hl _ => by
          rw [CodeStmt.ways, Ways.meets_breaks]
          exact goesOn_leaveLoop hl.within }
  | .continueLoop popsScope, _ =>
      { emits := ⟨true, emits_leaveLoop popsScope Emission.loopContinue⟩
        sameLoop := fun _ => sameLoop_leaveLoop
        paths := fun e F l l' _ hl _ => by
          rw [CodeStmt.ways, Ways.meets_continues]
          exact goesOn_leaveLoop hl.within }
  | .ret value, _ =>
      (emitsPaths_ret value).congr (fun _ => by rw [emitStmt]) fun _ => by rw [CodeStmt.ways]
  | .eval value, _ => emitsPaths_straight rfl
  | .print value, _ => emitsPaths_straight rfl
  | .storeSlot _ _ _, _ => emitsPaths_straight rfl
  | .storeUnboxed _ _ _ _, _ => emitsPaths_straight rfl
  | .varAssign _ _, _ => emitsPaths_straight rfl
  | .indexSet _ _ _, _ => emitsPaths_straight rfl
  | .indexUpdate _ _ _ _, _ => emitsPaths_straight rfl
  | .memberSet _ _ _, _ => emitsPaths_straight rfl
  | .memberUpdate _ _ _ _, _ => emitsPaths_straight rfl
  | .truncated, _ => emitsPaths_straight rfl

/-- A list of statements. -/
theorem emitsPaths_stmts : ∀ code : List CodeStmt, codeExitsLast code = true →
    EmitsPaths (emitStmts code) (fun inScope => codeWays inScope code) (code.any CodeStmt.isExit)
  | [], _ => (emitsPaths_instrs []).congr (fun _ => by rw [emitStmts]; rfl) fun _ => by rw [codeWays]
  | s :: rest, h => by
      rw [codeExitsLast, Bool.and_eq_true, Bool.and_eq_true] at h
      obtain ⟨⟨hs, hlast⟩, hrest⟩ := h
      have hfirst : EmitsPaths (fun e => e.record s (emitStmt s e)) _ s.isExit :=
        (emitsPaths_stmt s hs).record
      have hemits : Emits (fun e => e.record s (emitStmt s e)) s.exitsLast true s.isExit :=
        emits_stmt s
      cases hexit : s.isExit with
      | false =>
          rw [hs, hexit] at hemits
          rw [hexit] at hfirst
          rw [List.any_cons, hexit, Bool.false_or]
          exact (EmitsPaths.seq hemits hfirst (emitsPaths_stmts rest hrest)).congr
            (fun _ => by rw [emitStmts]) fun _ => by rw [codeWays]
      | true =>
          -- Nothing stands behind the exit.
          rw [hexit, Bool.not_true, Bool.false_or] at hlast
          obtain rfl := List.isEmpty_iff.mp hlast
          rw [hexit] at hfirst
          rw [List.any_cons, hexit, Bool.true_or]
          refine ⟨hfirst.emits, hfirst.sameLoop, fun e F l l' hopen hl hnormal => ?_⟩
          rw [codeWays, codeWays, Ways.meets_seq]
          exact hfirst.paths e F l _ hopen hl (by rintro ⟨⟩)

end

/-! ### Bodies -/

/-- The end of a function. -/
theorem goesOn_epilogue {is : List Instr} (hF : Extends ((e.instrs is).terminate .retVoid).toBuilder F) :
    GoesOn F e (word is) := by
  have hend := (goesOn_ret (.inl rfl) hF).instrs
  rwa [mul_one] at hend

/-- The end of `main`. -/
theorem goesOn_finishMain (hopen : IsOpen (e.block e.current)) :
    GoesOn (BodyKind.main.finish e).toBuilder e (word [.runtimeCleanup]) := by
  have hterm : (e.instr .runtimeCleanup).hasTerminator = false :=
    hasTerminator_of_isOpen (((Lays.start e.toBuilder).emitInstr .runtimeCleanup).isOpen hopen)
  have hcode : BodyKind.main.finish e = (e.instr .runtimeCleanup).terminate .ret := by
    show (if (e.instr .runtimeCleanup).hasTerminator then _ else _) = _
    rw [hterm]
    rfl
  rw [hcode]
  have hend : GoesOn _ (e.instrs [.runtimeCleanup]) 1 := goesOn_ret (.inr rfl) (.refl _)
  have hstart := hend.instrs
  rwa [mul_one] at hstart

/-- What is emitted for a body goes from its entry on with the paths of its statements. -/
theorem goesOn_body {kind : BodyKind} {code : List CodeStmt}
    (hwf : WellFormed (emitBody kind code).toBuilder) :
    GoesOn (emitBody kind code).toBuilder .entry (bodyPaths kind code) := by
  obtain ⟨hexits, hmain⟩ := (emitBody_wellFormed_iff_code kind code).mp hwf
  have hcode := emitsPaths_stmts code hexits
  have hopen := (lays_prologue kind).isOpen isOpen_nil
  have hsame := sameLoop_instrs kind.prologue .entry
  have hbody : GoesOn (emitBody kind code).toBuilder (Emission.entry.instrs kind.prologue)
      ((codeWays false code).meets ⟨word kind.closing, 0, 0, 1⟩) := by
    have hafter (l : Language Action) : (Emission.entry.instrs kind.prologue).after
        (emitBody kind code).toBuilder l = ⟨l, 0, 0, 1⟩ := by
      rw [after, hsame.loopEnd, hsame.loopContinue]
      rfl
    have hstmts : GoesOn (emitBody kind code).toBuilder (Emission.entry.instrs kind.prologue)
        ((codeWays (Emission.entry.instrs kind.prologue).loopBase.isSome code).meets
          ((Emission.entry.instrs kind.prologue).after (emitBody kind code).toBuilder
            (word kind.closing))) := by
      cases kind with
      | main =>
          rw [hmain rfl] at hcode
          exact hcode.paths _ _ _ _ hopen (goesOn_finishMain (hcode.builds hopen).isOpen) fun _ => rfl
      | function params => exact hcode.unlessTerminated hopen (.refl _) goesOn_epilogue
      | method isConstructor => exact hcode.unlessTerminated hopen (.refl _) goesOn_epilogue
    rw [hsame.loopBase, hafter] at hstmts
    exact hstmts
  exact hbody.instrs

/-- **The blocks of a body have the paths of its statements**: through them go the paths that
the structure of the code says and no others, if every block is complete. -/
theorem emitBody_paths {kind : BodyKind} {code : List CodeStmt}
    (hwf : WellFormed (emitBody kind code).toBuilder) :
    blockReading.paths (emitBody kind code).toBuilder 0 0 = bodyPaths kind code :=
  (goesOn_body hwf).ahead

/-- `while true { if true { break } }` at top level. -/
def leavingLoop : List CodeStmt :=
  [.whileLoop (.op (.constBool true) []) true
    [.ifThenElse (.op (.constBool true) []) true [.breakLoop true] none]]

theorem leavingLoop_paths :
    blockReading.paths (emitBody .main leavingLoop).toBuilder 0 0 = bodyPaths .main leavingLoop :=
  emitBody_paths ((emitBody_wellFormed_iff_code .main _).mpr ⟨rfl, fun _ => rfl⟩)

end Pieces

end BreadLang
