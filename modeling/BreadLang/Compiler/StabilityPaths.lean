import BreadLang.Compiler.ControlFlow
import BreadLang.Compiler.TypeStability
import Mathlib.Data.List.Basic

/-!
# Stable variables on execution paths

What happens to variables is a list of events: scopes are entered and left, variables are declared
and assigned.  Both an execution path and the text that `type_stability_analyze` has passed are
such lists.  A use of a variable is marked stable by what stands before it in the text, and the
mark is right if no path that reaches the use has assigned the variable since its declaration.
-/

namespace BreadLang

/-- What a path does to the variables, or a visit of an expression. -/
inductive VarEvent where
  | enter
  | leave
  | declare (name : Ident) (isFixed isLocal : Bool)
  | assign (name : Ident)
  | visit (e : ASTExpr)

/-- A variable in scope: whether it was declared as a constant or a parameter, whether it was
declared in a function, and whether it has been assigned since. -/
structure VarBinding where
  name : Ident
  isFixed : Bool
  isLocal : Bool
  isAssigned : Bool

/-- The variable after an assignment. -/
def VarBinding.assigned (b : VarBinding) : VarBinding := { b with isAssigned := true }

/-- The scopes, the innermost one first; in each the last variable first. -/
abbrev VarScopes := List (List VarBinding)

namespace VarScopes

/-- The innermost variable with that name. -/
def find (scopes : VarScopes) (name : Ident) : Option VarBinding :=
  scopes.flatten.find? fun b => b.name == name

/-- An assignment in a scope that has the variable. -/
def assignScope (name : Ident) : List VarBinding → List VarBinding
  | [] => []
  | b :: scope =>
      if b.name == name then b.assigned :: scope
      else b :: assignScope name scope

/-- An assignment to the innermost variable with that name. -/
def assign (name : Ident) : VarScopes → VarScopes
  | [] => []
  | scope :: outer =>
      if scope.any fun b => b.name == name then assignScope name scope :: outer
      else scope :: assign name outer

/-- A declaration in the innermost scope. -/
def declare (b : VarBinding) : VarScopes → VarScopes
  | [] => []
  | scope :: outer => (b :: scope) :: outer

/-- With a limit, nothing is declared as long as so many variables are in scope. -/
def declareUpTo (limit : Option ℕ) (b : VarBinding) (scopes : VarScopes) : VarScopes :=
  if limit.any fun n => n ≤ scopes.flatten.length then scopes else scopes.declare b

/-- One event. -/
def step (limit : Option ℕ) (scopes : VarScopes) : VarEvent → VarScopes
  | .enter => [] :: scopes
  | .leave => scopes.tail
  | .declare name isFixed isLocal => scopes.declareUpTo limit ⟨name, isFixed, isLocal, false⟩
  | .assign name => scopes.assign name
  | .visit _ => scopes

/-- The scopes after some events. -/
def after (limit : Option ℕ) (events : List VarEvent) : VarScopes :=
  events.foldl (step limit) [[]]

theorem after_append (limit : Option ℕ) (events new : List VarEvent) :
    after limit (events ++ new) = new.foldl (step limit) (after limit events) :=
  List.foldl_append

/-- The variables in scope, with the number of scopes around the one they are in. -/
def entries : VarScopes → List (VarBinding × ℕ)
  | [] => []
  | scope :: outer => scope.map (fun b => (b, outer.length)) ++ entries outer

theorem entries_fst (scopes : VarScopes) : scopes.entries.map Prod.fst = scopes.flatten := by
  induction scopes with
  | nil => rfl
  | cons scope outer ih =>
      rw [entries, List.map_append, ih, List.map_map, List.flatten_cons]
      exact congrArg (· ++ _) (List.map_id _)

theorem snd_lt_of_mem_entries {scopes : VarScopes} {p : VarBinding × ℕ}
    (h : p ∈ scopes.entries) : p.2 < scopes.length := by
  induction scopes with
  | nil => cases h
  | cons scope outer ih =>
      rcases List.mem_append.mp h with h | h
      · obtain ⟨b, -, rfl⟩ := List.mem_map.mp h
        exact Nat.lt_succ_self _
      · exact (ih h).trans (Nat.lt_succ_self _)

/-- A change of the first entry with that name. -/
def modifyEntry (name : Ident) : List (VarBinding × ℕ) → List (VarBinding × ℕ)
  | [] => []
  | p :: entries =>
      if p.1.name == name then (p.1.assigned, p.2) :: entries
      else p :: modifyEntry name entries

theorem modifyEntry_append {name : Ident} {scope : List VarBinding} {n : ℕ}
    {rest : List (VarBinding × ℕ)} :
    modifyEntry name (scope.map (fun b => (b, n)) ++ rest) =
      if scope.any fun b => b.name == name then
        (assignScope name scope).map (fun b => (b, n)) ++ rest
      else scope.map (fun b => (b, n)) ++ modifyEntry name rest := by
  induction scope with
  | nil => rfl
  | cons b scope ih =>
      rw [List.map_cons, List.cons_append, modifyEntry, List.any_cons, assignScope]
      by_cases hname : (b.name == name) = true
      · rw [if_pos hname, hname, Bool.true_or, if_pos rfl, if_pos rfl]
        rfl
      · rw [if_neg hname, ih, (Bool.not_eq_true _).mp hname, Bool.false_or]
        by_cases hscope : (scope.any fun b => b.name == name) = true
        · rw [if_pos hscope, if_pos hscope, if_neg Bool.false_ne_true]
          rfl
        · rw [if_neg hscope, if_neg hscope]
          rfl

theorem length_assign (name : Ident) (scopes : VarScopes) :
    (scopes.assign name).length = scopes.length := by
  induction scopes with
  | nil => rfl
  | cons scope outer ih =>
      rw [assign]
      split
      · rfl
      · rw [List.length_cons, ih, List.length_cons]

theorem entries_assign (name : Ident) (scopes : VarScopes) :
    (scopes.assign name).entries = modifyEntry name scopes.entries := by
  induction scopes with
  | nil => rfl
  | cons scope outer ih =>
      rw [assign, entries, modifyEntry_append]
      by_cases hscope : (scope.any fun b => b.name == name) = true
      · rw [if_pos hscope, if_pos hscope]
        rfl
      · rw [if_neg hscope, if_neg hscope, entries, ih, length_assign]

end VarScopes

/-! ### The table of variables is the list of scopes -/

/-- A tracked variable as a variable in scope. -/
def TrackedVar.binding (v : TrackedVar) : VarBinding :=
  ⟨v.name, v.isConst, v.isLocal, decide (v.mutationCount > 0)⟩

/-- The table holds the variables in scope, with their depths. -/
structure VarTracker.Tracks (t : VarTracker) (scopes : VarScopes) : Prop where
  entries_eq : t.vars.map (fun v => (v.binding, v.depth)) = scopes.entries
  depth_eq : t.depth + 1 = scopes.length

namespace VarTracker

variable {t : VarTracker} {scopes : VarScopes}

theorem tracks_empty : empty.Tracks [[]] := ⟨rfl, rfl⟩

theorem Tracks.enterScope (h : t.Tracks scopes) : t.enterScope.Tracks ([] :: scopes) :=
  ⟨h.entries_eq, congrArg (· + 1) h.depth_eq⟩

theorem Tracks.leaveScope (h : t.Tracks scopes) (hdepth : t.depth ≠ 0) :
    t.leaveScope.Tracks scopes.tail := by
  obtain ⟨hentries, hlength⟩ := h
  cases scopes with
  | nil => cases hlength
  | cons scope outer =>
      have houter : t.depth = outer.length := Nat.succ.inj hlength
      obtain ⟨inner, rest, hvars, hinner, hrest⟩ := List.map_eq_append_iff.mp hentries
      -- the variables of the innermost scope go, and the next one stays
      have hgone : ∀ v ∈ inner, decide (t.depth ≤ v.depth) = true := by
        intro v hv
        have hmem : (v.binding, v.depth) ∈ scope.map fun b => (b, outer.length) :=
          hinner ▸ List.mem_map_of_mem hv
        obtain ⟨b, -, hb⟩ := List.mem_map.mp hmem
        have : outer.length = v.depth := congrArg Prod.snd hb
        exact decide_eq_true (by omega)
      have hstays : rest.dropWhile (fun v => decide (t.depth ≤ v.depth)) = rest := by
        refine List.dropWhile_eq_self_iff.mpr fun hpos => ?_
        have hmem : ((rest[0]).binding, (rest[0]).depth) ∈ VarScopes.entries outer :=
          hrest ▸ List.mem_map_of_mem (List.getElem_mem hpos)
        have := VarScopes.snd_lt_of_mem_entries hmem
        simpa using by omega
      refine ⟨?_, ?_⟩
      · have hdrop : t.leaveScope.vars = rest := by
          have hall : inner.dropWhile (fun v => decide (t.depth ≤ v.depth)) = [] :=
            List.dropWhile_eq_nil_iff.mpr hgone
          change t.vars.dropWhile (fun v => decide (t.depth ≤ v.depth)) = rest
          rw [hvars, List.dropWhile_append, hall, List.isEmpty_nil, if_pos rfl, hstays]
        rw [hdrop]
        exact hrest
      · change t.depth - 1 + 1 = outer.length
        omega

theorem Tracks.length_eq (h : t.Tracks scopes) : t.vars.length = scopes.flatten.length := by
  rw [← VarScopes.entries_fst, ← h.entries_eq, List.length_map, List.length_map]

theorem Tracks.declare (h : t.Tracks scopes) (name : Ident) (isConst isLocal inLoop : Bool) :
    (t.declare name isConst isLocal inLoop).Tracks
      (scopes.declareUpTo (some maxTrackedVars) ⟨name, isConst, isLocal, false⟩) := by
  have hany : Option.any (fun n => decide (n ≤ scopes.flatten.length)) (some maxTrackedVars) =
      decide (maxTrackedVars ≤ scopes.flatten.length) := rfl
  unfold VarTracker.declare VarScopes.declareUpTo
  rw [h.length_eq, hany]
  by_cases hfull : scopes.flatten.length ≥ maxTrackedVars
  · rw [if_pos hfull, if_pos (decide_eq_true hfull)]
    exact h
  · rw [if_neg hfull, if_neg (fun h => hfull (of_decide_eq_true h))]
    obtain ⟨hentries, hlength⟩ := h
    cases scopes with
    | nil => cases hlength
    | cons scope outer =>
        refine ⟨?_, hlength⟩
        have houter : t.depth = outer.length := Nat.succ.inj hlength
        rw [List.map_cons, hentries, houter]
        rfl

theorem map_modifyFound_same {f : TrackedVar → TrackedVar} {name : Ident}
    (hf : ∀ v, (f v).binding = v.binding ∧ (f v).depth = v.depth) (vars : List TrackedVar) :
    (modifyFound f name vars).map (fun v => (v.binding, v.depth)) =
      vars.map fun v => (v.binding, v.depth) := by
  induction vars with
  | nil => rfl
  | cons v vars ih =>
      rw [modifyFound]
      split
      · rw [List.map_cons, List.map_cons, (hf v).1, (hf v).2]
      · rw [List.map_cons, List.map_cons, ih]

theorem Tracks.markUsage (h : t.Tracks scopes) (name : Ident) :
    (t.markUsage name).Tracks scopes :=
  ⟨(map_modifyFound_same (f := .use) (fun _ => ⟨rfl, rfl⟩) t.vars).trans h.entries_eq, h.depth_eq⟩

theorem Tracks.markMutation (h : t.Tracks scopes) (name : Ident) :
    (t.markMutation name).Tracks (scopes.assign name) := by
  refine ⟨?_, ?_⟩
  · rw [VarScopes.entries_assign, ← h.entries_eq]
    change (modifyFound TrackedVar.mutate name t.vars).map _ = _
    induction t.vars with
    | nil => rfl
    | cons v vars ih =>
        have hbinding : v.mutate.binding = v.binding.assigned := by
          simp [TrackedVar.mutate, TrackedVar.binding, VarBinding.assigned]
        rw [modifyFound, List.map_cons, VarScopes.modifyEntry]
        by_cases hname : (v.name == name) = true
        · rw [if_pos hname, if_pos (show (v.binding.name == name) = true from hname),
            List.map_cons, hbinding]
          rfl
        · rw [if_neg hname, if_neg (show ¬(v.binding.name == name) = true from hname),
            List.map_cons, ih]
  · rw [VarScopes.length_assign]
    exact h.depth_eq

/-- What `find_var` finds. -/
theorem Tracks.find (h : t.Tracks scopes) (name : Ident) :
    (t.find name).map TrackedVar.binding = scopes.find name := by
  have hvars : t.vars.map TrackedVar.binding = scopes.flatten := by
    rw [← VarScopes.entries_fst, ← h.entries_eq, List.map_map]
    rfl
  rw [VarScopes.find, ← hvars, List.find?_map]
  rfl

end VarTracker

/-! ### The text that the analysis passes -/

/-- The expressions that are visited with an expression, in the order of their records. -/
def ASTExpr.visited : ASTExpr → List ASTExpr
  | .null => []
  | .unary op operand => .unary op operand :: operand.visited
  | .binary op left right => .binary op left right :: (left.visited ++ right.visited)
  | e => [e]

/-- The visits of an expression. -/
def visits (e : ASTExpr) : List VarEvent := e.visited.map .visit

mutual

/-- What the analysis meets in a statement, in a function or outside of all functions. -/
def textOfStmt (isLocal : Bool) : ASTStmt → List VarEvent
  | .varDecl name _ _ init isConst => visits init ++ [.declare name isConst isLocal]
  | .varAssign name value _ => visits value ++ [.assign name]
  | .expr e => visits e
  | .return e _ => visits e
  | .ifStmt condition thenBranch _ =>
      visits condition ++ ([.enter] ++ (textOfBody isLocal thenBranch ++ [.leave]))
  | .whileStmt condition body =>
      visits condition ++ ([.enter] ++ (textOfBody isLocal body ++ [.leave]))
  | .funcDecl ⟨_, params, _, _, body⟩ =>
      [.enter] ++ (params.map (fun p => .declare p.name true true) ++
        (textOfBody true body ++ [.leave]))
  | _ => []

def textOfBody (isLocal : Bool) : Option (List ASTStmt) → List VarEvent
  | none => []
  | some stmts => textOfStmts isLocal stmts

def textOfStmts (isLocal : Bool) : List ASTStmt → List VarEvent
  | [] => []
  | s :: stmts => textOfStmt isLocal s ++ textOfStmts isLocal stmts

end

/-- Whether an event is a visit. -/
def VarEvent.isVisit : VarEvent → Bool
  | .visit _ => true
  | _ => false

/-- The number of records that are taken by the visits. -/
def recordCount (events : List VarEvent) : ℕ := events.countP VarEvent.isVisit

theorem recordCount_append (events new : List VarEvent) :
    recordCount (events ++ new) = recordCount events + recordCount new :=
  List.countP_append

/-- **What stands before a use makes it stable**: in the text the variable is a constant or a
parameter, or it is declared in a function and has not been assigned. -/
def StableBefore (text : List VarEvent) (name : Ident) : Prop :=
  ∃ b, (VarScopes.after (some maxTrackedVars) text).find name = some b ∧
    (b.isFixed = true ∨ (b.isLocal = true ∧ b.isAssigned = false))

/-- The records of the visits in `new`: that of a variable is stable by what stands before it. -/
def RecordsOf (infos : List TypeStabilityInfo) (text new : List VarEvent) : Prop :=
  infos.length = recordCount new ∧ ∀ pre name post, new = pre ++ .visit (.var name) :: post →
    ∃ info, infos[recordCount pre]? = some info ∧
      (info.stability = .stable ↔ StableBefore (text ++ pre) name)

/-- A visit in two parts of a text is in one of them. -/
theorem split_append {as bs pre post : List VarEvent} {e : VarEvent}
    (h : as ++ bs = pre ++ e :: post) :
    (∃ post', as = pre ++ e :: post') ∨ ∃ pre', pre = as ++ pre' ∧ bs = pre' ++ e :: post := by
  rcases List.append_eq_append_iff.mp h with ⟨pre', hpre, hbs⟩ | ⟨tail, has, htail⟩
  · exact .inr ⟨pre', hpre, hbs⟩
  · cases tail with
    | nil =>
        refine .inr ⟨[], ?_, htail.symm⟩
        rw [has, List.append_nil, List.append_nil]
    | cons first tail =>
        cases htail
        exact .inl ⟨tail, has⟩

theorem RecordsOf.append {infos infos' : List TypeStabilityInfo} {text new new' : List VarEvent}
    (h : RecordsOf infos text new) (h' : RecordsOf infos' (text ++ new) new') :
    RecordsOf (infos ++ infos') text (new ++ new') := by
  refine ⟨?_, fun pre name post hsplit => ?_⟩
  · rw [List.length_append, h.1, h'.1, recordCount_append]
  rcases split_append hsplit with ⟨post', hnew⟩ | ⟨pre', rfl, hnew'⟩
  · obtain ⟨info, hinfo, hstable⟩ := h.2 pre name post' hnew
    refine ⟨info, ?_, hstable⟩
    rw [List.getElem?_append_left (List.getElem?_eq_some_iff.mp hinfo).1]
    exact hinfo
  · obtain ⟨info, hinfo, hstable⟩ := h'.2 pre' name post hnew'
    refine ⟨info, ?_, ?_⟩
    · rw [recordCount_append, List.getElem?_append_right (h.1 ▸ Nat.le_add_right _ _), h.1,
        Nat.add_sub_cancel_left]
      exact hinfo
    · rwa [← List.append_assoc]

/-- Text without visits has no records. -/
theorem recordsOf_nil {text new : List VarEvent} (h : ∀ e ∈ new, e.isVisit = false) :
    RecordsOf [] text new := by
  refine ⟨?_, fun pre name post hsplit => ?_⟩
  · exact (List.countP_eq_zero.mpr fun e he => by rw [h e he]; exact Bool.false_ne_true).symm
  · have := h (.visit (.var name)) (hsplit ▸ List.mem_append_right _ (.head _))
    cases this

/-- A visit of anything but a variable. -/
theorem recordsOf_cons {info : TypeStabilityInfo} {infos : List TypeStabilityInfo} {e : ASTExpr}
    {text new : List VarEvent} (he : ∀ name, e ≠ .var name)
    (h : RecordsOf infos (text ++ [.visit e]) new) :
    RecordsOf (info :: infos) text (.visit e :: new) := by
  have hfirst : RecordsOf [info] text [.visit e] := by
    refine ⟨rfl, fun pre name post hsplit => ?_⟩
    cases pre with
    | nil =>
        cases hsplit
        exact absurd rfl (he name)
    | cons first pre =>
        have := congrArg List.length hsplit
        simp at this
  exact hfirst.append h

/-! ### The records of expressions -/

@[simp] theorem VarScopes.after_visits (limit : Option ℕ) (text : List VarEvent)
    (es : List ASTExpr) : after limit (text ++ es.map .visit) = after limit text := by
  rw [after_append]
  induction es with
  | nil => rfl
  | cons e es ih => exact ih

@[simp] theorem VarScopes.after_visit (limit : Option ℕ) (text : List VarEvent) (e : ASTExpr) :
    after limit (text ++ [.visit e]) = after limit text :=
  after_visits limit text [e]

/-- A tag changes `UNSTABLE` only. -/
theorem withTag_stable_iff (info : TypeStabilityInfo) (tag : Option VarType) :
    (info.withTag tag).stability = .stable ↔ info.stability = .stable := by
  cases tag with
  | none => rfl
  | some type =>
      change (if info.stability == .unstable then TypeStability.conditional
        else info.stability) = .stable ↔ _
      cases info.stability <;> decide

theorem stability_stable_iff (v : TrackedVar) (inLoop : ℕ) :
    v.stability inLoop = .stable ↔
      v.isConst = true ∨ (v.isLocal = true ∧ decide (v.mutationCount > 0) = false) := by
  have hzero : decide (v.mutationCount > 0) = false ↔ v.mutationCount = 0 := by
    rw [decide_eq_false_iff_not, Nat.not_lt, Nat.le_zero]
  rw [hzero, TrackedVar.stability]
  by_cases hconst : v.isConst = true
  · simp [hconst]
  by_cases hlocal : (v.mutationCount == 0 && v.isLocal) = true
  · rw [if_neg hconst, if_pos hlocal]
    rw [Bool.and_eq_true, beq_iff_eq] at hlocal
    exact iff_of_true rfl (.inr hlocal.symm)
  · rw [if_neg hconst, if_neg hlocal]
    refine iff_of_false ?_ ?_
    · split <;> decide
    · rintro (h | ⟨h, h'⟩)
      · exact hconst h
      · exact hlocal (by rw [h, h']; rfl)

/-- When the mark of a variable is `STABLE`. -/
theorem variableInfo_stable_iff (found : Option TrackedVar) (inLoop : ℕ) (tag : Option VarType) :
    (variableInfo found inLoop tag).stability = .stable ↔
      ∃ v, found = some v ∧
        (v.isConst = true ∨ (v.isLocal = true ∧ decide (v.mutationCount > 0) = false)) := by
  cases found with
  | none =>
      rw [variableInfo, withTag_stable_iff]
      simp [TypeStabilityInfo.marked]
  | some v =>
      rw [variableInfo, withTag_stable_iff, stability_stable_iff]
      simp only [Option.some.injEq, exists_eq_left']

section Records

variable (tag : ℕ → Option VarType)

/-- The table after the visit of an expression, and its records. -/
def VisitsRight (text : List VarEvent) (e : ASTExpr)
    (r : List TypeStabilityInfo × VarTracker) : Prop :=
  r.2.Tracks (VarScopes.after (some maxTrackedVars) text) ∧ RecordsOf r.1 text (visits e)

theorem visitsRight_single {text : List VarEvent} {t : VarTracker} {e : ASTExpr}
    (info : TypeStabilityInfo) (he : ∀ name, e ≠ .var name) (hvisited : e.visited = [e])
    (ht : t.Tracks (VarScopes.after (some maxTrackedVars) text)) :
    VisitsRight text e ([info], t) := by
  refine ⟨ht, ?_⟩
  rw [visits, hvisited]
  exact recordsOf_cons he (recordsOf_nil fun e he => by cases he)

theorem visitsRight_var {text : List VarEvent} {t : VarTracker} (name : Ident) (inLoop k : ℕ)
    (ht : t.Tracks (VarScopes.after (some maxTrackedVars) text)) :
    VisitsRight text (.var name) (analyzeExprStability tag inLoop k (.var name) t) := by
  have hused := ht.markUsage name
  refine ⟨hused, rfl, fun pre name' post hsplit => ?_⟩
  cases pre with
  | cons first pre =>
      have := congrArg List.length hsplit
      simp [visits, ASTExpr.visited] at this
  | nil =>
      obtain rfl : name = name' := by
        have := congrArg List.head? hsplit
        simpa [visits, ASTExpr.visited] using this
      refine ⟨_, rfl, (variableInfo_stable_iff _ _ _).trans ?_⟩
      rw [StableBefore, List.append_nil, ← hused.find name]
      constructor
      · rintro ⟨v, hv, hstable⟩
        exact ⟨v.binding, by rw [hv]; rfl, hstable⟩
      · rintro ⟨b, hb, hstable⟩
        obtain ⟨v, hv, rfl⟩ := Option.map_eq_some_iff.mp hb
        exact ⟨v, hv, hstable⟩

theorem visitsRight (inLoop : ℕ) :
    ∀ (e : ASTExpr) (k : ℕ) (text : List VarEvent) (t : VarTracker),
      t.Tracks (VarScopes.after (some maxTrackedVars) text) →
        VisitsRight text e (analyzeExprStability tag inLoop k e t)
  | .null, _, _, _, ht => ⟨ht, recordsOf_nil fun e he => by cases he⟩
  | .var name, k, _, _, ht => visitsRight_var tag name inLoop k ht
  | .unary op operand, k, text, t, ht => by
      have hoperand := visitsRight inLoop operand (k + 1) (text ++ [.visit (.unary op operand)]) t
        (by rwa [VarScopes.after_visit])
      rw [VisitsRight, VarScopes.after_visit] at hoperand
      exact ⟨hoperand.1, recordsOf_cons (fun name h => by cases h) hoperand.2⟩
  | .binary op left right, k, text, t, ht => by
      have hleft := visitsRight inLoop left (k + 1) (text ++ [.visit (.binary op left right)]) t
        (by rwa [VarScopes.after_visit])
      have hright := visitsRight inLoop right
        (k + 1 + (analyzeExprStability tag inLoop (k + 1) left t).1.length)
        (text ++ [.visit (.binary op left right)] ++ visits left)
        (analyzeExprStability tag inLoop (k + 1) left t).2
        (by rw [visits, VarScopes.after_visits]; exact hleft.1)
      rw [VisitsRight, visits, VarScopes.after_visits, VarScopes.after_visit] at hright
      refine ⟨hright.1, ?_⟩
      rw [visits, ASTExpr.visited, List.map_cons, List.map_append]
      exact recordsOf_cons (fun name h => by cases h) (hleft.2.append hright.2)
  | .nil, _, _, _, ht => visitsRight_single _ (fun name h => by cases h) rfl ht
  | .bool _, _, _, _, ht => visitsRight_single _ (fun name h => by cases h) rfl ht
  | .int _, _, _, _, ht => visitsRight_single _ (fun name h => by cases h) rfl ht
  | .double _, _, _, _, ht => visitsRight_single _ (fun name h => by cases h) rfl ht
  | .string _, _, _, _, ht => visitsRight_single _ (fun name h => by cases h) rfl ht
  | .stringLiteral _, _, _, _, ht => visitsRight_single _ (fun name h => by cases h) rfl ht
  | .self, _, _, _, ht => visitsRight_single _ (fun name h => by cases h) rfl ht
  | .super, _, _, _, ht => visitsRight_single _ (fun name h => by cases h) rfl ht
  | .call _ _, _, _, _, ht => visitsRight_single _ (fun name h => by cases h) rfl ht
  | .array _, _, _, _, ht => visitsRight_single _ (fun name h => by cases h) rfl ht
  | .dict _, _, _, _, ht => visitsRight_single _ (fun name h => by cases h) rfl ht
  | .index _ _, _, _, _, ht => visitsRight_single _ (fun name h => by cases h) rfl ht
  | .member _ _ _, _, _, _, ht => visitsRight_single _ (fun name h => by cases h) rfl ht
  | .methodCall _ _ _ _, _, _, _, ht => visitsRight_single _ (fun name h => by cases h) rfl ht
  | .arrayLiteral _, _, _, _, ht => visitsRight_single _ (fun name h => by cases h) rfl ht
  | .structLiteral _ _, _, _, _, ht => visitsRight_single _ (fun name h => by cases h) rfl ht
  | .classLiteral _ _, _, _, _, ht => visitsRight_single _ (fun name h => by cases h) rfl ht

/-! ### The records of a program -/

/-- The analysis has passed the text: its table holds the variables in scope, and it has made the
records of the visits. -/
structure Passed (ctx : TypeStabilityCtx) (text : List VarEvent) : Prop where
  tracks : ctx.vars.Tracks (VarScopes.after (some maxTrackedVars) text)
  records : RecordsOf ctx.exprInfo [] text

/-- From one context to another, the analysis passes some more text. -/
structure Passes (ctx ctx' : TypeStabilityCtx) (text new : List VarEvent) : Prop where
  passed : Passed ctx' (text ++ new)
  depth_eq : ctx'.vars.depth = ctx.vars.depth
  functionDepth_eq : ctx'.currentFunctionDepth = ctx.currentFunctionDepth

variable {ctx ctx' ctx'' : TypeStabilityCtx} {text new new' : List VarEvent}

theorem passed_empty : Passed .empty [] :=
  ⟨VarTracker.tracks_empty, recordsOf_nil fun e he => by cases he⟩

theorem Passed.refl (h : Passed ctx text) : Passes ctx ctx text [] :=
  ⟨(List.append_nil text).symm ▸ h, rfl, rfl⟩

theorem Passes.trans (h : Passes ctx ctx' text new) (h' : Passes ctx' ctx'' (text ++ new) new') :
    Passes ctx ctx'' text (new ++ new') :=
  ⟨List.append_assoc text new new' ▸ h'.passed, h'.depth_eq.trans h.depth_eq,
    h'.functionDepth_eq.trans h.functionDepth_eq⟩

theorem Passed.analyzeExpr (h : Passed ctx text) (e : ASTExpr) :
    Passes ctx (ctx.analyzeExpr tag e) text (visits e) := by
  obtain ⟨htracks, hrecords⟩ := visitsRight tag ctx.inLoop e ctx.exprInfo.length text ctx.vars
    h.tracks
  have hscopes : VarScopes.after (some maxTrackedVars) (text ++ visits e) =
      VarScopes.after (some maxTrackedVars) text := VarScopes.after_visits _ _ _
  refine ⟨⟨hscopes.symm ▸ htracks, h.records.append hrecords⟩, ?_, rfl⟩
  exact Nat.succ.inj (htracks.depth_eq.trans h.tracks.depth_eq.symm)

/-- An event that changes the table only. -/
theorem Passed.event (h : Passed ctx text) {f : VarTracker → VarTracker} {e : VarEvent}
    (he : e.isVisit = false)
    (htracks : (f ctx.vars).Tracks
      ((VarScopes.after (some maxTrackedVars) text).step (some maxTrackedVars) e)) :
    Passed (ctx.modifyVars f) (text ++ [e]) := by
  refine ⟨?_, ?_⟩
  · rw [VarScopes.after_append]
    exact htracks
  · have hnew : RecordsOf [] text [e] :=
      recordsOf_nil fun e' he' => List.mem_singleton.mp he' ▸ he
    have := h.records.append hnew
    rwa [List.append_nil] at this

theorem Passed.declareVar (h : Passed ctx text) (name : Ident) (isConst isLocal : Bool) :
    Passes ctx (ctx.declareVar name isConst isLocal) text [.declare name isConst isLocal] := by
  refine ⟨h.event rfl (h.tracks.declare name isConst isLocal _), ?_, rfl⟩
  change (ctx.vars.declare name isConst isLocal _).depth = ctx.vars.depth
  unfold VarTracker.declare
  split <;> rfl

theorem Passed.declareParams (h : Passed ctx text) (params : List ASTParam) :
    Passes ctx (params.foldl (fun ctx p => ctx.declareVar p.name true true) ctx) text
      (params.map fun p => .declare p.name true true) := by
  induction params generalizing ctx text with
  | nil => exact h.refl
  | cons p params ih =>
      have hfirst := h.declareVar p.name true true
      exact hfirst.trans (ih hfirst.passed)

theorem Passed.markMutation (h : Passed ctx text) (name : Ident) :
    Passes ctx (ctx.modifyVars (·.markMutation name)) text [.assign name] :=
  ⟨h.event rfl (h.tracks.markMutation name), rfl, rfl⟩

/-- A block: what happens between its scope being entered and left. -/
theorem Passed.block (h : Passed ctx text)
    (hinside : Passed (ctx.modifyVars .enterScope) (text ++ [.enter]) →
      Passes (ctx.modifyVars .enterScope) ctx' (text ++ [.enter]) new) :
    Passes ctx (ctx'.modifyVars .leaveScope) text ([.enter] ++ (new ++ [.leave])) := by
  obtain ⟨hpassed, hdepth, hfunction⟩ := hinside (h.event rfl h.tracks.enterScope)
  have hinner : ctx'.vars.depth = ctx.vars.depth + 1 := hdepth
  have hleft := hpassed.event (f := VarTracker.leaveScope) (e := .leave) rfl
    (hpassed.tracks.leaveScope (hinner ▸ Nat.succ_ne_zero _))
  refine ⟨?_, ?_, hfunction⟩
  · simpa only [List.append_assoc] using hleft
  · change ctx'.vars.depth - 1 = ctx.vars.depth
    rw [hinner, Nat.add_sub_cancel]

mutual

theorem passes_stmt : ∀ (s : ASTStmt) (ctx : TypeStabilityCtx) (text : List VarEvent),
    Passed ctx text → Passes ctx (analyzeStmtStability tag ctx s) text
      (textOfStmt (decide (ctx.currentFunctionDepth > 0)) s)
  | .varDecl name type typeDesc init isConst, ctx, _, h => by
      have hinit := h.analyzeExpr tag init
      exact hinit.trans (hinit.passed.declareVar name isConst _)
  | .varAssign name value op, ctx, _, h => by
      have hvalue := h.analyzeExpr tag value
      exact hvalue.trans (hvalue.passed.markMutation name)
  | .expr e, ctx, _, h => h.analyzeExpr tag e
  | .return e type, ctx, _, h => h.analyzeExpr tag e
  | .ifStmt condition thenBranch elseBranch, ctx, _, h => by
      have hcondition := h.analyzeExpr tag condition
      exact hcondition.trans (hcondition.passed.block fun hinside =>
        passes_body thenBranch _ _ hinside)
  | .whileStmt condition body, ctx, _, h => by
      have hinside : Passed { ctx with inLoop := ctx.inLoop + 1 } _ := ⟨h.tracks, h.records⟩
      have hcondition := hinside.analyzeExpr tag condition
      have hloop := hcondition.trans (hcondition.passed.block fun hinside =>
        passes_body body _ _ hinside)
      exact ⟨⟨hloop.passed.tracks, hloop.passed.records⟩, hloop.depth_eq, hloop.functionDepth_eq⟩
  | .funcDecl ⟨name, params, returnType, returnTypeDesc, body⟩, ctx, _, h => by
      have hinside : Passed { ctx with currentFunctionDepth := ctx.currentFunctionDepth + 1 } _ :=
        ⟨h.tracks, h.records⟩
      have hlocal : decide (ctx.currentFunctionDepth + 1 > 0) = true :=
        decide_eq_true (Nat.succ_pos _)
      have hfunction := hinside.block fun hstart => by
        have hparams := hstart.declareParams params
        have hbody := passes_body body _ _ hparams.passed
        rw [hparams.functionDepth_eq] at hbody
        exact hparams.trans hbody
      rw [List.append_assoc (params.map _)] at hfunction
      change Passes _ _ _ ([.enter] ++ (_ ++
        (textOfBody (decide (ctx.currentFunctionDepth + 1 > 0)) body ++ [.leave]))) at hfunction
      rw [hlocal] at hfunction
      refine ⟨⟨hfunction.passed.tracks, hfunction.passed.records⟩, hfunction.depth_eq, ?_⟩
      change _ - 1 = _
      rw [hfunction.functionDepth_eq]
      exact Nat.add_sub_cancel _ 1
  | .indexAssign .., _, _, h | .memberAssign .., _, _, h | .print _, _, _, h
  | .forStmt .., _, _, h | .forIn .., _, _, h | .break, _, _, h | .continue, _, _, h
  | .structDecl .., _, _, h | .classDecl .., _, _, h | .importStmt .., _, _, h
  | .exportStmt .., _, _, h => h.refl

theorem passes_body : ∀ (body : Option (List ASTStmt)) (ctx : TypeStabilityCtx)
    (text : List VarEvent), Passed ctx text → Passes ctx (analyzeBodyStability tag ctx body) text
      (textOfBody (decide (ctx.currentFunctionDepth > 0)) body)
  | none, _, _, h => h.refl
  | some stmts, ctx, text, h => passes_stmts stmts ctx text h

theorem passes_stmts : ∀ (stmts : List ASTStmt) (ctx : TypeStabilityCtx) (text : List VarEvent),
    Passed ctx text → Passes ctx (analyzeStmtsStability tag ctx stmts) text
      (textOfStmts (decide (ctx.currentFunctionDepth > 0)) stmts)
  | [], _, _, h => h.refl
  | s :: stmts, ctx, text, h => by
      have hfirst := passes_stmt s ctx text h
      have hrest := passes_stmts stmts _ _ hfirst.passed
      rw [hfirst.functionDepth_eq] at hrest
      exact hfirst.trans hrest

end

/-- **The records of a program**: that of each variable is stable by what stands before it. -/
theorem records_of_program (program : ASTStmtList) :
    RecordsOf (typeStabilityAnalyze tag program) [] (textOfStmts false program) :=
  (passes_stmts tag program .empty [] passed_empty).passed.records

end Records

/-! ### Paths -/

/-- What a statement does to the variables of the function, besides what its blocks do. -/
def ASTStmt.effect : ASTStmt → List VarEvent
  | .varDecl name _ _ _ isConst => [.declare name isConst true]
  | .varAssign name _ _ => [.assign name]
  | _ => []

/-- What a round of a loop does before the body: a `for` declares its variable. -/
def ASTStmt.roundStart : ASTStmt → List VarEvent
  | .forStmt name _ _ | .forIn name _ _ => [.declare name false true]
  | _ => []

/-- The events of a block, in a scope of its own. -/
def inScope (events : List VarEvent) : List VarEvent := [.enter] ++ (events ++ [.leave])

/-- **The runs of a list of statements**, with what they do to the variables. -/
inductive PathRuns : List ASTStmt → List VarEvent → Ending → Prop where
  | nil : PathRuns [] [] .normal
  | straight {s : ASTStmt} {stmts : List ASTStmt} {events : List VarEvent} {ending : Ending}
      (hs : s.IsStraight) (h : PathRuns stmts events ending) :
      PathRuns (s :: stmts) (s.effect ++ events) ending
  | break {stmts : List ASTStmt} : PathRuns (.break :: stmts) [] .break
  | continue {stmts : List ASTStmt} : PathRuns (.continue :: stmts) [] .continue
  | return {e : ASTExpr} {tag : Option TypeDescriptor} {stmts : List ASTStmt} :
      PathRuns (.return e tag :: stmts) [] (.return (e, tag))
  | branch {s : ASTStmt} {branch stmts : List ASTStmt} {inner events : List VarEvent}
      {ending : Ending} (hbranch : branch ∈ s.branches) (hrun : PathRuns branch inner .normal)
      (h : PathRuns stmts events ending) : PathRuns (s :: stmts) (inScope inner ++ events) ending
  | branchEnds {s : ASTStmt} {branch stmts : List ASTStmt} {inner : List VarEvent}
      {ending : Ending} (hbranch : branch ∈ s.branches) (hrun : PathRuns branch inner ending)
      (hends : ending ≠ .normal) : PathRuns (s :: stmts) (inScope inner) ending
  | loopDone {s : ASTStmt} {body stmts : List ASTStmt} {events : List VarEvent} {ending : Ending}
      (hbody : s.loopBody = some body) (h : PathRuns stmts events ending) :
      PathRuns (s :: stmts) events ending
  | loopAgain {s : ASTStmt} {body stmts : List ASTStmt} {inner events : List VarEvent}
      {once ending : Ending} (hbody : s.loopBody = some body) (hrun : PathRuns body inner once)
      (honce : once = .normal ∨ once = .continue) (h : PathRuns (s :: stmts) events ending) :
      PathRuns (s :: stmts) (inScope (s.roundStart ++ inner) ++ events) ending
  | loopBreak {s : ASTStmt} {body stmts : List ASTStmt} {inner events : List VarEvent}
      {ending : Ending} (hbody : s.loopBody = some body) (hrun : PathRuns body inner .break)
      (h : PathRuns stmts events ending) :
      PathRuns (s :: stmts) (inScope (s.roundStart ++ inner) ++ events) ending
  | loopReturn {s : ASTStmt} {body stmts : List ASTStmt} {inner : List VarEvent}
      {value : ReturnValue} (hbody : s.loopBody = some body)
      (hrun : PathRuns body inner (.return value)) :
      PathRuns (s :: stmts) (inScope (s.roundStart ++ inner)) (.return value)

/-- These are the runs of the control flow. -/
theorem pathRuns_iff_runs {stmts : List ASTStmt} {ending : Ending} :
    (∃ events, PathRuns stmts events ending) ↔ Runs stmts ending := by
  constructor
  · rintro ⟨events, h⟩
    induction h with
    | nil => exact .nil
    | straight hs _ ih => exact .straight hs ih
    | «break» => exact .break
    | «continue» => exact .continue
    | «return» => exact .return
    | branch hbranch _ _ ihbranch ih => exact .branch hbranch ihbranch ih
    | branchEnds hbranch _ hends ih => exact .branchEnds hbranch ih hends
    | loopDone hbody _ ih => exact .loopDone hbody ih
    | loopAgain hbody _ honce _ ihbody ih => exact .loopAgain hbody ihbody honce ih
    | loopBreak hbody _ _ ihbody ih => exact .loopBreak hbody ihbody ih
    | loopReturn hbody _ ih => exact .loopReturn hbody ih
  · intro h
    induction h with
    | nil => exact ⟨_, .nil⟩
    | straight hs _ ih => exact ih.elim fun _ h => ⟨_, .straight hs h⟩
    | «break» => exact ⟨_, .break⟩
    | «continue» => exact ⟨_, .continue⟩
    | «return» => exact ⟨_, .return⟩
    | branch hbranch _ _ ihbranch ih =>
        exact ihbranch.elim fun _ hb => ih.elim fun _ h => ⟨_, .branch hbranch hb h⟩
    | branchEnds hbranch _ hends ih => exact ih.elim fun _ h => ⟨_, .branchEnds hbranch h hends⟩
    | loopDone hbody _ ih => exact ih.elim fun _ h => ⟨_, .loopDone hbody h⟩
    | loopAgain hbody _ honce _ ihbody ih =>
        exact ihbody.elim fun _ hb => ih.elim fun _ h => ⟨_, .loopAgain hbody hb honce h⟩
    | loopBreak hbody _ _ ihbody ih =>
        exact ihbody.elim fun _ hb => ih.elim fun _ h => ⟨_, .loopBreak hbody hb h⟩
    | loopReturn hbody _ ih => exact ih.elim fun _ h => ⟨_, .loopReturn hbody h⟩

/-- The expression of a statement that the analysis visits. -/
def ASTStmt.visitedExpr : ASTStmt → Option ASTExpr
  | .varDecl _ _ _ e _ | .varAssign _ e _ | .expr e | .return e _ | .ifStmt e _ _
  | .whileStmt e _ => some e
  | _ => none

/-- **A path reaches a use of a variable that the analysis visits.**  The statements stand behind
`text`; the path does `events` and comes to the use of `name`, before which the text is `before`. -/
inductive UseReached : List VarEvent → List ASTStmt → List VarEvent → Ident → List VarEvent →
    Prop where
  | here {text : List VarEvent} {s : ASTStmt} {stmts : List ASTStmt} {e : ASTExpr}
      {pre post : List ASTExpr} {name : Ident} (hown : s.visitedExpr = some e)
      (hsplit : e.visited = pre ++ .var name :: post) :
      UseReached text (s :: stmts) [] name (text ++ pre.map .visit)
  | after {text events events' before : List VarEvent} {s : ASTStmt} {stmts : List ASTStmt}
      {name : Ident} (hrun : PathRuns [s] events .normal)
      (h : UseReached (text ++ textOfStmt true s) stmts events' name before) :
      UseReached text (s :: stmts) (events ++ events') name before
  | branch {text events before : List VarEvent} {condition : ASTExpr}
      {thenBranch stmts : List ASTStmt} {elseBranch : Option (List ASTStmt)} {name : Ident}
      (h : UseReached (text ++ (visits condition ++ [.enter])) thenBranch events name before) :
      UseReached text (.ifStmt condition (some thenBranch) elseBranch :: stmts)
        ([.enter] ++ events) name before
  | loop {text events before : List VarEvent} {condition : ASTExpr} {body stmts : List ASTStmt}
      {name : Ident}
      (h : UseReached (text ++ (visits condition ++ [.enter])) body events name before) :
      UseReached text (.whileStmt condition (some body) :: stmts) ([.enter] ++ events) name before
  | loopAgain {text inner events before : List VarEvent} {condition : ASTExpr}
      {body stmts : List ASTStmt} {name : Ident} {once : Ending} (hrun : PathRuns body inner once)
      (honce : once = .normal ∨ once = .continue)
      (h : UseReached text (.whileStmt condition (some body) :: stmts) events name before) :
      UseReached text (.whileStmt condition (some body) :: stmts) (inScope inner ++ events) name
        before

/-- A use that is reached stands where `before` ends. -/
theorem UseReached.stands {text events before : List VarEvent} {stmts : List ASTStmt}
    {name : Ident} (h : UseReached text stmts events name before) :
    ∃ post, text ++ textOfStmts true stmts = before ++ .visit (.var name) :: post := by
  induction h with
  | @here text s stmts e pre post name hown hsplit =>
      obtain ⟨rest, hrest⟩ : ∃ rest, textOfStmt true s = visits e ++ rest := by
        cases s with
        | varDecl | varAssign | ifStmt | whileStmt => cases hown; exact ⟨_, rfl⟩
        | expr | «return» => cases hown; exact ⟨[], (List.append_nil _).symm⟩
        | _ => cases hown
      refine ⟨post.map .visit ++ rest ++ textOfStmts true stmts, ?_⟩
      rw [textOfStmts, hrest, visits, hsplit]
      simp only [List.map_append, List.map_cons, List.append_assoc, List.cons_append]
  | after _ _ ih =>
      obtain ⟨post, hpost⟩ := ih
      exact ⟨post, by rw [textOfStmts, ← List.append_assoc, hpost]⟩
  | @branch text events before condition thenBranch stmts elseBranch name _ ih =>
      obtain ⟨post, hpost⟩ := ih
      refine ⟨post ++ ([.leave] ++ textOfStmts true stmts), ?_⟩
      have := congrArg (· ++ ([VarEvent.leave] ++ textOfStmts true stmts)) hpost
      simpa only [textOfStmts, textOfStmt, textOfBody, List.append_assoc, List.cons_append,
        List.nil_append] using this
  | @loop text events before condition body stmts name _ ih =>
      obtain ⟨post, hpost⟩ := ih
      refine ⟨post ++ ([.leave] ++ textOfStmts true stmts), ?_⟩
      have := congrArg (· ++ ([VarEvent.leave] ++ textOfStmts true stmts)) hpost
      simpa only [textOfStmts, textOfStmt, textOfBody, List.append_assoc, List.cons_append,
        List.nil_append] using this
  | loopAgain _ _ _ ih => exact ih

/-! ### Soundness -/

/-- A function starts with the declaration of its parameters. -/
def ASTFuncDecl.start (decl : FuncDecl) : List VarEvent :=
  [.enter] ++ decl.params.map fun p => .declare p.name true true

/-- The variable that the name refers to has been assigned since its declaration. -/
def AssignedSince (events : List VarEvent) (name : Ident) : Prop :=
  ∃ b, (VarScopes.after none events).find name = some b ∧ b.isAssigned = true

/-- The use after that text is marked stable. -/
def MarkedStable (tag : ℕ → Option VarType) (program : ASTStmtList) (before : List VarEvent) :
    Prop :=
  ∃ info, (typeStabilityAnalyze tag program)[recordCount before]? = some info ∧
    info.stability = .stable

/-- A use in a function of a program that a path from the start of the function reaches. -/
def FunctionReaches (earlier : ASTStmtList) (decl : FuncDecl) (events : List VarEvent)
    (name : Ident) (before : List VarEvent) : Prop :=
  UseReached (textOfStmts false earlier ++ decl.start) (decl.body.getD []) events name before

/-- **The marks of a function are sound**: no path assigns a variable between its declaration and a
use that is marked stable, and what is marked unstable or unknown is neither type stable nor
unboxed as an integer. -/
def StabilitySound (tag : ℕ → Option VarType) (earlier : ASTStmtList) (decl : FuncDecl)
    (later : ASTStmtList) : Prop :=
  (∀ events name before, FunctionReaches earlier decl events name before →
    MarkedStable tag (earlier ++ .funcDecl decl :: later) before →
      ¬AssignedSince (decl.start ++ events) name) ∧
  ∀ info ∈ typeStabilityAnalyze tag (earlier ++ .funcDecl decl :: later),
    info.stability = .unstable ∨ info.stability = .unknown →
      isTypeStable (some info) = false ∧ canUnboxInteger (some info) = false

theorem not_settled {info : TypeStabilityInfo}
    (h : info.stability = .unstable ∨ info.stability = .unknown) :
    isTypeStable (some info) = false ∧ canUnboxInteger (some info) = false := by
  have hsettled : info.isSettled = false := by
    unfold TypeStabilityInfo.isSettled
    obtain h | h := h <;> rw [h] <;> rfl
  exact ⟨hsettled, (congrArg _ hsettled).trans (Bool.and_false _)⟩

theorem textOfStmts_append (isLocal : Bool) (stmts stmts' : List ASTStmt) :
    textOfStmts isLocal (stmts ++ stmts') =
      textOfStmts isLocal stmts ++ textOfStmts isLocal stmts' := by
  induction stmts with
  | nil => rfl
  | cons s stmts ih => rw [List.cons_append, textOfStmts, ih, textOfStmts, List.append_assoc]

/-- The mark of a use in a function is decided by the text before it. -/
theorem markedStable_iff (tag : ℕ → Option VarType) {earlier later : ASTStmtList}
    {decl : FuncDecl} {events before : List VarEvent} {name : Ident}
    (h : FunctionReaches earlier decl events name before) :
    MarkedStable tag (earlier ++ .funcDecl decl :: later) before ↔ StableBefore before name := by
  obtain ⟨post, hpost⟩ := h.stands
  -- the text of the program goes on behind the body of the function
  have htext : ∃ post', textOfStmts false (earlier ++ .funcDecl decl :: later) =
      before ++ .visit (.var name) :: post' := by
    refine ⟨post ++ ([.leave] ++ textOfStmts false later), ?_⟩
    have hbody : textOfBody true decl.body = textOfStmts true (decl.body.getD []) := by
      cases decl.body <;> rfl
    have hdecl : textOfStmt false (.funcDecl decl) =
        decl.start ++ (textOfStmts true (decl.body.getD []) ++ [.leave]) := by
      rw [← hbody]
      obtain ⟨name, params, returnType, returnTypeDesc, body⟩ := decl
      rfl
    have := congrArg (· ++ ([VarEvent.leave] ++ textOfStmts false later)) hpost
    rw [textOfStmts_append, textOfStmts, hdecl]
    simpa only [List.append_assoc, List.cons_append, List.nil_append] using this
  obtain ⟨post', hsplit⟩ := htext
  obtain ⟨info, hinfo, hstable⟩ := (records_of_program tag _).2 before name post' hsplit
  rw [List.nil_append] at hstable
  constructor
  · rintro ⟨info', hinfo', hmark⟩
    obtain rfl : info = info' := Option.some.inj (hinfo.symm.trans hinfo')
    exact hstable.mp hmark
  · exact fun hbefore => ⟨info, hinfo, hstable.mpr hbefore⟩

/-- **Stable marks are right** if and only if every visited use that a path reaches after an
assignment to its variable is one of a variable that is neither a constant nor a parameter, and
that is assigned in the text before the use. -/
theorem stability_sound_iff (tag : ℕ → Option VarType) (earlier : ASTStmtList) (decl : FuncDecl)
    (later : ASTStmtList) :
    StabilitySound tag earlier decl later ↔
      ∀ events name before, FunctionReaches earlier decl events name before →
        AssignedSince (decl.start ++ events) name → ¬StableBefore before name := by
  unfold StabilitySound
  rw [and_iff_left fun info _ => not_settled]
  refine forall₄_congr fun events name before hreach => ?_
  rw [markedStable_iff tag hreach]
  exact imp_not_comm

/-- `def f() { let i: Int = 0  while i < 10 { i = i + 1 } }`. -/
def countingLoop : FuncDecl where
  name := ['f']
  params := []
  returnType := .typeNil
  returnTypeDesc := none
  body := some [.varDecl ['i'] .typeInt (some .int) (.int 0) false,
    .whileStmt (.binary '<' (.var ['i']) (.int 10))
      (some [.varAssign ['i'] (.binary '+' (.var ['i']) (.int 1)) none])]

/-- **The variable of the condition is marked stable**, and every round but the first reaches it
after an assignment. -/
theorem counting_loop_marked_stable :
    ¬StabilitySound (fun _ => none) [] countingLoop [] := by
  rintro ⟨hsound, -⟩
  have hround : PathRuns [.varAssign ['i'] (.binary '+' (.var ['i']) (.int 1)) none]
      [.assign ['i']] .normal := .straight trivial .nil
  have hdecl : PathRuns [.varDecl ['i'] .typeInt (some .int) (.int 0) false]
      [.declare ['i'] false true] .normal := .straight trivial .nil
  have hcondition : ASTExpr.visited (.binary '<' (.var ['i']) (.int 10)) =
      [.binary '<' (.var ['i']) (.int 10)] ++ .var ['i'] :: [.int 10] := rfl
  refine hsound _ _ _ (.after hdecl (.loopAgain hround (.inl rfl) (.here rfl hcondition)))
    ⟨_, rfl, rfl⟩ ⟨_, rfl, rfl⟩

end BreadLang
