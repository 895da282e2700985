import BreadLang.Compiler.StmtParser

/-!
# What the parser reads of a text

`Reads m source a rest` says that a function of the parser returns `a` on the text `source`
and leaves `rest` of it, and that it records nothing.  The rules follow the structure of the
parser.  A loop is read turn by turn (`ReadsTurns`); each of them gets on in the text, so the
bound on the turns is never used up.
-/

namespace BreadLang

open Stateful Parse

/-- **A function of the parser reads** the beginning of a text. -/
def Reads {α : Type} (m : Parse α) (source : List Char) (a : α) (rest : List Char) : Prop :=
  ∀ s : ParseState, s.rest = source → m.result s = .ok a ∧ m.final s = { s with rest := rest }

section Rules

variable {α β : Type} {m : Parse α} {f : α → Parse β} {a a' : α} {b : β}
  {source rest rest' : List Char}

theorem reads_pure (a : α) (source : List Char) : Reads (pure a) source a source := by
  rintro s rfl
  exact ⟨rfl, rfl⟩

theorem Reads.bind (hm : Reads m source a rest) (hf : Reads (f a) rest b rest') :
    Reads (m >>= f) source b rest' := by
  intro s hs
  obtain ⟨hresult, hfinal⟩ := hm s hs
  obtain ⟨hresult', hfinal'⟩ := hf { s with rest := rest } rfl
  rw [result_bind, final_bind_of_ok hresult, hresult, hfinal]
  exact ⟨hresult', hfinal'⟩

theorem Reads.map {g : α → β} (hm : Reads m source a rest) :
    Reads (m >>= fun a => pure (g a)) source (g a) rest :=
  hm.bind (reads_pure _ _)

theorem Reads.testNull (hm : Reads m source a rest) :
    Reads (testNull m) source (some a) rest := by
  intro s hs
  obtain ⟨hresult, hfinal⟩ := hm s hs
  rw [Parse.testNull, result_attempt, final_attempt, hresult]
  exact ⟨rfl, hfinal⟩

theorem Reads.onText (hm : Reads m source a rest) (whole : List Char) :
    Reads (onText source m) whole a whole := by
  rintro s rfl
  obtain ⟨hresult, hfinal⟩ := hm { s with rest := source } rfl
  rw [Parse.onText, result_within, final_within, hfinal]
  exact ⟨hresult, rfl⟩

end Rules

/-! ### Failures and the same outcome -/

/-- A function of the parser returns `NULL` on a text, and leaves the pointer at `rest`. -/
def Fails {α : Type} (m : Parse α) (source rest : List Char) : Prop :=
  ∀ s : ParseState, s.rest = source → m.result s = .error .null ∧ (m.final s).rest = rest

/-- Two functions of the parser do the same on a text. -/
def AgreeOn {α : Type} (source : List Char) (m m' : Parse α) : Prop :=
  ∀ s : ParseState, s.rest = source → m.result s = m'.result s ∧ m.final s = m'.final s

section Failures

variable {α β : Type} {m m' m'' : Parse α} {f : α → Parse β} {a : α}
  {source rest rest' : List Char}

theorem fails_syntaxError (message : String) (source : List Char) :
    Fails (syntaxError message : Parse α) source source := by
  rintro s rfl
  exact ⟨rfl, rfl⟩

theorem fails_null (source : List Char) : Fails (null : Parse α) source source := by
  rintro s rfl
  exact ⟨rfl, rfl⟩

theorem Fails.bind (hm : Fails m source rest) : Fails (m >>= f) source rest := by
  intro s hs
  obtain ⟨hresult, hfinal⟩ := hm s hs
  rw [result_bind, final_bind_of_error hresult, hresult]
  exact ⟨rfl, hfinal⟩

theorem Reads.fails (hm : Reads m source a rest) (hf : Fails (f a) rest rest') :
    Fails (m >>= f) source rest' := by
  intro s hs
  obtain ⟨hresult, hfinal⟩ := hm s hs
  rw [result_bind, final_bind_of_ok hresult, hresult, hfinal]
  exact hf _ rfl

theorem Fails.onText (hm : Fails m source rest) (whole : List Char) :
    Fails (onText source m) whole whole := by
  rintro s rfl
  obtain ⟨hresult, -⟩ := hm { s with rest := source } rfl
  rw [Parse.onText, result_within, final_within]
  exact ⟨hresult, rfl⟩

/-- A `NULL` that the caller tests for. -/
theorem Fails.testNull {f : Option α → Parse β} (hm : Fails m source rest)
    (hf : Fails (f none) rest rest') : Fails (testNull m >>= f) source rest' := by
  intro s hs
  obtain ⟨hresult, hfinal⟩ := hm s hs
  have hnone : (Parse.testNull m).result s = .ok none := by
    rw [Parse.testNull, result_attempt, hresult]
    rfl
  rw [result_bind, final_bind_of_ok hnone, hnone, Parse.testNull, final_attempt]
  exact hf _ hfinal

theorem Reads.unique {a' : α} (h : Reads m source a rest) (h' : Reads m source a' rest') :
    a = a' ∧ rest = rest' := by
  obtain ⟨hresult, hfinal⟩ := h ⟨source, none, false, [], false⟩ rfl
  obtain ⟨hresult', hfinal'⟩ := h' ⟨source, none, false, [], false⟩ rfl
  exact ⟨Except.ok.inj (hresult.symm.trans hresult'),
    congrArg ParseState.rest (hfinal.symm.trans hfinal')⟩

theorem Reads.not_fails (h : Reads m source a rest) (h' : Fails m source rest') : False := by
  obtain ⟨hresult, -⟩ := h ⟨source, none, false, [], false⟩ rfl
  obtain ⟨hresult', -⟩ := h' ⟨source, none, false, [], false⟩ rfl
  cases hresult.symm.trans hresult'

/-- What only looks at the text is passed. -/
theorem Reads.agree (hm : Reads m source a source) : AgreeOn source (m >>= f) (f a) := by
  rintro s rfl
  obtain ⟨hresult, hfinal⟩ := hm s rfl
  rw [result_bind, final_bind_of_ok hresult, hresult, hfinal]
  exact ⟨rfl, rfl⟩

theorem AgreeOn.trans (h : AgreeOn source m m') (h' : AgreeOn source m' m'') :
    AgreeOn source m m'' :=
  fun s hs => ⟨(h s hs).1.trans (h' s hs).1, (h s hs).2.trans (h' s hs).2⟩

theorem AgreeOn.symm (h : AgreeOn source m m') : AgreeOn source m' m :=
  fun s hs => ⟨(h s hs).1.symm, (h s hs).2.symm⟩

theorem AgreeOn.reads (h : AgreeOn source m m') (hm : Reads m' source a rest) :
    Reads m source a rest :=
  fun s hs => ⟨(h s hs).1.trans (hm s hs).1, (h s hs).2.trans (hm s hs).2⟩

theorem AgreeOn.fails (h : AgreeOn source m m') (hm : Fails m' source rest) :
    Fails m source rest :=
  fun s hs => ⟨(h s hs).1.trans (hm s hs).1, (congrArg _ (h s hs).2).trans (hm s hs).2⟩

end Failures

/-! ### Primitives -/

section Primitives

variable {source rest : List Char}

theorem reads_text (source : List Char) : Reads text source source source := by
  rintro s rfl
  exact ⟨rfl, rfl⟩

theorem reads_peek (source : List Char) : Reads peek source source.head? source := by
  rintro s rfl
  exact ⟨rfl, rfl⟩

theorem reads_looksAt (word source : List Char) :
    Reads (looksAt word) source (word.isPrefixOf source) source := by
  rintro s rfl
  exact ⟨rfl, rfl⟩

theorem reads_looksAtKeyword (word source : List Char) :
    Reads (looksAtKeyword word) source
      (word.isPrefixOf source && !(source.drop word.length).head?.any isIdentChar) source := by
  rintro s rfl
  exact ⟨rfl, rfl⟩

theorem reads_looksAtWord (word source : List Char) :
    Reads (looksAtWord word) source
      (word.isPrefixOf source && !(source.drop word.length).head?.any Char.isAlphanum) source := by
  rintro s rfl
  exact ⟨rfl, rfl⟩

/-- The pointer is advanced over characters that are there. -/
theorem final_advance {n : ℕ} {s : ParseState} (h : n ≤ s.rest.length) :
    (advance n).final s = { s with rest := s.rest.drop n } := by
  have hlength : decide (s.rest.length < n) = false := decide_eq_false (Nat.not_lt.mpr h)
  show ({ s with rest := _, pastEnd := s.pastEnd || decide (s.rest.length < n) } : ParseState) = _
  rw [hlength, Bool.or_false]

theorem reads_advance (n : ℕ) (source : List Char) (h : n ≤ source.length) :
    Reads (advance n) source () (source.drop n) := by
  rintro s rfl
  exact ⟨rfl, final_advance h⟩

/-- The pointer is advanced over a word. -/
theorem reads_advanceOver (word rest : List Char) :
    Reads (advance word.length) (word ++ rest) () rest := by
  have h := reads_advance word.length (word ++ rest) (by simp)
  rwa [List.drop_left] at h

theorem reads_takeChars (p : Char → Bool) (source : List Char) :
    Reads (takeChars p) source (source.takeWhile p) (source.dropWhile p) := by
  rintro s rfl
  exact ⟨rfl, rfl⟩

theorem reads_skipWhitespace (source : List Char) :
    Reads skipWhitespace source () (skipSpaceAndComments false source) := by
  rintro s rfl
  exact ⟨rfl, rfl⟩

theorem reads_expect (c : Char) (rest : List Char) : Reads (expect c) (c :: rest) () rest := by
  refine (reads_peek (c :: rest)).bind ?_
  rw [List.head?_cons, beq_self_eq_true, if_pos rfl]
  exact reads_advance 1 (c :: rest) (Nat.succ_pos _)

theorem reads_require (c : Char) (message : String) (rest : List Char) :
    Reads (require c message) (c :: rest) () rest := by
  refine (reads_peek (c :: rest)).bind ?_
  rw [List.head?_cons, beq_self_eq_true, if_pos rfl]
  exact reads_advance 1 (c :: rest) (Nat.succ_pos _)

/-! ### The scan for an assignment operator -/

theorem eq_of_scanStop {c : Char} {next op : Option Char} (h : scanStop c next = .assign op)
    (hop : op.isSome) : next = some '=' := by
  unfold scanStop at h
  split at h
  · obtain rfl := ScanStop.assign.inj h
    cases hop
  · split at h
    · next hnext => exact beq_iff_eq.mp (Bool.and_eq_true_iff.mp hnext).2
    · split at h <;> cases h

/-- The operator that the scan finds is in the text. -/
theorem exists_of_scanAssign {x : AssignScan} {source before : List Char} {op : Option Char}
    (h : scanAssign x source = some (before, op)) :
    ∃ c rest, source = before ++ c :: rest ∧ (op.isSome → rest.head? = some '=') := by
  induction source generalizing x before with
  | nil => cases h
  | cons c source ih =>
    have hcontinued : ∀ y : AssignScan,
        ((scanAssign y source).map fun scan => (c :: scan.1, scan.2)) = some (before, op) →
        ∃ d rest, c :: source = before ++ d :: rest ∧ (op.isSome → rest.head? = some '=') := by
      intro y hy
      obtain ⟨scan, hscan, heq⟩ := Option.map_eq_some_iff.mp hy
      obtain ⟨rfl, rfl⟩ := Prod.mk.inj heq
      obtain ⟨d, rest, rfl, hop⟩ := ih hscan
      exact ⟨d, rest, rfl, hop⟩
    rw [scanAssign] at h
    dsimp only at h
    split at h
    · exact hcontinued _ h
    split at h
    · exact hcontinued _ h
    split at h
    · cases h
    split at h
    · split at h
      · next hstop =>
        obtain ⟨rfl, rfl⟩ := Prod.mk.inj (Option.some.inj h)
        exact ⟨c, source, rfl, eq_of_scanStop hstop⟩
      · cases h
      · exact hcontinued _ h
    · exact hcontinued _ h

end Primitives

/-! ### Loops -/

section Loops

variable {α β : Type} {turn : α → Parse (α ⊕ β)} {a : α} {b : β} {source rest : List Char}

/-- The turns of a loop, each of which gets on in the text. -/
inductive ReadsTurns (turn : α → Parse (α ⊕ β)) : α → List Char → β → List Char → Prop
  | last {a : α} {b : β} {source rest : List Char} (h : Reads (turn a) source (.inr b) rest) :
      ReadsTurns turn a source b rest
  | next {a a' : α} {b : β} {source next rest : List Char}
      (h : Reads (turn a) source (.inl a') next) (hlt : next.length < source.length)
      (hrest : ReadsTurns turn a' next b rest) : ReadsTurns turn a source b rest

theorem ReadsTurns.loop (h : ReadsTurns turn a source b rest) :
    ∀ n, source.length < n → Reads (Stateful.loop .diverges turn n a) source b rest := by
  induction h with
  | last h =>
      intro n hn
      obtain ⟨n, rfl⟩ := Nat.exists_eq_succ_of_ne_zero (Nat.ne_zero_of_lt hn)
      exact h.bind (reads_pure _ _)
  | next h hlt _ ih =>
      intro n hn
      obtain ⟨n, rfl⟩ := Nat.exists_eq_succ_of_ne_zero (Nat.ne_zero_of_lt hn)
      exact h.bind (ih n (by omega))

/-- **A loop reads what its turns read.** -/
theorem ReadsTurns.whileLoop (h : ReadsTurns turn a source b rest) :
    Reads (whileLoop turn a) source b rest :=
  (reads_text source).bind (h.loop _ (Nat.lt_succ_self _))

end Loops

/-! ### White space -/

section WhiteSpace

/-- A text that starts with no white space and no comment. -/
def StartsToken (source : List Char) : Prop :=
  skipSpaceAndComments false source = source

theorem startsToken_nil : StartsToken [] := rfl

theorem startsToken_cons {c : Char} {source : List Char} (hspace : isSpace c = false)
    (hslash : c ≠ '/') : StartsToken (c :: source) := by
  rw [StartsToken, skipSpaceAndComments]
  simp [hspace, hslash]

/-- White space in front of a text is skipped. -/
theorem skip_append {space source : List Char} (hspace : ∀ c ∈ space, isSpace c = true) :
    skipSpaceAndComments false (space ++ source) = skipSpaceAndComments false source := by
  induction space with
  | nil => rfl
  | cons c space ih =>
      obtain ⟨hc, hspace⟩ := List.forall_mem_cons.mp hspace
      rw [List.cons_append, skipSpaceAndComments, if_neg Bool.false_ne_true, if_pos hc]
      exact ih hspace

/-- `skip_whitespace` gets to the next token. -/
theorem reads_spaces {space source : List Char} (hspace : ∀ c ∈ space, isSpace c = true)
    (hsource : StartsToken source) : Reads skipWhitespace (space ++ source) () source := by
  have h := reads_skipWhitespace (space ++ source)
  rwa [skip_append hspace, hsource] at h

theorem reads_noSpace {source : List Char} (hsource : StartsToken source) :
    Reads skipWhitespace source () source :=
  reads_spaces (fun _ h => absurd h List.not_mem_nil) hsource

theorem skip_startsToken (inComment : Bool) (source : List Char) :
    StartsToken (skipSpaceAndComments inComment source) := by
  induction source generalizing inComment with
  | nil => rfl
  | cons c source ih =>
      rw [skipSpaceAndComments]
      split
      · exact ih _
      · split
        · exact ih _
        · rename_i hspace
          split
          · exact ih _
          · rename_i hcomment
            rw [StartsToken, skipSpaceAndComments, if_neg Bool.false_ne_true, if_neg hspace,
              if_neg hcomment]

/-- A function of the parser that starts with `skip_whitespace`. -/
def SkipsFirst {α : Type} (m : Parse α) : Prop :=
  ∀ s : ParseState, m.result s = m.result { s with rest := skipSpaceAndComments false s.rest } ∧
    m.final s = m.final { s with rest := skipSpaceAndComments false s.rest }

theorem skipsFirst_skipWhitespace : SkipsFirst skipWhitespace := by
  intro s
  refine ⟨rfl, ?_⟩
  show { s with rest := _ } = { s with rest := skipSpaceAndComments false (skipSpaceAndComments false s.rest) }
  rw [skip_startsToken false s.rest]

theorem SkipsFirst.bind {α β : Type} {m : Parse α} {f : α → Parse β} (hm : SkipsFirst m) :
    SkipsFirst (m >>= f) := by
  intro s
  obtain ⟨hresult, hfinal⟩ := hm s
  rw [result_bind, result_bind, final_bind, final_bind, hresult, hfinal]
  exact ⟨rfl, rfl⟩

theorem SkipsFirst.reads {α : Type} {m : Parse α} {a : α} {source rest : List Char}
    (hm : SkipsFirst m) (h : Reads m (skipSpaceAndComments false source) a rest) :
    Reads m source a rest := by
  rintro s rfl
  obtain ⟨hresult, hfinal⟩ := h { s with rest := skipSpaceAndComments false s.rest } rfl
  exact ⟨(hm s).1.trans hresult, (hm s).2.trans hfinal⟩

theorem skip_length_le (inComment : Bool) (source : List Char) :
    (skipSpaceAndComments inComment source).length ≤ source.length := by
  induction source generalizing inComment with
  | nil => exact le_rfl
  | cons c source ih =>
      rw [skipSpaceAndComments]
      split
      · exact (ih _).trans (Nat.le_succ _)
      · split
        · exact (ih _).trans (Nat.le_succ _)
        · split
          · exact (ih _).trans (Nat.le_succ _)
          · exact le_rfl

/-- A loop whose turns start with `skip_whitespace`. -/
theorem readsTurns_of_skip {α β : Type} {turn : α → Parse (α ⊕ β)} {a : α} {b : β}
    {source rest : List Char} (hturn : ∀ a, SkipsFirst (turn a))
    (h : ReadsTurns turn a (skipSpaceAndComments false source) b rest) :
    ReadsTurns turn a source b rest := by
  cases h with
  | last h => exact .last ((hturn a).reads h)
  | next h hlt hrest =>
      exact .next ((hturn a).reads h) (hlt.trans_le (skip_length_le false source)) hrest

end WhiteSpace

end BreadLang
