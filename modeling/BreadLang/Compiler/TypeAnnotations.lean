import BreadLang.Compiler.RoundTrip
import BreadLang.Core.TypeText
import BreadLang.Library.Refinement

/-!
# The texts of type annotations

`TypeText d t` says that `t` is written for the descriptor `d` in a program.  It is what
`parse_type_descriptor` accepts: the function reads every such text (`reads_typeText`), and what
it reads is one (`typeText_of_endsIn`).  The texts that `type_descriptor_to_string` prints are
compared with it.
-/

namespace BreadLang

open Stateful Parse

/-! ### What is written for a type -/

/-- Whether a descriptor is an optional. -/
def TypeDescriptor.IsOptional : TypeDescriptor → Prop
  | .optional _ => True
  | _ => False

/-- **The text of a type.** -/
inductive TypeText : TypeDescriptor → List Char → Prop
  | name {t : List Char} (hname : IsIdentifier t) (hlength : t.length < maxTokenLen) :
      TypeText (typeOfName t) t
  | array {d : TypeDescriptor} {t space space' : List Char} (hspace : IsSpaces space)
      (hspace' : IsSpaces space') (h : TypeText d t) :
      TypeText (.array d) ('[' :: (space ++ (t ++ (space' ++ [']']))))
  | dict {key value : TypeDescriptor} {t t' space₁ space₂ space₃ space₄ : List Char}
      (h₁ : IsSpaces space₁) (h₂ : IsSpaces space₂) (h₃ : IsSpaces space₃) (h₄ : IsSpaces space₄)
      (hkey : TypeText key t) (hvalue : TypeText value t') :
      TypeText (.dict key value)
        ('[' :: (space₁ ++ (t ++ (space₂ ++ ':' :: (space₃ ++ (t' ++ (space₄ ++ [']'])))))))
  | optional {d : TypeDescriptor} {t space : List Char} (hplain : ¬d.IsOptional)
      (hspace : IsSpaces space) (h : TypeText d t) : TypeText (.optional d) (t ++ (space ++ ['?']))

/-- What is left behind a type: white space is skipped in search of a `?`. -/
def behindType : TypeDescriptor → List Char → List Char
  | .optional _, rest => rest
  | _, rest => rest.dropWhile isSpace

/-- What may come behind a type. -/
structure EndsType (rest : List Char) : Prop where
  raw : rest.head?.any isIdentChar = false
  mark : (rest.dropWhile isSpace).head? ≠ some '?'

section Behind

variable {d : TypeDescriptor} {space rest : List Char} {c : Char}

theorem behindType_of_plain (hplain : ¬d.IsOptional) :
    behindType d rest = rest.dropWhile isSpace := by
  cases d with
  | optional => exact absurd trivial hplain
  | _ => rfl

theorem dropWhile_spaces (rest : List Char) :
    (rest.dropWhile isSpace).dropWhile isSpace = rest.dropWhile isSpace := by
  induction rest with
  | nil => rfl
  | cons c rest ih =>
      rw [List.dropWhile_cons]
      split
      · exact ih
      · rename_i hc
        rw [List.dropWhile_cons, if_neg hc]

theorem dropWhile_behindType (d : TypeDescriptor) (rest : List Char) :
    (behindType d rest).dropWhile isSpace = rest.dropWhile isSpace := by
  by_cases hplain : d.IsOptional
  · cases d with
    | optional => rfl
    | _ => exact absurd hplain id
  · rw [behindType_of_plain hplain, dropWhile_spaces]

theorem dropWhile_token (hspace : IsSpaces space) (hc : isSpace c = false) :
    (space ++ c :: rest).dropWhile isSpace = c :: rest := by
  rw [List.dropWhile_append_of_pos hspace, List.dropWhile_cons, hc, if_neg Bool.false_ne_true]

/-- The characters behind a type in brackets. -/
theorem endsType_closer (hspace : IsSpaces space) (hc : c = ']' ∨ c = ':') :
    EndsType (space ++ c :: rest) := by
  have hclosers : isSpace c = false ∧ isIdentChar c = false ∧ c ≠ '?' := by
    obtain rfl | rfl := hc <;> decide
  obtain ⟨hblank, hident, hmark⟩ := hclosers
  refine ⟨raw_spaces hspace hident, ?_⟩
  rw [dropWhile_token hspace hblank]
  exact fun heq => hmark (Option.some.inj heq)

theorem reads_skipTypeWhitespace (source : List Char) :
    Reads skipTypeWhitespace source () (source.dropWhile isSpace) := by
  rintro s rfl
  exact ⟨rfl, rfl⟩

theorem reads_typeSpaces (hspace : IsSpaces space) (hc : isSpace c = false) :
    Reads skipTypeWhitespace (space ++ c :: rest) () (c :: rest) := by
  have h := reads_skipTypeWhitespace (space ++ c :: rest)
  rwa [dropWhile_token hspace hc] at h

/-- White space behind a type, of which the function has skipped a part or not. -/
theorem reads_spacesBehind (d : TypeDescriptor) (hspace : IsSpaces space) (hc : isSpace c = false) :
    Reads skipTypeWhitespace (behindType d (space ++ c :: rest)) () (c :: rest) := by
  have h := reads_skipTypeWhitespace (behindType d (space ++ c :: rest))
  rwa [dropWhile_behindType, dropWhile_token hspace hc] at h

end Behind

/-! ### The parser reads what is written -/

/-- **The calls of the parser** read the texts of types that are shorter than a bound. -/
structure ReadsTypes (p : Parser) (bound : ℕ) : Prop where
  read : ∀ {d t space rest}, IsSpaces space → TypeText d t → t.length < bound → EndsType rest →
    Reads p.typeDescriptor (space ++ (t ++ rest)) d (behindType d rest)

theorem typeOfName_plain (name : Ident) : ¬(typeOfName name).IsOptional := by
  unfold typeOfName
  repeat' split
  all_goals exact id

theorem ReadsTypes.mono {p : Parser} {bound bound' : ℕ} (hp : ReadsTypes p bound')
    (hle : bound ≤ bound') : ReadsTypes p bound :=
  ⟨fun hspace h hlt hrest => hp.read hspace h (hlt.trans_le hle) hrest⟩

section Reading

variable {p : Parser} {d : TypeDescriptor} {t space rest : List Char}

/-- The text in front of a `?`. -/
theorem reads_baseType (hp : ReadsTypes p t.length) (h : TypeText d t) (hplain : ¬d.IsOptional)
    (hraw : rest.head?.any isIdentChar = false) :
    ∃ c u, t = c :: u ∧ isSpace c = false ∧
      Reads (parseBaseType p (some c)) (t ++ rest) d rest := by
  cases h with
  | name hname hlength =>
      obtain ⟨c, u, rfl⟩ : ∃ c u, t = c :: u :=
        List.exists_cons_of_ne_nil fun heq => by
          rw [heq] at hname
          exact Bool.false_ne_true hname.start
      have hc : isIdentStart c = true := hname.start
      refine ⟨c, u, rfl, isSpace_of_identChar (isIdentChar_of_start hc), ?_⟩
      rw [parseBaseType, beq_false_of_ne (identStart_ne hc rfl), if_neg Bool.false_ne_true, if_pos hc]
      refine (reads_takeName rest hname hraw).bind ?_
      rw [if_neg (by omega)]
      exact reads_pure _ _
  | @array e t s s' hs hs' h =>
      refine ⟨'[', _, rfl, rfl, (reads_advance 1 _ (by simp)).bind ?_⟩
      have hlt : t.length < ('[' :: (s ++ (t ++ (s' ++ [']'])))).length := by
        simp only [List.length_cons, List.length_append]
        omega
      have hcloser : EndsType (s' ++ ']' :: rest) := endsType_closer hs' (.inl rfl)
      have hitem := hp.read hs h hlt hcloser
      have hsource : s ++ (t ++ (s' ++ ']' :: rest)) =
          ('[' :: (s ++ (t ++ (s' ++ [']']))) ++ rest).drop 1 := by
        simp
      refine (hsource ▸ hitem).bind ((reads_spacesBehind e hs' rfl).bind ((reads_peek _).bind ?_))
      exact (reads_expect ']' rest).bind (reads_pure _ _)
  | @dict key value t t' s₁ s₂ s₃ s₄ h₁ h₂ h₃ h₄ hkey hvalue =>
      refine ⟨'[', _, rfl, rfl, (reads_advance 1 _ (by simp)).bind ?_⟩
      have hlt : t.length < ('[' :: (s₁ ++ (t ++ (s₂ ++ ':' :: (s₃ ++ (t' ++ (s₄ ++ [']']))))))).length ∧
          t'.length < ('[' :: (s₁ ++ (t ++ (s₂ ++ ':' :: (s₃ ++ (t' ++ (s₄ ++ [']']))))))).length := by
        simp only [List.length_cons, List.length_append]
        omega
      have hcolon : EndsType (s₂ ++ ':' :: (s₃ ++ (t' ++ (s₄ ++ ']' :: rest)))) :=
        endsType_closer h₂ (.inr rfl)
      have hcloser : EndsType (s₄ ++ ']' :: rest) := endsType_closer h₄ (.inl rfl)
      have hfirst := hp.read h₁ hkey hlt.1 hcolon
      have hsecond := hp.read h₃ hvalue hlt.2 hcloser
      have hsource : s₁ ++ (t ++ (s₂ ++ ':' :: (s₃ ++ (t' ++ (s₄ ++ ']' :: rest))))) =
          ('[' :: (s₁ ++ (t ++ (s₂ ++ ':' :: (s₃ ++ (t' ++ (s₄ ++ [']'])))))) ++ rest).drop 1 := by
        simp
      refine (hsource ▸ hfirst).bind ((reads_spacesBehind key h₂ rfl).bind ((reads_peek _).bind ?_))
      refine (reads_advance 1 _ (by simp)).bind (hsecond.bind ((reads_spacesBehind value h₄ rfl).bind ?_))
      exact (reads_expect ']' rest).bind (reads_pure _ _)
  | optional => exact absurd trivial hplain

theorem reads_typeText (hp : ReadsTypes p t.length) (hspace : IsSpaces space) (h : TypeText d t)
    (hrest : EndsType rest) :
    Reads (parseTypeDescriptor p) (space ++ (t ++ rest)) d (behindType d rest) := by
  by_cases hplain : d.IsOptional
  · cases h with
    | name => exact absurd hplain (typeOfName_plain _)
    | array => exact absurd hplain id
    | dict => exact absurd hplain id
    | @optional e t s hbase hs h =>
        have hle : t.length ≤ (t ++ (s ++ ['?'])).length := by simp
        have hraw : (s ++ '?' :: rest).head?.any isIdentChar = false := raw_spaces hs rfl
        obtain ⟨c, u, rfl, hc, hread⟩ := reads_baseType (hp.mono hle) h hbase hraw
        have hsource : c :: u ++ (s ++ '?' :: rest) = c :: u ++ (s ++ ['?']) ++ rest := by simp
        rw [← hsource]
        refine (reads_typeSpaces hspace hc).bind ((reads_peek _).bind (hread.bind ?_))
        refine (reads_typeSpaces hs rfl).bind ((reads_peek _).bind ?_)
        exact (reads_advance 1 _ (by simp)).bind (reads_pure _ _)
  · obtain ⟨c, u, rfl, hc, hbase⟩ := reads_baseType hp h hplain hrest.raw
    refine (reads_typeSpaces hspace hc).bind ((reads_peek _).bind (hbase.bind ?_))
    refine (reads_skipTypeWhitespace rest).bind ((reads_peek _).bind ?_)
    rw [if_neg fun heq => hrest.mark (beq_iff_eq.mp heq), behindType_of_plain hplain]
    exact reads_pure _ _

/-- The parser reads the types that are shorter than its stack. -/
theorem readsTypes (conversions : Conversions) : ∀ n, ReadsTypes (parser conversions n) n
  | 0 => ⟨fun _ _ hlt => absurd hlt (Nat.not_lt_zero _)⟩
  | n + 1 => ⟨fun hspace h hlt hrest =>
      reads_typeText ((readsTypes conversions n).mono (Nat.le_of_lt_succ hlt)) hspace h hrest⟩

end Reading

/-! ### What is written is all that the parser reads -/

section Accepting

variable {d : TypeDescriptor} {s u : ParseState}

/-- What is read is the text of a type, with white space in front. -/
def TypeRead (d : TypeDescriptor) (source left : List Char) : Prop :=
  ∃ space t rest, IsSpaces space ∧ TypeText d t ∧ source = space ++ (t ++ rest) ∧
    left = behindType d rest

/-- White space is dropped from the front. -/
theorem exists_spaces (source : List Char) :
    ∃ space, IsSpaces space ∧ source = space ++ source.dropWhile isSpace :=
  ⟨source.takeWhile isSpace, fun _ hc => List.mem_takeWhile_imp hc,
    List.takeWhile_append_dropWhile.symm⟩

/-- Only white space is skipped behind a type. -/
theorem isSpaces_of_behindType {rest : List Char} (h : behindType d rest = []) : IsSpaces rest := by
  by_cases hplain : d.IsOptional
  · cases d with
    | optional =>
        obtain rfl : rest = [] := h
        exact isSpaces_nil
    | _ => exact absurd hplain id
  · rw [behindType_of_plain hplain] at h
    exact fun c hc => List.dropWhile_eq_nil_iff.mp h c hc

/-- A character that is expected. -/
theorem endsIn_expect {c : Char} {a : Unit} (h : EndsIn (expect c) s a u) :
    s.rest = c :: u.rest := by
  obtain ⟨first, _, ⟨hfirst, rfl⟩, h⟩ := endsIn_bind.mp h
  obtain rfl := Except.ok.inj hfirst
  split at h
  · rename_i hc
    obtain rfl := h.2
    obtain ⟨rest, hrest⟩ := List.head?_eq_some_iff.mp (beq_iff_eq.mp hc)
    show s.rest = c :: s.rest.drop 1
    rw [hrest]
    rfl
  · cases h.1

/-- White space that is skipped behind a type. -/
theorem endsIn_spacesBehind {rest : List Char} {a : Unit}
    (h : EndsIn skipTypeWhitespace s a u) (hs : s.rest = behindType d rest) :
    ∃ space, IsSpaces space ∧ rest = space ++ u.rest := by
  obtain ⟨space, hspace, hrest⟩ := exists_spaces rest
  refine ⟨space, hspace, ?_⟩
  obtain rfl := h.2
  show rest = space ++ s.rest.dropWhile isSpace
  rw [hs, dropWhile_behindType]
  exact hrest

theorem typeText_of_baseType {p : Parser} {c : Char}
    (hp : ∀ {d s u}, EndsIn p.typeDescriptor s d u → TypeRead d s.rest u.rest)
    (hs : s.rest.head? = some c) (h : EndsIn (parseBaseType p (some c)) s d u) :
    ¬d.IsOptional ∧ ∃ t, TypeText d t ∧ s.rest = t ++ u.rest := by
  rw [parseBaseType] at h
  obtain ⟨source, hsource⟩ := List.head?_eq_some_iff.mp hs
  split at h
  · rename_i hc
    obtain rfl := beq_iff_eq.mp hc
    obtain ⟨_, s₁, ⟨-, rfl⟩, h⟩ := endsIn_bind.mp h
    obtain ⟨first, s₂, hfirst, h⟩ := endsIn_bind.mp h
    obtain ⟨space₁, t, rest, hspace₁, ht, hbracket, hbehind⟩ := hp hfirst
    obtain ⟨_, s₃, hskip, h⟩ := endsIn_bind.mp h
    obtain ⟨space₂, hspace₂, rfl⟩ := endsIn_spacesBehind hskip hbehind
    have htext : s.rest = '[' :: (space₁ ++ (t ++ (space₂ ++ s₃.rest))) := by
      rw [hsource]
      refine congrArg _ (Eq.trans ?_ hbracket)
      show source = s.rest.drop 1
      rw [hsource]
      rfl
    obtain ⟨mark, _, ⟨hmark, rfl⟩, h⟩ := endsIn_bind.mp h
    obtain rfl := Except.ok.inj hmark
    split at h
    · rename_i hcolon
      obtain ⟨source', hcolon⟩ := List.head?_eq_some_iff.mp (beq_iff_eq.mp hcolon)
      obtain ⟨_, s₄, ⟨-, rfl⟩, h⟩ := endsIn_bind.mp h
      obtain ⟨second, s₅, hsecond, h⟩ := endsIn_bind.mp h
      obtain ⟨space₃, t', rest', hspace₃, ht', hdict, hbehind'⟩ := hp hsecond
      obtain ⟨_, s₆, hskip', h⟩ := endsIn_bind.mp h
      obtain ⟨space₄, hspace₄, rfl⟩ := endsIn_spacesBehind hskip' hbehind'
      obtain ⟨_, s₇, hexpect, h⟩ := endsIn_bind.mp h
      obtain ⟨rfl, rfl⟩ := endsIn_pure.mp h
      have hdict' : source' = space₃ ++ (t' ++ (space₄ ++ s₆.rest)) := by
        refine Eq.trans ?_ hdict
        show source' = s₃.rest.drop 1
        rw [hcolon]
        rfl
      refine ⟨id, _, .dict hspace₁ hspace₂ hspace₃ hspace₄ ht ht', ?_⟩
      rw [htext, hcolon, hdict', endsIn_expect hexpect]
      simp
    · obtain ⟨_, s₄, hexpect, h⟩ := endsIn_bind.mp h
      obtain ⟨rfl, rfl⟩ := endsIn_pure.mp h
      have hclose : s₃.rest = ']' :: s₄.rest := endsIn_expect hexpect
      refine ⟨id, _, .array hspace₁ hspace₂ ht, ?_⟩
      rw [htext, hclose]
      simp
  · split at h
    · rename_i hstart
      obtain ⟨name, s₁, ⟨hname, rfl⟩, h⟩ := endsIn_bind.mp h
      obtain rfl := Except.ok.inj hname
      split at h
      · cases h.1
      · rename_i hlength
        obtain ⟨rfl, rfl⟩ := endsIn_pure.mp h
        refine ⟨typeOfName_plain _, _, .name ⟨?_, fun _ hd => List.mem_takeWhile_imp hd⟩
          (Nat.not_le.mp hlength), List.takeWhile_append_dropWhile.symm⟩
        rw [hsource, List.takeWhile_cons_of_pos (isIdentChar_of_start hstart)]
        exact hstart
    · cases h.1

theorem typeText_of_typeDescriptor {p : Parser}
    (hp : ∀ {d s u}, EndsIn p.typeDescriptor s d u → TypeRead d s.rest u.rest)
    (h : EndsIn (parseTypeDescriptor p) s d u) : TypeRead d s.rest u.rest := by
  obtain ⟨_, s₁, ⟨-, rfl⟩, h⟩ := endsIn_bind.mp h
  obtain ⟨first, _, ⟨hfirst, rfl⟩, h⟩ := endsIn_bind.mp h
  obtain rfl := Except.ok.inj hfirst
  obtain ⟨base, s₂, hbase, h⟩ := endsIn_bind.mp h
  obtain ⟨space, hspace, hsource⟩ := exists_spaces s.rest
  cases hhead : (s.rest.dropWhile isSpace).head? with
  | none =>
      have hnull : EndsIn (parseBaseType p none) _ base s₂ := hhead ▸ hbase
      cases hnull.1
  | some c =>
      have hsome : EndsIn (parseBaseType p (some c)) { s with rest := s.rest.dropWhile isSpace }
        base s₂ := hhead ▸ hbase
      obtain ⟨hplain, t, ht, htext⟩ := typeText_of_baseType hp hhead hsome
      obtain ⟨_, s₃, ⟨-, rfl⟩, h⟩ := endsIn_bind.mp h
      obtain ⟨mark, _, ⟨hmark, rfl⟩, h⟩ := endsIn_bind.mp h
      obtain rfl := Except.ok.inj hmark
      have htext' : s.rest = space ++ (t ++ s₂.rest) := hsource.trans (congrArg _ htext)
      split at h
      · rename_i hquestion
        obtain ⟨source, hquestion⟩ := List.head?_eq_some_iff.mp (beq_iff_eq.mp hquestion)
        obtain ⟨_, s₄, ⟨-, rfl⟩, h⟩ := endsIn_bind.mp h
        obtain ⟨rfl, rfl⟩ := endsIn_pure.mp h
        obtain ⟨space', hspace', hrest⟩ := exists_spaces s₂.rest
        have hmarked : s₂.rest.dropWhile isSpace = '?' :: source := hquestion
        refine ⟨space, _, source, hspace, .optional hplain hspace' ht, ?_, ?_⟩
        · rw [htext', hrest, hmarked]
          simp
        · show (s₂.rest.dropWhile isSpace).drop 1 = source
          rw [hmarked]
          rfl
      · obtain ⟨rfl, rfl⟩ := endsIn_pure.mp h
        exact ⟨space, t, s₂.rest, hspace, ht, htext', (behindType_of_plain hplain).symm⟩

/-- **What the parser reads as a type is the text of one.** -/
theorem typeText_of_endsIn (conversions : Conversions) :
    ∀ n {d s u}, EndsIn (parser conversions n).typeDescriptor s d u → TypeRead d s.rest u.rest
  | 0, _, _, _, h => by cases h.1
  | n + 1, _, _, _, h => typeText_of_typeDescriptor (typeText_of_endsIn conversions n) h

end Accepting

/-! ### Types that are read to their end -/

section Whole

variable (conversions : Conversions) {d : TypeDescriptor} {t : List Char} {n : ℕ}

theorem eq_nil_of_noSpace {space : List Char} (hspace : IsSpaces space)
    (h : ∀ c ∈ space, isSpace c = false) : space = [] := by
  cases space with
  | nil => rfl
  | cons c space =>
      have hc := h c List.mem_cons_self
      exact absurd ((hspace c List.mem_cons_self).symm.trans hc) Bool.noConfusion

/-- The text of a type with white space around it, but none behind a `?`. -/
def WrittenType (d : TypeDescriptor) (t : List Char) : Prop :=
  ∃ space t' rest, IsSpaces space ∧ TypeText d t' ∧ behindType d rest = [] ∧
    t = space ++ (t' ++ rest)

/-- **What `parse_type_descriptor` accepts to its end** is the text of a type. -/
theorem reads_type_iff (hn : t.length ≤ n) :
    Reads (parseTypeDescriptor (parser conversions n)) t d [] ↔ WrittenType d t := by
  constructor
  · intro h
    obtain ⟨space, t', rest, hspace, ht, htext, hleft⟩ :=
      typeText_of_endsIn conversions (n + 1) (h ⟨t, none, false, [], false⟩ rfl)
    exact ⟨space, t', rest, hspace, ht, hleft.symm, htext⟩
  · rintro ⟨space, t', rest, hspace, ht, hleft, rfl⟩
    have hbehind := isSpaces_of_behindType hleft
    have hends : EndsType rest := by
      refine ⟨?_, ?_⟩
      · have hraw : (rest ++ []).head?.any isIdentChar = false := raw_spaces hbehind rfl
        rwa [List.append_nil] at hraw
      · rw [List.dropWhile_eq_nil_iff.mpr hbehind]
        exact fun heq => by cases heq
    have hlt : t'.length < n + 1 := by
      simp only [List.length_append] at hn
      omega
    have hread := (readsTypes conversions (n + 1)).read hspace ht hlt hends
    rwa [hleft] at hread

end Whole

end BreadLang
