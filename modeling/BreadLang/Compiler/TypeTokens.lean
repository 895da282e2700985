import BreadLang.Compiler.TypeAnnotations

/-!
# The type parsers that return a tag

Besides `parse_type_descriptor` there are `parse_type_token` and the `parse_type` of the variable
store, which return the tag of a type only.  They do not parse: they look at the first and last
characters of a type and at the depth of its brackets.
-/

namespace BreadLang

open Stateful Parse

/-! ### The extent of a type -/

/-- The depth of the brackets after a character. -/
def bracketDepth (depth : ℤ) (c : Char) : ℤ :=
  if c == '[' || c == '{' then depth + 1
  else if c == ']' || c == '}' then depth - 1
  else depth

/-- A character that ends a type outside of brackets. -/
def endsTypeString (c : Char) (next : Option Char) : Bool :=
  c == ',' || c == ')' || isSpace c || (c == '-' && next == some '>')

/-- The loop of `parse_type_string`: the number of characters that it passes. -/
def typeStringLength (depth : ℤ) : List Char → ℕ
  | [] => 0
  | c :: text =>
      if bracketDepth depth c == 0 && endsTypeString c text.head? then 0
      else if bracketDepth depth c < 0 then 1
      else typeStringLength (bracketDepth depth c) text + 1

/-- A text without the white space at its end. -/
def trimEnd (text : List Char) : List Char :=
  (text.reverse.dropWhile isSpace).reverse

/-- `parse_type_string`. -/
def parseTypeString (bufferSize : ℕ) : Parse (List Char) := do
  skipTypeWhitespace
  let source ← text
  if source.isEmpty then null
  else
    let length := typeStringLength 0 source
    advance length
    let type := trimEnd (source.take length)
    if type.isEmpty || type.length ≥ bufferSize then null else return type

/-! ### The tag of a type -/

/-- The text in front of the last `]`, which `strrchr` finds. -/
def beforeLastBracket (text : List Char) : Option (List Char) :=
  match text.reverse.dropWhile (· != ']') with
  | [] => none
  | _ :: before => some before.reverse

/-- Whether there is a colon outside of inner brackets. -/
def colonAtTop (depth : ℤ) : List Char → Bool
  | [] => false
  | c :: text =>
      if c == '[' then colonAtTop (depth + 1) text
      else if c == ']' then colonAtTop (depth - 1) text
      else (c == ':' && depth == 0) || colonAtTop depth text

/-- The tag of a type that starts with a bracket. -/
def bracketTag (type : List Char) : Option VarType :=
  (beforeLastBracket type).map fun before =>
    if colonAtTop 0 (before.drop 1) then .typeDict else .typeArray

/-- The names of the types of the two tables. -/
def tagOfName (name : List Char) : Option VarType :=
  if name == "Int".toList then some .typeInt
  else if name == "String".toList then some .typeString
  else if name == "Bool".toList then some .typeBool
  else if name == "Float".toList then some .typeFloat
  else if name == "Double".toList then some .typeDouble
  else none

/-- The tests of `parse_type_token`. -/
def tokenTag (type : List Char) : Option VarType :=
  match tagOfName type with
  | some tag => some tag
  | none =>
      if type.head? == some '[' then bracketTag type
      else if type.getLast? == some '?' then some .typeOptional
      else none

/-- `parse_type_token`. -/
def parseTypeToken : Parse VarType := do
  skipTypeWhitespace
  let type ← parseTypeString maxTokenLen
  match tokenTag type with
  | some tag => return tag
  | none => null

/-- `parse_type` without its first case.  The error names the type in the message that is
printed. -/
def parsePlainType (type : List Char) : Except (List Char) VarType :=
  if type.head? == some '[' then
    match bracketTag type with
    | some tag => .ok tag
    | none => .error type
  else
    match tagOfName type with
    | some tag => .ok tag
    | none => .error type

/-- `parse_type`, on the characters from the end on, where it looks for a `?` first. -/
def parseTypeBackward : List Char → Except (List Char) VarType
  | '?' :: backward => (parseTypeBackward backward).map fun _ => .typeOptional
  | backward => parsePlainType backward.reverse

/-- `parse_type` of the variable store. -/
def parseType (type : List Char) : Except (List Char) VarType :=
  parseTypeBackward type.reverse

example : parseType "[Int]?".toList = .ok .typeOptional := rfl

/-! ### Types without white space -/

/-- **The text of a type** that has no white space in it. -/
inductive CompactText : TypeDescriptor → List Char → Prop
  | name {t : List Char} (hname : IsIdentifier t) (hlength : t.length < maxTokenLen) :
      CompactText (typeOfName t) t
  | array {d : TypeDescriptor} {t : List Char} (h : CompactText d t) :
      CompactText (.array d) ('[' :: (t ++ [']']))
  | dict {key value : TypeDescriptor} {t t' : List Char} (hkey : CompactText key t)
      (hvalue : CompactText value t') :
      CompactText (.dict key value) ('[' :: (t ++ ':' :: (t' ++ [']'])))
  | optional {d : TypeDescriptor} {t : List Char} (hplain : ¬d.IsOptional) (h : CompactText d t) :
      CompactText (.optional d) (t ++ ['?'])

theorem TypeText.compact {d : TypeDescriptor} {t : List Char} (h : TypeText d t)
    (hspace : ∀ c ∈ t, isSpace c = false) : CompactText d t := by
  induction h with
  | name hname hlength => exact .name hname hlength
  | array hs hs' h ih =>
      obtain rfl := eq_nil_of_noSpace hs fun c hc => hspace c (by simp [hc])
      obtain rfl := eq_nil_of_noSpace hs' fun c hc => hspace c (by simp [hc])
      exact .array (ih fun c hc => hspace c (by simp [hc]))
  | dict h₁ h₂ h₃ h₄ hkey hvalue ihk ihv =>
      obtain rfl := eq_nil_of_noSpace h₁ fun c hc => hspace c (by simp [hc])
      obtain rfl := eq_nil_of_noSpace h₂ fun c hc => hspace c (by simp [hc])
      obtain rfl := eq_nil_of_noSpace h₃ fun c hc => hspace c (by simp [hc])
      obtain rfl := eq_nil_of_noSpace h₄ fun c hc => hspace c (by simp [hc])
      exact .dict (ihk fun c hc => hspace c (by simp [hc])) (ihv fun c hc => hspace c (by simp [hc]))
  | optional hplain hs h ih =>
      obtain rfl := eq_nil_of_noSpace hs fun c hc => hspace c (by simp [hc])
      exact .optional hplain (ih fun c hc => hspace c (by simp [hc]))

theorem CompactText.typeText {d : TypeDescriptor} {t : List Char} (h : CompactText d t) :
    TypeText d t := by
  induction h with
  | name hname hlength => exact .name hname hlength
  | array _ ih => exact .array isSpaces_nil isSpaces_nil ih
  | dict _ _ ihk ihv => exact .dict isSpaces_nil isSpaces_nil isSpaces_nil isSpaces_nil ihk ihv
  | optional hplain _ ih => exact .optional hplain isSpaces_nil ih

theorem CompactText.noSpace {d : TypeDescriptor} {t : List Char} (h : CompactText d t) :
    ∀ c ∈ t, isSpace c = false := by
  induction h with
  | name hname => exact fun c hc => isSpace_of_identChar (hname.chars c hc)
  | array _ ih =>
      simp only [List.mem_cons, List.mem_append, List.not_mem_nil, or_false]
      rintro c (rfl | hc | rfl)
      · rfl
      · exact ih c hc
      · rfl
  | dict _ _ ihk ihv =>
      simp only [List.mem_cons, List.mem_append, List.not_mem_nil, or_false]
      rintro c (rfl | hc | rfl | hc | rfl)
      · rfl
      · exact ihk c hc
      · rfl
      · exact ihv c hc
      · rfl
  | optional _ _ ih =>
      simp only [List.mem_append, List.mem_singleton]
      rintro c (hc | rfl)
      · exact ih c hc
      · rfl

/-! ### The extent of the text of a type -/

section Extent

variable {d : TypeDescriptor} {t rest : List Char} {depth : ℤ} {c : Char}

/-- A character that is passed. -/
theorem typeStringLength_cons (hdepth : 0 ≤ bracketDepth depth c)
    (hends : bracketDepth depth c = 0 → ∀ next, endsTypeString c next = false) :
    typeStringLength depth (c :: t) = 1 + typeStringLength (bracketDepth depth c) t := by
  rw [typeStringLength, if_neg (not_lt.mpr hdepth), if_neg, Nat.add_comm]
  rw [Bool.and_eq_true, beq_iff_eq]
  rintro ⟨htop, hend⟩
  exact Bool.false_ne_true ((hends htop _).symm.trans hend)

theorem bracketDepth_identChar (hc : isIdentChar c = true) : bracketDepth depth c = depth := by
  simp [bracketDepth, identChar_ne hc (d := '[') rfl, identChar_ne hc (d := '{') rfl,
    identChar_ne hc (d := ']') rfl, identChar_ne hc (d := '}') rfl]

theorem endsTypeString_identChar (hc : isIdentChar c = true) (next : Option Char) :
    endsTypeString c next = false := by
  simp [endsTypeString, identChar_ne hc (d := ',') rfl, identChar_ne hc (d := ')') rfl,
    identChar_ne hc (d := '-') rfl, isSpace_of_identChar hc]

theorem typeStringLength_name {name : List Char} (hname : ∀ c ∈ name, isIdentChar c = true)
    (hdepth : 0 ≤ depth) :
    typeStringLength depth (name ++ rest) = name.length + typeStringLength depth rest := by
  induction name with
  | nil => exact (Nat.zero_add _).symm
  | cons c name ih =>
      obtain ⟨hc, hname⟩ := List.forall_mem_cons.mp hname
      have hsame : bracketDepth depth c = depth := bracketDepth_identChar hc
      rw [List.cons_append, typeStringLength_cons (hsame.symm ▸ hdepth)
        fun _ => endsTypeString_identChar hc, hsame, ih hname, List.length_cons]
      omega

/-- The extent passes a closing bracket, and what is in front of it. -/
theorem typeStringLength_closed (hdepth : 0 ≤ depth)
    (ht : ∀ rest, typeStringLength (depth + 1) (t ++ rest) =
      t.length + typeStringLength (depth + 1) rest) :
    typeStringLength (depth + 1) (t ++ ']' :: rest) =
      (t ++ [']']).length + typeStringLength depth rest := by
  have hclose : bracketDepth (depth + 1) ']' = depth := add_sub_cancel_right depth 1
  rw [ht, typeStringLength_cons (hclose.symm ▸ hdepth) fun _ _ => rfl, hclose, List.length_append,
    List.length_singleton]
  omega

/-- **The extent passes the text of a type** that has no white space in it. -/
theorem typeStringLength_append (h : CompactText d t) (hdepth : 0 ≤ depth) :
    typeStringLength depth (t ++ rest) = t.length + typeStringLength depth rest := by
  induction h generalizing depth rest with
  | name hname => exact typeStringLength_name hname.chars hdepth
  | @array e t h ih =>
      have hopen : bracketDepth depth '[' = depth + 1 := rfl
      have hclosed : typeStringLength (depth + 1) (t ++ ']' :: rest) =
          (t ++ [']']).length + typeStringLength depth rest :=
        typeStringLength_closed hdepth fun rest => ih (by omega)
      rw [List.cons_append, typeStringLength_cons (by omega) (by omega), hopen, List.append_assoc,
        List.singleton_append, hclosed, List.length_cons]
      omega
  | @dict key value t t' hkey hvalue ihk ihv =>
      have hopen : bracketDepth depth '[' = depth + 1 := rfl
      have hcolon : bracketDepth (depth + 1) ':' = depth + 1 := rfl
      have hinside (rest : List Char) : typeStringLength (depth + 1) (t ++ ':' :: t' ++ rest) =
          (t ++ ':' :: t').length + typeStringLength (depth + 1) rest := by
        rw [List.append_assoc, List.cons_append, ihk (by omega), typeStringLength_cons (by omega)
          (by omega), hcolon, ihv (by omega), List.length_append, List.length_cons]
        omega
      have hclosed : typeStringLength (depth + 1) (t ++ ':' :: t' ++ ']' :: rest) =
          (t ++ ':' :: t' ++ [']']).length + typeStringLength depth rest :=
        typeStringLength_closed hdepth hinside
      rw [List.cons_append, typeStringLength_cons (by omega) (by omega), hopen]
      simp only [List.append_assoc, List.cons_append, List.nil_append, List.length_append,
        List.length_cons, List.length_nil] at hclosed ⊢
      omega
  | @optional e t _ h ih =>
      have hmark : bracketDepth depth '?' = depth := rfl
      rw [List.append_assoc, List.singleton_append, ih hdepth, typeStringLength_cons (by omega)
        fun _ _ => rfl, hmark, List.length_append, List.length_singleton]
      omega

end Extent

/-! ### The tag of the text of a type -/

section Tags

variable {d : TypeDescriptor} {t tail rest : List Char} {depth : ℤ} {c : Char}

theorem colonAtTop_cons (hopen : c ≠ '[') (hclose : c ≠ ']') (hcolon : c = ':' → depth ≠ 0) :
    colonAtTop depth (c :: t) = colonAtTop depth t := by
  rw [colonAtTop, beq_false_of_ne hopen, if_neg Bool.false_ne_true, beq_false_of_ne hclose,
    if_neg Bool.false_ne_true, Bool.or_eq_right_iff_imp]
  intro h
  obtain ⟨hc, htop⟩ := Bool.and_eq_true_iff.mp h
  exact absurd (beq_iff_eq.mp htop) (hcolon (beq_iff_eq.mp hc))

theorem colonAtTop_open (depth : ℤ) (t : List Char) :
    colonAtTop depth ('[' :: t) = colonAtTop (depth + 1) t :=
  rfl

theorem colonAtTop_close (depth : ℤ) (t : List Char) :
    colonAtTop (depth + 1) (']' :: t) = colonAtTop depth t :=
  (congrArg (colonAtTop · t) (add_sub_cancel_right depth 1) :)

/-- **No colon of a type** stands outside of its brackets. -/
theorem colonAtTop_append (h : CompactText d t) (hdepth : 0 ≤ depth) :
    colonAtTop depth (t ++ rest) = colonAtTop depth rest := by
  induction h generalizing depth rest with
  | @name t hname hlength =>
      have hchars := hname.chars
      clear hname hlength
      induction t with
      | nil => rfl
      | cons c t ih =>
          obtain ⟨hc, hchars⟩ := List.forall_mem_cons.mp hchars
          rw [List.cons_append, colonAtTop_cons (identChar_ne hc rfl) (identChar_ne hc rfl)
            fun h => absurd h (identChar_ne hc rfl), ih hchars]
  | @array e t h ih =>
      rw [List.cons_append, colonAtTop_open, List.append_assoc, ih (by omega)]
      exact colonAtTop_close depth rest
  | @dict key value t t' hkey hvalue ihk ihv =>
      rw [List.cons_append, colonAtTop_open, List.append_assoc, ihk (by omega), List.cons_append,
        colonAtTop_cons (by decide) (by decide) fun _ => by omega, List.append_assoc,
        ihv (by omega)]
      exact colonAtTop_close depth rest
  | @optional e t _ h ih =>
      rw [List.append_assoc, ih hdepth]
      exact colonAtTop_cons (by decide) (by decide) fun h => absurd h (by decide)

theorem beforeLastBracket_append {front : List Char} (htail : ']' ∉ tail) :
    beforeLastBracket (front ++ ']' :: tail) = some front := by
  have hdrop : (front ++ ']' :: tail).reverse.dropWhile (· != ']') = ']' :: front.reverse := by
    rw [List.reverse_append, List.reverse_cons, List.append_assoc, List.dropWhile_append_of_pos]
    · rfl
    · intro c hc
      exact bne_iff_ne.mpr fun heq => htail (List.mem_reverse.mp (heq ▸ hc))
  rw [beforeLastBracket, hdrop]
  exact congrArg some front.reverse_reverse

theorem bracketTag_array (h : CompactText d t) (htail : ']' ∉ tail) :
    bracketTag ('[' :: (t ++ ']' :: tail)) = some .typeArray := by
  have hcolon : colonAtTop 0 t = false := by
    have happend : colonAtTop 0 (t ++ []) = colonAtTop 0 [] := colonAtTop_append h le_rfl
    rwa [List.append_nil] at happend
  rw [bracketTag, ← List.cons_append, beforeLastBracket_append htail, Option.map_some]
  exact congrArg some (if_neg (Bool.eq_false_iff.mp hcolon))

theorem bracketTag_dict (h : CompactText d t) (htail : ']' ∉ tail) (t' : List Char) :
    bracketTag ('[' :: (t ++ ':' :: (t' ++ ']' :: tail))) = some .typeDict := by
  have hcolon : colonAtTop 0 (t ++ ':' :: t') = true := by
    rw [colonAtTop_append h le_rfl]
    rfl
  have hsource : '[' :: (t ++ ':' :: (t' ++ ']' :: tail)) =
      ('[' :: (t ++ ':' :: t')) ++ ']' :: tail := by
    simp
  rw [bracketTag, hsource, beforeLastBracket_append htail, Option.map_some]
  exact congrArg some (if_pos hcolon)

/-- No name has a bracket or a `?` in it. -/
theorem tagOfName_none {c : Char} (hmem : c ∈ t) (hc : isIdentChar c = false) :
    tagOfName t = none := by
  have hne : ∀ name ∈ ["Int".toList, "String".toList, "Bool".toList, "Float".toList,
      "Double".toList], t ≠ name := by
    rintro name hname rfl
    have hchars : ∀ name ∈ ["Int".toList, "String".toList, "Bool".toList, "Float".toList,
      "Double".toList], ∀ c ∈ name, isIdentChar c = true := by decide
    exact Bool.false_ne_true (hc.symm.trans (hchars t hname c hmem))
  simp only [List.forall_mem_cons, List.not_mem_nil, false_implies, implies_true, and_true] at hne
  obtain ⟨h₁, h₂, h₃, h₄, h₅⟩ := hne
  rw [tagOfName, beq_false_of_ne h₁, beq_false_of_ne h₂, beq_false_of_ne h₃, beq_false_of_ne h₄,
    beq_false_of_ne h₅]
  rfl

theorem tokenTag_bracket (t : List Char) : tokenTag ('[' :: t) = bracketTag ('[' :: t) := by
  rw [tokenTag, tagOfName_none (c := '[') List.mem_cons_self rfl]
  rfl

theorem parseType_optional (t : List Char) :
    parseType (t ++ ['?']) = (parseType t).map fun _ => .typeOptional := by
  rw [parseType, List.reverse_append]
  rfl

theorem parseType_bracket (t : List Char) :
    parseType ('[' :: (t ++ [']'])) = parsePlainType ('[' :: (t ++ [']'])) := by
  have hreverse : ('[' :: (t ++ [']'])).reverse = ']' :: ('[' :: t).reverse := by simp
  have hplain : parseType ('[' :: (t ++ [']'])) =
      parsePlainType (']' :: ('[' :: t).reverse).reverse := by
    rw [parseType, hreverse]
    rfl
  rw [hplain, ← hreverse, List.reverse_reverse]

theorem parsePlainType_bracket {tag : VarType} (h : bracketTag ('[' :: t) = some tag) :
    parsePlainType ('[' :: t) = .ok tag := by
  rw [parsePlainType, List.head?_cons, if_pos (beq_self_eq_true _), h]

/-- A descriptor whose tag both functions find. -/
def TypeDescriptor.TagFound : TypeDescriptor → Prop
  | .nil | .optional .nil | .optional (.array _) | .optional (.dict _ _) => False
  | _ => True

/-- The names of the primitive types. -/
theorem exists_primitive (hprimitive : ∀ name fields, typeOfName t ≠ .struct name fields) :
    t = "Int".toList ∨ t = "String".toList ∨ t = "Bool".toList ∨ t = "Float".toList ∨
      t = "Double".toList ∨ t = "Nil".toList := by
  by_contra hnone
  simp only [not_or] at hnone
  obtain ⟨h₁, h₂, h₃, h₄, h₅, h₆⟩ := hnone
  refine hprimitive t [] ?_
  rw [typeOfName, beq_false_of_ne h₁, beq_false_of_ne h₂, beq_false_of_ne h₃, beq_false_of_ne h₄,
    beq_false_of_ne h₅, beq_false_of_ne h₆]
  rfl

/-- **The tag of the text of a type** without named types. -/
theorem tags_iff (h : CompactText d t)
    (hprimitive : d.All fun d => ∀ name fields, d ≠ .struct name fields) :
    tokenTag t = some d.baseType ∧ parseType t = .ok d.baseType ↔ d.TagFound := by
  cases h with
  | name =>
      have hplain : ∀ name fields, typeOfName t ≠ .struct name fields := by
        intro name fields heq
        rw [heq] at hprimitive
        exact hprimitive name fields rfl
      obtain rfl | rfl | rfl | rfl | rfl | rfl := exists_primitive hplain
      · exact iff_of_true ⟨rfl, rfl⟩ trivial
      · exact iff_of_true ⟨rfl, rfl⟩ trivial
      · exact iff_of_true ⟨rfl, rfl⟩ trivial
      · exact iff_of_true ⟨rfl, rfl⟩ trivial
      · exact iff_of_true ⟨rfl, rfl⟩ trivial
      · exact iff_of_false (fun h => by cases h.1) id
  | @array e t h =>
      have htag : bracketTag ('[' :: (t ++ ']' :: [])) = some .typeArray :=
        bracketTag_array h List.not_mem_nil
      refine iff_of_true ⟨?_, ?_⟩ trivial
      · rw [tokenTag_bracket, htag]
        rfl
      · rw [parseType_bracket, parsePlainType_bracket htag]
        rfl
  | @dict key value t t' hkey hvalue =>
      have htag : bracketTag ('[' :: (t ++ ':' :: (t' ++ ']' :: []))) = some .typeDict :=
        bracketTag_dict hkey List.not_mem_nil t'
      refine iff_of_true ⟨?_, ?_⟩ trivial
      · rw [tokenTag_bracket, htag]
        rfl
      · have hsource : '[' :: (t ++ ':' :: (t' ++ [']'])) =
            '[' :: ((t ++ ':' :: t') ++ [']']) := by simp
        rw [hsource, parseType_bracket, ← hsource, parsePlainType_bracket htag]
        rfl
  | @optional e t hplain h =>
      rw [parseType_optional]
      cases h with
      | name =>
          have hname : ∀ name fields, typeOfName t ≠ .struct name fields := by
            intro name fields heq
            rw [heq] at hprimitive
            exact hprimitive.2 name fields rfl
          obtain rfl | rfl | rfl | rfl | rfl | rfl := exists_primitive hname
          · exact iff_of_true ⟨rfl, rfl⟩ trivial
          · exact iff_of_true ⟨rfl, rfl⟩ trivial
          · exact iff_of_true ⟨rfl, rfl⟩ trivial
          · exact iff_of_true ⟨rfl, rfl⟩ trivial
          · exact iff_of_true ⟨rfl, rfl⟩ trivial
          · exact iff_of_false (fun h => by cases h.2) id
      | @array e t h =>
          have htag : bracketTag ('[' :: (t ++ ']' :: ['?'])) = some .typeArray :=
            bracketTag_array h (by decide)
          refine iff_of_false (fun h => ?_) id
          have hsource : '[' :: (t ++ [']']) ++ ['?'] = '[' :: (t ++ ']' :: ['?']) := by simp
          rw [hsource, tokenTag_bracket, htag] at h
          cases h.1
      | @dict key value t t' hkey hvalue =>
          have htag : bracketTag ('[' :: (t ++ ':' :: (t' ++ ']' :: ['?']))) = some .typeDict :=
            bracketTag_dict hkey (by decide) t'
          refine iff_of_false (fun h => ?_) id
          have hsource : '[' :: (t ++ ':' :: (t' ++ [']'])) ++ ['?'] =
              '[' :: (t ++ ':' :: (t' ++ ']' :: ['?'])) := by simp
          rw [hsource, tokenTag_bracket, htag] at h
          cases h.1
      | optional => exact absurd trivial hplain

end Tags

/-! ### What is read in full -/

section Reading

variable {t : List Char} {tag : VarType}

theorem typeStringLength_le (depth : ℤ) (text : List Char) :
    typeStringLength depth text ≤ text.length := by
  induction text generalizing depth with
  | nil => exact le_rfl
  | cons c text ih =>
      rw [typeStringLength, List.length_cons]
      split
      · exact Nat.zero_le _
      · split
        · omega
        · exact Nat.succ_le_succ (ih _)

theorem dropWhile_isSpace_idem (t : List Char) :
    Reads skipTypeWhitespace (t.dropWhile isSpace) () (t.dropWhile isSpace) := by
  have h := reads_skipTypeWhitespace (t.dropWhile isSpace)
  rwa [dropWhile_spaces] at h

/-- **`parse_type_token` accepts a whole text** where its extent is the whole text, where it fits
into the buffer, and where it is classified. -/
theorem reads_typeToken_iff :
    Reads parseTypeToken t tag [] ↔
      typeStringLength 0 (t.dropWhile isSpace) = (t.dropWhile isSpace).length ∧
        (trimEnd (t.dropWhile isSpace)).length < maxTokenLen ∧
        tokenTag (trimEnd (t.dropWhile isSpace)) = some tag := by
  constructor
  · intro h
    obtain ⟨_, _, ⟨-, rfl⟩, h⟩ := endsIn_bind.mp (h ⟨t, none, false, [], false⟩ rfl)
    obtain ⟨type, s, htype, h⟩ := endsIn_bind.mp h
    obtain ⟨_, _, ⟨-, rfl⟩, htype⟩ := endsIn_bind.mp htype
    obtain ⟨source, _, ⟨hsource, rfl⟩, htype⟩ := endsIn_bind.mp htype
    obtain rfl : t.dropWhile isSpace = source :=
      (dropWhile_spaces t).symm.trans (Except.ok.inj hsource)
    split at htype
    · cases htype.1
    obtain ⟨_, _, ⟨-, rfl⟩, htype⟩ := endsIn_bind.mp htype
    dsimp only at htype
    split at htype
    · cases htype.1
    rename_i hshort
    obtain ⟨rfl, rfl⟩ := endsIn_pure.mp htype
    split at h
    · rename_i tag' htag
      obtain ⟨rfl, hfinal⟩ := endsIn_pure.mp h
      -- Nothing is left, so the extent is the whole text.
      have hleft : ((t.dropWhile isSpace).dropWhile isSpace).drop
          (typeStringLength 0 (t.dropWhile isSpace)) = [] := congrArg ParseState.rest hfinal
      rw [dropWhile_spaces, List.drop_eq_nil_iff] at hleft
      have hall := le_antisymm (typeStringLength_le 0 (t.dropWhile isSpace)) hleft
      rw [hall, List.take_length] at hshort htag
      refine ⟨hall, ?_, htag⟩
      simp only [Bool.or_eq_true, decide_eq_true_eq, not_or, not_le] at hshort
      exact hshort.2
    · cases h.1
  · rintro ⟨hall, hshort, htag⟩
    refine (reads_skipTypeWhitespace t).bind ?_
    have hne : trimEnd (t.dropWhile isSpace) ≠ [] := by
      intro heq
      rw [heq] at htag
      cases htag
    have hsource : t.dropWhile isSpace ≠ [] := by
      intro heq
      rw [heq] at hne
      exact hne rfl
    have hstring : Reads (parseTypeString maxTokenLen) (t.dropWhile isSpace)
        (trimEnd (t.dropWhile isSpace)) [] := by
      refine (dropWhile_isSpace_idem t).bind ((reads_text _).bind ?_)
      have hadvance := reads_advance (t.dropWhile isSpace).length (t.dropWhile isSpace) le_rfl
      rw [List.drop_length] at hadvance
      rw [if_neg (by simpa using hsource)]
      dsimp only
      rw [hall, List.take_length]
      refine hadvance.bind ?_
      rw [if_neg (by simpa [hne] using hshort)]
      exact reads_pure _ _
    refine hstring.bind ?_
    rw [htag]
    exact reads_pure _ _

/-- The text of a type without white space, in front of the end. -/
theorem typeStringLength_compact {d : TypeDescriptor} (h : CompactText d t) :
    typeStringLength 0 t = t.length := by
  have happend : typeStringLength 0 (t ++ []) = t.length + typeStringLength 0 [] :=
    typeStringLength_append h le_rfl
  rwa [List.append_nil] at happend

theorem trimEnd_compact (hspace : ∀ c ∈ t, isSpace c = false) : trimEnd t = t := by
  have hdrop : t.reverse.dropWhile isSpace = t.reverse := by
    cases hrev : t.reverse with
    | nil => rfl
    | cons c u =>
        have hc := hspace c (List.mem_reverse.mp (hrev ▸ List.mem_cons_self))
        rw [List.dropWhile_cons, hc, if_neg Bool.false_ne_true]
  rw [trimEnd, hdrop, List.reverse_reverse]

theorem exists_trimEnd (u : List Char) : ∃ space, IsSpaces space ∧ u = trimEnd u ++ space := by
  obtain ⟨space, hspace, hsource⟩ := exists_spaces u.reverse
  refine ⟨space.reverse, fun c hc => hspace c (List.mem_reverse.mp hc), ?_⟩
  have hreverse := congrArg List.reverse hsource
  rwa [List.reverse_reverse, List.reverse_append] at hreverse

theorem isSome_bracketTag {v : List Char} : (bracketTag v).isSome = true ↔ ']' ∈ v := by
  rw [bracketTag, Option.isSome_map, beforeLastBracket]
  constructor
  · intro h
    by_contra hmem
    have hall : v.reverse.dropWhile (· != ']') = [] :=
      List.dropWhile_eq_nil_iff.mpr fun c hc =>
        bne_iff_ne.mpr fun heq => hmem (List.mem_reverse.mp (heq ▸ hc))
    rw [hall] at h
    cases h
  · intro hmem
    split
    · rename_i hall
      have hne := List.dropWhile_eq_nil_iff.mp hall _ (List.mem_reverse.mpr hmem)
      exact absurd hne (by decide)
    · rfl

/-- A text that looks like an array, a dictionary or an optional. -/
def LooksComposite (u : List Char) : Prop :=
  u.head? = some '[' ∨ u.getLast? = some '?'

/-- The texts with these looks that have a tag: one extent, which fits into the buffer, and a `]`
where it starts with a bracket. -/
structure TaggedShape (u : List Char) : Prop where
  looks : u.head? = some '[' ∧ ']' ∈ u ∨ u.head? ≠ some '[' ∧ u.getLast? = some '?'
  whole : typeStringLength 0 u = u.length
  short : (trimEnd u).length < maxTokenLen

theorem head?_trimEnd {u : List Char} (h : u.head? = some '[') : (trimEnd u).head? = some '[' := by
  obtain ⟨space, hspace, hu⟩ := exists_trimEnd u
  cases htrim : trimEnd u with
  | nil =>
      rw [htrim, List.nil_append] at hu
      have hmem : '[' ∈ space := hu ▸ List.mem_of_mem_head? h
      exact absurd (hspace _ hmem) (by decide)
  | cons c v =>
      rw [hu, htrim] at h
      exact h

theorem trimEnd_question {u : List Char} (h : u.getLast? = some '?') : trimEnd u = u := by
  obtain ⟨front, rfl⟩ := List.getLast?_eq_some_iff.mp h
  rw [trimEnd, List.reverse_append]
  simp [isSpace]

theorem tokenTag_of_head {v : List Char} (h : v.head? = some '[') : tokenTag v = bracketTag v := by
  obtain ⟨u, rfl⟩ := List.head?_eq_some_iff.mp h
  exact tokenTag_bracket u

theorem tokenTag_question {v : List Char} (hhead : v.head? ≠ some '[')
    (hlast : v.getLast? = some '?') :
    tokenTag v = some .typeOptional := by
  have hname : tagOfName v = none := tagOfName_none (List.mem_of_getLast? hlast) rfl
  rw [tokenTag, hname]
  dsimp only
  rw [if_neg (by simpa using hhead), hlast, if_pos (beq_self_eq_true _)]

/-- **The texts with brackets or a `?`** that `parse_type_token` accepts. -/
theorem taggedShape_iff :
    TaggedShape (t.dropWhile isSpace) ↔
      (∃ tag, Reads parseTypeToken t tag []) ∧ LooksComposite (t.dropWhile isSpace) := by
  simp only [reads_typeToken_iff]
  generalize t.dropWhile isSpace = u
  obtain ⟨space, hspace, hu⟩ := exists_trimEnd u
  have hmem : ']' ∈ trimEnd u ↔ ']' ∈ u := by
    conv_rhs => rw [hu, List.mem_append]
    exact ⟨.inl, fun h => h.resolve_right fun hc => absurd (hspace _ hc) (by decide)⟩
  constructor
  · rintro ⟨⟨hhead, hclose⟩ | ⟨hhead, hlast⟩, hall, hshort⟩
    · obtain ⟨tag, htag⟩ := Option.isSome_iff_exists.mp (isSome_bracketTag.mpr (hmem.mpr hclose))
      exact ⟨⟨tag, hall, hshort, (tokenTag_of_head (head?_trimEnd hhead)).trans htag⟩, .inl hhead⟩
    · refine ⟨⟨.typeOptional, hall, hshort, ?_⟩, .inr hlast⟩
      rw [trimEnd_question hlast]
      exact tokenTag_question hhead hlast
  · rintro ⟨⟨tag, hall, hshort, htag⟩, hlooks⟩
    refine ⟨?_, hall, hshort⟩
    by_cases hhead : u.head? = some '['
    · rw [tokenTag_of_head (head?_trimEnd hhead)] at htag
      exact .inl ⟨hhead, hmem.mp (isSome_bracketTag.mp (Option.isSome_iff_exists.mpr ⟨tag, htag⟩))⟩
    · exact .inr ⟨hhead, hlooks.resolve_left hhead⟩

end Reading

/-! ### Agreement -/

section Agreement

variable (conversions : Conversions) {d : TypeDescriptor} {t : List Char} {n : ℕ}

/-- A type that names no struct. -/
def TypeDescriptor.NoNames (d : TypeDescriptor) : Prop :=
  d.All fun d => ∀ name fields, d ≠ .struct name fields

/-- **The three type parsers agree** on a text. -/
structure TypeParsersAgree (p : Parser) (t : List Char) : Prop where
  /-- The other two return the tag of what `parse_type_descriptor` returns. -/
  tag : ∀ d, Reads (parseTypeDescriptor p) t d [] → (∀ c ∈ t, isSpace c = false) → d.NoNames →
    Reads parseTypeToken t d.baseType [] ∧ parseType t = .ok d.baseType
  /-- `parse_type_descriptor` accepts what `parse_type_token` takes for a composite type. -/
  composite : ∀ tag, Reads parseTypeToken t tag [] → LooksComposite (t.dropWhile isSpace) →
    ∃ d, Reads (parseTypeDescriptor p) t d []

/-- A text without white space is that of a type where it is accepted. -/
theorem compactText_iff (hn : t.length ≤ n) :
    CompactText d t ↔
      Reads (parseTypeDescriptor (parser conversions n)) t d [] ∧ ∀ c ∈ t, isSpace c = false := by
  rw [reads_type_iff conversions hn]
  constructor
  · intro h
    refine ⟨⟨[], t, [], isSpaces_nil, h.typeText, ?_, (List.append_nil t).symm⟩, h.noSpace⟩
    cases d <;> rfl
  · rintro ⟨⟨space, t', rest, hspace, ht, hleft, rfl⟩, hnone⟩
    have hbehind := isSpaces_of_behindType hleft
    obtain rfl := eq_nil_of_noSpace hspace fun c hc => hnone c (by simp [hc])
    obtain rfl := eq_nil_of_noSpace hbehind fun c hc => hnone c (by simp [hc])
    rw [List.append_nil, List.nil_append] at hnone ⊢
    exact ht.compact hnone

theorem CompactText.unique {d' : TypeDescriptor} (h : CompactText d t) (h' : CompactText d' t) :
    d = d' := by
  have hread := ((compactText_iff ⟨fun _ => 0, fun _ => ⟨0⟩⟩ le_rfl).mp h).1
  exact (hread.unique ((compactText_iff _ le_rfl).mp h').1).1

/-- **The type parsers agree** exactly where a text that is the text of a type is short, is not
`Nil` or `Nil?` and not an optional of an array or dictionary, and where a text that only has the
shape of a composite type is the text of one. -/
theorem type_parsers_agree_iff (hn : t.length ≤ n) :
    TypeParsersAgree (parser conversions n) t ↔
      (∀ d, CompactText d t → d.NoNames → t.length < maxTokenLen ∧ d.TagFound) ∧
        (TaggedShape (t.dropWhile isSpace) → ∃ d, WrittenType d t) := by
  have hcompact : ∀ d, CompactText d t → (Reads parseTypeToken t d.baseType [] ↔
      t.length < maxTokenLen ∧ tokenTag t = some d.baseType) := by
    intro d h
    have hself : t.dropWhile isSpace = t := by
      cases t with
      | nil => rfl
      | cons c t =>
          rw [List.dropWhile_cons, h.noSpace c List.mem_cons_self, if_neg Bool.false_ne_true]
    rw [reads_typeToken_iff, hself, trimEnd_compact h.noSpace]
    exact and_iff_right (typeStringLength_compact h)
  constructor
  · intro h
    refine ⟨fun d hd hnames => ?_, fun hshape => ?_⟩
    · obtain ⟨hread, hspace⟩ := (compactText_iff conversions hn).mp hd
      obtain ⟨htoken, htype⟩ := h.tag d hread hspace hnames
      obtain ⟨hshort, htag⟩ := (hcompact d hd).mp htoken
      exact ⟨hshort, (tags_iff hd hnames).mp ⟨htag, htype⟩⟩
    · obtain ⟨⟨tag, htag⟩, hlooks⟩ := taggedShape_iff.mp hshape
      obtain ⟨d, hread⟩ := h.composite tag htag hlooks
      exact ⟨d, (reads_type_iff conversions hn).mp hread⟩
  · rintro ⟨htags, hcomposite⟩
    refine ⟨fun d hread hspace hnames => ?_, fun tag htag hlooks => ?_⟩
    · have hd := (compactText_iff conversions hn).mpr ⟨hread, hspace⟩
      obtain ⟨hshort, hfound⟩ := htags d hd hnames
      obtain ⟨htag, htype⟩ := (tags_iff hd hnames).mpr hfound
      exact ⟨(hcompact d hd).mpr ⟨hshort, htag⟩, htype⟩
    · obtain ⟨d, hd⟩ := hcomposite (taggedShape_iff.mpr ⟨⟨tag, htag⟩, hlooks⟩)
      exact ⟨d, (reads_type_iff conversions hn).mpr hd⟩

end Agreement

section Inputs

theorem compactText_int : CompactText .int "Int".toList :=
  .name (t := "Int".toList) ⟨rfl, by decide⟩ (by decide)

/-- The parsers agree on `[Int?]`. -/
theorem optional_element_agrees :
    TypeParsersAgree (parser ⟨fun _ => 0, fun _ => ⟨0⟩⟩ 6) "[Int?]".toList := by
  have htext : CompactText (.array (.optional .int)) "[Int?]".toList :=
    .array (.optional id compactText_int)
  refine (type_parsers_agree_iff _ (by decide)).mpr ⟨fun d hd _ => ?_, fun _ => ?_⟩
  · rw [← htext.unique hd]
    exact ⟨by decide, trivial⟩
  · exact ⟨_, [], _, [], isSpaces_nil, htext.typeText, rfl, rfl⟩

/-- `[Int]?` is an array for `parse_type_token`, which also accepts `[]`; and `Nil` has no tag. -/
theorem type_parsers_disagree :
    ∃ p,
      (Reads (parseTypeDescriptor p) "[Int]?".toList (.optional (.array .int)) [] ∧
        Reads parseTypeToken "[Int]?".toList .typeArray []) ∧
      (Reads (parseTypeDescriptor p) "Nil".toList .nil [] ∧
        ¬∃ tag, Reads parseTypeToken "Nil".toList tag []) ∧
      Reads parseTypeToken "[]".toList .typeArray [] ∧
        ¬∃ d, Reads (parseTypeDescriptor p) "[]".toList d [] := by
  have hoptional : CompactText (.optional (.array .int)) "[Int]?".toList :=
    .optional id (.array compactText_int)
  have hnil : CompactText .nil "Nil".toList :=
    .name (t := "Nil".toList) ⟨rfl, by decide⟩ (by decide)
  refine ⟨parser ⟨fun _ => 0, fun _ => ⟨0⟩⟩ 6, ⟨?_, ?_⟩, ⟨?_, ?_⟩, ?_, ?_⟩
  · exact ((compactText_iff _ (by decide)).mp hoptional).1
  · exact reads_typeToken_iff.mpr ⟨rfl, by decide, rfl⟩
  · exact ((compactText_iff _ (by decide)).mp hnil).1
  · rintro ⟨tag, htag⟩
    cases (reads_typeToken_iff.mp htag).2.2
  · exact reads_typeToken_iff.mpr ⟨rfl, by decide, rfl⟩
  · rintro ⟨d, hd⟩
    cases (hd ⟨"[]".toList, none, false, [], false⟩ rfl).1

end Inputs

end BreadLang
