import BreadLang.Compiler.TypeAnnotations
import BreadLang.Core.Compatible

/-!
# Printed types as annotations

`type_descriptor_to_string` prints the types of error messages.  Its text is that of an
annotation for arrays, optionals and names, but a dictionary is printed in braces, and `Float`
and `Nil` are printed as names that the parser takes for those of structs.
-/

namespace BreadLang

open Stateful Parse

namespace TypeDescriptor

/-- The names that `type_name_to_vartype` knows. -/
def primitiveNames : List Ident :=
  ["Int".toList, "String".toList, "Bool".toList, "Float".toList, "Double".toList, "Nil".toList]

/-- A part of a type that can be written in a program.  A named type is a struct without its
fields, as the parser makes it of a name that it does not know. -/
def WritablePart : TypeDescriptor → Prop
  | .struct name fields => IsIdentifier name ∧ name ∉ primitiveNames ∧ fields = []
  | .class _ _ _ => False
  | .optional wrapped => ¬wrapped.IsOptional
  | _ => True

/-- **A type that can be written** in a program. -/
def Writable (d : TypeDescriptor) : Prop :=
  d.All WritablePart

/-- The names that are printed for a `Float` and for `Nil`. -/
def takenNames : List Ident :=
  ["Unknown".toList, "nil".toList]

/-- A part whose text the parser reads as some type. -/
def ParsedPart : TypeDescriptor → Prop
  | .dict _ _ => False
  | .struct name _ => name.length < maxTokenLen
  | _ => True

/-- A part whose text is written for it. -/
def WrittenPart : TypeDescriptor → Prop
  | .float | .nil | .dict _ _ => False
  | .struct name _ => name.length < maxTokenLen
  | _ => True

/-- A part that is printed as it is written. -/
def FaithfulPart : TypeDescriptor → Prop
  | .float | .nil | .dict _ _ => False
  | .struct name _ => name ∉ takenNames ∧ name.length < maxTokenLen
  | _ => True

/-- **No `Float`, no `Nil` and no dictionary** occurs in a type, and no name that is printed for
something else or that is too long for the parser. -/
def Faithful (d : TypeDescriptor) : Prop :=
  d.All FaithfulPart

/-- The descriptor with other leaves. -/
def mapLeaves (f : TypeDescriptor → TypeDescriptor) : TypeDescriptor → TypeDescriptor
  | .array element => .array (element.mapLeaves f)
  | .dict key value => .dict (key.mapLeaves f) (value.mapLeaves f)
  | .optional wrapped => .optional (wrapped.mapLeaves f)
  | d => f d

/-- The struct that the parser makes of what is printed for a leaf. -/
def nameOfLeaf : TypeDescriptor → TypeDescriptor
  | .float => .struct "Unknown".toList []
  | .nil => .struct "nil".toList []
  | d => d

/-- The leaf for which the name of a struct is printed too. -/
def leafOfName : TypeDescriptor → TypeDescriptor
  | .struct name fields =>
      if name = "Unknown".toList then .float
      else if name = "nil".toList then .nil
      else .struct name fields
  | d => d

section Leaves

variable {f : TypeDescriptor → TypeDescriptor} {d : TypeDescriptor}

theorem typeText_mapLeaves (hf : ∀ d, (f d).typeText = d.typeText) :
    (d.mapLeaves f).typeText = d.typeText := by
  induction d using partsInduction with
  | array element ih => rw [mapLeaves, typeText, typeText, ih]
  | dict key value ihk ihv => rw [mapLeaves, typeText, typeText, ihk, ihv]
  | optional wrapped ih => rw [mapLeaves, typeText, typeText, ih]
  | _ => exact hf _

theorem fitsBuffer_mapLeaves (hf : ∀ d, (f d).typeText = d.typeText)
    (hleaf : ∀ d size, d.FitsBuffer size → (f d).FitsBuffer size) {size : ℕ}
    (h : d.FitsBuffer size) : (d.mapLeaves f).FitsBuffer size := by
  have htext : ∀ d : TypeDescriptor, (d.mapLeaves f).typeText = d.typeText :=
    fun d => typeText_mapLeaves hf
  induction d using partsInduction generalizing size with
  | array element ih => exact ⟨ih h.1, by rw [← mapLeaves, htext]; exact h.2⟩
  | dict key value ihk ihv => exact ⟨ihk h.1, ihv h.2.1, by rw [← mapLeaves, htext]; exact h.2.2⟩
  | optional wrapped ih => exact ⟨ih h.1, by rw [← mapLeaves, htext]; exact h.2⟩
  | _ => exact hleaf _ _ h

theorem typeText_nameOfLeaf (d : TypeDescriptor) : (nameOfLeaf d).typeText = d.typeText := by
  cases d <;> rfl

theorem typeText_leafOfName (d : TypeDescriptor) : (leafOfName d).typeText = d.typeText := by
  cases d with
  | struct name fields =>
      rw [leafOfName]
      split
      · rename_i hname
        rw [hname]
        rfl
      · split
        · rename_i hname
          rw [hname]
          rfl
        · rfl
  | _ => rfl

theorem fitsBuffer_leafOfName {size : ℕ} (h : d.FitsBuffer size) :
    (leafOfName d).FitsBuffer size := by
  cases d with
  | struct name fields =>
      have hlength := h.length_lt
      rw [← typeText_leafOfName] at hlength
      rw [leafOfName] at hlength ⊢
      split
      · rename_i hname
        rwa [if_pos hname] at hlength
      · rename_i hname
        rw [if_neg hname] at hlength
        split
        · rename_i hnil
          rwa [if_pos hnil] at hlength
        · exact h
  | _ => exact h

theorem isOptional_mapLeaves (hf : ∀ d : TypeDescriptor, (f d).IsOptional → d.IsOptional) :
    (d.mapLeaves f).IsOptional → d.IsOptional := by
  cases d with
  | array | dict | optional => exact id
  | _ => exact hf _

theorem writable_mapLeaves (hopt : ∀ d : TypeDescriptor, (f d).IsOptional → d.IsOptional)
    (hleaf : ∀ d, d.Writable → (f d).Writable) (h : d.Writable) : (d.mapLeaves f).Writable := by
  induction d using partsInduction with
  | array element ih => exact ⟨trivial, ih h.2⟩
  | dict key value ihk ihv => exact ⟨trivial, ihk h.2.1, ihv h.2.2⟩
  | optional wrapped ih => exact ⟨fun ho => h.1 (isOptional_mapLeaves hopt ho), ih h.2⟩
  | _ => exact hleaf _ h

end Leaves

/-! ### The text of a type that is printed -/

section Text

variable {d : TypeDescriptor}

theorem typeText_of_written (hd : d.Writable) (h : d.All WrittenPart) :
    TypeText d d.typeText := by
  induction d using partsInduction with
  | string => exact .name (t := "String".toList) ⟨rfl, by decide⟩ (by decide)
  | int => exact .name (t := "Int".toList) ⟨rfl, by decide⟩ (by decide)
  | bool => exact .name (t := "Bool".toList) ⟨rfl, by decide⟩ (by decide)
  | double => exact .name (t := "Double".toList) ⟨rfl, by decide⟩ (by decide)
  | float | nil => exact h.elim
  | array element ih => exact .array isSpaces_nil isSpaces_nil (ih hd.2 h.2)
  | dict => exact h.1.elim
  | optional wrapped ih => exact .optional hd.1 isSpaces_nil (ih hd.2 h.2)
  | structDesc name fields =>
      obtain ⟨hname, hknown, rfl⟩ : IsIdentifier name ∧ name ∉ primitiveNames ∧ fields = [] := hd
      have htext := TypeText.name hname h
      simp only [primitiveNames, List.mem_cons, List.not_mem_nil, or_false, not_or] at hknown
      obtain ⟨hint, hstring, hbool, hfloat, hdouble, hnil⟩ := hknown
      rwa [typeOfName, beq_false_of_ne hint, beq_false_of_ne hstring, beq_false_of_ne hbool,
        beq_false_of_ne hfloat, beq_false_of_ne hdouble, beq_false_of_ne hnil] at htext
  | classDesc => exact hd.elim

theorem brace_not_mem_spaces {space : List Char} (hspace : IsSpaces space) : '{' ∉ space :=
  fun hmem => absurd (hspace _ hmem) (by decide)

theorem brace_not_mem_identifier {name : List Char} (hname : IsIdentifier name) : '{' ∉ name :=
  fun hmem => absurd (hname.chars _ hmem) (by decide)

/-- No brace stands in the text of a type. -/
theorem brace_not_mem {t : List Char} (h : TypeText d t) : '{' ∉ t := by
  induction h with
  | name hname => exact brace_not_mem_identifier hname
  | array hs hs' _ ih =>
      simp [ih, brace_not_mem_spaces hs, brace_not_mem_spaces hs']
  | dict h₁ h₂ h₃ h₄ _ _ ihk ihv =>
      simp [ihk, ihv, brace_not_mem_spaces h₁, brace_not_mem_spaces h₂, brace_not_mem_spaces h₃,
        brace_not_mem_spaces h₄]
  | optional _ hs _ ih => simp [ih, brace_not_mem_spaces hs]

/-- A descriptor whose text has no brace has no dictionary. -/
theorem all_of_brace (hbrace : '{' ∉ d.typeText) :
    d.All fun d => ∀ key value, d ≠ .dict key value := by
  induction d using partsInduction with
  | array element ih =>
      refine ⟨fun key value => TypeDescriptor.noConfusion, ih fun hmem => hbrace ?_⟩
      simp [typeText, hmem]
  | dict key value => exact absurd List.mem_cons_self hbrace
  | optional wrapped ih =>
      refine ⟨fun key value => TypeDescriptor.noConfusion, ih fun hmem => hbrace ?_⟩
      simp [typeText, hmem]
  | _ => exact fun key value => TypeDescriptor.noConfusion

/-- The names in a type that fits into a buffer. -/
theorem all_of_fits {size : ℕ} (hsize : size ≤ maxTokenLen) (h : d.FitsBuffer size) :
    d.All fun d => ∀ name fields, d = .struct name fields → name.length < maxTokenLen := by
  induction d using partsInduction generalizing size with
  | array element ih => exact ⟨fun _ _ => TypeDescriptor.noConfusion, ih (by decide) h.1⟩
  | dict key value ihk ihv =>
      exact ⟨fun _ _ => TypeDescriptor.noConfusion, ihk (by decide) h.1, ihv (by decide) h.2.1⟩
  | optional wrapped ih => exact ⟨fun _ _ => TypeDescriptor.noConfusion, ih (by decide) h.1⟩
  | structDesc name fields =>
      intro name' fields' heq
      obtain ⟨rfl, -⟩ := TypeDescriptor.struct.inj heq
      exact h.length_lt.trans_le hsize
  | _ => exact fun _ _ => TypeDescriptor.noConfusion

/-- Only a `Float` or `Nil` becomes another type. -/
theorem all_of_equals (hequals : (d.mapLeaves nameOfLeaf).equals d = true) :
    d.All fun d => d ≠ .float ∧ d ≠ .nil := by
  induction d using partsInduction with
  | array element ih =>
      rw [mapLeaves, equals] at hequals
      exact ⟨⟨TypeDescriptor.noConfusion, TypeDescriptor.noConfusion⟩, ih hequals⟩
  | dict key value ihk ihv =>
      rw [mapLeaves, equals, Bool.and_eq_true] at hequals
      exact ⟨⟨TypeDescriptor.noConfusion, TypeDescriptor.noConfusion⟩, ihk hequals.1, ihv hequals.2⟩
  | optional wrapped ih =>
      rw [mapLeaves, equals] at hequals
      exact ⟨⟨TypeDescriptor.noConfusion, TypeDescriptor.noConfusion⟩, ih hequals⟩
  | float | nil => cases hequals
  | _ => exact ⟨TypeDescriptor.noConfusion, TypeDescriptor.noConfusion⟩

/-- Only a struct with a taken name becomes another type. -/
theorem all_of_leafOfName (heq : d.mapLeaves leafOfName = d) :
    d.All fun d => ∀ name fields, d = .struct name fields → name ∉ takenNames := by
  induction d using partsInduction with
  | array element ih =>
      exact ⟨fun _ _ => TypeDescriptor.noConfusion, ih (TypeDescriptor.array.inj heq)⟩
  | dict key value ihk ihv =>
      obtain ⟨hkey, hvalue⟩ := TypeDescriptor.dict.inj heq
      exact ⟨fun _ _ => TypeDescriptor.noConfusion, ihk hkey, ihv hvalue⟩
  | optional wrapped ih =>
      exact ⟨fun _ _ => TypeDescriptor.noConfusion, ih (TypeDescriptor.optional.inj heq)⟩
  | structDesc name fields =>
      intro name' fields' hstruct hmem
      obtain ⟨rfl, -⟩ := TypeDescriptor.struct.inj hstruct
      have heq : leafOfName (.struct name fields) = .struct name fields := heq
      simp only [takenNames, List.mem_cons, List.not_mem_nil, or_false] at hmem
      obtain rfl | rfl := hmem
      · cases heq
      · cases heq
  | _ => exact fun _ _ => TypeDescriptor.noConfusion

theorem isOptional_nameOfLeaf (d : TypeDescriptor) : (nameOfLeaf d).IsOptional → d.IsOptional := by
  cases d <;> exact id

theorem isOptional_leafOfName (d : TypeDescriptor) : (leafOfName d).IsOptional → d.IsOptional := by
  cases d with
  | struct name fields =>
      rw [leafOfName]
      split
      · exact id
      · split <;> exact id
  | _ => exact id

theorem writable_nameOfLeaf {d : TypeDescriptor} (h : d.Writable) : (nameOfLeaf d).Writable := by
  cases d with
  | float => exact ⟨⟨rfl, by decide⟩, by decide, rfl⟩
  | nil => exact ⟨⟨rfl, by decide⟩, by decide, rfl⟩
  | _ => exact h

theorem writable_leafOfName {d : TypeDescriptor} (h : d.Writable) : (leafOfName d).Writable := by
  cases d with
  | struct name fields =>
      rw [leafOfName]
      split
      · trivial
      · split
        · trivial
        · exact h
  | _ => exact h

end Text

/-! ### The round trip -/

section RoundTrip

variable (conversions : Conversions) {d : TypeDescriptor} {t : List Char} {n size : ℕ}

/-- The printed form of a descriptor is parsed to an equal one, up to its end. -/
def RoundTrips (conversions : Conversions) (n size : ℕ) (d : TypeDescriptor) : Prop :=
  ∃ d', Reads (parseTypeDescriptor (parser conversions n)) (d.typeDescriptorToString size) d' [] ∧
    d'.equals d = true

/-- No other type that can be written is printed in the same way. -/
def PrintsAlone (size : ℕ) (d : TypeDescriptor) : Prop :=
  ∀ d' : TypeDescriptor, d'.Writable → d'.FitsBuffer size → d' ≠ d →
    d'.typeDescriptorToString size ≠ d.typeDescriptorToString size

/-- The text of a type is parsed to its end. -/
theorem reads_whole (h : TypeText d t) (hn : t.length ≤ n) :
    Reads (parseTypeDescriptor (parser conversions n)) t d [] := by
  refine (reads_type_iff conversions hn).mpr
    ⟨[], t, [], isSpaces_nil, h, ?_, (List.append_nil t).symm⟩
  cases d <;> rfl

variable {conversions}

/-- A text that is parsed to its end is that of a type, with white space around it. -/
theorem exists_typeText (h : Reads (parseTypeDescriptor (parser conversions n)) t d []) :
    ∃ space t' rest, IsSpaces space ∧ IsSpaces rest ∧ TypeText d t' ∧ t = space ++ (t' ++ rest) := by
  obtain ⟨space, t', rest, hspace, ht, htext, hleft⟩ :=
    typeText_of_endsIn conversions (n + 1) (h ⟨t, none, false, [], false⟩ rfl)
  exact ⟨space, t', rest, hspace, isSpaces_of_behindType hleft.symm, ht, htext⟩

/-- A name that is parsed is short. -/
theorem length_lt_of_typeText (h : TypeText d t) (hchars : ∀ c ∈ t, isIdentChar c = true) :
    t.length < maxTokenLen := by
  cases h with
  | name _ hlength => exact hlength
  | array => exact absurd (hchars '[' List.mem_cons_self) (by decide)
  | dict => exact absurd (hchars '[' List.mem_cons_self) (by decide)
  | optional => exact absurd (hchars '?' (by simp)) (by decide)

/-- What is parsed has no dictionary and no name that is too long. -/
theorem all_of_reads {d' : TypeDescriptor} (hd : d.Writable) (hfits : d.FitsBuffer size)
    (h : Reads (parseTypeDescriptor (parser conversions n)) d.typeText d' []) :
    d.All ParsedPart := by
  obtain ⟨space, t, rest, hspace, hrest, ht, htext⟩ := exists_typeText h
  have hbrace : '{' ∉ d.typeText := by
    rw [htext]
    simp [brace_not_mem_spaces hspace, brace_not_mem_spaces hrest, brace_not_mem ht]
  have hnames : d.All fun d => ∀ name fields, d = .struct name fields →
      name.length < maxTokenLen := by
    cases d with
    | array element => exact ⟨fun _ _ => TypeDescriptor.noConfusion, all_of_fits (by decide) hfits.1⟩
    | dict key value => exact absurd List.mem_cons_self hbrace
    | optional wrapped =>
        exact ⟨fun _ _ => TypeDescriptor.noConfusion, all_of_fits (by decide) hfits.1⟩
    | struct name fields =>
        intro name' fields' hstruct
        obtain ⟨rfl, -⟩ := TypeDescriptor.struct.inj hstruct
        obtain ⟨hname, -⟩ : IsIdentifier name ∧ name ∉ primitiveNames ∧ fields = [] := hd
        have htext : name = space ++ (t ++ rest) := htext
        have hall : ∀ c, c ∈ space ∨ c ∈ t ∨ c ∈ rest → isIdentChar c = true := fun c hc =>
          hname.chars c (by rw [htext]; simpa [List.mem_append] using hc)
        obtain rfl := eq_nil_of_noSpace hspace fun c hc => isSpace_of_identChar (hall c (.inl hc))
        obtain rfl := eq_nil_of_noSpace hrest fun c hc =>
          isSpace_of_identChar (hall c (.inr (.inr hc)))
        have hlt := length_lt_of_typeText ht fun c hc => hall c (.inr (.inl hc))
        have heq : name = t := by simpa using htext
        exact heq ▸ hlt
    | _ => exact fun _ _ => TypeDescriptor.noConfusion
  refine ((all_of_brace hbrace).and hnames).imp fun d h => ?_
  cases d with
  | dict key value => exact h.1 key value rfl
  | struct name fields => exact h.2 name fields rfl
  | _ => trivial

/-- The names that are printed for leaves make a type that is written as it is printed. -/
theorem typeText_nameOfLeaves (hd : d.Writable) (h : d.All ParsedPart) :
    TypeText (d.mapLeaves nameOfLeaf) d.typeText := by
  have hwritable := writable_mapLeaves isOptional_nameOfLeaf (fun _ h => writable_nameOfLeaf h) hd
  have hwritten : (d.mapLeaves nameOfLeaf).All WrittenPart := by
    clear hd hwritable
    induction d using partsInduction with
    | array element ih => exact ⟨trivial, ih h.2⟩
    | dict key value => exact h.1.elim
    | optional wrapped ih => exact ⟨trivial, ih h.2⟩
    | float => exact (by decide : "Unknown".toList.length < maxTokenLen)
    | nil => exact (by decide : "nil".toList.length < maxTokenLen)
    | structDesc => exact h
    | _ => trivial
  have htext := typeText_of_written hwritable hwritten
  rwa [typeText_mapLeaves typeText_nameOfLeaf] at htext

/-- A type that is parsed back has no `Float` and no `Nil` either. -/
theorem RoundTrips.written (hd : d.Writable) (hfits : d.FitsBuffer size)
    (hn : (d.typeDescriptorToString size).length ≤ n) (h : RoundTrips conversions n size d) :
    d.All WrittenPart := by
  obtain ⟨d', hread, hequals⟩ := h
  rw [hfits.toString_eq] at hread hn
  have hparsed := all_of_reads hd hfits hread
  have hnames := reads_whole conversions (typeText_nameOfLeaves hd hparsed) hn
  obtain ⟨rfl, -⟩ := hread.unique hnames
  refine (hparsed.and (all_of_equals hequals)).imp fun d h => ?_
  cases d with
  | float => exact h.2.1 rfl
  | nil => exact h.2.2 rfl
  | _ => exact h.1

theorem roundTrips_of_written (hd : d.Writable) (hfits : d.FitsBuffer size)
    (hn : (d.typeDescriptorToString size).length ≤ n) (h : d.All WrittenPart) :
    RoundTrips conversions n size d := by
  rw [hfits.toString_eq] at hn
  refine ⟨d, ?_, equals_refl d⟩
  rw [hfits.toString_eq]
  exact reads_whole conversions (typeText_of_written hd h) hn

/-- A type that is printed alone has no name that is printed for a leaf. -/
theorem PrintsAlone.names (hd : d.Writable) (hfits : d.FitsBuffer size) (h : PrintsAlone size d) :
    d.All fun d => ∀ name fields, d = .struct name fields → name ∉ takenNames := by
  refine all_of_leafOfName (by_contra fun hne => ?_)
  have hwritable := writable_mapLeaves isOptional_leafOfName (fun _ h => writable_leafOfName h) hd
  have hfits' := fitsBuffer_mapLeaves typeText_leafOfName (fun _ _ h => fitsBuffer_leafOfName h) hfits
  refine h _ hwritable hfits' hne ?_
  rw [hfits.toString_eq, hfits'.toString_eq, typeText_mapLeaves typeText_leafOfName]

/-- Names that are not taken are no leaves. -/
theorem mapLeaves_eq_self
    (h : (d.mapLeaves nameOfLeaf).All fun d => ∀ name fields, d = .struct name fields →
      name ∉ takenNames) : d.mapLeaves nameOfLeaf = d := by
  induction d using partsInduction with
  | array element ih => rw [mapLeaves, ih h.2]
  | dict key value ihk ihv => rw [mapLeaves, ihk h.2.1, ihv h.2.2]
  | optional wrapped ih => rw [mapLeaves, ih h.2]
  | float => exact absurd (by decide) (h _ _ rfl)
  | nil => exact absurd (by decide) (h _ _ rfl)
  | _ => rfl

/-- A type that is printed as it is written is printed alone. -/
theorem printsAlone_of_faithful (hd : d.Writable) (hfits : d.FitsBuffer size)
    (h : d.Faithful) : PrintsAlone size d := by
  intro d' hd' hfits' hne heq
  rw [hfits.toString_eq, hfits'.toString_eq] at heq
  have hwritten : d.All WrittenPart := h.imp fun d h => by
    cases d with
    | struct => exact h.2
    | _ => exact h
  have htext := typeText_of_written hd hwritten
  have hread := reads_whole ⟨fun _ => 0, fun _ => ⟨0⟩⟩ htext le_rfl
  have htext' := typeText_nameOfLeaves hd' (all_of_reads hd' hfits' (heq ▸ hread))
  obtain ⟨hsame, -⟩ := hread.unique (reads_whole _ (heq ▸ htext') le_rfl)
  have hnames : (d'.mapLeaves nameOfLeaf).All fun d => ∀ name fields, d = .struct name fields →
      name ∉ takenNames := by
    rw [← hsame]
    refine h.imp fun d h => ?_
    rintro name fields rfl
    exact h.1
  exact hne ((mapLeaves_eq_self hnames).symm.trans hsame.symm)

/-- **A printed type is parsed back, and printed alone**, exactly where it is printed as it is
written in a program. -/
theorem printed_type_iff (conversions : Conversions) (hd : d.Writable) (hfits : d.FitsBuffer size)
    (hn : (d.typeDescriptorToString size).length ≤ n) :
    RoundTrips conversions n size d ∧ PrintsAlone size d ↔ d.Faithful := by
  constructor
  · rintro ⟨hround, halone⟩
    refine ((hround.written hd hfits hn).and (halone.names hd hfits)).imp fun d h => ?_
    cases d with
    | struct name fields => exact ⟨h.2 name fields rfl, h.1⟩
    | _ => exact h.1
  · intro h
    refine ⟨roundTrips_of_written hd hfits hn (h.imp fun d h => ?_),
      printsAlone_of_faithful hd hfits h⟩
    cases d with
    | struct => exact h.2
    | _ => exact h

end RoundTrip

/-- `[Point?]` is printed and parsed back. -/
theorem optional_element_round_trips :
    RoundTrips ⟨fun _ => 0, fun _ => ⟨0⟩⟩ 8 256 (.array (.optional (.struct "Point".toList []))) ∧
      PrintsAlone 256 (.array (.optional (.struct "Point".toList []))) := by
  have hd : (array (.optional (.struct "Point".toList []))).Writable :=
    ⟨trivial, id, ⟨rfl, by decide⟩, by decide, rfl⟩
  have hfits : (array (.optional (.struct "Point".toList []))).FitsBuffer 256 :=
    ⟨⟨(by decide : "Point".toList.length < 256), by decide⟩, by decide⟩
  exact (printed_type_iff _ hd hfits (by decide)).mpr ⟨trivial, trivial, by decide, by decide⟩

/-- A dictionary is printed in braces, and `Float` like a struct of the name `Unknown`. -/
theorem dictionary_and_float_lost :
    ((dict .string .int).Writable ∧ (dict .string .int).FitsBuffer 256 ∧
      ¬∃ conversions n, RoundTrips conversions n 256 (.dict .string .int)) ∧
    (TypeDescriptor.float.Writable ∧ TypeDescriptor.float.FitsBuffer 256 ∧
      (¬∃ conversions n, 7 ≤ n ∧ RoundTrips conversions n 256 .float) ∧
      ¬PrintsAlone 256 .float) := by
  have hfits : (dict .string .int).FitsBuffer 256 := by
    refine ⟨?_, ?_, by decide⟩
    · exact (by decide : "String".toList.length < 128)
    · exact (by decide : "Int".toList.length < 128)
  have hfloat : TypeDescriptor.float.FitsBuffer 256 :=
    (by decide : "Unknown".toList.length < 256)
  have hdict : (dict .string .int).Writable := ⟨trivial, trivial, trivial⟩
  have hwritable : TypeDescriptor.float.Writable := trivial
  refine ⟨⟨hdict, hfits, ?_⟩, hwritable, hfloat, ?_, ?_⟩
  · rintro ⟨conversions, n, d', hread, -⟩
    rw [hfits.toString_eq] at hread
    exact (all_of_reads hdict hfits hread).1
  · rintro ⟨conversions, n, hn, hround⟩
    exact hround.written hwritable hfloat hn
  · intro halone
    have hname : (struct "Unknown".toList []).FitsBuffer 256 :=
      (by decide : "Unknown".toList.length < 256)
    exact halone (.struct "Unknown".toList []) ⟨⟨rfl, by decide⟩, by decide, rfl⟩ hname
      TypeDescriptor.noConfusion rfl

end TypeDescriptor

end BreadLang
