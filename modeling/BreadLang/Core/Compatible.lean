import BreadLang.Core.TypeDescriptor
import Mathlib.Order.Lattice

/-!
# Type compatibility

`type_descriptor_compatible` goes through arrays and dictionaries by itself, but into an
optional only by `type_descriptor_equals`.  `Fits` is the relation that it decides.

## Main results

* `compatible_iff_fits`: what the function decides.
* `compatible_laws_iff`: which laws of a congruence and of an order hold, and where.
-/

namespace BreadLang

namespace TypeDescriptor

/-! ### Equality -/

mutual

theorem equals_refl : ∀ a : TypeDescriptor, a.equals a = true
  | .array a => equals_refl a
  | .dict key value => by rw [equals, equals_refl key, equals_refl value, Bool.and_self]
  | .optional a => equals_refl a
  | .struct name fields => by rw [equals, beq_self_eq_true, equalsFields_refl fields, Bool.and_self]
  | .class name _ _ => beq_self_eq_true name
  | .string | .int | .bool | .float | .double | .nil => rfl

theorem equalsFields_refl : ∀ fields : List (Ident × TypeDescriptor), equalsFields fields fields = true
  | [] => rfl
  | (name, a) :: fields => by
      rw [equalsFields, beq_self_eq_true, equals_refl a, equalsFields_refl fields, Bool.and_self,
        Bool.and_self]

end

mutual

theorem equals_trans : ∀ {a b c : TypeDescriptor}, a.equals b = true → b.equals c = true →
    a.equals c = true
  | .array a, .array b, .array c, hab, hbc => by
      rw [equals] at hab hbc ⊢
      exact equals_trans hab hbc
  | .dict _ _, .dict _ _, .dict _ _, hab, hbc => by
      rw [equals, Bool.and_eq_true] at hab hbc ⊢
      exact ⟨equals_trans hab.1 hbc.1, equals_trans hab.2 hbc.2⟩
  | .optional a, .optional b, .optional c, hab, hbc => by
      rw [equals] at hab hbc ⊢
      exact equals_trans hab hbc
  | .struct _ _, .struct _ _, .struct _ _, hab, hbc => by
      rw [equals, Bool.and_eq_true, beq_iff_eq] at hab hbc ⊢
      exact ⟨hab.1.trans hbc.1, equalsFields_trans hab.2 hbc.2⟩
  | .class _ _ _, .class _ _ _, .class _ _ _, hab, hbc => by
      rw [equals, beq_iff_eq] at hab hbc ⊢
      exact hab.trans hbc
  | .string, .string, _, _, hbc | .int, .int, _, _, hbc | .bool, .bool, _, _, hbc
  | .float, .float, _, _, hbc | .double, .double, _, _, hbc | .nil, .nil, _, _, hbc => hbc

theorem equalsFields_trans : ∀ {as bs cs : List (Ident × TypeDescriptor)},
    equalsFields as bs = true → equalsFields bs cs = true → equalsFields as cs = true
  | [], [], [], _, _ => rfl
  | (_, _) :: _, (_, _) :: _, (_, _) :: _, hab, hbc => by
      simp only [equalsFields, Bool.and_eq_true, beq_iff_eq] at hab hbc ⊢
      exact ⟨⟨hab.1.1.trans hbc.1.1, equals_trans hab.1.2 hbc.1.2⟩,
        equalsFields_trans hab.2 hbc.2⟩

end

/-- How deep the brackets and question marks of a type are. -/
def nesting : TypeDescriptor → ℕ
  | .array a => a.nesting + 1
  | .dict key value => max key.nesting value.nesting + 1
  | .optional a => a.nesting + 1
  | _ => 0

theorem nesting_eq_of_equals : ∀ {a b : TypeDescriptor}, a.equals b = true → a.nesting = b.nesting
  | .array a, .array b, h => congrArg (· + 1) (nesting_eq_of_equals (a := a) h)
  | .dict _ _, .dict _ _, h => by
      rw [equals, Bool.and_eq_true] at h
      rw [nesting, nesting, nesting_eq_of_equals h.1, nesting_eq_of_equals h.2]
  | .optional a, .optional b, h => congrArg (· + 1) (nesting_eq_of_equals (a := a) h)
  | .struct _ _, .struct _ _, _ | .class _ _ _, .class _ _ _, _ => rfl
  | .string, .string, _ | .int, .int, _ | .bool, .bool, _ => rfl
  | .float, .float, _ | .double, .double, _ | .nil, .nil, _ => rfl

theorem baseType_beq_nil {a : TypeDescriptor} : (a.baseType == .typeNil) = true ↔ a = .nil := by
  cases a <;> simp [baseType]

theorem equals_nil {a : TypeDescriptor} (h : a.equals .nil = true) : a = .nil := by
  cases a <;> first | rfl | cases h

/-! ### The relation -/

/-- The name of a struct or of a class. -/
def nominalName : TypeDescriptor → Option Ident
  | .struct name _ => some name
  | .class name _ _ => some name
  | _ => none

/-- **Where a value of a type may stand.** -/
inductive Fits : TypeDescriptor → TypeDescriptor → Prop
  | equal {a b : TypeDescriptor} (h : a.equals b = true) : Fits a b
  | named {a b : TypeDescriptor} {name : Ident} (ha : a.nominalName = some name)
      (hb : b.nominalName = some name) : Fits a b
  | emptyArray {b : TypeDescriptor} : Fits (.array .nil) (.array b)
  | array {a b : TypeDescriptor} (h : Fits a b) : Fits (.array a) (.array b)
  | emptyDict {key value : TypeDescriptor} : Fits (.dict .nil .nil) (.dict key value)
  | dict {key value key' value' : TypeDescriptor} (hkey : Fits key key')
      (hvalue : Fits value value') : Fits (.dict key value) (.dict key' value')
  | nil {w : TypeDescriptor} : Fits .nil (.optional w)
  | wrap {a w : TypeDescriptor} (h : a.equals w = true) : Fits a (.optional w)

variable {a b c w : TypeDescriptor}

/-- `type_descriptor_compatible` decides the relation. -/
theorem compatible_of_fits (h : Fits a b) : a.compatible b = true := by
  induction h with
  | equal h =>
      rw [compatible.eq_def, h, Bool.true_or]
  | @named a b name ha hb =>
      cases a <;> cases hb' : b <;> simp_all [nominalName, compatible]
  | emptyArray => simp [compatible, baseType]
  | array _ ih => simp [compatible, ih]
  | emptyDict => simp [compatible, baseType]
  | dict _ _ ihkey ihvalue => simp [compatible, ihkey, ihvalue]
  | nil => simp [compatible]
  | @wrap a w h =>
      rw [compatible.eq_def]
      cases a <;> simp [h]

theorem fits_of_compatible : ∀ {a b : TypeDescriptor}, a.compatible b = true → Fits a b := by
  intro a b h
  rw [compatible.eq_def, Bool.or_eq_true] at h
  rcases h with h | h
  · exact .equal h
  split at h
  next => exact .named rfl (congrArg some (beq_iff_eq.mp h).symm)
  next => exact .named rfl (congrArg some (beq_iff_eq.mp h).symm)
  next => exact .named rfl (congrArg some (beq_iff_eq.mp h).symm)
  next => exact .named rfl (congrArg some (beq_iff_eq.mp h).symm)
  next a b =>
      rw [Bool.or_eq_true, baseType_beq_nil] at h
      rcases h with rfl | h
      · exact .emptyArray
      · exact .array (fits_of_compatible h)
  next key value key' value' =>
      simp only [Bool.or_eq_true, Bool.and_eq_true, baseType_beq_nil] at h
      rcases h with ⟨rfl, rfl⟩ | ⟨hkey, hvalue⟩
      · exact .emptyDict
      · exact .dict (fits_of_compatible hkey) (fits_of_compatible hvalue)
  next => exact .nil
  next => exact .wrap h
  next => cases h

theorem compatible_iff_fits : a.compatible b = true ↔ Fits a b :=
  ⟨fits_of_compatible, compatible_of_fits⟩

/-! ### Inversion -/

theorem fits_array_iff : Fits (.array a) (.array b) ↔ a = .nil ∨ Fits a b := by
  constructor
  · intro h
    cases h with
    | equal h => exact .inr (.equal h)
    | named ha _ => cases ha
    | emptyArray => exact .inl rfl
    | array h => exact .inr h
  · rintro (rfl | h)
    · exact .emptyArray
    · exact .array h

theorem fits_dict_iff {key value key' value' : TypeDescriptor} :
    Fits (.dict key value) (.dict key' value') ↔
      (key = .nil ∧ value = .nil) ∨ (Fits key key' ∧ Fits value value') := by
  constructor
  · intro h
    cases h with
    | equal h =>
        rw [equals, Bool.and_eq_true] at h
        exact .inr ⟨.equal h.1, .equal h.2⟩
    | named ha _ => cases ha
    | emptyDict => exact .inl ⟨rfl, rfl⟩
    | dict hkey hvalue => exact .inr ⟨hkey, hvalue⟩
  · rintro (⟨rfl, rfl⟩ | ⟨hkey, hvalue⟩)
    · exact .emptyDict
    · exact .dict hkey hvalue

/-- An optional takes `nil`, the type in it, and itself. -/
theorem fits_optional_iff :
    Fits a (.optional w) ↔ a = .nil ∨ a.equals w = true ∨ a.equals (.optional w) = true := by
  constructor
  · intro h
    cases h with
    | equal h => exact .inr (.inr h)
    | named _ hb => cases hb
    | nil => exact .inl rfl
    | wrap h => exact .inr (.inl h)
  · rintro (rfl | h | h)
    · exact .nil
    · exact .wrap h
    · exact .equal h

theorem Fits.eq_nil (h : Fits a .nil) : a = .nil := by
  cases h with
  | equal h => exact equals_nil h
  | named _ hb => cases hb

/-- Only an array fits an array. -/
theorem Fits.exists_array (h : Fits a (.array b)) : ∃ a', a = .array a' := by
  cases h with
  | equal h => cases a <;> first | exact ⟨_, rfl⟩ | cases h
  | named _ hb => cases hb
  | emptyArray => exact ⟨_, rfl⟩
  | array _ => exact ⟨_, rfl⟩

/-- Only a dictionary fits a dictionary. -/
theorem Fits.exists_dict {key value : TypeDescriptor} (h : Fits a (.dict key value)) :
    ∃ key' value', a = .dict key' value' := by
  cases h with
  | equal h => cases a <;> first | exact ⟨_, _, rfl⟩ | cases h
  | named _ hb => cases hb
  | emptyDict => exact ⟨_, _, rfl⟩
  | dict _ _ => exact ⟨_, _, rfl⟩

theorem nominalName_eq_of_equals (h : a.equals b = true) : a.nominalName = b.nominalName := by
  cases a <;> cases b <;> simp_all [equals, nominalName]

/-- Only a struct or a class fits one. -/
theorem Fits.nominalName_eq {name : Ident} (h : Fits a b) (hb : b.nominalName = some name) :
    a.nominalName = some name := by
  cases h with
  | equal h => rw [nominalName_eq_of_equals h, hb]
  | named ha hb' => rw [ha, ← hb', hb]
  | _ => cases hb

theorem nesting_of_nominalName {name : Ident} (h : a.nominalName = some name) : a.nesting = 0 := by
  cases a <;> first | rfl | cases h

/-- What fits a type is not nested deeper. -/
theorem Fits.nesting_le (h : Fits a b) : a.nesting ≤ b.nesting := by
  induction h with
  | equal h => exact (nesting_eq_of_equals h).le
  | named ha _ =>
      rw [nesting_of_nominalName ha]
      exact Nat.zero_le _
  | emptyArray => exact Nat.succ_le_succ (Nat.zero_le _)
  | array _ ih => exact Nat.succ_le_succ ih
  | emptyDict => exact Nat.succ_le_succ (Nat.zero_le _)
  | dict _ _ ihkey ihvalue => exact Nat.succ_le_succ (sup_le_sup ihkey ihvalue)
  | nil => exact Nat.zero_le _
  | wrap h => exact (nesting_eq_of_equals h).le.trans (Nat.le_succ _)

/-! ### Composition -/

theorem Fits.trans_equals (h : Fits a b) (hbc : b.equals c = true) : Fits a c := by
  induction h generalizing c with
  | equal h => exact .equal (equals_trans h hbc)
  | named ha hb => exact .named ha ((nominalName_eq_of_equals hbc).symm.trans hb)
  | emptyArray => cases c <;> first | exact .emptyArray | cases hbc
  | array _ ih => cases c <;> first | exact .array (ih hbc) | cases hbc
  | emptyDict => cases c <;> first | exact .emptyDict | cases hbc
  | dict _ _ ihkey ihvalue =>
      cases c with
      | dict key value =>
          rw [equals, Bool.and_eq_true] at hbc
          exact .dict (ihkey hbc.1) (ihvalue hbc.2)
      | _ => cases hbc
  | nil => cases c <;> first | exact .nil | cases hbc
  | wrap h => cases c <;> first | exact .wrap (equals_trans h hbc) | cases hbc

/-- Whether nothing stands in the way of a composition: where a part of the third type is the
optional of the part of the second one, the part of the first is of that type too, or `nil`. -/
def composes : TypeDescriptor → TypeDescriptor → TypeDescriptor → Bool
  | .array a, .array b, .array c => a.baseType == .typeNil || composes a b c
  | .dict key value, .dict key' value', .dict key'' value'' =>
      (key.baseType == .typeNil && value.baseType == .typeNil) ||
        (composes key key' key'' && composes value value' value'')
  | a, b, .optional c => !b.equals c || a.equals c || a.baseType == .typeNil
  | _, _, _ => true

/-- An optional takes what fits its type only if it is equal to it. -/
theorem fits_optional_iff_of_fits (hab : Fits a b) (hbc : Fits b (.optional c)) :
    Fits a (.optional c) ↔ (b.equals c = false ∨ a.equals c = true) ∨ a = .nil := by
  constructor
  · intro hac
    rcases fits_optional_iff.mp hac with hnil | hequals | hequals
    · exact .inr hnil
    · exact .inl (.inr hequals)
    · refine .inl (.inl (Bool.eq_false_iff.mpr fun hb => ?_))
      have hle := (hab.trans_equals hb).nesting_le
      rw [nesting_eq_of_equals hequals] at hle
      exact absurd hle (Nat.not_succ_le_self c.nesting)
  · rintro ((hb | hequals) | rfl)
    · rcases fits_optional_iff.mp hbc with rfl | hequals | hequals
      · rw [hab.eq_nil]
        exact .nil
      · exact absurd hequals (Bool.eq_false_iff.mp hb)
      · exact hab.trans_equals hequals
    · exact .wrap hequals
    · exact .nil

/-- **When a type that fits another one fits what that one fits.** -/
theorem Fits.trans_iff : ∀ {a b c : TypeDescriptor}, Fits a b → Fits b c →
    (Fits a c ↔ composes a b c = true) := by
  intro a b c hab hbc
  rw [composes.eq_def]
  split
  next a b c =>
      rw [Bool.or_eq_true, baseType_beq_nil, fits_array_iff]
      refine or_congr_right' fun hnil => ?_
      have hab := (fits_array_iff.mp hab).resolve_left hnil
      refine trans_iff hab ((fits_array_iff.mp hbc).resolve_left ?_)
      rintro rfl
      exact hnil hab.eq_nil
  next key value key' value' key'' value'' =>
      rw [Bool.or_eq_true, Bool.and_eq_true, Bool.and_eq_true, baseType_beq_nil, baseType_beq_nil,
        fits_dict_iff]
      refine or_congr_right' fun hnil => ?_
      have hab := (fits_dict_iff.mp hab).resolve_left hnil
      have hbc := (fits_dict_iff.mp hbc).resolve_left fun h =>
        hnil ⟨(h.1 ▸ hab.1).eq_nil, (h.2 ▸ hab.2).eq_nil⟩
      exact and_congr (trans_iff hab.1 hbc.1) (trans_iff hab.2 hbc.2)
  next c =>
      simp only [Bool.or_eq_true, Bool.not_eq_true', baseType_beq_nil]
      exact fits_optional_iff_of_fits hab hbc
  next a b c hoptional harray hdict =>
      refine iff_of_true ?_ rfl
      cases hbc with
      | equal h => exact hab.trans_equals h
      | named hb hc => exact .named (hab.nominalName_eq hb) hc
      | emptyArray =>
          obtain ⟨a', rfl⟩ := hab.exists_array
          exact (harray _ _ _ rfl rfl rfl).elim
      | array _ =>
          obtain ⟨a', rfl⟩ := hab.exists_array
          exact (harray _ _ _ rfl rfl rfl).elim
      | emptyDict =>
          obtain ⟨key, value, rfl⟩ := hab.exists_dict
          exact (hdict _ _ _ _ _ _ rfl rfl rfl).elim
      | dict _ _ =>
          obtain ⟨key, value, rfl⟩ := hab.exists_dict
          exact (hdict _ _ _ _ _ _ rfl rfl rfl).elim
      | nil => exact (hoptional _ rfl).elim
      | wrap _ => exact (hoptional _ rfl).elim

/-! ### The laws -/

/-- Compatibility goes through the constructors of types. -/
structure Congruent (a b key : TypeDescriptor) : Prop where
  array : (array a).compatible (.array b) = true
  dict : (dict key a).compatible (.dict key b) = true
  wrapped : a.compatible (.optional b) = true
  optional : (optional a).compatible (.optional b) = true

/-- Compatibility with a type goes on to its optional only from an equal type, and from `nil`
to the optional of `nil`. -/
def wraps (a b : TypeDescriptor) : Bool :=
  a.equals b || (a.baseType == .typeNil && b.equals (.optional .nil))

theorem eq_optional_nil (h : b.equals (.optional .nil) = true ∨ (optional .nil).equals b = true) :
    b = .optional .nil := by
  cases b with
  | optional w =>
      have hnil : w = .nil := by
        rcases h with h | h
        · exact equals_nil h
        · cases w <;> first | rfl | cases h
      rw [hnil]
  | _ => rcases h with h | h <;> cases h

theorem congruent_iff (key : TypeDescriptor) (hab : a.compatible b = true) :
    Congruent a b key ↔ wraps a b = true := by
  have hfits := fits_of_compatible hab
  constructor
  · rintro ⟨-, -, hwrapped, hoptional⟩
    rw [wraps, Bool.or_eq_true, Bool.and_eq_true, baseType_beq_nil]
    rcases fits_optional_iff.mp (fits_of_compatible hoptional) with hnil | hequals | hequals
    · cases hnil
    · rcases fits_optional_iff.mp (fits_of_compatible hwrapped) with rfl | hab | hab
      · rw [eq_optional_nil (.inr hequals)]
        exact .inr ⟨rfl, rfl⟩
      · exact .inl hab
      · have hdeeper : a.nesting + 1 = b.nesting := nesting_eq_of_equals hequals
        have hdeepest : a.nesting = b.nesting + 1 := nesting_eq_of_equals hab
        omega
    · exact .inl hequals
  · intro h
    have hoptional : a.compatible (.optional b) = true ∧ (optional a).compatible (.optional b) = true := by
      rw [wraps, Bool.or_eq_true, Bool.and_eq_true, baseType_beq_nil] at h
      rcases h with hequals | ⟨rfl, hb⟩
      · exact ⟨compatible_of_fits (.wrap hequals), compatible_of_fits (.equal hequals)⟩
      · rw [eq_optional_nil (.inl hb)]
        exact ⟨rfl, rfl⟩
    exact ⟨compatible_of_fits (.array hfits), compatible_of_fits (.dict (.equal (equals_refl key)) hfits),
      hoptional.1, hoptional.2⟩

/-- **The laws of compatibility.**  It is reflexive and goes through arrays and dictionaries, but
it goes through optionals only between equal types, and that is also where it may fail to be
transitive. -/
theorem compatible_laws_iff (a b c key : TypeDescriptor) :
    a.compatible a = true ∧
    ((a.compatible b = true → Congruent a b key) ↔ (a.compatible b = true → wraps a b = true)) ∧
    ((a.compatible b = true → b.compatible c = true → a.compatible c = true) ↔
      (a.compatible b = true → b.compatible c = true → composes a b c = true)) := by
  refine ⟨compatible_of_fits (.equal (equals_refl a)), ?_, ?_⟩
  · exact forall_congr' fun hab => congruent_iff key hab
  · refine forall_congr' fun hab => forall_congr' fun hbc => ?_
    rw [compatible_iff_fits]
    exact (fits_of_compatible hab).trans_iff (fits_of_compatible hbc)

/-- The type of an empty array literal fits an array of integers and that fits its optional, but
the first does not, and neither does its optional. -/
theorem emptyArray_not_compatible :
    (array .nil).compatible (.array .int) = true ∧
    (array .int).compatible (.optional (.array .int)) = true ∧
    (array .nil).compatible (.optional (.array .int)) = false ∧
    (optional (.array .nil)).compatible (.optional (.array .int)) = false :=
  ⟨rfl, rfl, rfl, rfl⟩

end TypeDescriptor

end BreadLang
