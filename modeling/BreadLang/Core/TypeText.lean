import BreadLang.Core.TypeDescriptor

/-!
# Printing type descriptors

`type_descriptor_to_string` prints a descriptor into a buffer of the caller and has a buffer of
its own for every part.  `snprintf` cuts off what does not fit.  `FitsBuffer` says that nothing is cut
off, and then the text is the one that `typeText` builds from the texts of the parts.
-/

namespace BreadLang

namespace TypeDescriptor

/-- Induction over the parts of a descriptor; the fields of a struct or class are not parts of
its text. -/
@[elab_as_elim]
theorem partsInduction {motive : TypeDescriptor → Prop} (string : motive .string)
    (int : motive .int) (bool : motive .bool) (float : motive .float) (double : motive .double)
    (nil : motive .nil) (array : ∀ element, motive element → motive (.array element))
    (dict : ∀ key value, motive key → motive value → motive (.dict key value))
    (optional : ∀ wrapped, motive wrapped → motive (.optional wrapped))
    (structDesc : ∀ name fields, motive (.struct name fields))
    (classDesc : ∀ name parentName fields, motive (.class name parentName fields)) :
    ∀ d, motive d
  | .string => string
  | .int => int
  | .bool => bool
  | .float => float
  | .double => double
  | .nil => nil
  | .array element => array element (partsInduction string int bool float double nil array dict
      optional structDesc classDesc element)
  | .dict key value => dict key value (partsInduction string int bool float double nil array dict
      optional structDesc classDesc key) (partsInduction string int bool float double nil array dict
      optional structDesc classDesc value)
  | .optional wrapped => optional wrapped (partsInduction string int bool float double nil array
      dict optional structDesc classDesc wrapped)
  | .struct name fields => structDesc name fields
  | .class name parentName fields => classDesc name parentName fields

/-- What holds of a descriptor and its parts. -/
def All (q : TypeDescriptor → Prop) : TypeDescriptor → Prop
  | .array element => q (.array element) ∧ element.All q
  | .dict key value => q (.dict key value) ∧ key.All q ∧ value.All q
  | .optional wrapped => q (.optional wrapped) ∧ wrapped.All q
  | d => q d

section Parts

variable {q q' : TypeDescriptor → Prop} {d : TypeDescriptor}

theorem All.imp (hq : ∀ d, q d → q' d) (h : d.All q) :
    d.All q' := by
  induction d using partsInduction with
  | array element ih => exact ⟨hq _ h.1, ih h.2⟩
  | dict key value ihk ihv => exact ⟨hq _ h.1, ihk h.2.1, ihv h.2.2⟩
  | optional wrapped ih => exact ⟨hq _ h.1, ih h.2⟩
  | _ => exact hq _ h

theorem All.and (h : d.All q) (h' : d.All q') :
    d.All fun d => q d ∧ q' d := by
  induction d using partsInduction with
  | array element ih => exact ⟨⟨h.1, h'.1⟩, ih h.2 h'.2⟩
  | dict key value ihk ihv => exact ⟨⟨h.1, h'.1⟩, ihk h.2.1 h'.2.1, ihv h.2.2 h'.2.2⟩
  | optional wrapped ih => exact ⟨⟨h.1, h'.1⟩, ih h.2 h'.2⟩
  | _ => exact ⟨h, h'⟩

end Parts

/-- `snprintf` into a buffer of a given size. -/
def snprintf (bufferSize : ℕ) (text : List Char) : List Char :=
  text.take (bufferSize - 1)

/-- `type_descriptor_to_string`.  A `Float` has no case of its own. -/
def typeDescriptorToString : TypeDescriptor → ℕ → List Char
  | .int, size => snprintf size "Int".toList
  | .double, size => snprintf size "Double".toList
  | .bool, size => snprintf size "Bool".toList
  | .string, size => snprintf size "String".toList
  | .array element, size =>
      snprintf size ('[' :: (typeDescriptorToString element 256 ++ [']']))
  | .dict key value, size =>
      snprintf size ('{' :: (typeDescriptorToString key 128 ++
        ':' :: (typeDescriptorToString value 128 ++ ['}'])))
  | .optional wrapped, size => snprintf size (typeDescriptorToString wrapped 256 ++ ['?'])
  | .struct name _, size => snprintf size name
  | .class name _ _, size => snprintf size name
  | .nil, size => snprintf size "nil".toList
  | .float, size => snprintf size "Unknown".toList

/-- What is printed where every buffer is large enough. -/
def typeText : TypeDescriptor → List Char
  | .int => "Int".toList
  | .double => "Double".toList
  | .bool => "Bool".toList
  | .string => "String".toList
  | .array element => '[' :: (element.typeText ++ [']'])
  | .dict key value => '{' :: (key.typeText ++ ':' :: (value.typeText ++ ['}']))
  | .optional wrapped => wrapped.typeText ++ ['?']
  | .struct name _ => name
  | .class name _ _ => name
  | .nil => "nil".toList
  | .float => "Unknown".toList

/-- The printed form fits: into the buffer, and its parts into theirs. -/
def FitsBuffer : TypeDescriptor → ℕ → Prop
  | d@(.array element), size => element.FitsBuffer 256 ∧ d.typeText.length < size
  | d@(.dict key value), size =>
      key.FitsBuffer 128 ∧ value.FitsBuffer 128 ∧ d.typeText.length < size
  | d@(.optional wrapped), size => wrapped.FitsBuffer 256 ∧ d.typeText.length < size
  | d, size => d.typeText.length < size

theorem FitsBuffer.length_lt {d : TypeDescriptor} {size : ℕ} (h : d.FitsBuffer size) :
    d.typeText.length < size := by
  cases d with
  | array | optional => exact h.2
  | dict => exact h.2.2
  | _ => exact h

theorem snprintf_of_lt {text : List Char} {size : ℕ} (h : text.length < size) :
    snprintf size text = text :=
  List.take_of_length_le (by omega)

/-- A descriptor that fits is printed in full. -/
theorem FitsBuffer.toString_eq {d : TypeDescriptor} {size : ℕ} (h : d.FitsBuffer size) :
    d.typeDescriptorToString size = d.typeText := by
  induction d using partsInduction generalizing size with
  | array element ih =>
      rw [typeDescriptorToString, ih h.1, ← typeText]
      exact snprintf_of_lt h.2
  | dict key value ihk ihv =>
      rw [typeDescriptorToString, ihk h.1, ihv h.2.1, ← typeText]
      exact snprintf_of_lt h.2.2
  | optional wrapped ih =>
      rw [typeDescriptorToString, ih h.1, ← typeText]
      exact snprintf_of_lt h.2
  | _ => exact snprintf_of_lt h.length_lt

end TypeDescriptor

end BreadLang
