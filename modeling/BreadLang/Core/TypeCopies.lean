import BreadLang.Core.Compatible
import BreadLang.Library.Allocation

/-!
# Copies of type descriptors

`type_descriptor_clone` on descriptors in memory: every node has an address.  The fields of a
struct or a class are copied twice, by `type_descriptor_clone` and by the constructor that it
calls, and the first copies are freed.  A copy has the structure of the original and none of
its nodes, and nothing else is left allocated.

Allocations succeed.  The addresses are those of the descriptors; the names of a descriptor are
values.
-/

namespace BreadLang

open Allocation

/-- A `TypeDescriptor` in memory: the address of each node.  A node may be there more than
once. -/
inductive Descriptor where
  | primitive (addr : ℕ) (type : VarType) (h : (TypeDescriptor.createPrimitive type).isSome)
  | array (addr : ℕ) (elementType : Descriptor)
  | dict (addr : ℕ) (keyType valueType : Descriptor)
  | optional (addr : ℕ) (wrappedType : Descriptor)
  | struct (addr : ℕ) (name : Ident) (fields : List (Ident × Descriptor))
  | class (addr : ℕ) (name : Ident) (parentName : Option Ident) (fields : List (Ident × Descriptor))

namespace Descriptor

mutual

/-- The type that a descriptor stands for. -/
def erase : Descriptor → TypeDescriptor
  | .primitive _ type h => (TypeDescriptor.createPrimitive type).get h
  | .array _ element => .array element.erase
  | .dict _ key value => .dict key.erase value.erase
  | .optional _ wrapped => .optional wrapped.erase
  | .struct _ name fields => .struct name (eraseFields fields)
  | .class _ name parentName fields => .class name parentName (eraseFields fields)

def eraseFields : List (Ident × Descriptor) → List (Ident × TypeDescriptor)
  | [] => []
  | (name, d) :: fields => (name, d.erase) :: eraseFields fields

end

mutual

/-- The nodes of a descriptor, in the order in which they are freed. -/
def nodes : Descriptor → List ℕ
  | .primitive a _ _ => [a]
  | .array a element => element.nodes ++ [a]
  | .dict a key value => key.nodes ++ (value.nodes ++ [a])
  | .optional a wrapped => wrapped.nodes ++ [a]
  | .struct a _ fields => nodesFields fields ++ [a]
  | .class a _ _ fields => nodesFields fields ++ [a]

def nodesFields : List (Ident × Descriptor) → List ℕ
  | [] => []
  | (_, d) :: fields => d.nodes ++ nodesFields fields

end

/-! ## Constructors -/

variable (A : Allocator)

/-- `type_descriptor_create_primitive`, for a primitive type. -/
def createPrimitive (type : VarType) (h : (TypeDescriptor.createPrimitive type).isSome)
    (m : Memory) : Descriptor × Memory :=
  (.primitive (A.alloc m).1 type h, (A.alloc m).2)

/-- `type_descriptor_create_array`. -/
def createArray (element : Descriptor) (m : Memory) : Descriptor × Memory :=
  (.array (A.alloc m).1 element, (A.alloc m).2)

/-- `type_descriptor_create_dict`. -/
def createDict (key value : Descriptor) (m : Memory) : Descriptor × Memory :=
  (.dict (A.alloc m).1 key value, (A.alloc m).2)

/-- `type_descriptor_create_optional`. -/
def createOptional (wrapped : Descriptor) (m : Memory) : Descriptor × Memory :=
  (.optional (A.alloc m).1 wrapped, (A.alloc m).2)

/-- The copies of the types of fields, one after the other. -/
def cloneAll (clone : Descriptor → Memory → Except Fault (Descriptor × Memory)) :
    List Descriptor → Memory → Except Fault (List Descriptor × Memory)
  | [], m => .ok ([], m)
  | d :: ds, m => do
      let (copy, m) ← clone d m
      let (copies, m) ← cloneAll clone ds m
      return (copy :: copies, m)

/-- `type_descriptor_create_struct`, which copies the types of the fields. -/
def createStruct (clone : Descriptor → Memory → Except Fault (Descriptor × Memory))
    (name : Ident) (fieldNames : List Ident) (fieldTypes : List Descriptor) (m : Memory) :
    Except Fault (Descriptor × Memory) := do
  let (a, m) := A.alloc m
  let (copies, m) ← cloneAll clone fieldTypes m
  return (.struct a name (fieldNames.zip copies), m)

/-- `type_descriptor_create_class`. -/
def createClass (clone : Descriptor → Memory → Except Fault (Descriptor × Memory))
    (name : Ident) (parentName : Option Ident) (fieldNames : List Ident)
    (fieldTypes : List Descriptor) (m : Memory) : Except Fault (Descriptor × Memory) := do
  let (a, m) := A.alloc m
  let (copies, m) ← cloneAll clone fieldTypes m
  return (.class a name parentName (fieldNames.zip copies), m)

/-! ## Freeing -/

mutual

/-- `type_descriptor_free`. -/
def free : Descriptor → Memory → Except Fault Memory
  | .primitive a _ _, m => do
      readBlock a m
      freeBlock a m
  | .array a element, m => do
      readBlock a m
      freeBlock a (← element.free m)
  | .dict a key value, m => do
      readBlock a m
      freeBlock a (← value.free (← key.free m))
  | .optional a wrapped, m => do
      readBlock a m
      freeBlock a (← wrapped.free m)
  | .struct a _ fields, m => do
      readBlock a m
      freeBlock a (← freeFields fields m)
  | .class a _ _ fields, m => do
      readBlock a m
      freeBlock a (← freeFields fields m)

def freeFields : List (Ident × Descriptor) → Memory → Except Fault Memory
  | [], m => .ok m
  | (_, d) :: fields, m => do freeFields fields (← d.free m)

end

/-- The loop that frees the first copies of the types of fields. -/
def freeAll : List Descriptor → Memory → Except Fault Memory
  | [], m => .ok m
  | d :: ds, m => do freeAll ds (← d.free m)

/-! ## Copying -/

/-- `type_descriptor_clone`, with a bound on the depth of its recursion. -/
def clone : ℕ → Descriptor → Memory → Except Fault (Descriptor × Memory)
  | 0, _, _ => .error .tooDeep
  | _ + 1, .primitive a type h, m => do
      readBlock a m
      return createPrimitive A type h m
  | n + 1, .array a element, m => do
      readBlock a m
      let (copy, m) ← clone n element m
      return createArray A copy m
  | n + 1, .dict a key value, m => do
      readBlock a m
      let (keyCopy, m) ← clone n key m
      let (valueCopy, m) ← clone n value m
      return createDict A keyCopy valueCopy m
  | n + 1, .optional a wrapped, m => do
      readBlock a m
      let (copy, m) ← clone n wrapped m
      return createOptional A copy m
  | n + 1, .struct a name fields, m => do
      readBlock a m
      let (types, m) ← cloneAll (clone n) (fields.map Prod.snd) m
      let (out, m) ← createStruct A (clone n) name (fields.map Prod.fst) types m
      let m ← freeAll types m
      return (out, m)
  | n + 1, .class a name parentName fields, m => do
      readBlock a m
      let (types, m) ← cloneAll (clone n) (fields.map Prod.snd) m
      let (out, m) ← createClass A (clone n) name parentName (fields.map Prod.fst) types m
      let m ← freeAll types m
      return (out, m)

variable {A} {d : Descriptor} {ds : List Descriptor} {fields : List (Ident × Descriptor)}
  {m m' : Memory} {rest : List ℕ} {n : ℕ}

/-! ## Freeing what has been added -/

mutual

/-- **A new descriptor can be freed, and what was added with it stays.** -/
theorem exists_free : ∀ (d : Descriptor) {m₀ m : Memory} {rest : List ℕ},
    Adds m₀ m (d.nodes ++ rest) → ∃ m', d.free m = .ok m' ∧ Adds m₀ m' rest
  | .primitive a _ _, m₀, m, rest, h => by
      obtain ⟨m', hfree, hm'⟩ := h.freeBlock
      refine ⟨m', ?_, hm'⟩
      rw [free, readBlock_of_mem (h.mem (by simp [nodes]))]
      exact hfree
  | .array a element, m₀, m, rest, h => by
      rw [nodes, List.append_assoc] at h
      obtain ⟨m₁, helement, h₁⟩ := exists_free element h
      obtain ⟨m', hfree, hm'⟩ := Adds.freeBlock (a := a) h₁
      refine ⟨m', ?_, hm'⟩
      rw [free, readBlock_of_mem (h.mem (by simp)), helement]
      exact hfree
  | .dict a key value, m₀, m, rest, h => by
      rw [nodes, List.append_assoc, List.append_assoc] at h
      obtain ⟨m₁, hkey, h₁⟩ := exists_free key h
      obtain ⟨m₂, hvalue, h₂⟩ := exists_free value h₁
      obtain ⟨m', hfree, hm'⟩ := Adds.freeBlock (a := a) h₂
      refine ⟨m', ?_, hm'⟩
      rw [free, readBlock_of_mem (h.mem (by simp)), hkey]
      show (value.free m₁ >>= freeBlock a) = _
      rw [hvalue]
      exact hfree
  | .optional a wrapped, m₀, m, rest, h => by
      rw [nodes, List.append_assoc] at h
      obtain ⟨m₁, hwrapped, h₁⟩ := exists_free wrapped h
      obtain ⟨m', hfree, hm'⟩ := Adds.freeBlock (a := a) h₁
      refine ⟨m', ?_, hm'⟩
      rw [free, readBlock_of_mem (h.mem (by simp)), hwrapped]
      exact hfree
  | .struct a _ fields, m₀, m, rest, h => by
      rw [nodes, List.append_assoc] at h
      obtain ⟨m₁, hfields, h₁⟩ := exists_freeFields fields h
      obtain ⟨m', hfree, hm'⟩ := Adds.freeBlock (a := a) h₁
      refine ⟨m', ?_, hm'⟩
      rw [free, readBlock_of_mem (h.mem (by simp)), hfields]
      exact hfree
  | .class a _ _ fields, m₀, m, rest, h => by
      rw [nodes, List.append_assoc] at h
      obtain ⟨m₁, hfields, h₁⟩ := exists_freeFields fields h
      obtain ⟨m', hfree, hm'⟩ := Adds.freeBlock (a := a) h₁
      refine ⟨m', ?_, hm'⟩
      rw [free, readBlock_of_mem (h.mem (by simp)), hfields]
      exact hfree

theorem exists_freeFields : ∀ (fields : List (Ident × Descriptor)) {m₀ m : Memory}
    {rest : List ℕ}, Adds m₀ m (nodesFields fields ++ rest) →
      ∃ m', freeFields fields m = .ok m' ∧ Adds m₀ m' rest
  | [], _, m, _, h => ⟨m, rfl, h⟩
  | (_, d) :: fields, m₀, m, rest, h => by
      rw [nodesFields, List.append_assoc] at h
      obtain ⟨m₁, hd, h₁⟩ := exists_free d h
      obtain ⟨m', hfields, hm'⟩ := exists_freeFields fields h₁
      refine ⟨m', ?_, hm'⟩
      rw [freeFields, hd]
      exact hfields

end

theorem exists_freeAll {m₀ : Memory} (h : Adds m₀ m (ds.flatMap nodes ++ rest)) :
    ∃ m', freeAll ds m = .ok m' ∧ Adds m₀ m' rest := by
  induction ds generalizing m with
  | nil => exact ⟨m, rfl, h⟩
  | cons d ds ih =>
    rw [List.flatMap_cons, List.append_assoc] at h
    obtain ⟨m₁, hd, h₁⟩ := exists_free d h
    obtain ⟨m', hall, hm'⟩ := ih h₁
    refine ⟨m', ?_, hm'⟩
    rw [freeAll, hd]
    exact hall

/-! ## Copies -/

/-- The function makes a copy of the descriptor, wherever its nodes are allocated, and adds
nothing but the copy. -/
def Copies (clone : Descriptor → Memory → Except Fault (Descriptor × Memory)) (d : Descriptor) :
    Prop :=
  ∀ m, (∀ a ∈ d.nodes, a ∈ m.live) → ∃ copy m', clone d m = .ok (copy, m') ∧
    copy.erase = d.erase ∧ Adds m m' copy.nodes

theorem nodesFields_eq_flatMap : nodesFields fields = (fields.map Prod.snd).flatMap nodes := by
  induction fields with
  | nil => rfl
  | cons field fields ih => rw [nodesFields, ih, List.map_cons, List.flatMap_cons]

/-- The fields with copies for their types. -/
theorem eraseFields_zip (h : ds.map erase = (fields.map Prod.snd).map erase) :
    eraseFields ((fields.map Prod.fst).zip ds) = eraseFields fields := by
  induction fields generalizing ds with
  | nil => rfl
  | cons field fields ih =>
    cases ds with
    | nil => exact absurd h (by simp)
    | cons d ds =>
      simp only [List.map_cons, List.cons.injEq] at h
      rw [List.map_cons, List.zip_cons_cons, eraseFields, eraseFields, h.1, ih h.2]

theorem nodesFields_zip (h : ds.map erase = (fields.map Prod.snd).map erase) :
    nodesFields ((fields.map Prod.fst).zip ds) = ds.flatMap nodes := by
  have hlength : ds.length = fields.length := by simpa using congrArg List.length h
  rw [nodesFields_eq_flatMap, List.map_snd_zip (by simp [hlength])]

/-- Descriptors are copied one after the other. -/
theorem exists_cloneAll {copy : Descriptor → Memory → Except Fault (Descriptor × Memory)}
    (hcopies : ∀ d ∈ ds, Copies copy d) (hlive : ∀ a ∈ ds.flatMap nodes, a ∈ m.live) :
    ∃ ds' m', cloneAll copy ds m = .ok (ds', m') ∧ ds'.map erase = ds.map erase ∧
      Adds m m' (ds'.flatMap nodes) := by
  induction ds generalizing m with
  | nil => exact ⟨[], m, rfl, rfl, .refl m⟩
  | cons d ds ih =>
    rw [List.flatMap_cons] at hlive
    obtain ⟨d', m₁, hd, herase, h₁⟩ := hcopies d List.mem_cons_self m fun a ha =>
      hlive a (List.mem_append_left _ ha)
    obtain ⟨ds', m', hds, herases, h'⟩ := ih (fun d hd => hcopies d (List.mem_cons_of_mem _ hd))
      fun a ha => h₁.mono (hlive a (List.mem_append_right _ ha))
    refine ⟨d' :: ds', m', ?_, ?_, ?_⟩
    · rw [cloneAll, hd]
      show (cloneAll copy ds m₁ >>= _) = _
      rw [hds]
      rfl
    · rw [List.map_cons, List.map_cons, herase, herases]
    · rw [List.flatMap_cons]
      exact h₁.trans h'

mutual

/-- How deep a type is. -/
def depth : TypeDescriptor → ℕ
  | .array element => depth element + 1
  | .dict key value => max (depth key) (depth value) + 1
  | .optional wrapped => depth wrapped + 1
  | .struct _ fields => depthFields fields + 1
  | .class _ _ fields => depthFields fields + 1
  | _ => 1

def depthFields : List (Ident × TypeDescriptor) → ℕ
  | [] => 0
  | (_, t) :: fields => max (depth t) (depthFields fields)

end

theorem depth_pos (t : TypeDescriptor) : 0 < depth t := by
  cases t <;> simp [depth]

theorem depth_le_depthFields {t : TypeDescriptor}
    (h : t ∈ (fields.map Prod.snd).map erase) : depth t ≤ depthFields (eraseFields fields) := by
  induction fields with
  | nil => exact absurd h (by simp)
  | cons field fields ih =>
    rw [eraseFields, depthFields]
    rcases List.mem_cons.mp h with rfl | h
    · exact le_max_left _ _
    · exact (ih h).trans (le_max_right _ _)

/-- The two copies of the types of fields, as `type_descriptor_create_struct` and
`type_descriptor_create_class` make them, and what is left when the first are freed. -/
theorem exists_copies_of_fields {copy : Descriptor → Memory → Except Fault (Descriptor × Memory)}
    (hcopies : ∀ d : Descriptor, d.erase ∈ (fields.map Prod.snd).map erase → Copies copy d)
    (hlive : ∀ a ∈ nodesFields fields, a ∈ m.live) :
    ∃ types m₁, cloneAll copy (fields.map Prod.snd) m = .ok (types, m₁) ∧
      ∃ copies m₂, cloneAll copy types (A.alloc m₁).2 = .ok (copies, m₂) ∧
        copies.map erase = (fields.map Prod.snd).map erase ∧
        ∃ m₃, freeAll types m₂ = .ok m₃ ∧
          Adds m m₃ (copies.flatMap nodes ++ [(A.alloc m₁).1]) := by
  rw [nodesFields_eq_flatMap] at hlive
  obtain ⟨types, m₁, htypes, herase, h₁⟩ := exists_cloneAll
    (fun d hd => hcopies d (List.mem_map_of_mem hd)) hlive
  have halloc := adds_alloc A m₁
  obtain ⟨copies, m₂, hcopy, herase', h₂⟩ := exists_cloneAll (m := (A.alloc m₁).2)
    (fun d hd => hcopies d (herase ▸ List.mem_map_of_mem hd))
    fun a ha => halloc.mono (h₁.mem ha)
  obtain ⟨m₃, hfree, h₃⟩ := exists_freeAll (h₁.trans (halloc.trans h₂))
  refine ⟨types, m₁, htypes, copies, m₂, hcopy, herase'.trans herase, m₃, hfree, ?_⟩
  exact h₃.perm List.perm_append_comm

theorem createStruct_eq {copy : Descriptor → Memory → Except Fault (Descriptor × Memory)}
    {name : Ident} {names : List Ident} {types copies : List Descriptor}
    (h : cloneAll copy types (A.alloc m).2 = .ok (copies, m')) :
    createStruct A copy name names types m =
      .ok (.struct (A.alloc m).1 name (names.zip copies), m') := by
  unfold createStruct
  show (cloneAll copy types (A.alloc m).2 >>= _) = _
  rw [h]
  rfl

theorem createClass_eq {copy : Descriptor → Memory → Except Fault (Descriptor × Memory)}
    {name : Ident} {parentName : Option Ident} {names : List Ident}
    {types copies : List Descriptor}
    (h : cloneAll copy types (A.alloc m).2 = .ok (copies, m')) :
    createClass A copy name parentName names types m =
      .ok (.class (A.alloc m).1 name parentName (names.zip copies), m') := by
  unfold createClass
  show (cloneAll copy types (A.alloc m).2 >>= _) = _
  rw [h]
  rfl

/-- **`type_descriptor_clone` copies a descriptor.** -/
theorem copies_clone (d : Descriptor) (h : depth d.erase ≤ n) : Copies (clone A n) d := by
  induction n generalizing d with
  | zero => exact absurd (depth_pos d.erase) (by omega)
  | succ n ih =>
    intro m hlive
    cases d with
    | primitive a type htype =>
      refine ⟨(createPrimitive A type htype m).1, (createPrimitive A type htype m).2, ?_, rfl,
        adds_alloc A m⟩
      rw [clone, readBlock_of_mem (hlive a (by simp [nodes]))]
      rfl
    | array a element =>
      rw [erase, depth] at h
      obtain ⟨copy, m₁, hcopy, herase, h₁⟩ := ih element (by omega) m fun b hb =>
        hlive b (List.mem_append_left _ hb)
      refine ⟨(createArray A copy m₁).1, (createArray A copy m₁).2, ?_, ?_,
        h₁.trans (adds_alloc A m₁)⟩
      · rw [clone, readBlock_of_mem (hlive a (by simp [nodes]))]
        show (clone A n element m >>= _) = _
        rw [hcopy]
        rfl
      · exact congrArg TypeDescriptor.array herase
    | dict a key value =>
      rw [erase, depth] at h
      obtain ⟨keyCopy, m₁, hkey, hkeyErase, h₁⟩ := ih key (by omega) m fun b hb =>
        hlive b (List.mem_append_left _ hb)
      obtain ⟨valueCopy, m₂, hvalue, hvalueErase, h₂⟩ := ih value (by omega) m₁ fun b hb =>
        h₁.mono (hlive b (List.mem_append_right _ (List.mem_append_left _ hb)))
      refine ⟨(createDict A keyCopy valueCopy m₂).1, (createDict A keyCopy valueCopy m₂).2, ?_, ?_,
        h₁.trans (h₂.trans (adds_alloc A m₂))⟩
      · rw [clone, readBlock_of_mem (hlive a (by simp [nodes]))]
        show (clone A n key m >>= _) = _
        rw [hkey]
        show (clone A n value m₁ >>= _) = _
        rw [hvalue]
        rfl
      · exact congrArg₂ TypeDescriptor.dict hkeyErase hvalueErase
    | optional a wrapped =>
      rw [erase, depth] at h
      obtain ⟨copy, m₁, hcopy, herase, h₁⟩ := ih wrapped (by omega) m fun b hb =>
        hlive b (List.mem_append_left _ hb)
      refine ⟨(createOptional A copy m₁).1, (createOptional A copy m₁).2, ?_, ?_,
        h₁.trans (adds_alloc A m₁)⟩
      · rw [clone, readBlock_of_mem (hlive a (by simp [nodes]))]
        show (clone A n wrapped m >>= _) = _
        rw [hcopy]
        rfl
      · exact congrArg TypeDescriptor.optional herase
    | struct a name fields =>
      rw [erase, depth] at h
      obtain ⟨types, m₁, htypes, copies, m₂, hcopies, herase, m₃, hfree, h₃⟩ :=
        exists_copies_of_fields
          (fun d hd => (ih d ((depth_le_depthFields hd).trans (by omega)) : Copies (clone A n) d))
          fun b hb => hlive b (List.mem_append_left _ hb)
      refine ⟨.struct (A.alloc m₁).1 name ((fields.map Prod.fst).zip copies), m₃, ?_, ?_, ?_⟩
      · rw [clone, readBlock_of_mem (hlive a (by simp [nodes]))]
        show (cloneAll _ _ m >>= _) = _
        rw [htypes]
        show (createStruct A _ name _ types m₁ >>= _) = _
        rw [createStruct_eq hcopies]
        show (freeAll types m₂ >>= _) = _
        rw [hfree]
        rfl
      · exact congrArg (TypeDescriptor.struct name) (eraseFields_zip herase)
      · rw [nodes, nodesFields_zip herase]
        exact h₃
    | «class» a name parentName fields =>
      rw [erase, depth] at h
      obtain ⟨types, m₁, htypes, copies, m₂, hcopies, herase, m₃, hfree, h₃⟩ :=
        exists_copies_of_fields
          (fun d hd => (ih d ((depth_le_depthFields hd).trans (by omega)) : Copies (clone A n) d))
          fun b hb => hlive b (List.mem_append_left _ hb)
      refine ⟨.class (A.alloc m₁).1 name parentName ((fields.map Prod.fst).zip copies), m₃,
        ?_, ?_, ?_⟩
      · rw [clone, readBlock_of_mem (hlive a (by simp [nodes]))]
        show (cloneAll _ _ m >>= _) = _
        rw [htypes]
        show (createClass A _ name parentName _ types m₁ >>= _) = _
        rw [createClass_eq hcopies]
        show (freeAll types m₂ >>= _) = _
        rw [hfree]
        rfl
      · exact congrArg (TypeDescriptor.class name parentName) (eraseFields_zip herase)
      · rw [nodes, nodesFields_zip herase]
        exact h₃

end Descriptor

/-! ## Equality -/

namespace TypeDescriptor

mutual

theorem equals_symm : ∀ {a b : TypeDescriptor}, a.equals b = true → b.equals a = true
  | .array a, .array b, h => by
      rw [equals] at h ⊢
      exact equals_symm h
  | .dict _ _, .dict _ _, h => by
      rw [equals, Bool.and_eq_true] at h ⊢
      exact ⟨equals_symm h.1, equals_symm h.2⟩
  | .optional a, .optional b, h => by
      rw [equals] at h ⊢
      exact equals_symm h
  | .struct _ _, .struct _ _, h => by
      rw [equals, Bool.and_eq_true, beq_iff_eq] at h ⊢
      exact ⟨h.1.symm, equalsFields_symm h.2⟩
  | .class _ _ _, .class _ _ _, h => by
      rw [equals, beq_iff_eq] at h ⊢
      exact h.symm
  | .string, .string, _ | .int, .int, _ | .bool, .bool, _ => rfl
  | .float, .float, _ | .double, .double, _ | .nil, .nil, _ => rfl

theorem equalsFields_symm : ∀ {as bs : List (Ident × TypeDescriptor)},
    equalsFields as bs = true → equalsFields bs as = true
  | [], [], _ => rfl
  | (_, _) :: _, (_, _) :: _, h => by
      simp only [equalsFields, Bool.and_eq_true, beq_iff_eq] at h ⊢
      exact ⟨⟨h.1.1.symm, equals_symm h.1.2⟩, equalsFields_symm h.2⟩

end

/-- **`type_descriptor_equals` is an equivalence.** -/
theorem equals_equivalence : Equivalence fun a b : TypeDescriptor => a.equals b = true :=
  ⟨equals_refl, equals_symm, equals_trans⟩

/-- A field with an equal type. -/
theorem equalsFields_replace {before after : List (Ident × TypeDescriptor)} {name : Ident}
    {a b : TypeDescriptor} (h : a.equals b = true) :
    equalsFields (before ++ (name, a) :: after) (before ++ (name, b) :: after) = true := by
  induction before with
  | nil => simp [equalsFields, h, equalsFields_refl]
  | cons field before ih => simp [equalsFields, equals_refl, ih]

/-- A component may be replaced by an equal one. -/
structure EqualsCongruent : Prop where
  array : ∀ {a b : TypeDescriptor}, a.equals b = true → (array a).equals (.array b) = true
  dictKey : ∀ {a b value : TypeDescriptor}, a.equals b = true →
    (dict a value).equals (.dict b value) = true
  dictValue : ∀ {key a b : TypeDescriptor}, a.equals b = true →
    (dict key a).equals (.dict key b) = true
  optional : ∀ {a b : TypeDescriptor}, a.equals b = true →
    (optional a).equals (.optional b) = true
  struct : ∀ {name field : Ident} {before after : List (Ident × TypeDescriptor)}
    {a b : TypeDescriptor}, a.equals b = true →
      (struct name (before ++ (field, a) :: after)).equals
        (.struct name (before ++ (field, b) :: after)) = true

theorem equalsCongruent : EqualsCongruent where
  array := by
    intro a b h
    simpa [equals] using h
  dictKey := by
    intro a b value h
    simp [equals, h, equals_refl]
  dictValue := by
    intro key a b h
    simp [equals, h, equals_refl]
  optional := by
    intro a b h
    simpa [equals] using h
  struct := by
    intro name field before after a b h
    simp [equals, equalsFields_replace h]

end TypeDescriptor

/-! ## Faithful copies -/

namespace Descriptor

/-- A copy of a descriptor: the structure of the original, new nodes, and nothing else
allocated or freed. -/
structure FaithfulCopy (d : Descriptor) (m : Memory) (copy : Descriptor) (m' : Memory) : Prop where
  structure_eq : copy.erase = d.erase
  no_shared_node : ∀ a ∈ copy.nodes, a ∉ d.nodes
  equals : copy.erase.equals d.erase = true
  adds : Adds m m' copy.nodes

/-- **Descriptors are copied faithfully, and their equality is an equivalence and a
congruence.** -/
theorem clone_faithful (A : Allocator) (d : Descriptor) (m : Memory)
    (hlive : ∀ a ∈ d.nodes, a ∈ m.live) :
    (∃ n copy m', clone A n d m = .ok (copy, m') ∧ FaithfulCopy d m copy m') ∧
      Equivalence (fun a b : TypeDescriptor => a.equals b = true) ∧
      TypeDescriptor.EqualsCongruent := by
  refine ⟨?_, TypeDescriptor.equals_equivalence, TypeDescriptor.equalsCongruent⟩
  obtain ⟨copy, m', hclone, herase, hadds⟩ := copies_clone (A := A) d le_rfl m hlive
  refine ⟨depth d.erase, copy, m', hclone, herase, fun a ha hd => ?_, ?_, hadds⟩
  · exact hadds.fresh a ha (hlive a hd)
  · rw [herase]
    exact TypeDescriptor.equals_refl _

/-- `[String: P]` with `struct P { x: Int? }`. -/
def exampleDescriptor : Descriptor :=
  .dict 5 (.primitive 1 .typeString rfl)
    (.struct 4 "P".toList [("x".toList, .optional 3 (.primitive 2 .typeInt rfl))])

theorem exampleDescriptor_faithful :
    (∃ n copy m', clone .above n exampleDescriptor ⟨{1, 2, 3, 4, 5}, 5⟩ = .ok (copy, m') ∧
      FaithfulCopy exampleDescriptor ⟨{1, 2, 3, 4, 5}, 5⟩ copy m') ∧
      Equivalence (fun a b : TypeDescriptor => a.equals b = true) ∧
      TypeDescriptor.EqualsCongruent :=
  clone_faithful .above exampleDescriptor ⟨{1, 2, 3, 4, 5}, 5⟩ (by decide)

end Descriptor

end BreadLang
