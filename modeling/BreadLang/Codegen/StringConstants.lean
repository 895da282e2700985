import BreadLang.Library.Intern
import Mathlib.Algebra.Ring.Nat
import Mathlib.Data.List.Forall2

/-!
# The string constants of a module

Every name and every literal of a program becomes a private global of the module
that is built.  The global is found again by its name, which holds the 32-bit
hash of the string and nothing else of it, and a global that is found is returned
without a look at its initializer.

`stringGlobals_faithful_iff` says for which requests this is harmless.  The
lengths matter because they are cast to `unsigned` on their way into the constant.
-/

namespace BreadLang

/-- A string as C has it: its bytes up to the terminator, which are not zero. -/
structure CString where
  bytes : List UInt8
  nulFree : 0 ∉ bytes
  deriving DecidableEq

namespace CString

/-- The empty string. -/
def empty : CString := ⟨[], List.not_mem_nil⟩

/-- `strlen`. -/
def strlen (s : CString) : ℕ := s.bytes.length

@[ext] theorem ext {s t : CString} (h : s.bytes = t.bytes) : s = t := by
  cases s
  cases t
  congr

end CString

/-- `fnv1a_hash`. -/
def fnv1aHash (s : CString) : UInt32 :=
  s.bytes.foldl (fun h p => (h ^^^ p.toUInt32) * 16777619) 2166136261

/-- The eight digits that `%08x` prints. -/
def hexDigits (n : UInt32) : List Char :=
  (List.range 8).reverse.map fun i => Nat.digitChar (n.toNat / 16 ^ i % 16)

theorem digitChar_injective :
    ∀ a < 16, ∀ b < 16, Nat.digitChar a = Nat.digitChar b → a = b := by
  decide

/-- A number of so many digits is determined by them. -/
theorem eq_of_digits_eq {k m n : ℕ} (hm : m < 16 ^ k) (hn : n < 16 ^ k)
    (h : ∀ i < k, m / 16 ^ i % 16 = n / 16 ^ i % 16) : m = n := by
  induction k generalizing m n with
  | zero =>
      rw [Nat.lt_one_iff.mp hm, Nat.lt_one_iff.mp hn]
  | succ k ih =>
      have hlast : m % 16 = n % 16 := by simpa using h 0 k.succ_pos
      have hfront : m / 16 = n / 16 := by
        refine ih (Nat.div_lt_of_lt_mul ?_) (Nat.div_lt_of_lt_mul ?_) fun i hi => ?_
        · rwa [← Nat.pow_succ']
        · rwa [← Nat.pow_succ']
        · have hdigit := h (i + 1) (Nat.succ_lt_succ hi)
          rwa [Nat.pow_succ', ← Nat.div_div_eq_div_mul, ← Nat.div_div_eq_div_mul] at hdigit
      rw [← Nat.div_add_mod m 16, ← Nat.div_add_mod n 16, hlast, hfront]

theorem hexDigits_injective {m n : UInt32} (h : hexDigits m = hexDigits n) : m = n := by
  refine UInt32.toNat_inj.mp (eq_of_digits_eq (k := 8) m.toNat_lt n.toNat_lt fun i hi => ?_)
  have hmem : i ∈ (List.range 8).reverse := List.mem_reverse.mpr (List.mem_range.mpr hi)
  exact digitChar_injective _ (Nat.mod_lt _ (by decide)) _ (Nat.mod_lt _ (by decide))
    (List.map_inj_left.mp h i hmem)

/-- The name that `cg_get_string_global` prints for a string. -/
def stringGlobalName (s : CString) : String :=
  "__bread_str_" ++ String.ofList (hexDigits (fnv1aHash s))

theorem stringGlobalName_eq_iff {s t : CString} :
    stringGlobalName s = stringGlobalName t ↔ fnv1aHash s = fnv1aHash t := by
  refine ⟨fun h => ?_, fun h => by rw [stringGlobalName, h, stringGlobalName]⟩
  have happend := congrArg String.toList h
  simp only [stringGlobalName, String.toList_append, String.toList_ofList] at happend
  exact hexDigits_injective (List.append_cancel_left happend)

/-- A global variable of the module: the length of its array type, and the bytes
of its initializer. -/
structure LLVMGlobal where
  name : String
  arrayLength : ℕ
  initializer : List UInt8
  deriving DecidableEq

/-- A length that is cast to `unsigned`. -/
def lengthToUnsigned (n : ℕ) : ℕ := n % 2 ^ 32

/-- `LLVMConstString` of the first bytes of a string, with the null that it
appends. -/
def llvmConstString (s : CString) (length : ℕ) : List UInt8 :=
  s.bytes.take length ++ [0]

/-- The global that is made for a string that has none. -/
def newStringGlobal (s : CString) : LLVMGlobal where
  name := stringGlobalName s
  arrayLength := lengthToUnsigned (s.strlen + 1)
  initializer := llvmConstString s (lengthToUnsigned s.strlen)

/-- `LLVMGetNamedGlobal`. -/
def llvmGetNamedGlobal (mod : List LLVMGlobal) (name : String) : Option LLVMGlobal :=
  mod.find? (fun glob => glob.name = name)

/-- `cg_get_string_global`, on a module that holds no other globals: the global
that is returned, and the globals of the module afterwards. -/
def cgGetStringGlobal (s : Option CString) (mod : List LLVMGlobal) :
    LLVMGlobal × List LLVMGlobal :=
  let s := s.getD .empty
  match llvmGetNamedGlobal mod (stringGlobalName s) with
  | some existing => (existing, mod)
  | none => (newStringGlobal s, mod ++ [newStringGlobal s])

/-- The pointer that `cg_get_string_ptr` computes: the global, and an index into
its array. -/
structure StringPtr where
  glob : LLVMGlobal
  index : ℕ
  deriving DecidableEq

/-- `cg_get_string_ptr`. -/
def cgGetStringPtr (s : Option CString) (mod : List LLVMGlobal) : StringPtr × List LLVMGlobal :=
  let (glob, mod) := cgGetStringGlobal s mod
  (⟨glob, 0⟩, mod)

/-- A place of the code generator that asks for a string. -/
inductive StringRequest where
  | asGlobal (s : CString)
  | asPointer (s : CString)
  deriving DecidableEq

namespace StringRequest

/-- The string that is asked for. -/
def string : StringRequest → CString
  | asGlobal s => s
  | asPointer s => s

/-- The global that answers a request, directly or behind the pointer. -/
def answer : StringRequest → List LLVMGlobal → LLVMGlobal × List LLVMGlobal
  | asGlobal s, mod => cgGetStringGlobal (some s) mod
  | asPointer s, mod =>
      let (ptr, mod) := cgGetStringPtr (some s) mod
      (ptr.glob, mod)

/-- The global that is made for a request when there is none. -/
def candidate (request : StringRequest) : LLVMGlobal :=
  newStringGlobal request.string

/-- The globals that answer the requests made while a module is built. -/
def answers : List StringRequest → List LLVMGlobal → List LLVMGlobal
  | [], _ => []
  | request :: requests, mod =>
      (request.answer mod).1 :: answers requests (request.answer mod).2

/-- A request is an interning by the name of the global. -/
theorem answer_eq_intern (request : StringRequest) (mod : List LLVMGlobal) :
    request.answer mod = Intern.intern LLVMGlobal.name request.candidate mod := by
  have hglobal (s : CString) : cgGetStringGlobal (some s) mod =
      Intern.intern LLVMGlobal.name (newStringGlobal s) mod := by
    rw [cgGetStringGlobal, llvmGetNamedGlobal, Intern.intern, Option.getD_some, newStringGlobal]
    cases mod.find? (fun glob => glob.name = stringGlobalName s) <;> rfl
  cases request with
  | asGlobal s => exact hglobal s
  | asPointer s => exact hglobal s

theorem answers_eq_internAll (requests : List StringRequest) (mod : List LLVMGlobal) :
    answers requests mod =
      Intern.internAll LLVMGlobal.name (requests.map candidate) mod := by
  induction requests generalizing mod with
  | nil => rfl
  | cons request requests ih =>
      rw [answers, List.map_cons, Intern.internAll, answer_eq_intern, ih]

/-- The global that the first request with the same name gets. -/
def firstLike (requests : List StringRequest) (request : StringRequest) : LLVMGlobal :=
  Intern.firstLike LLVMGlobal.name (requests.map candidate) request.candidate

theorem answers_nil (requests : List StringRequest) :
    answers requests [] = requests.map (firstLike requests) := by
  rw [answers_eq_internAll, Intern.internAll_nil, List.map_map]
  rfl

end StringRequest

/-- The initializer holds exactly the bytes of the string, and its terminator. -/
def HoldsString (s : CString) (glob : LLVMGlobal) : Prop :=
  glob.initializer = s.bytes ++ [0]

/-- A global holds a short enough string only. -/
theorem strlen_lt_of_holdsString {s t : CString} (h : HoldsString s (newStringGlobal t)) :
    s.strlen < 2 ^ 32 := by
  rw [HoldsString, newStringGlobal, llvmConstString, List.append_left_inj] at h
  rw [CString.strlen, ← h, List.length_take]
  exact Nat.lt_of_le_of_lt (Nat.min_le_left _ _) (Nat.mod_lt _ (by decide))

/-- A global that is made for a string holds it unless the length wraps around. -/
theorem holdsString_newStringGlobal {s : CString} (h : s.strlen < 2 ^ 32) :
    HoldsString s (newStringGlobal s) := by
  have hlength : lengthToUnsigned s.strlen = s.bytes.length := Nat.mod_eq_of_lt h
  rw [HoldsString, newStringGlobal, hlength, llvmConstString, List.take_length]

theorem HoldsString.unique {s t : CString} {glob : LLVMGlobal} (hs : HoldsString s glob)
    (ht : HoldsString t glob) : s = t :=
  CString.ext (List.append_cancel_right (hs.symm.trans ht))

/-- **The globals returned hold the strings asked for, whatever the order of the
requests, exactly when the strings are shorter than the range of `unsigned` and
no two of them have one hash.** -/
theorem stringGlobals_faithful_iff (requests : List StringRequest) :
    List.Forall₂ (fun request glob => HoldsString request.string glob) requests
        (StringRequest.answers requests []) ↔
      (∀ r ∈ requests, r.string.strlen < 2 ^ 32) ∧
        ∀ r ∈ requests, ∀ r' ∈ requests,
          fnv1aHash r.string = fnv1aHash r'.string → r.string = r'.string := by
  have hfirst : ∀ r ∈ requests, ∃ t ∈ requests, r.firstLike requests = t.candidate ∧
      fnv1aHash t.string = fnv1aHash r.string := by
    intro r hr
    obtain ⟨hmem, hkey⟩ := Intern.firstLike_mem LLVMGlobal.name (List.mem_map_of_mem hr)
    obtain ⟨t, ht, heq⟩ := List.mem_map.mp hmem
    rw [← heq] at hkey
    exact ⟨t, ht, heq.symm, stringGlobalName_eq_iff.mp hkey⟩
  rw [StringRequest.answers_nil, List.forall₂_map_right_iff, List.forall₂_same]
  constructor
  · intro hholds
    refine ⟨fun r hr => ?_, fun r hr r' hr' hhash => ?_⟩
    · obtain ⟨t, -, heq, -⟩ := hfirst r hr
      exact strlen_lt_of_holdsString (heq ▸ hholds r hr)
    · have hsame : r.firstLike requests = r'.firstLike requests :=
        Intern.firstLike_congr (List.mem_map_of_mem hr) (stringGlobalName_eq_iff.mpr hhash)
      exact (hsame ▸ hholds r hr).unique (hholds r' hr')
  · rintro ⟨hlength, hdistinct⟩ r hr
    obtain ⟨t, ht, heq, hhash⟩ := hfirst r hr
    rw [heq, StringRequest.candidate, hdistinct t ht r hr hhash]
    exact holdsString_newStringGlobal (hlength r hr)

/-- The literals `costarring` and `liquid` of one program, in this order. -/
def collidingRequests : List StringRequest :=
  [.asPointer ⟨[99, 111, 115, 116, 97, 114, 114, 105, 110, 103], by decide⟩,
    .asPointer ⟨[108, 105, 113, 117, 105, 100], by decide⟩]

/-- The second literal is answered by the global of the first. -/
theorem collidingRequests_unfaithful :
    ¬ List.Forall₂ (fun request glob => HoldsString request.string glob) collidingRequests
      (StringRequest.answers collidingRequests []) := by
  unfold HoldsString
  decide +kernel

end BreadLang
