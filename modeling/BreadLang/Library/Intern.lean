import Mathlib.Data.List.Basic

/-!
# Interning by a key

A table of entries in which a request for an entry answers with the one that has
the same key, and adds the entry only when there is none.  The key need not
determine the entry, so a request may answer with something else than was asked
for: from the empty table every request is answered by the first one with its key
(`internAll_nil`).
-/

namespace BreadLang

namespace Intern

variable {β κ : Type} [DecidableEq κ] {key : β → κ}

/-- The answer to a request, and the table afterwards. -/
def intern (key : β → κ) (b : β) (table : List β) : β × List β :=
  match table.find? (fun entry => key entry = key b) with
  | some entry => (entry, table)
  | none => (b, table ++ [b])

/-- The answers to requests made one after the other. -/
def internAll (key : β → κ) : List β → List β → List β
  | [], _ => []
  | b :: requests, table =>
      (intern key b table).1 :: internAll key requests (intern key b table).2

/-- The first entry of a list that has the key of `b`, or `b` itself. -/
def firstLike (key : β → κ) (entries : List β) (b : β) : β :=
  (entries.find? fun entry => key entry = key b).getD b

theorem firstLike_append_cons (table requests : List β) (b : β) :
    firstLike key (table ++ b :: requests) b = (intern key b table).1 := by
  rw [firstLike, intern, List.find?_append]
  cases table.find? (fun entry => key entry = key b) with
  | none => simp
  | some entry => rfl

/-- A request leaves a table that answers every later request as if the requested
entry stood behind the table. -/
theorem find?_intern_append (table requests : List β) (b b' : β) :
    ((intern key b table).2 ++ requests).find? (fun entry => key entry = key b') =
      (table ++ b :: requests).find? (fun entry => key entry = key b') := by
  rw [intern]
  cases hfind : table.find? (fun entry => key entry = key b) with
  | none => simp
  | some entry =>
      simp only [List.find?_append, List.find?_cons]
      by_cases hkey : key b = key b'
      · rw [← hkey, hfind]
        rfl
      · simp [hkey]

theorem internAll_eq (requests table : List β) :
    internAll key requests table = requests.map (firstLike key (table ++ requests)) := by
  induction requests generalizing table with
  | nil => rfl
  | cons b requests ih =>
      rw [internAll, ih, List.map_cons, firstLike_append_cons]
      congr 1
      refine List.map_congr_left fun b' _ => ?_
      rw [firstLike, firstLike, find?_intern_append]

/-- **Every request is answered by the first one with its key.** -/
theorem internAll_nil (requests : List β) :
    internAll key requests [] = requests.map (firstLike key requests) :=
  internAll_eq requests []

variable (key) in
/-- The first entry like a member of the list is a member with its key. -/
theorem firstLike_mem {entries : List β} {b : β} (hb : b ∈ entries) :
    firstLike key entries b ∈ entries ∧ key (firstLike key entries b) = key b := by
  rw [firstLike]
  cases hfind : entries.find? (fun entry => key entry = key b) with
  | none => exact ⟨hb, rfl⟩
  | some entry => exact ⟨List.mem_of_find?_eq_some hfind, by simpa using List.find?_some hfind⟩

/-- Members with one key have one first entry. -/
theorem firstLike_congr {entries : List β} {b b' : β} (hb : b ∈ entries)
    (hkey : key b = key b') : firstLike key entries b = firstLike key entries b' := by
  rw [firstLike, firstLike, ← hkey]
  cases hfind : entries.find? (fun entry => key entry = key b) with
  | none =>
      have hnot := List.find?_eq_none.mp hfind b hb
      simp at hnot
  | some entry => rfl

end Intern

end BreadLang
