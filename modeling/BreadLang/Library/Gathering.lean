import BreadLang.Library.Chain
import Mathlib.Data.List.Nodup

/-!
# The order in which names are gathered

`Walk.gather` puts the names of a node first and then, node by node, the names that are new.
Each name is then there once, in the order of the first node that has it, as far as the names
of the first node are different.
-/

namespace BreadLang

namespace Walk

variable {α ι : Type} [DecidableEq ι]

section AddNew

variable {known names : List ι} {x name : ι}

@[simp] theorem addNew_nil : addNew known [] = known := rfl

theorem addNew_cons_of_mem (h : name ∈ known) :
    addNew known (name :: names) = addNew known names := by
  simp [addNew, h]

theorem addNew_cons_of_notMem (h : name ∉ known) :
    addNew known (name :: names) = addNew (known ++ [name]) names := by
  simp [addNew, h]

/-- What is added is new, and once there. -/
theorem exists_addNew (known names : List ι) : ∃ new, addNew known names = known ++ new ∧
    new.Nodup ∧ ∀ x, x ∈ new ↔ x ∈ names ∧ x ∉ known := by
  induction names generalizing known with
  | nil => exact ⟨[], by simp⟩
  | cons name names ih =>
    by_cases h : name ∈ known
    · obtain ⟨new, hadd, hnodup, hnew⟩ := ih known
      refine ⟨new, by rw [addNew_cons_of_mem h, hadd], hnodup, fun x => ?_⟩
      rw [hnew, List.mem_cons]
      constructor
      · rintro ⟨hx, hknown⟩
        exact ⟨.inr hx, hknown⟩
      · rintro ⟨rfl | hx, hknown⟩
        · exact absurd h hknown
        · exact ⟨hx, hknown⟩
    · obtain ⟨new, hadd, hnodup, hnew⟩ := ih (known ++ [name])
      refine ⟨name :: new, ?_, ?_, fun x => ?_⟩
      · rw [addNew_cons_of_notMem h, hadd, List.append_assoc, List.singleton_append]
      · refine List.nodup_cons.mpr ⟨fun hmem => ?_, hnodup⟩
        exact ((hnew name).mp hmem).2 (by simp)
      · by_cases hx : x = name
        · subst hx
          simp [h]
        · simp [hnew, hx]

theorem mem_addNew : x ∈ addNew known names ↔ x ∈ known ∨ x ∈ names := by
  obtain ⟨new, hadd, -, hnew⟩ := exists_addNew known names
  rw [hadd, List.mem_append, hnew]
  by_cases h : x ∈ known <;> simp [h]

theorem prefix_addNew : known <+: addNew known names := by
  obtain ⟨new, hadd, -, -⟩ := exists_addNew known names
  exact ⟨new, hadd.symm⟩

theorem nodup_addNew (h : known.Nodup) : (addNew known names).Nodup := by
  obtain ⟨new, hadd, hnodup, hnew⟩ := exists_addNew known names
  rw [hadd, List.nodup_append]
  refine ⟨h, hnodup, fun x hx y hy hxy => ?_⟩
  subst hxy
  exact ((hnew x).mp hy).2 hx

theorem length_addNew_le : (addNew known names).length ≤ known.length + names.length := by
  induction names generalizing known with
  | nil => simp
  | cons name names ih =>
    by_cases h : name ∈ known
    · rw [addNew_cons_of_mem h, List.length_cons]
      exact ih.trans (by omega)
    · rw [addNew_cons_of_notMem h]
      refine ih.trans ?_
      simp
      omega

end AddNew

section Gathered

variable {names : α → List ι} {l : List α} {known : List ι} {x : ι} {a : α}

/-- The names that are gathered from the nodes. -/
def addAll (names : α → List ι) (known : List ι) (l : List α) : List ι :=
  l.foldl (fun known a => addNew known (names a)) known

/-- The place of the first node that has a name. -/
def firstPlace (names : α → List ι) (l : List α) (x : ι) : ℕ :=
  l.findIdx fun a => x ∈ names a

@[simp] theorem addAll_nil : addAll names known [] = known := rfl

@[simp] theorem addAll_cons :
    addAll names known (a :: l) = addAll names (addNew known (names a)) l := rfl

theorem addAll_concat :
    addAll names known (l ++ [a]) = addNew (addAll names known l) (names a) := by
  simp [addAll]

theorem mem_addAll : x ∈ addAll names known l ↔ x ∈ known ∨ ∃ a ∈ l, x ∈ names a := by
  induction l generalizing known with
  | nil => simp
  | cons a l ih => simp [ih, mem_addNew, or_assoc]

theorem prefix_addAll : known <+: addAll names known l := by
  induction l generalizing known with
  | nil => exact List.prefix_rfl
  | cons a l ih => exact prefix_addNew.trans ih

theorem nodup_addAll (h : known.Nodup) : (addAll names known l).Nodup := by
  induction l generalizing known with
  | nil => exact h
  | cons a l ih => exact ih (nodup_addNew h)

theorem length_addAll_le :
    (addAll names known l).length ≤ known.length + (l.flatMap names).length := by
  induction l generalizing known with
  | nil => simp
  | cons a l ih =>
    have hstep : (addNew known (names a)).length ≤ known.length + (names a).length :=
      length_addNew_le
    have hrest : (addAll names (addNew known (names a)) l).length ≤
        (addNew known (names a)).length + (l.flatMap names).length := ih
    rw [addAll_cons, List.flatMap_cons, List.length_append]
    omega

/-- The names of the first node are all there when they are different. -/
theorem addNew_nil_eq_self {names : List ι} (h : names.Nodup) : addNew [] names = names := by
  suffices hgeneral : ∀ (known names : List ι), (known ++ names).Nodup →
      addNew known names = known ++ names from hgeneral [] names h
  intro known names
  induction names generalizing known with
  | nil => simp
  | cons name names ih =>
    intro hnodup
    have hnew : name ∉ known := by
      intro hmem
      exact (List.nodup_append.mp hnodup).2.2 name hmem name List.mem_cons_self rfl
    rw [addNew_cons_of_notMem hnew, ih (known ++ [name]) (by simpa using hnodup),
      List.append_assoc, List.singleton_append]

theorem firstPlace_lt (h : ∃ a ∈ l, x ∈ names a) : firstPlace names l x < l.length := by
  rw [firstPlace, List.findIdx_lt_length]
  simpa using h

theorem firstPlace_append {l' : List α} (h : ∃ a ∈ l, x ∈ names a) :
    firstPlace names (l ++ l') x = firstPlace names l x := by
  have hlt := firstPlace_lt h
  rw [firstPlace, List.findIdx_append]
  exact if_pos hlt

/-- A name that no earlier node has. -/
theorem firstPlace_concat_of_new (hx : x ∈ names a) (hnew : ¬ ∃ b ∈ l, x ∈ names b) :
    firstPlace names (l ++ [a]) x = l.length := by
  have hnone : ∀ b ∈ l, ¬ decide (x ∈ names b) = true := by
    intro b hb
    simpa using fun hmem => hnew ⟨b, hb, hmem⟩
  have hidx : l.findIdx (fun b => decide (x ∈ names b)) = l.length :=
    List.findIdx_eq_length_of_false (by simpa using hnone)
  rw [firstPlace, List.findIdx_append, hidx, if_neg (lt_irrefl _)]
  simp [List.findIdx_cons, hx]

/-- **The names are in the order of the first nodes that have them.** -/
theorem pairwise_addAll :
    (addAll names [] l).Pairwise fun x y => firstPlace names l x ≤ firstPlace names l y := by
  induction l using List.reverseRecOn with
  | nil => exact .nil
  | append_singleton l a ih =>
    rw [addAll_concat]
    obtain ⟨new, hadd, -, hnew⟩ := exists_addNew (addAll names [] l) (names a)
    have hold : ∀ x ∈ addAll names [] l, ∃ b ∈ l, x ∈ names b := fun x hx => by
      simpa using mem_addAll.mp hx
    have hplace : ∀ x ∈ new, firstPlace names (l ++ [a]) x = l.length := by
      intro x hx
      obtain ⟨hmem, hnotMem⟩ := (hnew x).mp hx
      exact firstPlace_concat_of_new hmem fun h => hnotMem (mem_addAll.mpr (.inr h))
    rw [hadd, List.pairwise_append]
    refine ⟨?_, ?_, ?_⟩
    · refine ih.imp_of_mem fun hx hy hle => ?_
      rwa [firstPlace_append (hold _ hx), firstPlace_append (hold _ hy)]
    · refine List.pairwise_of_forall_mem_list fun x hx y hy => ?_
      rw [hplace x hx, hplace y hy]
    · intro x hx y hy
      rw [firstPlace_append (hold x hx), hplace y hy]
      exact (firstPlace_lt (hold x hx)).le

end Gathered

section Chain

variable {next : α → Option α} {names : α → List ι} {a a' : α} {n : ℕ} {l : List α}

/-- The loop adds the names of the nodes of the chain. -/
theorem gatherLoop_eq (h : chain next n a = some l) (known : List ι) :
    gatherLoop next names (n + 1) (some a) known = some (addAll names known l) := by
  induction n generalizing a l known with
  | zero => cases h
  | succ n ih =>
    rw [gatherLoop]
    cases hnext : next a with
    | none =>
      rw [chain_succ_none hnext] at h
      obtain rfl := Option.some.inj h
      rfl
    | some a' =>
      rw [chain_succ_some hnext, Option.map_eq_some_iff] at h
      obtain ⟨l', hl', rfl⟩ := h
      exact ih hl' _

/-- A chain begins at its node. -/
theorem exists_chain_cons (h : chain next n a = some l) : ∃ rest, l = a :: rest := by
  cases n with
  | zero => cases h
  | succ n =>
    cases hnext : next a with
    | none =>
      rw [chain_succ_none hnext] at h
      exact ⟨[], (Option.some.inj h).symm⟩
    | some a' =>
      rw [chain_succ_some hnext, Option.map_eq_some_iff] at h
      obtain ⟨l', -, rfl⟩ := h
      exact ⟨l', rfl⟩

/-- **The names of the first node, and then of each node the new ones.** -/
theorem gather_of_chain (h : chain next n a = some (a :: l)) :
    gather next names n a = some (addAll names (names a) l) := by
  rw [gather, total_eq, h, Option.map_some, Option.bind_some]
  have hlength : (addAll names (names a) l).length ≤
      (names a).length + (l.flatMap names).length := length_addAll_le
  split
  · next hzero =>
    rw [List.flatMap_cons, List.length_append] at hzero
    rw [List.length_eq_zero_iff.mp (Nat.le_zero.mp (hlength.trans hzero.le))]
  · cases n with
    | zero => cases h
    | succ n =>
      cases hnext : next a with
      | none =>
        rw [chain_succ_none hnext] at h
        obtain rfl : [] = l := (List.cons.inj (Option.some.inj h)).2
        rfl
      | some a' =>
        rw [chain_succ_some hnext, Option.map_eq_some_iff] at h
        obtain ⟨l', hl', heq⟩ := h
        obtain rfl : l' = l := (List.cons.inj heq).2
        exact gatherLoop_eq hl' _

end Chain

end Walk

end BreadLang
