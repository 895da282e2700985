import BreadLang.Library.Acyclic
import BreadLang.Library.Walk

/-!
# What is collected along a chain

A chain is followed to its end by a partial function `next`.  `chain` lists its
nodes, and the loops and recursions below collect names from them: `total` counts
the names, `collect` takes those of the far end first, and `gather` takes the near
ones first and leaves out what it has already.  Each takes a bound on its steps
and has no result when they run out.

`exists_chain_iff` says when there is a bound that is enough: the chain meets no
cycle.  The results with enough steps are those of `chain`.
-/

namespace BreadLang

namespace Walk

open Relation

variable {α β ι : Type}

/-- The nodes from a node to the end of its chain. -/
def chain (next : α → Option α) : ℕ → α → Option (List α)
  | 0, _ => none
  | n + 1, a =>
      match next a with
      | none => some [a]
      | some a' => (chain next n a').map (a :: ·)

/-- The loop that counts the names. -/
def total (next : α → Option α) (names : α → List ι) : ℕ → α → Option ℕ
  | 0, _ => none
  | n + 1, a =>
      match next a with
      | none => some (names a).length
      | some a' => (total next names n a').map ((names a).length + ·)

/-- The recursion that collects the names, those of the far end first.  It counts
them before, at every level. -/
def collect (next : α → Option α) (names : α → List ι) : ℕ → α → Option (List ι)
  | 0, _ => none
  | n + 1, a =>
      (total next names (n + 1) a).bind fun count =>
        if count = 0 then some []
        else
          match next a with
          | none => some (names a)
          | some a' => (collect next names n a').map (· ++ names a)

/-- The names that are not there yet are added. -/
def addNew [DecidableEq ι] (known names : List ι) : List ι :=
  names.foldl (fun known name => if name ∈ known then known else known ++ [name]) known

/-- The loop that adds the names of the nodes from one on. -/
def gatherLoop [DecidableEq ι] (next : α → Option α) (names : α → List ι) :
    ℕ → Option α → List ι → Option (List ι)
  | 0, _, _ => none
  | _ + 1, none, known => some known
  | n + 1, some a, known => gatherLoop next names n (next a) (addNew known (names a))

/-- The names of a node, and then those of the nodes after it. -/
def gather [DecidableEq ι] (next : α → Option α) (names : α → List ι) (n : ℕ) (a : α) :
    Option (List ι) :=
  (total next names n a).bind fun count =>
    if count = 0 then some [] else gatherLoop next names n (next a) (names a)

section Chain

variable {next : α → Option α} {a a' : α} {n : ℕ}

theorem chain_succ_none (h : next a = none) : chain next (n + 1) a = some [a] := by
  simp only [chain, h]

theorem chain_succ_some (h : next a = some a') :
    chain next (n + 1) a = (chain next n a').map (a :: ·) := by
  simp only [chain, h]

/-- More steps than are enough make no difference. -/
theorem chain_mono {m : ℕ} {l : List α} (h : chain next n a = some l) (hle : n ≤ m) :
    chain next m a = some l := by
  induction n generalizing a l m with
  | zero => cases h
  | succ n ih =>
      obtain ⟨m, rfl⟩ := Nat.exists_eq_add_of_le' hle
      cases hnext : next a with
      | none =>
          rw [chain_succ_none hnext] at h
          rw [← Nat.add_assoc, chain_succ_none hnext, h]
      | some a' =>
          rw [chain_succ_some hnext, Option.map_eq_some_iff] at h
          obtain ⟨l', hl', rfl⟩ := h
          rw [← Nat.add_assoc, chain_succ_some hnext, ih hl' (Nat.le_add_left n m),
            Option.map_some]

theorem chain_unique {m : ℕ} {l l' : List α} (h : chain next n a = some l)
    (h' : chain next m a = some l') : l = l' :=
  Option.some.inj
    ((chain_mono h (le_max_left n m)).symm.trans (chain_mono h' (le_max_right n m)))

/-- **A chain that ends goes through no cycle.** -/
theorem not_transGen_of_chain {l : List α} (h : chain next n a = some l) :
    ¬ TransGen (fun a b => next a = some b) a a := by
  induction n generalizing a l with
  | zero => cases h
  | succ n ih =>
      intro hcycle
      obtain ⟨a', hnext, hback⟩ := TransGen.head'_iff.mp hcycle
      rw [chain_succ_some hnext, Option.map_eq_some_iff] at h
      obtain ⟨l', hl', -⟩ := h
      exact ih hl' (TransGen.tail' hback hnext)

/-- The nodes of a chain that ends are on no cycle. -/
theorem acyclic_of_chain {l : List α} (h : chain next n a = some l) {b : α}
    (hb : ReflTransGen (fun a b => next a = some b) a b) :
    ¬ TransGen (fun a b => next a = some b) b b := by
  induction hb using ReflTransGen.head_induction_on generalizing n l with
  | refl => exact not_transGen_of_chain h
  | head hnext _ ih =>
      cases n with
      | zero => cases h
      | succ n =>
          rw [chain_succ_some hnext, Option.map_eq_some_iff] at h
          obtain ⟨l', hl', -⟩ := h
          exact ih hl'

theorem exists_chain_of_acc (h : Acc (fun y x => next x = some y) a) :
    ∃ n l, chain next n a = some l := by
  induction h with
  | intro a _ ih =>
      cases hnext : next a with
      | none => exact ⟨1, [a], chain_succ_none hnext⟩
      | some a' =>
          obtain ⟨n, l, hl⟩ := ih a' hnext
          exact ⟨n + 1, a :: l, by rw [chain_succ_some hnext, hl, Option.map_some]⟩

/-- What is reached from a closed set stays in it. -/
theorem mem_of_reflTransGen {S : List α} (hclosed : ∀ a ∈ S, ∀ b, next a = some b → b ∈ S)
    (ha : a ∈ S) {b : α} (hb : ReflTransGen (fun a b => next a = some b) a b) : b ∈ S := by
  induction hb with
  | refl => exact ha
  | tail _ hnext ih => exact hclosed _ ih _ hnext

/-- **A chain inside finitely many nodes ends exactly when it meets no cycle.** -/
theorem exists_chain_iff {S : List α} (hclosed : ∀ a ∈ S, ∀ b, next a = some b → b ∈ S)
    (ha : a ∈ S) :
    (∃ n l, chain next n a = some l) ↔
      ∀ b, ReflTransGen (fun a b => next a = some b) a b →
        ¬ TransGen (fun a b => next a = some b) b b := by
  refine ⟨fun ⟨n, l, h⟩ b hb => acyclic_of_chain h hb, fun h => ?_⟩
  refine exists_chain_of_acc (acc_of_acyclic ?_ h)
  exact S.finite_toSet.subset fun b hb => mem_of_reflTransGen hclosed ha hb

end Chain

section Collect

variable {next : α → Option α} {a : α} {n : ℕ} {l : List α} (names : α → List ι)

theorem total_eq (n : ℕ) (a : α) :
    total next names n a = (chain next n a).map fun l => (l.flatMap names).length := by
  induction n generalizing a with
  | zero => rfl
  | succ n ih =>
      unfold total chain
      cases next a with
      | none => simp
      | some a' =>
          simp only [ih, Option.map_map]
          congr 1
          funext l
          simp

/-- **The recursion collects the names of the chain, those of its end first.** -/
theorem collect_eq (n : ℕ) (a : α) :
    collect next names n a = (chain next n a).map fun l => l.reverse.flatMap names := by
  induction n generalizing a with
  | zero => rfl
  | succ n ih =>
      rw [collect, total_eq]
      cases hchain : chain next (n + 1) a with
      | none => rfl
      | some l =>
          rw [Option.map_some, Option.bind_some, Option.map_some]
          by_cases hcount : (l.flatMap names).length = 0
          · have hnone : ∀ x ∈ l, names x = [] :=
              List.flatMap_eq_nil_iff.mp (List.length_eq_zero_iff.mp hcount)
            rw [if_pos hcount, List.flatMap_eq_nil_iff.mpr]
            exact fun x hx => hnone x (List.mem_reverse.mp hx)
          · rw [if_neg hcount]
            cases hnext : next a with
            | none =>
                rw [chain_succ_none hnext] at hchain
                cases hchain
                simp
            | some a' =>
                rw [chain_succ_some hnext, Option.map_eq_some_iff] at hchain
                obtain ⟨l', hl', rfl⟩ := hchain
                simp [ih, hl']

theorem gatherLoop_isSome [DecidableEq ι] (h : chain next n a = some l) (known : List ι) :
    (gatherLoop next names (n + 1) (some a) known).isSome := by
  induction n generalizing a l known with
  | zero => cases h
  | succ n ih =>
      rw [gatherLoop]
      cases hnext : next a with
      | none => rfl
      | some a' =>
          rw [chain_succ_some hnext, Option.map_eq_some_iff] at h
          obtain ⟨l', hl', -⟩ := h
          exact ih hl' _

/-- The names can be gathered from a chain that ends. -/
theorem gather_isSome [DecidableEq ι] (h : chain next n a = some l) :
    (gather next names n a).isSome := by
  rw [gather, total_eq, h, Option.map_some, Option.bind_some]
  by_cases hcount : (l.flatMap names).length = 0
  · rw [if_pos hcount]
    rfl
  · rw [if_neg hcount]
    cases n with
    | zero => cases h
    | succ n =>
        cases hnext : next a with
        | none => rfl
        | some a' =>
            rw [chain_succ_some hnext, Option.map_eq_some_iff] at h
            obtain ⟨l', hl', -⟩ := h
            exact gatherLoop_isSome names hl' _

/-- A search along a chain that ends comes to an end. -/
theorem search_isSome {p : α → Option β} (h : chain next n a = some l) :
    (search next p n a).isSome := by
  induction n generalizing a l with
  | zero => cases h
  | succ n ih =>
      rw [search]
      cases p a with
      | some b => rfl
      | none =>
          cases hnext : next a with
          | none => rfl
          | some a' =>
              rw [chain_succ_some hnext, Option.map_eq_some_iff] at h
              obtain ⟨l', hl', -⟩ := h
              exact ih hl'

/-- Something is found on a chain that holds an answer. -/
theorem exists_finds_of_chain {p : α → Option β} (h : chain next n a = some l)
    (hanswer : ∃ x ∈ l, (p x).isSome) : ∃ b, Finds next p a b := by
  induction n generalizing a l with
  | zero => cases h
  | succ n ih =>
      cases hp : p a with
      | some b => exact ⟨b, .here hp⟩
      | none =>
          obtain ⟨x, hx, hsome⟩ := hanswer
          cases hnext : next a with
          | none =>
              rw [chain_succ_none hnext] at h
              cases h
              rw [List.mem_singleton.mp hx, hp] at hsome
              cases hsome
          | some a' =>
              rw [chain_succ_some hnext, Option.map_eq_some_iff] at h
              obtain ⟨l', hl', rfl⟩ := h
              rcases List.mem_cons.mp hx with rfl | hx
              · rw [hp] at hsome
                cases hsome
              · obtain ⟨b, hb⟩ := ih hl' ⟨x, hx, hsome⟩
                exact ⟨b, .step hp hnext hb⟩

end Collect

/-! ### Parts of a chain -/

section Parts

variable {next : α → Option α} {p : α → Option β} {a c c' e : α} {b : β}

/-- What is found behind a part of the chain is found from its start, when nothing is
found in the part. -/
theorem Finds.of_path (hpath : ReflTransGen (fun a b => next a = some b) a c)
    (hnone : ∀ x, ReflTransGen (fun a b => next a = some b) a x →
      ReflTransGen (fun a b => next a = some b) x c → p x = none)
    (hnext : next c = some c') (h : Finds next p c' b) : Finds next p a b := by
  induction hpath using ReflTransGen.head_induction_on with
  | refl => exact .step (hnone c .refl .refl) hnext h
  | head hstep hrest ih =>
      refine .step (hnone _ .refl (.head hstep hrest)) hstep (ih fun x hx hxc => ?_)
      exact hnone x (.head hstep hx) hxc

/-- A part of the chain with an answer in it has a first one. -/
theorem exists_first (hpath : ReflTransGen (fun a b => next a = some b) a e)
    (he : (p e).isSome) :
    ∃ x b, ReflTransGen (fun a b => next a = some b) a x ∧
      ReflTransGen (fun a b => next a = some b) x e ∧ p x = some b ∧ Finds next p a b := by
  induction hpath using ReflTransGen.head_induction_on with
  | refl =>
      obtain ⟨b, hb⟩ := Option.isSome_iff_exists.mp he
      exact ⟨e, b, .refl, .refl, hb, .here hb⟩
  | @head a a' hstep hrest ih =>
      cases hp : p a with
      | some b => exact ⟨a, b, .refl, .head hstep hrest, hp, .here hp⟩
      | none =>
          obtain ⟨x, b, hax, hxe, hb, hfinds⟩ := ih
          exact ⟨x, b, .head hstep hax, hxe, hb, .step hp hstep hfinds⟩

/-- The node of the answer is on the chain. -/
theorem Finds.exists_node (h : Finds next p a b) :
    ∃ x, ReflTransGen (fun a b => next a = some b) a x ∧ p x = some b := by
  obtain ⟨k, h⟩ := h
  induction h with
  | here hp => exact ⟨_, .refl, hp⟩
  | step _ hnext _ ih =>
      obtain ⟨x, hx, hp⟩ := ih
      exact ⟨x, .head hnext hx, hp⟩

end Parts

/-! ### Two chains side by side -/

section Simulation

variable {γ : Type} {next : α → Option α} {next' : γ → Option γ} {R : α → γ → Prop}

/-- Chains whose steps correspond have corresponding nodes. -/
theorem chain_rel (hnext : ∀ a c, R a c → Option.Rel R (next a) (next' c)) (n : ℕ) {a : α} {c : γ}
    (h : R a c) : Option.Rel (List.Forall₂ R) (chain next n a) (chain next' n c) := by
  induction n generalizing a c with
  | zero => exact .none
  | succ n ih =>
      unfold chain
      have hsteps := hnext a c h
      generalize next a = a', next' c = c' at hsteps
      cases hsteps with
      | none => exact .some (.cons h .nil)
      | some hstep =>
          have hrests := ih hstep
          dsimp only
          generalize chain next n _ = l, chain next' n _ = l' at hrests
          cases hrests with
          | none => exact .none
          | some hrest => exact .some (.cons h hrest)

/-- The same names are collected from corresponding chains. -/
theorem collect_rel {names : α → List ι} {names' : γ → List ι}
    (hnext : ∀ a c, R a c → Option.Rel R (next a) (next' c))
    (hnames : ∀ a c, R a c → names a = names' c) (n : ℕ) {a : α} {c : γ} (h : R a c) :
    collect next names n a = collect next' names' n c := by
  rw [collect_eq, collect_eq]
  have hchains := chain_rel hnext n h
  generalize chain next n a = l, chain next' n c = l' at hchains
  cases hchains with
  | none => rfl
  | @some l l' hrest =>
      have hsame : List.Forall₂ Eq (l.reverse.map names) (l'.reverse.map names') := by
        rw [List.forall₂_map_left_iff, List.forall₂_map_right_iff]
        exact (List.rel_reverse hrest).imp hnames
      rw [List.forall₂_eq_eq_eq] at hsame
      rw [Option.map_some, Option.map_some, List.flatMap, List.flatMap, hsame]

/-- The same is found along corresponding chains. -/
theorem search_rel {p : α → Option β} {p' : γ → Option β}
    (hnext : ∀ a c, R a c → Option.Rel R (next a) (next' c))
    (hp : ∀ a c, R a c → p a = p' c) (n : ℕ) {a : α} {c : γ} (h : R a c) :
    search next p n a = search next' p' n c := by
  induction n generalizing a c with
  | zero => rfl
  | succ n ih =>
      unfold search
      rw [hp a c h]
      cases p' c with
      | some b => rfl
      | none =>
          have hsteps := hnext a c h
          generalize next a = a', next' c = c' at hsteps
          cases hsteps with
          | none => rfl
          | some hstep => exact ih hstep

end Simulation

/-- What is found is the answer of a node. -/
theorem exists_answer_of_search {next : α → Option α} {p : α → Option β} {n : ℕ} {a : α} {b : β}
    (h : search next p n a = some (some b)) : ∃ a', p a' = some b := by
  obtain ⟨k, hfinds⟩ := finds_of_search h
  clear h
  induction hfinds with
  | here hp => exact ⟨_, hp⟩
  | step _ _ _ ih => exact ih

end Walk

end BreadLang
