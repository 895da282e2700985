import BreadLang.Compiler.StmtParser
import BreadLang.Library.Refinement

/-!
# The items of a bracket literal

`parse_array_or_dict` decides item by item whether it is reading an array or a dictionary, and
keeps the elements and the entries in two lists.  The other reader of this module,
`readBrackets`, only says which items stand in the text.  The parser refines it: it accepts the
texts in which no element comes after an entry, and it returns what `collect` keeps of the
items.  An element before the first entry is not kept.
-/

namespace BreadLang

open Stateful Parse

/-! ### The items of a text -/

/-- An item of a bracket literal. -/
inductive BracketItem where
  | element (e : ASTExpr)
  | entry (key value : ASTExpr)

/-- Whether an item is a pair. -/
def BracketItem.isEntry : BracketItem → Bool
  | element _ => false
  | entry _ _ => true

/-- What stands between brackets. -/
inductive BracketText where
  /-- A colon alone. -/
  | colon
  | listed (items : List BracketItem)

/-- The items of the text. -/
def BracketText.list : BracketText → List BracketItem
  | colon => []
  | listed items => items

section Readers

variable (p : Parser)

/-- An item: an expression, and another one behind a colon. -/
def readItem : Parse BracketItem := do
  let first ← p.expression
  skipWhitespace
  if (← peek) == some ':' then
    require ':' "Expected ':' in dictionary literal"
    return .entry first (← p.expression)
  else
    return .element first

/-- An item and the comma behind it. -/
def itemTurn (items : List BracketItem) : Parse (List BracketItem ⊕ List BracketItem) := do
  match ← peek with
  | none | some ']' => return .inr items
  | some _ =>
      let item ← readItem p
      skipWhitespace
      if (← peek) == some ',' then
        advance 1
        skipWhitespace
        return .inl (items ++ [item])
      else
        return .inr (items ++ [item])

/-- The text behind the opening bracket. -/
def readBracketRest (first : Option Char) : Parse BracketText := do
  match first with
  | some ':' =>
      advance 1
      skipWhitespace
      require ']' "Missing closing ']' in dictionary literal"
      return .colon
  | some ']' =>
      advance 1
      return .listed []
  | _ =>
      let items ← whileLoop (itemTurn p) []
      skipWhitespace
      require ']' "Missing closing ']' in array/dictionary literal"
      return .listed items

/-- **The items of a text in brackets**, of either kind and in any order. -/
def readBrackets : Parse BracketText := do
  skipWhitespace
  expect '['
  skipWhitespace
  readBracketRest p (← peek)

end Readers

/-! ### What the parser keeps of them -/

/-- No element comes after an entry. -/
def Ordered (items : List BracketItem) : Prop :=
  items.Pairwise fun i j => i.isEntry = true → j.isEntry = true

instance (items : List BracketItem) : Decidable (Ordered items) :=
  inferInstanceAs (Decidable (items.Pairwise _))

namespace BracketItem

/-- The expression of an item that is no pair. -/
def element? : BracketItem → Option ASTExpr
  | element e => some e
  | entry _ _ => none

/-- The expressions of a pair. -/
def entry? : BracketItem → Option (ASTExpr × ASTExpr)
  | element _ => none
  | entry key value => some (key, value)

end BracketItem

/-- The two lists of the loop. -/
def collect (items : List BracketItem) : BracketItems where
  isDict := items.any BracketItem.isEntry
  elements := items.filterMap BracketItem.element?
  entries := items.filterMap BracketItem.entry?

/-- The lists after the items, as long as these are in order. -/
def collect? (items : List BracketItem) : Option BracketItems :=
  if Ordered items then some (collect items) else none

/-- The node that is made of the lists. -/
def BracketItems.node (items : BracketItems) : ASTExpr :=
  if items.isDict then .dict items.entries else .arrayLiteral items.elements

/-- The node for a text. -/
def BracketText.node? : BracketText → Option ASTExpr
  | colon => some (.dict [])
  | listed items => (collect? items).map BracketItems.node

section Collect

variable {items : List BracketItem}

theorem ordered_append (item : BracketItem) :
    Ordered (items ++ [item]) ↔
      Ordered items ∧ (items.any BracketItem.isEntry = true → item.isEntry = true) := by
  simp [Ordered, List.pairwise_append, List.any_eq_true]

theorem collect?_append_element (h : Ordered items) (e : ASTExpr)
    (hany : items.any BracketItem.isEntry = false) :
    collect? (items ++ [.element e]) =
      some { collect items with elements := (collect items).elements ++ [e] } := by
  have hordered : Ordered (items ++ [.element e]) :=
    (ordered_append _).mpr ⟨h, fun hentry => absurd hentry (hany ▸ Bool.false_ne_true)⟩
  rw [collect?, if_pos hordered]
  simp [collect, BracketItem.isEntry, BracketItem.element?, BracketItem.entry?]

theorem collect?_append_entry (h : Ordered items) (key value : ASTExpr) :
    collect? (items ++ [.entry key value]) =
      some { collect items with
        isDict := true, entries := (collect items).entries ++ [(key, value)] } := by
  have hordered : Ordered (items ++ [.entry key value]) := (ordered_append _).mpr ⟨h, fun _ => rfl⟩
  rw [collect?, if_pos hordered]
  simp [collect, BracketItem.isEntry, BracketItem.element?, BracketItem.entry?]

theorem collect?_append_none (item : BracketItem) (h : collect? items = none) :
    collect? (items ++ [item]) = none := by
  have hnot : ¬Ordered items := by
    intro hordered
    rw [collect?, if_pos hordered] at h
    cases h
  exact if_neg fun hordered => hnot ((ordered_append item).mp hordered).1

theorem ordered_of_collect? {b : BracketItems} (h : collect? items = some b) :
    Ordered items ∧ b = collect items := by
  rw [collect?] at h
  split at h
  next hordered => exact ⟨hordered, (Option.some.inj h).symm⟩
  next => cases h

end Collect

/-! ### The parser refines the reader -/

section Refinement

variable {p : Parser}

theorem result_require_ne {α : Type} {c : Char} {message : String} {f : Unit → Parse α}
    {s : ParseState} (h : ¬(s.rest.head? == some c) = true) :
    ((require c message) >>= f).result s = .error .null := by
  have hrequire : (require c message).result s = .error .null := by
    rw [require, peek, text]
    show Stateful.result (if (s.rest.head? == some c) = true then _ else _) s = _
    rw [if_neg h]
    rfl
  rw [result_bind, hrequire]

/-- An item of the parser is an item of the text. -/
theorem refinesAt_parseBracketItem {items : List BracketItem} (hordered : Ordered items)
    (s : ParseState) :
    RefinesAt (fun item => collect? (items ++ [item])) (parseBracketItem p (collect items))
      (readItem p) s := by
  refine refinesAt_bind_same fun first _ => refinesAt_bind_same fun _ _ =>
    refinesAt_bind_same fun c hc => ?_
  obtain rfl := Except.ok.inj hc
  split
  · rename_i hdict
    split
    · refine refinesAt_bind_same fun _ _ => refinesAt_bind_same fun value _ => ?_
      exact refinesAt_pure (collect?_append_entry hordered first value)
    · -- An element behind an entry.
      rename_i hcolon
      refine refinesAt_fails (result_require_ne hcolon) (returns_pure ?_)
      have hany : items.any BracketItem.isEntry = true :=
        (Bool.or_eq_true_iff.mp hdict).resolve_right hcolon
      refine if_neg fun happend => ?_
      exact Bool.false_ne_true (((ordered_append (.element first)).mp happend).2 hany)
  · rename_i hdict
    obtain ⟨hany, hcolon⟩ := Bool.or_eq_false_iff.mp (Bool.eq_false_iff.mpr hdict)
    rw [hcolon, if_neg Bool.false_ne_true]
    exact refinesAt_pure (collect?_append_element hordered first hany)

/-- A turn of the parser's loop is a turn of the reader's. -/
theorem refinesAt_bracketTurn {items : List BracketItem} {b : BracketItems}
    (hb : collect? items = some b) (s : ParseState) :
    RefinesAt (Sum.elim (fun items => (collect? items).map .inl)
      fun items => (collect? items).map .inr) (bracketTurn p b) (itemTurn p items) s := by
  obtain ⟨hordered, rfl⟩ := ordered_of_collect? hb
  have hstay : (collect? items).map (Sum.inr : _ → BracketItems ⊕ BracketItems) =
      some (.inr (collect items)) := by
    rw [hb]
    rfl
  refine refinesAt_bind_same fun c hc => ?_
  clear hc
  obtain _ | c := c
  · exact refinesAt_pure hstay
  · by_cases hopen : c = ']'
    · subst hopen
      exact refinesAt_pure hstay
    -- Both turns match on the character, which is not the bracket.
    simp only
    refine refinesAt_bind (refinesAt_parseBracketItem hordered _) (fun item b' hitem t => ?_)
      fun item hitem => ?_
    · refine refinesAt_bind_same fun _ _ => refinesAt_bind_same fun d _ => ?_
      split
      · refine refinesAt_bind_same fun _ _ => refinesAt_bind_same fun _ _ => refinesAt_pure ?_
        exact congrArg (Option.map _) hitem
      · exact refinesAt_pure (congrArg (Option.map _) hitem)
    · refine returns_bind_any fun _ => returns_bind_any fun d => ?_
      split
      · refine returns_bind_any fun _ => returns_bind_any fun _ => returns_pure ?_
        exact congrArg (Option.map _) hitem
      · exact returns_pure (congrArg (Option.map _) hitem)

/-- Items out of order stay so. -/
theorem returns_itemTurn {items : List BracketItem} (hitems : collect? items = none) :
    Returns (itemTurn p items)
      (Sum.elim (fun items => collect? items = none) fun items => collect? items = none) := by
  refine returns_bind_any fun c => ?_
  split
  · exact returns_pure hitems
  · exact returns_pure hitems
  · refine returns_bind_any fun item => returns_bind_any fun _ => returns_bind_any fun d => ?_
    split
    · refine returns_bind_any fun _ => returns_bind_any fun _ => returns_pure ?_
      exact collect?_append_none item hitems
    · exact returns_pure (collect?_append_none item hitems)

theorem refinesAt_parseBracketRest (first : Option Char) (s : ParseState) :
    RefinesAt BracketText.node? (parseBracketRest p first) (readBracketRest p first) s := by
  by_cases hcolon : first = some ':'
  · subst hcolon
    exact refinesAt_bind_same fun _ _ => refinesAt_bind_same fun _ _ =>
      refinesAt_bind_same fun _ _ => refinesAt_pure rfl
  by_cases hclosed : first = some ']'
  · subst hclosed
    exact refinesAt_bind_same fun _ _ => refinesAt_pure rfl
  · simp only [parseBracketRest, readBracketRest]
    refine refinesAt_bind (g := collect?) ?_ (fun items b hb t => ?_) fun items hitems => ?_
    · refine refinesAt_bind_same fun source _ => ?_
      exact refinesAt_loop (fun _ _ hb s => refinesAt_bracketTurn hb s)
        (fun _ hitems => returns_itemTurn hitems) _ _ _ rfl _
    · refine refinesAt_bind_same fun _ _ => refinesAt_bind_same fun _ _ => ?_
      have hnode : (BracketText.listed items).node? = some b.node :=
        congrArg (Option.map BracketItems.node) hb
      rw [BracketItems.node] at hnode
      split
      · rename_i hdict
        exact refinesAt_pure (hnode.trans (by rw [if_pos hdict]))
      · rename_i hdict
        exact refinesAt_pure (hnode.trans (by rw [if_neg hdict]))
    · refine returns_bind_any fun _ => returns_bind_any fun _ => returns_pure ?_
      exact congrArg (Option.map BracketItems.node) hitems

/-- **`parse_array_or_dict` refines the reader** of the items. -/
theorem refinesAt_parseArrayOrDict (s : ParseState) :
    RefinesAt BracketText.node? (parseArrayOrDict p) (readBrackets p) s :=
  refinesAt_bind_same fun _ _ => refinesAt_bind_same fun _ _ => refinesAt_bind_same fun _ _ =>
    refinesAt_bind_same fun _ _ => refinesAt_parseBracketRest _ _

end Refinement

/-! ### What is lost -/

/-- **The node for the items**: an array of elements, or a dictionary of entries. -/
inductive NodeFor : List BracketItem → ASTExpr → Prop
  | array (elements : List ASTExpr) :
      NodeFor (elements.map .element) (.arrayLiteral elements)
  | dict (entries : List (ASTExpr × ASTExpr)) :
      NodeFor (entries.map fun e => .entry e.1 e.2) (.dict entries)

/-- **A bracket literal loses nothing**: the node has the items of the text, and a text with
items of both kinds is refused. -/
structure BracketKept (p : Parser) (s : ParseState) : Prop where
  kept : ∀ node t, EndsIn (parseArrayOrDict p) s node t →
    ∃ text, EndsIn (readBrackets p) s text t ∧ NodeFor text.list node
  mixed : ∀ text t, EndsIn (readBrackets p) s text t →
    (∃ item ∈ text.list, item.isEntry = false) → (∃ item ∈ text.list, item.isEntry = true) →
    ∀ node, (parseArrayOrDict p).result s ≠ .ok node

/-- Elements, and then entries. -/
def ElementsThenEntries (items : List BracketItem) : Prop :=
  Ordered items ∧ (∃ item ∈ items, item.isEntry = false) ∧ ∃ item ∈ items, item.isEntry = true

section Kept

theorem exists_elements {items : List BracketItem} (h : ∀ i ∈ items, i.isEntry = false) :
    ∃ elements : List ASTExpr, items = elements.map .element := by
  induction items with
  | nil => exact ⟨[], rfl⟩
  | cons item items ih =>
      obtain ⟨hitem, hitems⟩ := List.forall_mem_cons.mp h
      obtain ⟨elements, rfl⟩ := ih hitems
      cases item with
      | element e => exact ⟨e :: elements, rfl⟩
      | entry key value => cases hitem

theorem exists_entries {items : List BracketItem} (h : ∀ i ∈ items, i.isEntry = true) :
    ∃ entries : List (ASTExpr × ASTExpr), items = entries.map fun e => .entry e.1 e.2 := by
  induction items with
  | nil => exact ⟨[], rfl⟩
  | cons item items ih =>
      obtain ⟨hitem, hitems⟩ := List.forall_mem_cons.mp h
      obtain ⟨entries, rfl⟩ := ih hitems
      cases item with
      | element e => cases hitem
      | entry key value => exact ⟨(key, value) :: entries, rfl⟩

theorem collect_elements (elements : List ASTExpr) :
    collect (elements.map .element) = ⟨false, elements, []⟩ := by
  induction elements with
  | nil => rfl
  | cons e elements ih =>
      injection ih with hdict helements
      simp [collect, BracketItem.isEntry, BracketItem.element?, BracketItem.entry?, hdict,
        helements]

theorem collect_entries (entries : List (ASTExpr × ASTExpr)) :
    collect (entries.map fun e => .entry e.1 e.2) = ⟨!entries.isEmpty, [], entries⟩ := by
  induction entries with
  | nil => rfl
  | cons e entries ih =>
      injection ih with _ helements hentries
      rw [collect, List.map_cons, List.filterMap_cons_none rfl,
        List.filterMap_cons_some (f := BracketItem.entry?) rfl, helements, hentries]
      rfl

/-- Where the items are of one kind, all of them are kept. -/
theorem nodeFor_collect {items : List BracketItem} (hordered : Ordered items)
    (huniform : ¬ElementsThenEntries items) : NodeFor items (collect items).node := by
  by_cases hentry : ∃ item ∈ items, item.isEntry = true
  · have hall : ∀ item ∈ items, item.isEntry = true := by
      intro item hitem
      by_contra helement
      exact huniform ⟨hordered, ⟨item, hitem, Bool.eq_false_iff.mpr helement⟩, hentry⟩
    obtain ⟨entries, rfl⟩ := exists_entries hall
    obtain ⟨item, hitem, -⟩ := hentry
    have hne : entries.isEmpty = false := by
      rw [List.isEmpty_eq_false_iff]
      rintro rfl
      cases hitem
    rw [BracketItems.node, collect_entries, hne]
    exact .dict entries
  · have hall : ∀ item ∈ items, item.isEntry = false := fun item hitem =>
      Bool.eq_false_iff.mpr fun h => hentry ⟨item, hitem, h⟩
    obtain ⟨elements, rfl⟩ := exists_elements hall
    rw [BracketItems.node, collect_elements]
    exact .array elements

theorem BracketText.node?_eq_some {text : BracketText} {node : ASTExpr} (h : text.node? = some node) :
    Ordered text.list ∧ (¬ElementsThenEntries text.list → NodeFor text.list node) := by
  cases text with
  | colon =>
      obtain rfl := Option.some.inj h
      exact ⟨List.Pairwise.nil, fun _ => .dict []⟩
  | listed items =>
      obtain ⟨b, hb, rfl⟩ := Option.map_eq_some_iff.mp h
      obtain ⟨hordered, rfl⟩ := ordered_of_collect? hb
      exact ⟨hordered, nodeFor_collect hordered⟩

/-- Items in order are accepted. -/
theorem accepts_of_ordered {p : Parser} {s t : ParseState} {text : BracketText}
    (htext : EndsIn (readBrackets p) s text t) (hordered : Ordered text.list) :
    ∃ node, EndsIn (parseArrayOrDict p) s node t := by
  have hnode : ∃ node, text.node? = some node := by
    cases text with
    | colon => exact ⟨_, rfl⟩
    | listed items => exact ⟨_, congrArg (Option.map BracketItems.node) (if_pos hordered)⟩
  obtain ⟨node, hnode⟩ := hnode
  exact ⟨node, (refinesAt_parseArrayOrDict s node t).mpr ⟨text, htext, hnode⟩⟩

theorem not_bracketKept {p : Parser} {s t : ParseState} {text : BracketText}
    (htext : EndsIn (readBrackets p) s text t) (hmixed : ElementsThenEntries text.list) :
    ¬BracketKept p s := by
  intro hkept
  obtain ⟨hordered, helement, hentry⟩ := hmixed
  obtain ⟨node, hnode⟩ := accepts_of_ordered htext hordered
  exact hkept.mixed text t htext helement hentry node hnode.1

/-- **A bracket literal loses nothing** exactly where the text is not one of elements and then
entries. -/
theorem bracket_kept_iff (p : Parser) (s : ParseState) :
    BracketKept p s ↔
      ∀ text t, EndsIn (readBrackets p) s text t → ¬ElementsThenEntries text.list := by
  constructor
  · exact fun hkept text t htext hmixed => not_bracketKept htext hmixed hkept
  · intro huniform
    refine ⟨fun node t hnode => ?_, fun text t htext helement hentry node hnode => ?_⟩
    · obtain ⟨text, htext, hnode⟩ := (refinesAt_parseArrayOrDict s node t).mp hnode
      exact ⟨text, htext, (BracketText.node?_eq_some hnode).2 (huniform text t htext)⟩
    · obtain ⟨text', htext', hnode⟩ := (refinesAt_parseArrayOrDict s node _).mp ⟨hnode, rfl⟩
      obtain ⟨rfl, rfl⟩ := htext.unique htext'
      have hordered := (BracketText.node?_eq_some hnode).1
      exact huniform _ _ htext ⟨hordered, helement, hentry⟩

end Kept

/-- The text `[1, 2: 3]`, read as an element and an entry. -/
theorem readBrackets_mixed (conversions : Conversions) :
    EndsIn (readBrackets (parser conversions 2)) (.init "[1, 2: 3]".toList none)
      (.listed [.element (.int 1), .entry (.int 2) (.int 3)]) (.init [] none) :=
  ⟨rfl, rfl⟩

/-- The element of `[1, 2: 3]` is lost. -/
theorem mixed_literal_accepted :
    ∃ conversions, ¬BracketKept (parser conversions 2) (.init "[1, 2: 3]".toList none) ∧
      EndsIn (parseArrayOrDict (parser conversions 2)) (.init "[1, 2: 3]".toList none)
        (.dict [(.int 2, .int 3)]) (.init [] none) := by
  refine ⟨⟨fun _ => 0, fun _ => ⟨0⟩⟩, ?_, rfl, rfl⟩
  refine not_bracketKept (readBrackets_mixed _) ⟨by decide, ?_, ?_⟩
  · exact ⟨.element (.int 1), List.mem_cons_self, rfl⟩
  · exact ⟨.entry (.int 2) (.int 3), List.mem_cons_of_mem _ List.mem_cons_self, rfl⟩

end BreadLang
