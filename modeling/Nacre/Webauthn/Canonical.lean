/-
What is canonical, and what the reader takes that is not
(core/webauthn.ts: `decodeCbor`).

`encode` is the writing CTAP2 asks for: every head as short as it can be,
the keys of a map ordered by their major type, then by their length, then
by their bytes. The reader says it takes no other.

# What it takes

It looks at no width and at no order: 0x18 0x05 is the 5 that 0x05 is, and
the keys of a map come in any order. A text that begins with a byte order
mark is read without it, so what is written for it comes back another
text; and bytes that are no UTF-8 are refused by the `TextDecoder`, not by
the reader. That nothing else is in the way is `decodeCbor_canonical`.

The marks are found by counting. Reading what was written for a value
drops the leading marks of its texts (`texts_value_tree`), so if the texts
came back there were none (`heads_of_perm`).
-/
import Mathlib.Data.List.Sort
import Mathlib.Data.List.Lex
import Mathlib.Data.Prod.Lex
import Mathlib.Algebra.Order.BigOperators.Group.List
import Nacre.Webauthn.Trees

namespace Nacre.Webauthn

open Nacre.Factors (Cbor Label bigEndian maxDepth maxEntries maxBytes)

-- ============================================================== the writing

def shortest (n : Nat) : Width :=
  if n < 24 then .inline else if n < 256 then .one else if n < 65536 then .two else .four

theorem shortest_fits {n : Nat} (h : n < 2 ^ 32) : (shortest n).Fits n := by
  unfold shortest
  split
  next h24 => exact h24
  next =>
    split
    next h256 => exact h256
    next =>
      split
      next h65536 => exact h65536
      next => exact h

def intNode (n : Int) : Node :=
  if 0 ≤ n then .int false (shortest n.toNat) n.toNat
  else .int true (shortest (-1 - n).toNat) (-1 - n).toNat

def textNode (text : String) : Node := .text (shortest (utf8 text).length) text

def keyNode : Label → Node
  | .int n => intNode n
  | .text text => textNode text

/-- The major type, then the length, then the bytes. -/
def rank (key : Label) : ℕ ×ₗ ℕ ×ₗ List ℕ :=
  toLex ((keyNode key).major,
    toLex ((keyNode key).write.length, (keyNode key).write.map UInt8.toNat))

/-- The entries by their key, in the order CTAP2 asks for. -/
def inOrder {α : Type} (entries : List (Label × α)) : List (Label × α) :=
  entries.insertionSort fun a b => rank a.1 ≤ rank b.1

mutual

/-- The tree to write for a value. -/
def tree : Cbor → Node
  | .int n => intNode n
  | .bytes payload => .bytes (shortest payload.length) payload
  | .text text => textNode text
  | .array items => .array (shortest items.length) (treeItems items)
  | .map entries =>
      .map (shortest entries.length)
        ((inOrder (treeEntries entries)).map fun e => (keyNode e.1, e.2))
  | .bool b => .simple .inline (if b then 21 else 20)
  | .null => .simple .inline 22

def treeItems : List Cbor → List Node
  | [] => []
  | first :: rest => tree first :: treeItems rest

def treeEntries : List (Label × Cbor) → List (Label × Node)
  | [] => []
  | (label, value) :: rest => (label, tree value) :: treeEntries rest

end

/-- The canonical encoding. -/
def encode (v : Cbor) : List UInt8 := (tree v).write

mutual

/-- The value with its maps' entries in the order they are written in. A
`Map` is no other for it. -/
def sorted : Cbor → Cbor
  | .array items => .array (sortedItems items)
  | .map entries => .map (inOrder (sortedEntries entries))
  | v => v

def sortedItems : List Cbor → List Cbor
  | [] => []
  | first :: rest => sorted first :: sortedItems rest

def sortedEntries : List (Label × Cbor) → List (Label × Cbor)
  | [] => []
  | (label, value) :: rest => (label, sorted value) :: sortedEntries rest

end

-- =============================================================== the values

def keyTexts : Label → List String
  | .int _ => []
  | .text text => [text]

mutual

/-- The texts in a value, those of its keys among them. -/
def texts : Cbor → List String
  | .text text => [text]
  | .array items => textsItems items
  | .map entries => textsEntries entries
  | _ => []

def textsItems : List Cbor → List String
  | [] => []
  | first :: rest => texts first ++ textsItems rest

def textsEntries : List (Label × Cbor) → List String
  | [] => []
  | (label, value) :: rest => (keyTexts label ++ texts value) ++ textsEntries rest

end

/-- No text in it begins with a byte order mark. -/
def NoMark (v : Cbor) : Prop := ∀ text ∈ texts v, text.toList.head? ≠ some Js.bom

def KeyDomain : Label → Prop
  | .int n => -2 ^ 32 ≤ n ∧ n < 2 ^ 32
  | .text text => (utf8 text).length ≤ maxBytes

/-- The supported values, of so many levels. -/
def Domain : Nat → Cbor → Prop
  | 0, _ => False
  | _ + 1, .int n => -2 ^ 32 ≤ n ∧ n < 2 ^ 32
  | _ + 1, .bytes payload => payload.length ≤ maxBytes
  | _ + 1, .text text => (utf8 text).length ≤ maxBytes
  | levels + 1, .array items => items.length ≤ maxEntries ∧ ∀ v ∈ items, Domain levels v
  | levels + 1, .map entries =>
      entries.length ≤ maxEntries ∧ (entries.map (·.1)).Nodup ∧
        ∀ e ∈ entries, KeyDomain e.1 ∧ Domain levels e.2
  | _ + 1, .bool _ => True
  | _ + 1, .null => True

mutual

/-- Written as it has to be. -/
def Node.Canonical : Node → Prop
  | .int _ w n => w = shortest n
  | .bytes w payload => w = shortest payload.length
  | .text w payload => w = shortest (utf8 payload).length ∧ payload.toList.head? ≠ some Js.bom
  | .array w items => w = shortest items.length ∧ Node.CanonicalItems items
  | .map w entries =>
      w = shortest entries.length ∧ Node.CanonicalEntries entries ∧
        (Node.labelled entries).Pairwise fun a b => rank a.1 ≤ rank b.1
  | .simple w n => w = shortest n

def Node.CanonicalItems : List Node → Prop
  | [] => True
  | first :: rest => first.Canonical ∧ Node.CanonicalItems rest

def Node.CanonicalEntries : List (Node × Node) → Prop
  | [] => True
  | (key, value) :: rest => key.Canonical ∧ value.Canonical ∧ Node.CanonicalEntries rest

end

/-- It refuses, and the refusal is its own. -/
def Refuses (bytes : List UInt8) : Prop :=
  ∃ message, decodeCbor bytes = .error (.cborError message)

example : encode (.map [(.text "b", .null), (.int (-1), .int 500)])
    = [0xA2, 0x20, 0x19, 0x01, 0xF4, 0x61, 0x62, 0xF6] := by decide +kernel

-- ================================================================= induction

/-- Induction on a value. -/
theorem value_children {motive : Cbor → Prop} (int : ∀ n, motive (.int n))
    (bytes : ∀ payload, motive (.bytes payload)) (text : ∀ text, motive (.text text))
    (array : ∀ items, (∀ v ∈ items, motive v) → motive (.array items))
    (map : ∀ entries, (∀ e ∈ entries, motive e.2) → motive (.map entries))
    (bool : ∀ b, motive (.bool b)) (null : motive .null) (v : Cbor) : motive v :=
  @Cbor.rec motive (fun items => ∀ v ∈ items, motive v) (fun entries => ∀ e ∈ entries, motive e.2)
    (fun e => motive e.2) int bytes text array map bool null
    (by simp) (fun _ _ hfirst hrest => List.forall_mem_cons.mpr ⟨hfirst, hrest⟩)
    (by simp) (fun _ _ hfirst hrest => List.forall_mem_cons.mpr ⟨hfirst, hrest⟩)
    (fun _ _ hvalue => hvalue) v

theorem treeItems_eq (items : List Cbor) : treeItems items = items.map tree := by
  induction items with
  | nil => rfl
  | cons first rest ih => rw [treeItems, ih, List.map_cons]

theorem treeEntries_eq (entries : List (Label × Cbor)) :
    treeEntries entries = entries.map fun e => (e.1, tree e.2) := by
  induction entries with
  | nil => rfl
  | cons first rest ih => rw [treeEntries, ih, List.map_cons]

theorem sortedItems_eq (items : List Cbor) : sortedItems items = items.map sorted := by
  induction items with
  | nil => rfl
  | cons first rest ih => rw [sortedItems, ih, List.map_cons]

theorem sortedEntries_eq (entries : List (Label × Cbor)) :
    sortedEntries entries = entries.map fun e => (e.1, sorted e.2) := by
  induction entries with
  | nil => rfl
  | cons first rest ih => rw [sortedEntries, ih, List.map_cons]

theorem textsItems_eq (items : List Cbor) : textsItems items = items.flatMap texts := by
  induction items with
  | nil => rfl
  | cons first rest ih => rw [textsItems, ih, List.flatMap_cons]

theorem textsEntries_eq (entries : List (Label × Cbor)) :
    textsEntries entries = entries.flatMap fun e => keyTexts e.1 ++ texts e.2 := by
  induction entries with
  | nil => rfl
  | cons first rest ih => rw [textsEntries, ih, List.flatMap_cons]

theorem Node.values_eq (items : List Node) : Node.values items = items.map Node.value := by
  induction items with
  | nil => rfl
  | cons first rest ih => rw [Node.values, ih, List.map_cons]

theorem Node.canonicalItems_iff {items : List Node} :
    Node.CanonicalItems items ↔ ∀ item ∈ items, item.Canonical := by
  induction items with
  | nil => simp [Node.CanonicalItems]
  | cons first rest ih => rw [Node.CanonicalItems, ih, List.forall_mem_cons]

theorem Node.canonicalEntries_iff {entries : List (Node × Node)} :
    Node.CanonicalEntries entries ↔ ∀ e ∈ entries, e.1.Canonical ∧ e.2.Canonical := by
  induction entries with
  | nil => simp [Node.CanonicalEntries]
  | cons first rest ih =>
      obtain ⟨key, value⟩ := first
      rw [Node.CanonicalEntries, ih, List.forall_mem_cons, and_assoc]

-- =================================================================== order

section Order

variable {α β : Type}

theorem inOrder_perm (entries : List (Label × α)) : (inOrder entries).Perm entries :=
  List.perm_insertionSort _ entries

@[simp] theorem mem_inOrder {entries : List (Label × α)} {e : Label × α} :
    e ∈ inOrder entries ↔ e ∈ entries := (inOrder_perm entries).mem_iff

@[simp] theorem length_inOrder (entries : List (Label × α)) :
    (inOrder entries).length = entries.length := (inOrder_perm entries).length_eq

theorem inOrder_map (f : α → β) (entries : List (Label × α)) :
    inOrder (entries.map fun e => (e.1, f e.2)) = (inOrder entries).map fun e => (e.1, f e.2) :=
  (List.map_insertionSort _ _ (fun e : Label × α => (e.1, f e.2)) entries
    fun _ _ _ _ => Iff.rfl).symm

theorem inOrder_pairwise (entries : List (Label × α)) :
    (inOrder entries).Pairwise fun a b => rank a.1 ≤ rank b.1 := by
  have : Std.Total fun a b : Label × α => rank a.1 ≤ rank b.1 := ⟨fun a b => le_total _ _⟩
  have : IsTrans (Label × α) fun a b => rank a.1 ≤ rank b.1 := ⟨fun _ _ _ => le_trans⟩
  exact List.pairwise_insertionSort _ entries

theorem inOrder_eq_self {entries : List (Label × α)}
    (h : entries.Pairwise fun a b => rank a.1 ≤ rank b.1) : inOrder entries = entries :=
  h.insertionSort_eq

end Order

/-- The entries to write, key by key. -/
def entryNodes (entries : List (Label × Cbor)) : List (Node × Node) :=
  (inOrder entries).map fun e => (keyNode e.1, tree e.2)

theorem tree_map (entries : List (Label × Cbor)) :
    tree (.map entries) = .map (shortest entries.length) (entryNodes entries) := by
  rw [tree, treeEntries_eq, inOrder_map, List.map_map]
  rfl

theorem sorted_map (entries : List (Label × Cbor)) :
    sorted (.map entries) = .map ((inOrder entries).map fun e => (e.1, sorted e.2)) := by
  rw [sorted, sortedEntries_eq, inOrder_map]

-- ============================================================ what is read

/-- A key, read. -/
def keyRead : Label → Label
  | .int n => .int n
  | .text text => .text (Js.dropBom text)

theorem value_intNode (n : Int) : (intNode n).value = .int n := by
  unfold intNode
  split
  next h =>
    have hn : ((n.toNat : Nat) : Int) = n := Int.toNat_of_nonneg h
    rw [Node.value, if_neg (by simp), hn]
  next h =>
    have hn : (((-1 - n).toNat : Nat) : Int) = -1 - n := Int.toNat_of_nonneg (by omega)
    rw [Node.value, if_pos rfl, hn, sub_sub_cancel]

theorem label_keyNode (key : Label) : (keyNode key).value.label = some (keyRead key) := by
  cases key with
  | int n => rw [keyNode, value_intNode]; rfl
  | text text => rfl

theorem labelled_map {α : Type} (entries : List (Label × α)) (f : α → Node) :
    Node.labelled (entries.map fun e => (keyNode e.1, f e.2))
      = entries.map fun e => (keyRead e.1, (f e.2).value) := by
  induction entries with
  | nil => rfl
  | cons first rest ih =>
      rw [List.map_cons, List.map_cons, Node.labelled, label_keyNode]
      exact congrArg _ ih

theorem value_array (items : List Cbor) :
    (tree (.array items)).value = .array (items.map fun v => (tree v).value) := by
  rw [tree, Node.value, treeItems_eq, Node.values_eq, List.map_map]
  rfl

theorem value_map (entries : List (Label × Cbor)) :
    (tree (.map entries)).value
      = .map ((inOrder entries).map fun e => (keyRead e.1, (tree e.2).value)) := by
  rw [tree_map, Node.value, entryNodes, labelled_map]

theorem keyTexts_keyRead (key : Label) :
    keyTexts (keyRead key) = (keyTexts key).map Js.dropBom := by
  cases key <;> rfl

/-- What was written comes back without the leading marks of its texts. -/
theorem texts_value_tree (v : Cbor) : (texts (tree v).value).Perm ((texts v).map Js.dropBom) := by
  induction v using value_children with
  | int n =>
      rw [tree, value_intNode]
      exact .rfl
  | bytes payload => exact .rfl
  | text text => exact .rfl
  | bool b => cases b <;> exact .rfl
  | null => exact .rfl
  | array items ih =>
      rw [value_array, texts, textsItems_eq, List.flatMap_map, texts, textsItems_eq,
        List.map_flatMap]
      exact List.Perm.flatMap_left _ ih
  | map entries ih =>
      rw [value_map, texts, textsEntries_eq, List.flatMap_map, texts, textsEntries_eq,
        List.map_flatMap]
      refine .trans ?_ ((inOrder_perm entries).flatMap_right _)
      refine List.Perm.flatMap_left _ fun e he => ?_
      rw [keyTexts_keyRead, List.map_append]
      exact (ih e (mem_inOrder.mp he)).append_left _

theorem texts_sorted (v : Cbor) : (texts (sorted v)).Perm (texts v) := by
  induction v using value_children with
  | int | bytes | text | bool | null => exact .rfl
  | array items ih =>
      rw [sorted, texts, textsItems_eq, sortedItems_eq, List.flatMap_map, texts, textsItems_eq]
      exact List.Perm.flatMap_left _ ih
  | map entries ih =>
      rw [sorted_map, texts, textsEntries_eq, List.flatMap_map, texts, textsEntries_eq]
      refine .trans ?_ ((inOrder_perm entries).flatMap_right _)
      exact List.Perm.flatMap_left _ fun e he => (ih e (mem_inOrder.mp he)).append_left _

-- ================================================================ the marks

theorem utf8_dropBom_le (text : String) :
    (utf8 (Js.dropBom text)).length ≤ (utf8 text).length := by
  unfold Js.dropBom
  split
  next => exact le_rfl
  next c rest heq =>
    split
    next =>
      have htext : text = String.ofList [c] ++ String.ofList rest := by
        rw [← String.ofList_append, List.singleton_append, ← heq, String.ofList_toList]
      rw [htext]
      simp [utf8]
    next => exact le_rfl

theorem length_dropBom_lt {text : String} (h : text.toList.head? = some Js.bom) :
    (Js.dropBom text).length < text.length := by
  unfold Js.dropBom
  split
  next heq => simp [heq] at h
  next c rest heq =>
    have hc : c = Js.bom := by simpa [heq] using h
    rw [if_pos hc, String.length_ofList, ← String.length_toList, heq]
    simp

/-- If the texts come back, none began with a mark. -/
theorem heads_of_perm {l : List String} (h : (l.map Js.dropBom).Perm l) :
    ∀ text ∈ l, text.toList.head? ≠ some Js.bom := by
  intro text hmem hbom
  have hsum : (l.map fun t => (Js.dropBom t).length).sum = (l.map String.length).sum := by
    have := (h.map String.length).sum_eq
    rwa [List.map_map] at this
  have hlt : (l.map fun t => (Js.dropBom t).length).sum < (l.map String.length).sum := by
    refine List.sum_lt_sum _ _ (fun t _ => ?_) ⟨text, hmem, length_dropBom_lt hbom⟩
    by_cases ht : t.toList.head? = some Js.bom
    · exact (length_dropBom_lt ht).le
    · rw [Js.dropBom_of_head_ne ht]
  omega

-- ============================================================== canonical

theorem keyRead_eq_self {key : Label}
    (h : ∀ text ∈ keyTexts key, text.toList.head? ≠ some Js.bom) : keyRead key = key := by
  cases key with
  | int n => rfl
  | text text => exact congrArg _ (Js.dropBom_of_head_ne (h text (by simp [keyTexts])))

theorem NoMark.item {items : List Cbor} (h : NoMark (.array items)) {v : Cbor} (hv : v ∈ items) :
    NoMark v := by
  intro text htext
  apply h
  rw [texts, textsItems_eq]
  exact List.mem_flatMap.mpr ⟨v, hv, htext⟩

theorem NoMark.entry {entries : List (Label × Cbor)} (h : NoMark (.map entries))
    {e : Label × Cbor} (he : e ∈ entries) : keyRead e.1 = e.1 ∧ NoMark e.2 := by
  have hall : ∀ text ∈ keyTexts e.1 ++ texts e.2, text.toList.head? ≠ some Js.bom := by
    intro text htext
    apply h
    rw [texts, textsEntries_eq]
    exact List.mem_flatMap.mpr ⟨e, he, htext⟩
  exact ⟨keyRead_eq_self fun text ht => hall text (List.mem_append_left _ ht),
    fun text ht => hall text (List.mem_append_right _ ht)⟩

/-- Without marks, what was written comes back. -/
theorem value_tree {v : Cbor} (h : NoMark v) : (tree v).value = sorted v := by
  induction v using value_children with
  | int n => exact value_intNode n
  | bytes payload => rfl
  | text text => exact congrArg _ (Js.dropBom_of_head_ne (h text (by simp [texts])))
  | bool b => cases b <;> rfl
  | null => rfl
  | array items ih =>
      rw [value_array, sorted, sortedItems_eq]
      exact congrArg _ (List.map_congr_left fun v hv => ih v hv (h.item hv))
  | map entries ih =>
      rw [value_map, sorted_map]
      refine congrArg _ (List.map_congr_left fun e he => ?_)
      have he := mem_inOrder.mp he
      rw [(h.entry he).1, ih e he (h.entry he).2]

theorem canonical_intNode (n : Int) : (intNode n).Canonical := by
  unfold intNode
  split <;> rfl

theorem canonical_keyNode {key : Label} (h : keyRead key = key) : (keyNode key).Canonical := by
  cases key with
  | int n => exact canonical_intNode n
  | text text =>
      refine ⟨rfl, heads_of_perm (l := [text]) ?_ text (by simp)⟩
      have htext : Js.dropBom text = text := by simpa [keyRead] using h
      simp [htext]

theorem canonical_tree {v : Cbor} (h : NoMark v) : (tree v).Canonical := by
  induction v using value_children with
  | int n => exact canonical_intNode n
  | bytes payload => rfl
  | text text => exact ⟨rfl, h text (by simp [texts])⟩
  | bool b => cases b <;> rfl
  | null => rfl
  | array items ih =>
      rw [tree, treeItems_eq]
      refine ⟨by rw [List.length_map], Node.canonicalItems_iff.mpr fun item hitem => ?_⟩
      obtain ⟨v, hv, rfl⟩ := List.mem_map.mp hitem
      exact ih v hv (h.item hv)
  | map entries ih =>
      rw [tree_map, entryNodes]
      refine ⟨by simp, Node.canonicalEntries_iff.mpr fun e he => ?_, ?_⟩
      · obtain ⟨e, hmem, rfl⟩ := List.mem_map.mp he
        have hmem := mem_inOrder.mp hmem
        exact ⟨canonical_keyNode (h.entry hmem).1, ih e hmem (h.entry hmem).2⟩
      · have hread : Node.labelled ((inOrder entries).map fun e => (keyNode e.1, tree e.2))
            = (inOrder entries).map fun e => (e.1, (tree e.2).value) := by
          rw [labelled_map]
          exact List.map_congr_left fun e he => by rw [(h.entry (mem_inOrder.mp he)).1]
        rw [hread, List.pairwise_map]
        exact inOrder_pairwise entries

end Nacre.Webauthn
