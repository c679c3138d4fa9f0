/-
The reader against the canonical encoding (core/webauthn.ts: `decodeCbor`).

What is written for a supported value is within the reader's limits, so it
is read (`readable_tree`); what is read is a supported value
(`domain_value`), so it can be written again, and the writing is the tree
that was read exactly if that tree is canonical (`tree_value`,
`canonical_of_encode`).
-/
import Nacre.Webauthn.Canonical

namespace Nacre.Webauthn

open Nacre.Factors (Cbor Label maxDepth maxEntries maxBytes)

-- =================================================================== keys

/-- Keys that are new have labels, all different. -/
theorem newKeys_iff {seen : List Label} {keys : List Node} :
    NewKeys seen keys ↔
      ∃ labels : List Label, keys.map (·.value.label) = labels.map some ∧ labels.Nodup ∧
        ∀ label ∈ labels, label ∉ seen := by
  induction keys generalizing seen with
  | nil =>
      refine ⟨fun _ => ⟨[], rfl, .nil, by simp⟩, fun _ => trivial⟩
  | cons key keys ih =>
      constructor
      · rintro ⟨label, hlabel, hnew, hrest⟩
        obtain ⟨labels, heq, hnodup, hseen⟩ := ih.mp hrest
        refine ⟨label :: labels, by simp [hlabel, heq], List.nodup_cons.mpr ⟨?_, hnodup⟩, ?_⟩
        · exact fun hmem => hseen label hmem (by simp)
        · refine List.forall_mem_cons.mpr ⟨hnew, fun l hl hmem => hseen l hl ?_⟩
          exact List.mem_append_left _ hmem
      · rintro ⟨labels, heq, hnodup, hseen⟩
        match labels with
        | label :: labels =>
            simp only [List.map_cons, List.cons.injEq] at heq
            obtain ⟨hnot, hnodup⟩ := List.nodup_cons.mp hnodup
            obtain ⟨hnew, hseen⟩ := List.forall_mem_cons.mp hseen
            refine ⟨label, heq.1, hnew, ih.mpr ⟨labels, heq.2, hnodup, fun l hl hmem => ?_⟩⟩
            rcases List.mem_append.mp hmem with hmem | hmem
            · exact hseen l hl hmem
            · exact hnot (List.mem_singleton.mp hmem ▸ hl)

theorem NewKeys.labelled {seen : List Label} {entries : List (Node × Node)}
    (h : NewKeys seen (entries.map (·.1))) {e : Node × Node} (he : e ∈ entries) :
    ∃ label, e.1.value.label = some label := by
  obtain ⟨labels, heq, -, -⟩ := newKeys_iff.mp h
  have hmem : e.1.value.label ∈ labels.map some := by
    rw [← heq, List.map_map]
    exact List.mem_map_of_mem he
  obtain ⟨label, -, hlabel⟩ := List.mem_map.mp hmem
  exact ⟨label, hlabel.symm⟩

theorem mem_labelled {entries : List (Node × Node)} {label : Label} {v : Cbor}
    (h : (label, v) ∈ Node.labelled entries) :
    ∃ e ∈ entries, e.1.value.label = some label ∧ e.2.value = v := by
  induction entries with
  | nil => cases h
  | cons first rest ih =>
      obtain ⟨key, value⟩ := first
      rw [Node.labelled] at h
      split at h
      next =>
        obtain ⟨e, he, hlabel⟩ := ih h
        exact ⟨e, List.mem_cons_of_mem _ he, hlabel⟩
      next label' hlabel' =>
        rcases List.mem_cons.mp h with h | h
        · cases h
          exact ⟨(key, value), List.mem_cons_self, hlabel', rfl⟩
        · obtain ⟨e, he, hlabel⟩ := ih h
          exact ⟨e, List.mem_cons_of_mem _ he, hlabel⟩

/-- Every entry is labelled, in its place. -/
theorem labels_labelled {entries : List (Node × Node)}
    (h : ∀ e ∈ entries, ∃ label, e.1.value.label = some label) :
    (Node.labelled entries).map (fun e => some e.1) = entries.map fun e => e.1.value.label := by
  induction entries with
  | nil => rfl
  | cons first rest ih =>
      obtain ⟨⟨label, hlabel⟩, hrest⟩ := List.forall_mem_cons.mp h
      rw [Node.labelled, hlabel, List.map_cons, List.map_cons, ih hrest, hlabel]

theorem NewKeys.nodup {entries : List (Node × Node)} (h : NewKeys [] (entries.map (·.1))) :
    ((Node.labelled entries).map (·.1)).Nodup := by
  obtain ⟨labels, heq, hnodup, -⟩ := newKeys_iff.mp h
  have hsome : ((Node.labelled entries).map (·.1)).map some = labels.map some := by
    rw [List.map_map, ← heq, List.map_map]
    exact labels_labelled fun e he => h.labelled he
  rw [(List.map_injective_iff.mpr (Option.some_injective Label)) hsome]
  exact hnodup

theorem NewKeys.length {entries : List (Node × Node)} (h : NewKeys [] (entries.map (·.1))) :
    (Node.labelled entries).length = entries.length := by
  simpa using congrArg List.length (labels_labelled fun e he => h.labelled he)

-- ================================================================ the limits

theorem intNode_fits {n : Int} (h : -2 ^ 32 ≤ n ∧ n < 2 ^ 32) (levels : Nat) :
    (intNode n).Readable (levels + 1) := by
  unfold intNode
  split
  next => exact shortest_fits (by omega)
  next => exact shortest_fits (by omega)

theorem textNode_fits {text : String} (h : (utf8 text).length ≤ maxBytes) (levels : Nat) :
    (textNode text).Readable (levels + 1) :=
  ⟨shortest_fits (by simp only [maxBytes] at h; omega), h⟩

theorem keyNode_fits {key : Label} (h : KeyDomain key) (levels : Nat) :
    (keyNode key).Readable (levels + 1) := by
  cases key with
  | int n => exact intNode_fits h levels
  | text text => exact textNode_fits h levels

theorem Domain.pos {levels : Nat} {v : Cbor} (h : Domain levels v) : ∃ l, levels = l + 1 := by
  cases levels with
  | zero => exact h.elim
  | succ l => exact ⟨l, rfl⟩

/-- What is written for a supported value has its heads wide enough. -/
theorem shaped_tree {levels : Nat} {v : Cbor} (h : Domain levels v) : (tree v).Shaped := by
  induction levels generalizing v with
  | zero => exact h.elim
  | succ levels ih =>
      cases v with
      | int n => exact (intNode_fits h 0).shaped
      | bytes payload => exact shortest_fits (by simp only [Domain, maxBytes] at h; omega)
      | text text => exact (textNode_fits h 0).shaped
      | bool b =>
          cases b with
          | false => exact (by omega : 20 < 24)
          | true => exact (by omega : 21 < 24)
      | null => exact (by omega : 22 < 24)
      | array items =>
          obtain ⟨hlen, hitems⟩ := h
          rw [tree, treeItems_eq]
          refine ⟨?_, Node.shapedItems_iff.mpr fun item hitem => ?_⟩
          · rw [List.length_map]
            exact shortest_fits (by simp only [maxEntries] at hlen; omega)
          · obtain ⟨v, hv, rfl⟩ := List.mem_map.mp hitem
            exact ih (hitems v hv)
      | map entries =>
          obtain ⟨hlen, -, hentries⟩ := h
          rw [tree_map, entryNodes]
          refine ⟨?_, Node.shapedEntries_iff.mpr fun e he => ?_⟩
          · rw [List.length_map, length_inOrder]
            exact shortest_fits (by simp only [maxEntries] at hlen; omega)
          · obtain ⟨e, hmem, rfl⟩ := List.mem_map.mp he
            have hdomain := hentries e (mem_inOrder.mp hmem)
            exact ⟨(keyNode_fits hdomain.1 0).shaped, ih hdomain.2⟩

/-- Without marks, what is written for a supported value is read. -/
theorem readable_tree {levels : Nat} {v : Cbor} (h : Domain levels v) (hmark : NoMark v) :
    (tree v).Readable levels := by
  induction levels generalizing v with
  | zero => exact h.elim
  | succ levels ih =>
      have hshaped := shaped_tree h
      cases v with
      | int n => exact intNode_fits h levels
      | bytes payload => exact ⟨hshaped, h⟩
      | text text => exact ⟨hshaped, h⟩
      | bool b => exact ⟨hshaped, by cases b <;> simp⟩
      | null => exact ⟨hshaped, .inr (.inr rfl)⟩
      | array items =>
          rw [tree, treeItems_eq] at hshaped ⊢
          refine ⟨hshaped.1, by simpa using h.1, fun item hitem => ?_⟩
          obtain ⟨v, hv, rfl⟩ := List.mem_map.mp hitem
          exact ih (h.2 v hv) (hmark.item hv)
      | map entries =>
          obtain ⟨hlen, hnodup, hentries⟩ := h
          rw [tree_map] at hshaped ⊢
          refine ⟨hshaped.1, by simpa [entryNodes] using hlen, ?_, fun e he => ?_⟩
          · refine newKeys_iff.mpr ⟨(inOrder entries).map (·.1), ?_, ?_, by simp⟩
            · rw [entryNodes, List.map_map, List.map_map, List.map_map]
              refine List.map_congr_left fun e he => ?_
              simp only [Function.comp]
              rw [label_keyNode, (hmark.entry (mem_inOrder.mp he)).1]
            · exact ((inOrder_perm entries).map _).nodup_iff.mpr hnodup
          · obtain ⟨e, hmem, rfl⟩ := List.mem_map.mp he
            have hmem := mem_inOrder.mp hmem
            obtain ⟨hkey, hvalue⟩ := hentries e hmem
            obtain ⟨l, rfl⟩ := hvalue.pos
            exact ⟨keyNode_fits hkey l, ih hvalue (hmark.entry hmem).2⟩

theorem Width.Fits.lt {w : Width} {n : Nat} (h : w.Fits n) : n < 2 ^ 32 := by
  cases w <;> simp only [Width.Fits] at h <;> omega

theorem domain_key {levels : Nat} {v : Cbor} {label : Label} (hlabel : v.label = some label)
    (h : Domain levels v) : KeyDomain label := by
  cases levels with
  | zero => exact h.elim
  | succ levels =>
      cases v with
      | int n => cases hlabel; exact h
      | text text => cases hlabel; exact h
      | bytes | array | map | bool | null => cases hlabel

/-- What is read is supported. -/
theorem domain_value {levels : Nat} {node : Node} (h : node.Readable levels) :
    Domain levels node.value := by
  induction levels generalizing node with
  | zero => exact h.elim
  | succ levels ih =>
      cases node with
      | int negative w n =>
          have hn := Width.Fits.lt h
          cases negative <;> simp only [Node.value, Domain] <;> constructor <;> simp <;> omega
      | bytes w payload => exact h.2
      | text w payload => exact (utf8_dropBom_le payload).trans h.2
      | array w items =>
          refine ⟨by rw [Node.values_eq, List.length_map]; exact h.2.1, fun v hv => ?_⟩
          rw [Node.values_eq] at hv
          obtain ⟨item, hitem, rfl⟩ := List.mem_map.mp hv
          exact ih (h.2.2 item hitem)
      | map w entries =>
          obtain ⟨-, hlen, hkeys, hentries⟩ := h
          refine ⟨by rw [hkeys.length]; exact hlen, hkeys.nodup, fun e he => ?_⟩
          obtain ⟨⟨key, value⟩, hmem, hlabel, hvalue⟩ := mem_labelled he
          exact ⟨domain_key hlabel (ih (hentries _ hmem).1), hvalue ▸ ih (hentries _ hmem).2⟩
      | simple w n =>
          rw [Node.value]
          split
          next => trivial
          next => split <;> trivial

-- ========================================================== written again

theorem tree_of_label {v : Cbor} {label : Label} (h : v.label = some label) :
    tree v = keyNode label := by
  cases v with
  | int n => cases h; rfl
  | text text => cases h; rfl
  | bytes | array | map | bool | null => cases h

/-- What is read from a canonical tree is written as that tree. -/
theorem tree_value {levels : Nat} {node : Node} (h : node.Readable levels)
    (hcanonical : node.Canonical) : tree node.value = node := by
  induction levels generalizing node with
  | zero => exact h.elim
  | succ levels ih =>
      cases node with
      | int negative w n =>
          have hw : w = shortest n := hcanonical
          subst hw
          cases negative with
          | false =>
              simp only [Node.value, tree, intNode]
              simp
          | true =>
              have hneg : ¬(0 : Int) ≤ -1 - n := by omega
              have hback : (-1 - (-1 - (n : Int))).toNat = n := by omega
              simp only [Node.value, tree, intNode, if_true]
              rw [if_neg hneg, hback]
      | bytes w payload => exact congrArg (Node.bytes · payload) hcanonical.symm
      | text w payload =>
          obtain ⟨rfl, hbom⟩ := hcanonical
          rw [Node.value, tree, textNode, Js.dropBom_of_head_ne hbom]
      | array w items =>
          obtain ⟨rfl, hitems⟩ := hcanonical
          have hsame : (Node.values items).map tree = items := by
            rw [Node.values_eq, List.map_map]
            refine (List.map_congr_left fun item hitem => ?_).trans (List.map_id items)
            exact ih (h.2.2 item hitem) (Node.canonicalItems_iff.mp hitems item hitem)
          rw [Node.value, tree, treeItems_eq, hsame, Node.values_eq, List.length_map]
      | map w entries =>
          obtain ⟨rfl, hcanonical, horder⟩ := hcanonical
          obtain ⟨-, -, hkeys, hentries⟩ := h
          have hsame : (Node.labelled entries).map (fun e => (keyNode e.1, tree e.2))
              = entries := by
            have hall := Node.canonicalEntries_iff.mp hcanonical
            have hlabelled := fun e he => hkeys.labelled (e := e) he
            clear hkeys horder hcanonical
            induction entries with
            | nil => rfl
            | cons first rest ihrest =>
                obtain ⟨key, value⟩ := first
                obtain ⟨⟨label, hlabel⟩, hlabelled⟩ := List.forall_mem_cons.mp hlabelled
                obtain ⟨hfirst, hentries⟩ := List.forall_mem_cons.mp hentries
                obtain ⟨hcanonical, hall⟩ := List.forall_mem_cons.mp hall
                have hkey : keyNode label = key := by
                  rw [← tree_of_label hlabel]
                  exact ih hfirst.1 hcanonical.1
                simp only [Node.labelled, hlabel, List.map_cons]
                rw [hkey, ih hfirst.2 hcanonical.2, ihrest hentries hall hlabelled]
          rw [Node.value, tree_map, entryNodes, inOrder_eq_self horder, hsame, hkeys.length]
      | simple w n =>
          have hw : w = shortest n := hcanonical
          obtain ⟨-, rfl | rfl | rfl⟩ := h <;> subst hw <;> rfl

/-- If what was read was written alike, it is canonical. -/
theorem canonical_of_encode {levels : Nat} {node : Node} (h : node.Readable levels)
    (hencode : encode node.value = node.write) : node.Canonical := by
  have hsame : tree node.value = node :=
    Node.write_inj (shaped_tree (domain_value h)) h.shaped hencode
  have hmark : NoMark node.value := by
    refine heads_of_perm ?_
    have := texts_value_tree node.value
    rw [hsame] at this
    exact this.symm
  exact hsame ▸ canonical_tree hmark

-- ================================================================== results

/-- **Every supported value comes back, and comes back alone.** A value
comes back from its canonical encoding if and only if none of its texts
begins with a byte order mark; and bytes are refused by the reader, or are
the encoding of what is read, if and only if reading does not stop at a
text that is no UTF-8 and they are not the writing of a tree that is not
canonical. -/
theorem decodeCbor_canonical (v : Cbor) (bytes : List UInt8) :
    (Domain (maxDepth + 1) v → (decodeCbor (encode v) = .ok (sorted v) ↔ NoMark v)) ∧
      ((Refuses bytes ∨ ∃ w, decodeCbor bytes = .ok w ∧ encode w = bytes) ↔
        ¬StopsAtText (maxDepth + 1) bytes ∧
          ∀ node : Node, node.Readable (maxDepth + 1) → node.write = bytes → node.Canonical) := by
  refine ⟨fun hdomain => ⟨fun h => ?_, fun hmark => ?_⟩, ?_, ?_⟩
  · obtain ⟨node, hnode, hwrite, hvalue⟩ := decodeCbor_ok_iff.mp h
    have hsame := Node.write_inj hnode.shaped (shaped_tree hdomain) hwrite
    refine heads_of_perm ((texts_value_tree v).symm.trans ?_)
    rw [← hsame, hvalue]
    exact texts_sorted v
  · exact decodeCbor_ok_iff.mpr ⟨tree v, readable_tree hdomain hmark, rfl, value_tree hmark⟩
  · intro h
    have hread : ∀ e, decodeCbor bytes = .error e → e ≠ .typeError := by
      rintro e he rfl
      rcases h with ⟨message, h⟩ | ⟨w, h, -⟩
      · rw [h] at he
        cases he
      · rw [h] at he
        cases he
    refine ⟨fun hstops => hread _ (decodeCbor_typeError_iff.mpr hstops) rfl, ?_⟩
    intro node hnode hwrite
    have hok := decodeCbor_ok_iff.mpr ⟨node, hnode, hwrite, rfl⟩
    rcases h with ⟨message, h⟩ | ⟨w, h, hencode⟩
    · rw [h] at hok
      cases hok
    · rw [h] at hok
      cases hok
      exact canonical_of_encode hnode (hencode.trans hwrite.symm)
  · rintro ⟨hstops, hcanonical⟩
    cases h : decodeCbor bytes with
    | error e =>
        cases e with
        | cborError message => exact .inl ⟨message, h⟩
        | typeError => exact absurd (decodeCbor_typeError_iff.mp h) hstops
    | ok w =>
        obtain ⟨node, hnode, rfl, rfl⟩ := decodeCbor_ok_iff.mp h
        refine .inr ⟨_, rfl, ?_⟩
        rw [encode, tree_value hnode (hcanonical node hnode rfl)]

/-- An array of a number, a text and a map comes back. -/
theorem decodeCbor_canonical_array :
    decodeCbor (encode (.array [.int 5, .text "a", .map [(.int 3, .null)]]))
      = .ok (sorted (.array [.int 5, .text "a", .map [(.int 3, .null)]])) :=
  ((decodeCbor_canonical _ []).1 (by
    have htext : (utf8 "a").length ≤ maxBytes := by decide +kernel
    simp [Domain, KeyDomain, maxDepth, maxEntries, htext])).mpr
    (by simp [NoMark, texts, textsItems, textsEntries, keyTexts, Js.bom])

/-- Two bytes are read as the 5 that one byte is. -/
theorem decodeCbor_wide :
    ¬(∀ bytes, Refuses bytes ∨ ∃ w, decodeCbor bytes = .ok w ∧ encode w = bytes) ∧
      decodeCbor [0x18, 0x05] = decodeCbor [0x05] := by
  refine ⟨fun h => ?_, rfl⟩
  have hok : decodeCbor [0x18, 0x05] = .ok (.int 5) := rfl
  rcases h [0x18, 0x05] with ⟨message, h⟩ | ⟨w, h, hencode⟩
  · rw [hok] at h
    cases h
  · rw [hok] at h
    cases h
    exact absurd hencode (by decide)

end Nacre.Webauthn
