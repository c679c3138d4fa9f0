/-
`S3.list`: every key under a prefix, page after page.

A page is XML the code reads with three regular expressions, so what a
page says is stated on its text: a prolog and parts, each beginning at a
`<` (`Page`). The bucket is asked by page and continuation token, and a
walk (`Leads`) is the pages a bucket answers one after another while it
says there are more, each naming the token the next request carries.

The walk lemma runs the loop along it (`listFrom_leads`); what the list
comes to is then what the page behind the walk says, or an error.
-/
import Mathlib.Data.Bool.AllAny
import Nacre.Lib.Units
import Nacre.Objects.Xml

namespace Nacre.Objects

open Json (unit units)
open Scan (Pattern expect matchAll)

-- ============================================================= the patterns

/-- `<name>([^<]*)</name>` -/
def element (name : List UInt16) : Pattern UInt16 := fun s => do
  let s ← expect (units "<" ++ name ++ units ">") s
  let left ← expect (units "</" ++ name ++ units ">") (s.dropWhile (· ≠ unit '<'))
  some (s.takeWhile (· ≠ unit '<'), left)

/-- `/<Key>([^<]*)<\/Key>/gu` -/
def keyElement : Pattern UInt16 := element (units "Key")

/-- `/<NextContinuationToken>([^<]*)<\/NextContinuationToken>/u` -/
def tokenElement : Pattern UInt16 := element (units "NextContinuationToken")

/-- Case folding, where it meets ASCII. -/
def fold (u : UInt16) : UInt16 :=
  if 65 ≤ u.toNat ∧ u.toNat ≤ 90 then u + 32
  else if u.toNat = 0x17F then unit 's'
  else if u.toNat = 0x212A then unit 'k'
  else u

/-- What follows a word, compared without case; the word is in lower
case. -/
def expectFolded (word s : List UInt16) : Option (List UInt16) :=
  if word <+: s.map fold then some (s.drop word.length) else none

/-- `/<IsTruncated>\s*true\s*<\/IsTruncated>/iu` -/
def truncatedElement : Pattern UInt16 := fun s => do
  let s ← expectFolded (units "<istruncated>") s
  let s ← expectFolded (units "true") (Units.trimStart s)
  let left ← expectFolded (units "</istruncated>") (Units.trimStart s)
  some ([], left)

-- ================================================================ the code

/-- What a page is asked for: `list-type=2`, the prefix and the token of
the page before. -/
structure ListRequest where
  listPrefix : List UInt16
  token : Option (List UInt16)

structure Response where
  status : Nat
  text : List UInt16

def Response.ok (response : Response) : Bool := 200 ≤ response.status && response.status ≤ 299

inductive Failure where
  /-- No response, or none that could be read to its end. -/
  | fetch
  /-- An `S3Error`. -/
  | s3 (status : Nat) (method : String) (key body : List UInt16)
  /-- `String.fromCodePoint` of no code point. -/
  | range
deriving DecidableEq

/-- What the bucket answers, once its retries are over, to the request of
a page: by the page's number, for it need not answer two alike. -/
abbrev Bucket := Nat → ListRequest → Except Failure Response

def maxPages : Nat := 10000

variable (bucket : Bucket) (pre : List UInt16)

/-- The loop with `left` pages to go, at page `page`. -/
def listFrom : Nat → Nat → Option (List UInt16) → List (List UInt16) →
    Except Failure (List (List UInt16))
  | 0, _, _, _ => .error (.s3 200 "GET" (pre ++ units "*")
      (units "listing did not end after 10000 pages"))
  | left + 1, page, token, keys =>
    match bucket page ⟨pre, token⟩ with
    | .error failure => .error failure
    | .ok response =>
      if response.ok = false then
        .error (.s3 response.status "GET" (pre ++ units "*") response.text)
      else
        match (matchAll keyElement response.text).mapM unescapeXml with
        | none => .error .range
        | some found =>
          if matchAll truncatedElement response.text = [] then .ok (keys ++ found)
          else
            match (matchAll tokenElement response.text).head? with
            | none | some [] => .error (.s3 200 "GET" (pre ++ units "*")
                (units "truncated listing with no continuation token"))
            | some next =>
              match unescapeXml next with
              | none => .error .range
              | some token => listFrom left (page + 1) (some token) (keys ++ found)

def list : Except Failure (List (List UInt16)) := listFrom bucket pre maxPages 0 none []

-- ================================================================= a page

/-- What stands in a page from a `<` on. -/
inductive Part where
  /-- `<Key>raw</Key>`, and text behind it. -/
  | key (raw after : List UInt16)
  /-- `<NextContinuationToken>raw</NextContinuationToken>`. -/
  | token (raw after : List UInt16)
  /-- `<IsTruncated>word</IsTruncated>`, white space around the word. -/
  | truncated (before word behind after : List UInt16)
  /-- Any other tag and the text behind it. -/
  | other (rest : List UInt16)

def Part.text : Part → List UInt16
  | .key raw after => units "<Key>" ++ raw ++ units "</Key>" ++ after
  | .token raw after =>
    units "<NextContinuationToken>" ++ raw ++ units "</NextContinuationToken>" ++ after
  | .truncated before word behind after =>
    units "<IsTruncated>" ++ before ++ word ++ behind ++ units "</IsTruncated>" ++ after
  | .other rest => unit '<' :: rest

def Part.WellFormed : Part → Prop
  | .key raw after => unit '<' ∉ raw ∧ unit '<' ∉ after
  | .token raw after => unit '<' ∉ raw ∧ unit '<' ∉ after
  | .truncated before word behind after =>
    (∀ u ∈ before, Units.isSpace u = true) ∧ (∀ u ∈ behind, Units.isSpace u = true)
      ∧ (word.map fold = units "true" ∨ word.map fold = units "false") ∧ unit '<' ∉ after
  | .other rest => unit '<' ∉ rest ∧ ¬ units "Key>" <+: rest
      ∧ ¬ units "NextContinuationToken>" <+: rest ∧ ¬ units "istruncated>" <+: rest.map fold

def Part.key? : Part → Option (List UInt16)
  | .key raw _ => some raw
  | _ => none

def Part.token? : Part → Option (List UInt16)
  | .token raw _ => some raw
  | _ => none

/-- The part says that there are more pages. -/
def Part.saysMore : Part → Bool
  | .truncated _ word _ _ => word.map fold = units "true"
  | _ => false

structure Page where
  prolog : List UInt16
  parts : List Part
  prolog_plain : unit '<' ∉ prolog
  wellFormed : ∀ part ∈ parts, part.WellFormed

def Page.text (page : Page) : List UInt16 := page.prolog ++ page.parts.flatMap Part.text

/-- The page shows the keys in order, says whether it is truncated, and
names at most one token. -/
structure Page.Shows (page : Page) (keys : List Key) (truncated : Bool) (token : Option Key) :
    Prop where
  keys : List.Forall₂ Escapes keys (page.parts.filterMap Part.key?)
  truncated : page.parts.any Part.saysMore = truncated
  token : List.Forall₂ Escapes token.toList (page.parts.filterMap Part.token?)

-- ===================================================== reading a page's text

section Reading

variable {m : Pattern UInt16} {name t rest raw after : List UInt16}

/-- The text ends, or another part begins. -/
def Marked (rest : List UInt16) : Prop := ∀ u ∈ rest.head?, u = unit '<'

theorem not_prefix_marked {word : List UInt16} (h : ¬ word <+: t) (hword : unit '<' ∉ word)
    (hrest : Marked rest) : ¬ word <+: t ++ rest := by
  intro hprefix
  obtain _ | ⟨u, rest⟩ := rest
  · exact h (by simpa using hprefix)
  · obtain rfl := hrest u rfl
    exact h (Find.prefix_of_append_cons hprefix hword)

theorem element_mark (name : List UInt16) (u : UInt16) (s : List UInt16) (h : u ≠ unit '<') :
    element name (u :: s) = none := by
  rw [element, List.append_assoc, show units "<" = [unit '<'] from rfl, List.singleton_append,
    Scan.expect_head h]
  rfl

theorem element_none (h : ¬ name ++ units ">" <+: t) (hname : unit '<' ∉ name)
    (hrest : Marked rest) : element name (unit '<' :: (t ++ rest)) = none := by
  have hword : unit '<' ∉ name ++ units ">" := by
    rw [List.mem_append, not_or]
    exact ⟨hname, by decide⟩
  have hnot := not_prefix_marked h hword hrest
  rw [element, List.append_assoc, show units "<" = [unit '<'] from rfl, List.singleton_append,
    Scan.expect_eq_none fun hprefix => hnot (List.cons_prefix_cons.1 hprefix).2]
  rfl

theorem element_match (name : List UInt16) (hraw : unit '<' ∉ raw) (rest : List UInt16) :
    element name (units "<" ++ name ++ units ">" ++ raw ++ (units "</" ++ name ++ units ">")
      ++ rest) = some (raw, rest) := by
  have hplain : ∀ u ∈ raw, decide (u ≠ unit '<') = true :=
    fun u hu => decide_eq_true fun heq => hraw (heq ▸ hu)
  have hclose : units "</" ++ name ++ units ">" ++ rest
      = unit '<' :: (unit '/' :: (name ++ units ">" ++ rest)) := by simp [units]
  have htake : (raw ++ (units "</" ++ name ++ units ">" ++ rest)).takeWhile (· ≠ unit '<')
      = raw := by
    rw [List.takeWhile_append_of_pos hplain, hclose]
    simp
  have hdrop : (raw ++ (units "</" ++ name ++ units ">" ++ rest)).dropWhile (· ≠ unit '<')
      = units "</" ++ name ++ units ">" ++ rest := by
    rw [List.dropWhile_append_of_pos hplain, hclose]
    simp
  have hwhole : units "<" ++ name ++ units ">" ++ raw ++ (units "</" ++ name ++ units ">") ++ rest
      = (units "<" ++ name ++ units ">") ++ (raw ++ (units "</" ++ name ++ units ">" ++ rest)) := by
    simp only [List.append_assoc]
  rw [hwhole, element, Scan.expect_append]
  simp only [Option.bind_eq_bind, Option.bind_some]
  rw [htake, hdrop, Scan.expect_append]
  rfl

theorem fold_lt {u : UInt16} (h : fold u = unit '<') : u = unit '<' := by
  unfold fold at h
  split at h
  · rename_i hupper
    have hsame := congrArg UInt16.toNat h
    rw [UInt16.toNat_add] at hsame
    have h32 : (32 : UInt16).toNat = 32 := rfl
    have h60 : (unit '<').toNat = 60 := rfl
    omega
  · split at h
    · exact absurd h (by decide)
    · split at h
      · exact absurd h (by decide)
      · exact h

theorem truncatedElement_mark (u : UInt16) (s : List UInt16) (h : u ≠ unit '<') :
    truncatedElement (u :: s) = none := by
  have hnot : ¬ units "<istruncated>" <+: (u :: s).map fold := fun hprefix =>
    h (fold_lt (List.cons_prefix_cons.1 hprefix).1.symm)
  rw [truncatedElement, expectFolded, if_neg hnot]
  rfl

theorem truncatedElement_none (h : ¬ units "istruncated>" <+: t.map fold) (hrest : Marked rest) :
    truncatedElement (unit '<' :: (t ++ rest)) = none := by
  have hmarked : Marked (rest.map fold) := by
    intro u hu
    obtain ⟨v, hv, rfl⟩ := Option.map_eq_some_iff.1 (List.head?_map.symm.trans hu)
    obtain rfl := hrest v hv
    rfl
  have hnot := not_prefix_marked h (by decide) hmarked
  rw [truncatedElement, expectFolded, if_neg fun hprefix => hnot ?_]
  · rfl
  · rw [List.map_cons, List.map_append] at hprefix
    exact (List.cons_prefix_cons.1 hprefix).2

theorem expectFolded_append {word s : List UInt16} (h : s.map fold = word) (rest : List UInt16) :
    expectFolded word (s ++ rest) = some rest := by
  have hlength : word.length = s.length := by rw [← h, List.length_map]
  rw [expectFolded, if_pos, hlength, List.drop_left]
  rw [List.map_append, h]
  exact List.prefix_append word _

theorem trimStart_append {blank word : List UInt16} (hblank : ∀ u ∈ blank, Units.isSpace u = true)
    (hword : ∀ u ∈ word.head?, Units.isSpace u = false) (hne : word ≠ []) (rest : List UInt16) :
    Units.trimStart (blank ++ (word ++ rest)) = word ++ rest := by
  obtain _ | ⟨u, word⟩ := word
  · exact absurd rfl hne
  · rw [Units.trimStart, List.dropWhile_append_of_pos hblank, List.cons_append,
      List.dropWhile_cons_of_neg]
    rw [hword u rfl]
    exact Bool.false_ne_true

theorem isSpace_fold {u : UInt16} (h : Units.isSpace (fold u) = false) :
    Units.isSpace u = false := by
  unfold fold at h
  split at h
  · rename_i hupper
    simp only [Units.isSpace, Bool.or_eq_false_iff, Bool.and_eq_false_iff, decide_eq_false_iff_not]
    omega
  · split at h
    · rename_i hs
      simp [Units.isSpace, hs]
    · split at h
      · rename_i hk
        simp [Units.isSpace, hk]
      · exact h

theorem isSpace_word {word w : List UInt16} (h : word.map fold = w)
    (hw : ∀ u ∈ w, Units.isSpace u = false) : ∀ u ∈ word, Units.isSpace u = false :=
  fun _ hu => isSpace_fold (hw _ (h ▸ List.mem_map_of_mem hu))

variable {before word behind : List UInt16}

theorem truncatedElement_word (hbefore : ∀ u ∈ before, Units.isSpace u = true)
    (hword : ∀ u ∈ word, Units.isSpace u = false) (hne : word ≠ []) (s : List UInt16) :
    truncatedElement (units "<IsTruncated>" ++ (before ++ (word ++ s))) = (do
      let s ← expectFolded (units "true") (word ++ s)
      let left ← expectFolded (units "</istruncated>") (Units.trimStart s)
      some ([], left)) := by
  rw [truncatedElement, expectFolded_append (by decide)]
  simp only [Option.bind_eq_bind, Option.bind_some]
  rw [trimStart_append hbefore (fun u hu => hword u (List.mem_of_mem_head? hu)) hne]

theorem truncatedElement_true (hbefore : ∀ u ∈ before, Units.isSpace u = true)
    (hbehind : ∀ u ∈ behind, Units.isSpace u = true) (hword : word.map fold = units "true")
    (rest : List UInt16) :
    truncatedElement (units "<IsTruncated>" ++ before ++ word ++ behind ++ units "</IsTruncated>"
      ++ rest) = some ([], rest) := by
  have hletters := isSpace_word hword (List.all_iff_forall_prop.1 (by decide))
  have hne : word ≠ [] := by
    rintro rfl
    exact absurd hword (by decide)
  simp only [List.append_assoc]
  rw [truncatedElement_word hbefore hletters hne, expectFolded_append hword]
  simp only [Option.bind_eq_bind, Option.bind_some]
  rw [trimStart_append hbehind (by rintro _ ⟨⟩; decide) (by decide),
    expectFolded_append (by decide)]
  rfl

theorem truncatedElement_false (hbefore : ∀ u ∈ before, Units.isSpace u = true)
    (hword : word.map fold = units "false") (rest : List UInt16) :
    truncatedElement (units "<IsTruncated>" ++ before ++ word ++ rest) = none := by
  have hletters := isSpace_word hword (List.all_iff_forall_prop.1 (by decide))
  have hne : word ≠ [] := by
    rintro rfl
    exact absurd hword (by decide)
  have hnot : ¬ units "true" <+: (word ++ rest).map fold := by
    rw [List.map_append, hword]
    exact fun hprefix => absurd (List.cons_prefix_cons.1 hprefix).1 (by decide)
  rw [List.append_assoc, List.append_assoc, truncatedElement_word hbefore hletters hne,
    expectFolded, if_neg hnot]
  rfl

-- ================================================== all matches of a page

/-- What a pattern finds in a part, whatever part comes behind. -/
def Finds (m : Pattern UInt16) (found : Part → Option (List UInt16)) : Prop :=
  ∀ part : Part, part.WellFormed → ∀ rest, Marked rest →
    matchAll m (part.text ++ rest) = (found part).toList ++ matchAll m rest

variable {found : Part → Option (List UInt16)}

theorem matchAll_plain (hm : ∀ u s, u ≠ unit '<' → m (u :: s) = none) (ht : unit '<' ∉ t)
    (rest : List UInt16) : matchAll m (t ++ rest) = matchAll m rest := by
  rw [Scan.matchAll_of_cut (Scan.cut_plain hm ht), Scan.filterMap_inl, List.nil_append]

theorem matchAll_foreign (hm : ∀ u s, u ≠ unit '<' → m (u :: s) = none) (ht : unit '<' ∉ t)
    (hnone : m (unit '<' :: (t ++ rest)) = none) :
    matchAll m (unit '<' :: t ++ rest) = matchAll m rest := by
  rw [Scan.matchAll_of_cut (Scan.cut_marked hm ht hnone), Scan.filterMap_inl, List.nil_append]

theorem matchAll_match {captured : List UInt16} (ht : t ≠ [])
    (h : m (t ++ rest) = some (captured, rest)) :
    matchAll m (t ++ rest) = captured :: matchAll m rest := by
  rw [matchAll, Scan.cut_match ht h]
  rfl

theorem not_prefix_head {a b : UInt16} (h : a ≠ b) {s t : List UInt16} : ¬ a :: s <+: b :: t :=
  fun hprefix => h (List.cons_prefix_cons.1 hprefix).1

theorem lt_not_mem_append {s t : List UInt16} (hs : unit '<' ∉ s) (ht : unit '<' ∉ t) :
    unit '<' ∉ s ++ t := by
  rw [List.mem_append, not_or]
  exact ⟨hs, ht⟩

theorem lt_not_mem_space {blank : List UInt16} (h : ∀ u ∈ blank, Units.isSpace u = true) :
    unit '<' ∉ blank := fun hmem => absurd (h _ hmem) (by decide)

theorem lt_not_mem_word {w : List UInt16} (h : word.map fold = w) (hw : unit '<' ∉ w) :
    unit '<' ∉ word := fun hmem => hw (h ▸ List.mem_map_of_mem (f := fold) hmem)

end Reading

section Finding

variable {m : Pattern UInt16} {raw after before word behind rest : List UInt16}

/-- The text of a part behind its first `<`, up to the next. -/
def Part.opening : Part → List UInt16
  | .key raw _ => units "Key>" ++ raw
  | .token raw _ => units "NextContinuationToken>" ++ raw
  | .truncated before word behind _ => units "IsTruncated>" ++ before ++ word ++ behind
  | .other rest => rest

/-- The text behind its second. -/
def Part.closing : Part → Option (List UInt16)
  | .key _ after => some (units "/Key>" ++ after)
  | .token _ after => some (units "/NextContinuationToken>" ++ after)
  | .truncated _ _ _ after => some (units "/IsTruncated>" ++ after)
  | .other _ => none

theorem Part.text_eq (part : Part) :
    part.text = unit '<' :: part.opening ++ (part.closing.map (unit '<' :: ·)).getD [] := by
  cases part <;> simp [Part.text, Part.opening, Part.closing, units]

theorem Part.WellFormed.opening {part : Part} (h : part.WellFormed) :
    unit '<' ∉ part.opening := by
  cases part with
  | key raw after => exact lt_not_mem_append (by decide) h.1
  | token raw after => exact lt_not_mem_append (by decide) h.1
  | truncated before word behind after =>
    obtain ⟨hbefore, hbehind, hword, -⟩ := h
    refine lt_not_mem_append (lt_not_mem_append (lt_not_mem_append (by decide)
      (lt_not_mem_space hbefore)) ?_) (lt_not_mem_space hbehind)
    rcases hword with hword | hword
    · exact lt_not_mem_word hword (by decide)
    · exact lt_not_mem_word hword (by decide)
  | other rest => exact h.1

theorem Part.WellFormed.closing {part : Part} (h : part.WellFormed) :
    ∀ u ∈ part.closing, unit '<' ∉ u := by
  cases part with
  | key raw after =>
    rintro _ ⟨⟩
    exact lt_not_mem_append (by decide) h.2
  | token raw after =>
    rintro _ ⟨⟩
    exact lt_not_mem_append (by decide) h.2
  | truncated before word behind after =>
    rintro _ ⟨⟩
    exact lt_not_mem_append (by decide) h.2.2.2
  | other rest => nofun

/-- A part in which the pattern matches at neither `<`. -/
theorem matchAll_skips {part : Part} (hm : ∀ u s, u ≠ unit '<' → m (u :: s) = none)
    (hpart : part.WellFormed)
    (hopening : ∀ rest, Marked rest → m (unit '<' :: (part.opening ++ rest)) = none)
    (hclosing : ∀ u ∈ part.closing, ∀ rest, Marked rest → m (unit '<' :: (u ++ rest)) = none)
    (hrest : Marked rest) : matchAll m (part.text ++ rest) = matchAll m rest := by
  have hplain := hpart.closing
  rw [part.text_eq, List.append_assoc]
  generalize part.closing = closing at hclosing hplain ⊢
  obtain _ | u := closing
  · exact matchAll_foreign hm hpart.opening (hopening rest hrest)
  · have hmarked : Marked (unit '<' :: u ++ rest) := fun v hv => (Option.some.inj hv).symm
    exact (matchAll_foreign hm hpart.opening (hopening _ hmarked)).trans
      (matchAll_foreign hm (hplain u rfl) (hclosing u rfl rest hrest))

/-- The closing tag of a part begins with a slash. -/
theorem Part.closing_head {part : Part} {u : List UInt16} (h : u ∈ part.closing) :
    ∃ t, u = unit '/' :: t := by
  cases part with
  | key raw after => exact ⟨_, (Option.some.inj h).symm⟩
  | token raw after => exact ⟨_, (Option.some.inj h).symm⟩
  | truncated before word behind after => exact ⟨_, (Option.some.inj h).symm⟩
  | other rest => exact nomatch h

theorem element_skips {name : List UInt16} {part : Part} (hname : unit '<' ∉ name)
    (hslash : name.head? ≠ some (unit '/')) (hne : name ≠ []) (hpart : part.WellFormed)
    (hopening : ¬ name ++ units ">" <+: part.opening) (hrest : Marked rest) :
    matchAll (element name) (part.text ++ rest) = matchAll (element name) rest := by
  refine matchAll_skips (element_mark name) hpart
    (fun rest hrest => element_none hopening hname hrest) (fun u hu rest hrest => ?_) hrest
  obtain ⟨t, rfl⟩ := Part.closing_head hu
  obtain _ | ⟨n, name⟩ := name
  · exact absurd rfl hne
  · exact element_none (not_prefix_head fun h => hslash (congrArg some h)) hname hrest

theorem finds_key : Finds keyElement Part.key? := by
  intro part hpart rest hrest
  cases part with
  | key raw after =>
    obtain ⟨hraw, hafter⟩ := hpart
    have hmatch : keyElement (units "<Key>" ++ raw ++ units "</Key>" ++ (after ++ rest))
        = some (raw, after ++ rest) := element_match (units "Key") hraw (after ++ rest)
    rw [Part.text, List.append_assoc _ after rest,
      matchAll_match (List.append_ne_nil_of_right_ne_nil _ (by decide)) hmatch,
      matchAll_plain (m := keyElement) (element_mark _) hafter]
    rfl
  | token raw after =>
    exact element_skips (by decide) (by decide) (by decide) hpart
      (not_prefix_head (by decide)) hrest
  | truncated before word behind after =>
    exact element_skips (by decide) (by decide) (by decide) hpart
      (not_prefix_head (by decide)) hrest
  | other t =>
    exact element_skips (by decide) (by decide) (by decide) hpart hpart.2.1 hrest

theorem finds_token : Finds tokenElement Part.token? := by
  intro part hpart rest hrest
  cases part with
  | key raw after =>
    exact element_skips (by decide) (by decide) (by decide) hpart
      (not_prefix_head (by decide)) hrest
  | token raw after =>
    obtain ⟨hraw, hafter⟩ := hpart
    have hmatch : tokenElement (units "<NextContinuationToken>" ++ raw
        ++ units "</NextContinuationToken>" ++ (after ++ rest)) = some (raw, after ++ rest) :=
      element_match (units "NextContinuationToken") hraw (after ++ rest)
    rw [Part.text, List.append_assoc _ after rest,
      matchAll_match (List.append_ne_nil_of_right_ne_nil _ (by decide)) hmatch,
      matchAll_plain (m := tokenElement) (element_mark _) hafter]
    rfl
  | truncated before word behind after =>
    exact element_skips (by decide) (by decide) (by decide) hpart
      (not_prefix_head (by decide)) hrest
  | other t =>
    exact element_skips (by decide) (by decide) (by decide) hpart hpart.2.2.1 hrest

theorem truncated_skips {part : Part} (hpart : part.WellFormed)
    (hopening : ∀ rest, Marked rest → truncatedElement (unit '<' :: (part.opening ++ rest)) = none)
    (hrest : Marked rest) :
    matchAll truncatedElement (part.text ++ rest) = matchAll truncatedElement rest := by
  refine matchAll_skips truncatedElement_mark hpart hopening (fun u hu rest hrest => ?_) hrest
  obtain ⟨t, rfl⟩ := Part.closing_head hu
  exact truncatedElement_none (not_prefix_head (by decide)) hrest

/-- The parts that say there is more, as the pattern captures them. -/
def Part.more? (part : Part) : Option (List UInt16) := if part.saysMore then some [] else none

theorem finds_truncated : Finds truncatedElement Part.more? := by
  intro part hpart rest hrest
  cases part with
  | key raw after =>
    exact truncated_skips hpart
      (fun rest hrest => truncatedElement_none (not_prefix_head (by decide)) hrest) hrest
  | token raw after =>
    exact truncated_skips hpart
      (fun rest hrest => truncatedElement_none (not_prefix_head (by decide)) hrest) hrest
  | other t =>
    exact truncated_skips hpart
      (fun rest hrest => truncatedElement_none hpart.2.2.2 hrest) hrest
  | truncated before word behind after =>
    obtain ⟨hbefore, hbehind, hword | hword, hafter⟩ := id hpart
    · have hmatch := truncatedElement_true hbefore hbehind hword (after ++ rest)
      rw [Part.text, List.append_assoc _ after rest,
        matchAll_match (List.append_ne_nil_of_right_ne_nil _ (by decide)) hmatch,
        matchAll_plain truncatedElement_mark hafter]
      simp [Part.more?, Part.saysMore, hword]
    · have hfalse : Part.more? (.truncated before word behind after) = none := by
        simp only [Part.more?, Part.saysMore, hword]
        decide
      rw [hfalse]
      refine truncated_skips hpart (fun rest _ => ?_) hrest
      have hnone := truncatedElement_false hbefore hword (behind ++ rest)
      simp only [List.append_assoc] at hnone
      simpa [Part.opening, units] using hnone

theorem marked_parts : ∀ parts : List Part, Marked (parts.flatMap Part.text)
  | [] => nofun
  | part :: parts => by
    intro u hu
    rw [List.flatMap_cons, part.text_eq] at hu
    exact (Option.some.inj hu).symm

/-- A pattern reads a page part by part. -/
theorem Finds.page {found : Part → Option (List UInt16)} (h : Finds m found)
    (hm : ∀ u s, u ≠ unit '<' → m (u :: s) = none) (page : Page) :
    matchAll m page.text = page.parts.filterMap found := by
  obtain ⟨prolog, parts, hprolog, hparts⟩ := page
  rw [Page.text, matchAll_plain hm hprolog]
  show matchAll m (parts.flatMap Part.text) = parts.filterMap found
  clear hprolog
  induction parts with
  | nil => rfl
  | cons part parts ih =>
    have hrest := ih fun p hp => hparts p (List.mem_cons_of_mem part hp)
    rw [List.flatMap_cons, h part (hparts part List.mem_cons_self) _ (marked_parts parts), hrest,
      List.filterMap_cons]
    cases found part <;> rfl

end Finding

-- ================================================================ the walk

section Walk

variable {bucket : Bucket} {pre : List UInt16} {pages : List (List Key)} {i k : Nat}
  {token token' : Option Key} {page : Page} {keys : List Key}

/-- The bucket answers the request of page `k`, with a token, by a page. -/
def Answers (bucket : Bucket) (pre : List UInt16) (k : Nat) (token : Option Key) (page : Page) : Prop :=
  ∃ response, bucket k ⟨pre, token.map Key.text⟩ = .ok response ∧ response.ok = true
    ∧ response.text = page.text

/-- From page `i` and its token the bucket lists the keys of `pages`, page
after page, and has more to list from page `k` on: each is truncated and
names the token of the next. -/
inductive Leads (bucket : Bucket) (pre : List UInt16) :
    Nat → Option Key → List (List Key) → Nat → Option Key → Prop
  | here {k : Nat} {token : Option Key} : Leads bucket pre k token [] k token
  | more {i k : Nat} {token token' : Option Key} {page : Page} {keys : List Key}
      {next : Key} {pages : List (List Key)} (hanswers : Answers bucket pre i token page)
      (hshows : page.Shows keys true (some next)) (hnext : next ≠ [])
      (hrest : Leads bucket pre (i + 1) (some next) pages k token') :
      Leads bucket pre i token (keys :: pages) k token'

theorem unescape_all {raws : List (List UInt16)} (h : List.Forall₂ Escapes keys raws) :
    raws.mapM unescapeXml = some (keys.map Key.text) := by
  induction h with
  | nil => rfl
  | cons hkey hrest ih => simp [unescapeXml_escapes hkey, ih]

theorem more_iff (parts : List Part) :
    parts.filterMap Part.more? = [] ↔ parts.any Part.saysMore = false := by
  rw [List.filterMap_eq_nil_iff, List.any_eq_false]
  refine forall₂_congr fun part _ => ?_
  cases h : part.saysMore
  · simp [Part.more?, h]
  · simp [Part.more?, h]

/-- A page the bucket answers, as the loop reads it. -/
structure Reads (bucket : Bucket) (pre : List UInt16) (i : Nat) (token : Option Key)
    (response : Response) (keys : List Key) (truncated : Bool) (raws : List (List UInt16)) :
    Prop where
  answer : bucket i ⟨pre, token.map Key.text⟩ = .ok response
  ok : response.ok = true
  found : (matchAll keyElement response.text).mapM unescapeXml = some (keys.map Key.text)
  more : matchAll truncatedElement response.text = [] ↔ truncated = false
  next : matchAll tokenElement response.text = raws

theorem Answers.reads (hanswers : Answers bucket pre i token page) {truncated : Bool}
    {next : Option Key} (hshows : page.Shows keys truncated next) :
    ∃ response raws, Reads bucket pre i token response keys truncated raws
      ∧ List.Forall₂ Escapes next.toList raws := by
  obtain ⟨response, hbucket, hok, htext⟩ := hanswers
  obtain ⟨hkeys, htruncated, htoken⟩ := hshows
  refine ⟨response, _, ⟨hbucket, hok, ?_, ?_, rfl⟩, ?_⟩
  · rw [htext, finds_key.page (element_mark _)]
    exact unescape_all hkeys
  · rw [htext, finds_truncated.page truncatedElement_mark, more_iff, htruncated]
  · rw [htext, finds_token.page (element_mark _)]
    exact htoken

variable (left : Nat) (found : List (List UInt16))

theorem listFrom_last (hanswers : Answers bucket pre i token page) {next : Option Key}
    (hshows : page.Shows keys false next) :
    listFrom bucket pre (left + 1) i (token.map Key.text) found
      = .ok (found ++ keys.map Key.text) := by
  obtain ⟨response, raws, h, -⟩ := hanswers.reads hshows
  rw [listFrom, h.answer]
  dsimp only
  rw [if_neg (by rw [h.ok]; decide), h.found]
  exact if_pos (h.more.2 rfl)

theorem listFrom_more (hanswers : Answers bucket pre i token page) {next : Key}
    (hshows : page.Shows keys true (some next)) (hnext : next ≠ []) :
    listFrom bucket pre (left + 1) i (token.map Key.text) found
      = listFrom bucket pre left (i + 1) ((some next).map Key.text)
          (found ++ keys.map Key.text) := by
  obtain ⟨response, raws, h, hraws⟩ := hanswers.reads hshows
  obtain ⟨raw, hraw, rfl⟩ : ∃ raw, Escapes next raw ∧ raws = [raw] := by
    cases hraws with
    | cons hraw hnil =>
      cases hnil
      exact ⟨_, hraw, rfl⟩
  have hne : raw ≠ [] := fun hnil => hnext (hraw.nil_iff.1 hnil)
  have hmore : ¬ matchAll truncatedElement response.text = [] := fun hnil =>
    absurd (h.more.1 hnil) (by decide)
  rw [listFrom, h.answer]
  dsimp only
  rw [if_neg (by rw [h.ok]; decide), h.found]
  dsimp only
  rw [if_neg hmore, h.next]
  obtain _ | ⟨u, raw⟩ := raw
  · exact absurd rfl hne
  · simp only [List.head?_cons, unescapeXml_escapes hraw, Option.map_some]

theorem listFrom_stuck (hanswers : Answers bucket pre i token page) {next : Option Key}
    (hshows : page.Shows keys true next) (hnext : next = none ∨ next = some []) :
    listFrom bucket pre (left + 1) i (token.map Key.text) found
      = .error (.s3 200 "GET" (pre ++ units "*")
          (units "truncated listing with no continuation token")) := by
  obtain ⟨response, raws, h, hraws⟩ := hanswers.reads hshows
  have hhead : raws.head? = none ∨ raws.head? = some [] := by
    rcases hnext with rfl | rfl
    · cases hraws
      exact .inl rfl
    · cases hraws with
      | cons hraw hnil => exact .inr (congrArg some (hraw.nil_iff.2 rfl))
  have hmore : ¬ matchAll truncatedElement response.text = [] := fun hnil =>
    absurd (h.more.1 hnil) (by decide)
  rw [listFrom, h.answer]
  dsimp only
  rw [if_neg (by rw [h.ok]; decide), h.found]
  dsimp only
  rw [if_neg hmore, h.next]
  rcases hhead with hhead | hhead
  · rw [hhead]
  · rw [hhead]

/-- The loop along a walk. -/
theorem listFrom_leads (h : Leads bucket pre i token pages k token') :
    ∀ (left : Nat) (found : List (List UInt16)),
      listFrom bucket pre (pages.length + left) i (token.map Key.text) found
        = listFrom bucket pre left k (token'.map Key.text)
            (found ++ pages.flatten.map Key.text) := by
  induction h with
  | here =>
    intro left found
    simp
  | more hanswers hshows hnext hrest ih =>
    intro left found
    rw [List.length_cons, show ∀ n, n + 1 + left = (n + left) + 1 by omega,
      listFrom_more _ _ hanswers hshows hnext, ih]
    simp

/-- A walk as long as the bound is no list. -/
theorem listFrom_long (h : Leads bucket pre i token pages k token') :
    ∀ (left : Nat) (found : List (List UInt16)), left ≤ pages.length →
      ∃ failure, listFrom bucket pre left i (token.map Key.text) found = .error failure := by
  induction h with
  | here =>
    intro left found hleft
    obtain rfl : left = 0 := Nat.le_zero.1 hleft
    exact ⟨_, rfl⟩
  | more hanswers hshows hnext hrest ih =>
    intro left found hleft
    obtain _ | left := left
    · exact ⟨_, rfl⟩
    · rw [listFrom_more _ _ hanswers hshows hnext]
      exact ih left _ (Nat.le_of_succ_le_succ hleft)

end Walk

-- ================================================================ the list

/-- What stands behind a walk when it does not end well: no answer, an
error status, or a page that is truncated and names no token. -/
def Broken (bucket : Bucket) (pre : List UInt16) (k : Nat) (token : Option Key) : Prop :=
  (∃ failure, bucket k ⟨pre, token.map Key.text⟩ = .error failure)
    ∨ (∃ response, bucket k ⟨pre, token.map Key.text⟩ = .ok response ∧ response.ok = false)
    ∨ ∃ page keys next, Answers bucket pre k token page ∧ page.Shows keys true next
      ∧ (next = none ∨ next = some [])

theorem listFrom_broken {bucket : Bucket} {pre : List UInt16} {k : Nat} {token : Option Key}
    (h : Broken bucket pre k token) (left : Nat) (found : List (List UInt16)) :
    ∃ failure, listFrom bucket pre left k (token.map Key.text) found = .error failure := by
  obtain _ | left := left
  · exact ⟨_, rfl⟩
  rcases h with ⟨failure, hbucket⟩ | ⟨response, hbucket, hok⟩
    | ⟨page, keys, next, hanswers, hshows, hnext⟩
  · exact ⟨failure, by rw [listFrom, hbucket]⟩
  · refine ⟨.s3 response.status "GET" (pre ++ units "*") response.text, ?_⟩
    rw [listFrom, hbucket]
    exact if_pos hok
  · exact ⟨_, listFrom_stuck _ _ hanswers hshows hnext⟩

/-- Behind a walk: the keys of all its pages where the next page is the
last and one of the first ten thousand, and otherwise an error. -/
theorem list_walk (bucket : Bucket) (pre : List UInt16) (pages : List (List Key)) (k : Nat)
    (token : Option Key) (h : Leads bucket pre 0 none pages k token) :
    (∀ page keys next, Answers bucket pre k token page → page.Shows keys false next →
      pages.length < maxPages →
        list bucket pre = .ok ((pages ++ [keys]).flatten.map Key.text))
      ∧ (maxPages ≤ pages.length → ∃ failure, list bucket pre = .error failure)
      ∧ (Broken bucket pre k token → ∃ failure, list bucket pre = .error failure) := by
  have hlong (hle : maxPages ≤ pages.length) : ∃ failure, list bucket pre = .error failure :=
    listFrom_long h maxPages [] hle
  refine ⟨fun page keys next hanswers hshows hlt => ?_, hlong, fun hbroken => ?_⟩
  · obtain ⟨left, hleft⟩ := Nat.exists_eq_add_of_lt hlt
    have hrun := listFrom_leads h (left + 1) []
    rw [← Nat.add_assoc, ← hleft, listFrom_last _ _ hanswers hshows] at hrun
    rw [list, show (none : Option (List UInt16)) = (none : Option Key).map Key.text from rfl, hrun]
    simp
  · rcases Nat.lt_or_ge pages.length maxPages with hlt | hge
    · obtain ⟨left, hleft⟩ := Nat.exists_eq_add_of_lt hlt
      have hrun := listFrom_leads h (left + 1) []
      rw [← Nat.add_assoc, ← hleft] at hrun
      rw [list, show (none : Option (List UInt16)) = (none : Option Key).map Key.text from rfl, hrun]
      exact listFrom_broken hbroken _ _
    · exact hlong hge

-- ================================================================= two pages

instance : DecidablePred Part.WellFormed
  | .key raw after => inferInstanceAs (Decidable (unit '<' ∉ raw ∧ unit '<' ∉ after))
  | .token raw after => inferInstanceAs (Decidable (unit '<' ∉ raw ∧ unit '<' ∉ after))
  | .truncated before word behind after =>
    have : Decidable (∀ u ∈ before, Units.isSpace u = true) := List.decidableBAll _ _
    have : Decidable (∀ u ∈ behind, Units.isSpace u = true) := List.decidableBAll _ _
    inferInstanceAs (Decidable
      ((∀ u ∈ before, Units.isSpace u = true) ∧ (∀ u ∈ behind, Units.isSpace u = true)
        ∧ (word.map fold = units "true" ∨ word.map fold = units "false") ∧ unit '<' ∉ after))
  | .other rest => inferInstanceAs (Decidable (unit '<' ∉ rest ∧ ¬ units "Key>" <+: rest
      ∧ ¬ units "NextContinuationToken>" <+: rest ∧ ¬ units "istruncated>" <+: rest.map fold))

def firstPage : Page where
  prolog := []
  parts := [.other (units "ListBucketResult>"), .truncated [] (units "true") [] [],
    .key (units "&amp;&#39;") [], .token (units "&quot;") []]
  prolog_plain := by decide
  wellFormed := by decide +kernel

def lastPage : Page where
  prolog := []
  parts := [.key (units "&#x3c;") [], .truncated [] (units "false") [] []]
  prolog_plain := by decide
  wellFormed := by decide +kernel

def twoPages : Bucket := fun k request =>
  if k = 0 then .ok ⟨200, firstPage.text⟩
  else if request.token = some (units "\"") then .ok ⟨200, lastPage.text⟩
  else .error .fetch

theorem firstPage_shows : firstPage.Shows [['&', '\'']] true (some ['"']) where
  keys := .cons (.cons (.named (k := 4) rfl)
    (.cons (@Spells.dec _ (units "39") (by decide) (by decide) (List.all_iff_forall_prop.1 (by decide))
      (by decide)) .nil)) .nil
  truncated := by decide
  token := .cons (.cons (.named (k := 2) rfl) .nil) .nil

theorem lastPage_shows : lastPage.Shows [['<']] false none where
  keys := .cons (.cons (@Spells.hex _ (units "3c") (by decide) (by decide)
    (List.all_iff_forall_prop.1 (by decide)) (by decide)) .nil) .nil
  truncated := by decide
  token := .nil

theorem list_two_pages : list twoPages [] = .ok [units "&'", units "<"] :=
  (list_walk twoPages [] [[['&', '\'']]] 1 (some ['"'])
    (.more ⟨_, rfl, rfl, rfl⟩ firstPage_shows (by decide) .here)).1 lastPage [['<']] none
    ⟨_, rfl, rfl, rfl⟩ lastPage_shows (by decide)

end Nacre.Objects
