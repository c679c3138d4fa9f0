/-
IP address literals: the texts that spell an IPv4 or an IPv6 address, and
the platform's reader of them.

`Spells4` and `Spells6` are the grammar: four decimal octets without
leading zeros, and eight groups of one to four hexadecimal digits in
either case, a run of zero groups left out as `::`, the last two groups as
a dotted quad where the writer liked. `parse4` and `parse6` read them, and
`parse6_eq_some` says that the reader and the grammar are one.

An address is its value, 32 or 128 bits as a natural number, and a subnet
is an interval of values (`inSubnet_iff`).
-/
import Mathlib.Data.List.Induction
import Mathlib.Data.Nat.Digits.Defs
import Nacre.Lib.Find

namespace Ip

open Find (mem_intercalate)

-- ============================================================== digits

def digit? (c : Char) : Option Nat :=
  if '0' ≤ c ∧ c ≤ '9' then some (c.toNat - 48) else none

def hexDigit? (c : Char) : Option Nat :=
  if '0' ≤ c ∧ c ≤ '9' then some (c.toNat - 48)
  else if 'a' ≤ c ∧ c ≤ 'f' then some (c.toNat - 87)
  else if 'A' ≤ c ∧ c ≤ 'F' then some (c.toNat - 55)
  else none

/-- A number from its digits, the first one first. -/
def number (base : Nat) (ds : List Nat) : Nat := ds.foldl (fun v d => v * base + d) 0

/-- An octet: decimal, no leading zero, at most 255. -/
def octet? (t : List Char) : Option Nat := do
  let ds ← t.mapM digit?
  if t ≠ [] ∧ (t.length = 1 ∨ t.head? ≠ some '0') ∧ number 10 ds ≤ 255 then
    some (number 10 ds)
  else none

/-- A group: one to four hexadecimal digits, in either case. -/
def group? (t : List Char) : Option Nat := do
  let ds ← t.mapM hexDigit?
  if 1 ≤ t.length ∧ t.length ≤ 4 then some (number 16 ds) else none

/-- Four octets between dots, as the 32 bits they are. -/
def parse4 (t : List Char) : Option Nat :=
  match (t.splitOn '.').mapM octet? with
  | some [a, b, c, d] => some (((a * 256 + b) * 256 + c) * 256 + d)
  | _ => none

-- ============================================================= grammar

/-- Pieces with a colon between each two. -/
def join (ts : List (List Char)) : List Char := [':'].intercalate ts

/-- The groups of one side of an IPv6 literal; the last two of them may
stand as a dotted quad. -/
inductive Words : List (List Char) → List Nat → Prop
  | groups {ts ws} (h : ts.mapM group? = some ws) : Words ts ws
  | quad {ts ws t q} (h : ts.mapM group? = some ws) (hq : parse4 t = some q) :
      Words (ts ++ [t]) (ws ++ [q / 65536, q % 65536])

/-- The eight words an IPv6 literal spells. -/
inductive Spells6 : List Char → List Nat → Prop
  | full {ts ws} (h : Words ts ws) (h8 : ws.length = 8) : Spells6 (join ts) ws
  | elided {ls rs lw gw} (hl : ls.mapM group? = some lw) (hr : Words rs gw)
      (h7 : lw.length + gw.length ≤ 7) :
      Spells6 (join ls ++ ':' :: ':' :: join rs)
        (lw ++ List.replicate (8 - (lw.length + gw.length)) 0 ++ gw)

/-- The value of eight words. -/
def value6 (ws : List Nat) : Nat := number 65536 ws

inductive Address
  | v4 (value : Nat)
  | v6 (value : Nat)
  deriving DecidableEq, Repr

/-- The text is a literal of the address. -/
inductive Spells : List Char → Address → Prop
  | v4 {text n} (h : parse4 text = some n) : Spells text (.v4 n)
  | v6 {text ws} (h : Spells6 text ws) : Spells text (.v6 (value6 ws))

-- ============================================================== reader

/-- `text.split('::')`. -/
def splitElision : List Char → List (List Char)
  | [] => [[]]
  | [c] => [[c]]
  | c :: d :: rest =>
      if c = ':' ∧ d = ':' then [] :: splitElision rest
      else (splitElision (d :: rest)).modifyHead (c :: ·)

/-- The pieces between the colons; an empty side has none. -/
def pieces (side : List Char) : List (List Char) :=
  if side = [] then [] else side.splitOn ':'

def words? (ts : List (List Char)) : Option (List Nat) :=
  match ts.mapM group? with
  | some ws => some ws
  | none => do
      let ws ← ts.dropLast.mapM group?
      let q ← ts.getLast?.bind parse4
      some (ws ++ [q / 65536, q % 65536])

/-- The eight words of an IPv6 literal, as `inet_pton` reads them. -/
def parse6 (text : List Char) : Option (List Nat) :=
  match splitElision text with
  | [side] => do
      let ws ← words? (pieces side)
      if ws.length = 8 then some ws else none
  | [left, right] => do
      let lw ← (pieces left).mapM group?
      let gw ← words? (pieces right)
      if lw.length + gw.length ≤ 7 then
        some (lw ++ List.replicate (8 - (lw.length + gw.length)) 0 ++ gw)
      else none
  | _ => none

variable {t text l r : List Char} {ts ls rs : List (List Char)} {ws lw gw : List Nat}
  {n q : Nat}

-- ============================================================== pieces

/-- Every colon is followed by something else. -/
def Clean : List Char → Prop
  | [] => True
  | [c] => c ≠ ':'
  | c :: d :: rest => (c = ':' → d ≠ ':') ∧ Clean (d :: rest)

theorem Clean.of_not_mem (h : ':' ∉ t) : Clean t := by
  induction t with
  | nil => trivial
  | cons c t ih =>
      rw [List.mem_cons, not_or] at h
      cases t with
      | nil => exact Ne.symm h.1
      | cons d t => exact ⟨fun hc => absurd hc.symm h.1, ih h.2⟩

/-- A colon-free piece, a colon, and more that starts with no colon. -/
theorem Clean.append (h : ':' ∉ t) (hr : Clean r) (hne : r ≠ []) (hhead : r.head? ≠ some ':') :
    Clean (t ++ ':' :: r) := by
  induction t with
  | nil =>
      cases r with
      | nil => exact absurd rfl hne
      | cons d r => exact ⟨fun _ hd => hhead (by rw [hd]; rfl), hr⟩
  | cons c t ih =>
      rw [List.mem_cons, not_or] at h
      cases t with
      | nil => exact ⟨fun hc => absurd hc.symm h.1, ih h.2⟩
      | cons d t => exact ⟨fun hc => absurd hc.symm h.1, ih h.2⟩

/-- What a piece is: something, and no colon in it. -/
def Piece (t : List Char) : Prop := t ≠ [] ∧ ':' ∉ t

theorem join_cons_cons (t u : List Char) (ts : List (List Char)) :
    join (t :: u :: ts) = t ++ ':' :: join (u :: ts) := by
  simp only [join, List.intercalate_cons_cons]
  rw [List.append_assoc]
  rfl

theorem head_join (h : ∀ t ∈ ts, Piece t) : (join ts).head? ≠ some ':' := by
  cases ts with
  | nil => exact nofun
  | cons t ts =>
      obtain ⟨hne, hcolon⟩ := h t List.mem_cons_self
      obtain ⟨c, u, rfl⟩ := List.exists_cons_of_ne_nil hne
      rw [List.mem_cons, not_or] at hcolon
      cases ts with
      | nil => simpa [join] using Ne.symm hcolon.1
      | cons v ts =>
          rw [join_cons_cons]
          simpa using Ne.symm hcolon.1

theorem join_ne_nil (h : ∀ t ∈ ts, Piece t) (hne : ts ≠ []) : join ts ≠ [] := by
  cases ts with
  | nil => exact absurd rfl hne
  | cons t ts =>
      cases ts with
      | nil => simpa [join] using (h t List.mem_cons_self).1
      | cons v ts =>
          rw [join_cons_cons]
          simp

theorem clean_join (h : ∀ t ∈ ts, Piece t) : Clean (join ts) := by
  induction ts with
  | nil => trivial
  | cons t ts ih =>
      have htail : ∀ u ∈ ts, Piece u := fun u hu => h u (List.mem_cons_of_mem _ hu)
      cases ts with
      | nil => simpa [join] using Clean.of_not_mem (h t List.mem_cons_self).2
      | cons u ts =>
          rw [join_cons_cons]
          exact .append (h t List.mem_cons_self).2 (ih htail)
            (join_ne_nil htail (List.cons_ne_nil _ _)) (head_join htail)

theorem splitElision_clean (h : Clean t) : splitElision t = [t] := by
  induction t using splitElision.induct with
  | case1 => rfl
  | case2 c => rfl
  | case3 c d rest hcd =>
      exact absurd hcd.2 (h.1 hcd.1)
  | case4 c d rest hcd ih =>
      rw [splitElision, if_neg hcd, ih h.2]
      rfl

theorem splitElision_append (h : Clean t) :
    splitElision (t ++ ':' :: ':' :: r) = t :: splitElision r := by
  induction t using splitElision.induct with
  | case1 =>
      rw [List.nil_append, splitElision, if_pos ⟨rfl, rfl⟩]
  | case2 c =>
      rw [List.singleton_append, splitElision, if_neg fun hc => h hc.1, splitElision,
        if_pos ⟨rfl, rfl⟩]
      rfl
  | case3 c d rest hcd =>
      exact absurd hcd.2 (h.1 hcd.1)
  | case4 c d rest hcd ih =>
      rw [List.cons_append, List.cons_append, splitElision, if_neg hcd]
      rw [List.cons_append] at ih
      rw [ih h.2]
      rfl

theorem splitElision_ne_nil (t : List Char) : splitElision t ≠ [] := by
  induction t using splitElision.induct with
  | case1 => exact nofun
  | case2 c => exact nofun
  | case3 c d rest hcd =>
      rw [splitElision, if_pos hcd]
      exact nofun
  | case4 c d rest hcd ih =>
      rw [splitElision, if_neg hcd]
      cases hrest : splitElision (d :: rest) with
      | nil => exact absurd hrest ih
      | cons a as => exact nofun

/-- What is split joins again. -/
theorem intercalate_splitElision (t : List Char) :
    [':', ':'].intercalate (splitElision t) = t := by
  induction t using splitElision.induct with
  | case1 => rfl
  | case2 c => rfl
  | case3 c d rest hcd ih =>
      obtain ⟨rfl, rfl⟩ := hcd
      rw [splitElision, if_pos ⟨rfl, rfl⟩]
      have hne := splitElision_ne_nil rest
      cases hrest : splitElision rest with
      | nil => exact absurd hrest hne
      | cons a as =>
          rw [hrest] at ih
          rw [List.intercalate_cons_cons, ih]
          rfl
  | case4 c d rest hcd ih =>
      rw [splitElision, if_neg hcd]
      cases hrest : splitElision (d :: rest) with
      | nil => exact absurd hrest (splitElision_ne_nil _)
      | cons a as =>
          rw [hrest] at ih
          cases as with
          | nil =>
              simp only [List.modifyHead_cons, List.intercalate_singleton] at ih ⊢
              rw [ih]
          | cons b bs =>
              simp only [List.modifyHead_cons, List.intercalate_cons_cons, List.cons_append] at ih ⊢
              rw [ih]

theorem pieces_join (h : ∀ t ∈ ts, Piece t) : pieces (join ts) = ts := by
  cases ts with
  | nil => rfl
  | cons t ts =>
      rw [pieces, if_neg (join_ne_nil h (List.cons_ne_nil _ _)), join,
        List.splitOn_intercalate ':' (fun u hu => (h u hu).2) (List.cons_ne_nil _ _)]

theorem join_pieces (t : List Char) : join (pieces t) = t := by
  unfold pieces
  split
  next hnil =>
    rw [hnil]
    rfl
  next => exact List.intercalate_splitOn ':'

-- ==================================================== reader = grammar

theorem exists_of_mapM {α β : Type} {f : α → Option β} {xs : List α} {ys : List β}
    (h : xs.mapM f = some ys) : ys.length = xs.length ∧ ∀ x ∈ xs, ∃ y ∈ ys, f x = some y := by
  induction xs generalizing ys with
  | nil =>
      cases h
      exact ⟨rfl, nofun⟩
  | cons x xs ih =>
      rw [List.mapM_cons] at h
      obtain ⟨y, hy, h⟩ := Option.bind_eq_some_iff.mp h
      obtain ⟨zs, hzs, h⟩ := Option.bind_eq_some_iff.mp h
      cases h
      obtain ⟨hlen, hmem⟩ := ih hzs
      refine ⟨congrArg (· + 1) hlen, fun z hz => ?_⟩
      rcases List.mem_cons.mp hz with rfl | hz
      · exact ⟨y, List.mem_cons_self, hy⟩
      · obtain ⟨w, hw, hzw⟩ := hmem z hz
        exact ⟨w, List.mem_cons_of_mem _ hw, hzw⟩

theorem mem_of_mapM {α β : Type} {f : α → Option β} {xs : List α} {ys : List β}
    (h : xs.mapM f = some ys) {y : β} (hy : y ∈ ys) : ∃ x ∈ xs, f x = some y := by
  induction xs generalizing ys with
  | nil =>
      cases h
      cases hy
  | cons x xs ih =>
      rw [List.mapM_cons] at h
      obtain ⟨z, hz, h⟩ := Option.bind_eq_some_iff.mp h
      obtain ⟨zs, hzs, h⟩ := Option.bind_eq_some_iff.mp h
      cases h
      rcases List.mem_cons.mp hy with rfl | hy
      · exact ⟨x, List.mem_cons_self, hz⟩
      · obtain ⟨w, hw, hwy⟩ := ih hzs hy
        exact ⟨w, List.mem_cons_of_mem _ hw, hwy⟩

/-- Another reader, of elements rewritten, that reads each as the first one did. -/
theorem mapM_map_of {α β γ : Type} {f : α → Option β} {g : γ → Option β} (k : α → γ) {xs : List α}
    {ys : List β} (h : xs.mapM f = some ys)
    (hread : ∀ x ∈ xs, ∀ y, f x = some y → g (k x) = some y) : (xs.map k).mapM g = some ys := by
  induction xs generalizing ys with
  | nil =>
      cases h
      rfl
  | cons x xs ih =>
      rw [List.mapM_cons] at h
      obtain ⟨y, hy, h⟩ := Option.bind_eq_some_iff.mp h
      obtain ⟨zs, hzs, h⟩ := Option.bind_eq_some_iff.mp h
      cases h
      rw [List.map_cons, List.mapM_cons, hread x List.mem_cons_self y hy,
        ih hzs fun z hz => hread z (List.mem_cons_of_mem _ hz)]
      rfl

theorem mapM_append {α β : Type} {f : α → Option β} {xs ys : List α} {as bs : List β}
    (hx : xs.mapM f = some as) (hy : ys.mapM f = some bs) :
    (xs ++ ys).mapM f = some (as ++ bs) := by
  rw [List.mapM_append, hx, hy]
  rfl

/-- What a group is made of. -/
theorem group?_eq_some : group? t = some n ↔
    ∃ ds, t.mapM hexDigit? = some ds ∧ 1 ≤ t.length ∧ t.length ≤ 4 ∧ number 16 ds = n := by
  unfold group?
  rw [Option.bind_eq_bind, Option.bind_eq_some_iff]
  refine exists_congr fun ds => and_congr_right fun _ => ?_
  split
  next hlen => simp [hlen]
  next hlen =>
    rw [not_and] at hlen
    exact ⟨nofun, fun ⟨h1, h4, _⟩ => absurd h4 (hlen h1)⟩

/-- What an octet is made of. -/
theorem octet?_eq_some (h : octet? t = some n) :
    ∃ ds, t.mapM digit? = some ds ∧ t ≠ [] ∧ number 10 ds = n ∧ n ≤ 255 := by
  unfold octet? at h
  rw [Option.bind_eq_bind, Option.bind_eq_some_iff] at h
  obtain ⟨ds, hds, h⟩ := h
  split at h
  next hlen =>
    cases h
    exact ⟨ds, hds, hlen.1, rfl, hlen.2.2⟩
  next => cases h

/-- What a dotted quad is made of. -/
theorem parse4_eq_some (h : parse4 t = some q) :
    ∃ a b c d, (t.splitOn '.').mapM octet? = some [a, b, c, d]
      ∧ q = ((a * 256 + b) * 256 + c) * 256 + d := by
  unfold parse4 at h
  split at h
  next a b c d hquad =>
    cases h
    exact ⟨a, b, c, d, hquad, rfl⟩
  next => cases h

theorem group_piece (h : group? t = some n) : Piece t := by
  obtain ⟨ds, hds, hpos, -, -⟩ := group?_eq_some.mp h
  refine ⟨List.length_pos_iff.mp hpos, fun hmem => ?_⟩
  obtain ⟨d, -, hd⟩ := (exists_of_mapM hds).2 _ hmem
  rw [show hexDigit? ':' = none by decide] at hd
  cases hd

/-- The characters of a dotted quad. -/
theorem quad_char (h : parse4 t = some q) {c : Char} (hc : c ∈ t) :
    c = '.' ∨ ∃ d, digit? c = some d := by
  obtain ⟨a, b, c', d, hquad, -⟩ := parse4_eq_some h
  rw [← (List.intercalate_splitOn '.' : ['.'].intercalate (t.splitOn '.') = t)] at hc
  refine (mem_intercalate hc).imp_right fun ⟨p, hp, hcp⟩ => ?_
  obtain ⟨n, -, hn⟩ := (exists_of_mapM hquad).2 p hp
  obtain ⟨ds, hds, -⟩ := octet?_eq_some hn
  obtain ⟨x, -, hx⟩ := (exists_of_mapM hds).2 c hcp
  exact ⟨x, hx⟩

theorem dot_mem_quad (h : parse4 t = some q) : '.' ∈ t := by
  by_contra hdot
  obtain ⟨a, b, c, d, hquad, -⟩ := parse4_eq_some h
  have hlen := (exists_of_mapM hquad).1
  rw [List.splitOn_eq_singleton hdot] at hlen
  cases hlen

theorem quad_piece (h : parse4 t = some q) : Piece t := by
  refine ⟨fun hnil => ?_, fun hmem => ?_⟩
  · have hdot := dot_mem_quad h
    rw [hnil] at hdot
    cases hdot
  · rcases quad_char h hmem with hc | ⟨d, hd⟩
    · cases hc
    · rw [show digit? ':' = none by decide] at hd
      cases hd

/-- A dotted quad is no group. -/
theorem group?_quad (h : parse4 t = some q) : group? t = none := by
  cases hgroup : group? t with
  | none => rfl
  | some n =>
      obtain ⟨ds, hds, -⟩ := group?_eq_some.mp hgroup
      obtain ⟨d, -, hd⟩ := (exists_of_mapM hds).2 _ (dot_mem_quad h)
      rw [show hexDigit? '.' = none by decide] at hd
      cases hd

theorem groups_pieces (h : ts.mapM group? = some ws) : ∀ t ∈ ts, Piece t := by
  intro t ht
  obtain ⟨n, -, hn⟩ := (exists_of_mapM h).2 t ht
  exact group_piece hn

theorem Words.pieces (h : Words ts ws) : ∀ t ∈ ts, Piece t := by
  cases h with
  | groups h => exact groups_pieces h
  | quad h hq =>
      intro t ht
      rcases List.mem_append.mp ht with ht | ht
      · exact groups_pieces h t ht
      · rw [List.mem_singleton.mp ht]
        exact quad_piece hq

theorem words?_eq_some : words? ts = some ws ↔ Words ts ws := by
  constructor
  · intro h
    unfold words? at h
    split at h
    next gs hgs =>
      cases h
      exact .groups hgs
    next =>
      rw [Option.bind_eq_bind, Option.bind_eq_some_iff] at h
      obtain ⟨gs, hgs, h⟩ := h
      rw [Option.bind_eq_bind, Option.bind_eq_some_iff] at h
      obtain ⟨q, hq, h⟩ := h
      cases h
      obtain ⟨t, ht, hq⟩ := Option.bind_eq_some_iff.mp hq
      have hts : ts.dropLast ++ [t] = ts := List.dropLast_append_getLast? t ht
      rw [← hts]
      exact .quad hgs hq
  · rintro (hgs | @⟨gs, ws, t, q, hgs, hq⟩)
    · rw [words?, hgs]
    · have hnone : (gs ++ [t]).mapM group? = none := by
        rw [List.mapM_append, hgs, List.mapM_cons, group?_quad hq]
        rfl
      rw [words?, hnone]
      simp [hgs, hq]

/-- The reader reads what the grammar spells, and nothing else. -/
theorem parse6_eq_some : parse6 text = some ws ↔ Spells6 text ws := by
  constructor
  · intro h
    have hjoin := intercalate_splitElision text
    unfold parse6 at h
    split at h
    next side hside =>
      rw [hside, List.intercalate_singleton] at hjoin
      obtain ⟨gs, hgs, h⟩ := Option.bind_eq_some_iff.mp h
      split at h
      next h8 =>
        cases h
        rw [← hjoin, ← join_pieces side]
        exact .full (words?_eq_some.mp hgs) h8
      next => cases h
    next left right hsides =>
      rw [hsides, List.intercalate_cons_cons, List.intercalate_singleton, List.append_assoc]
        at hjoin
      obtain ⟨lw, hlw, h⟩ := Option.bind_eq_some_iff.mp h
      obtain ⟨gw, hgw, h⟩ := Option.bind_eq_some_iff.mp h
      split at h
      next h7 =>
        cases h
        rw [← hjoin, ← join_pieces left, ← join_pieces right]
        exact .elided hlw (words?_eq_some.mp hgw) h7
      next => cases h
    next => cases h
  · rintro (@⟨ts, ws, h, h8⟩ | @⟨ls, rs, lw, gw, hl, hr, h7⟩)
    · rw [parse6, splitElision_clean (clean_join h.pieces)]
      simp only [pieces_join h.pieces, words?_eq_some.mpr h]
      exact if_pos h8
    · rw [parse6, splitElision_append (clean_join (groups_pieces hl)),
        splitElision_clean (clean_join hr.pieces)]
      simp only [pieces_join (groups_pieces hl), pieces_join hr.pieces, hl,
        words?_eq_some.mpr hr]
      exact if_pos h7

-- =============================================================== values

theorem number_append (base : Nat) (ds : List Nat) (d : Nat) :
    number base (ds ++ [d]) = number base ds * base + d := by
  rw [number, List.foldl_append]
  rfl

theorem number_lt {base : Nat} {ds : List Nat} (h : ∀ d ∈ ds, d < base) :
    number base ds < base ^ ds.length := by
  induction ds using List.reverseRecOn with
  | nil => exact Nat.one_pos
  | append_singleton ds d ih =>
      have hd : d < base := h d (List.mem_append_right _ List.mem_cons_self)
      have hds := ih fun x hx => h x (List.mem_append_left _ hx)
      calc number base (ds ++ [d])
          = number base ds * base + d := number_append base ds d
        _ < number base ds * base + base := Nat.add_lt_add_left hd _
        _ = (number base ds + 1) * base := (Nat.succ_mul _ _).symm
        _ ≤ base ^ ds.length * base := Nat.mul_le_mul_right _ hds
        _ = base ^ (ds ++ [d]).length := by
              rw [List.length_append, List.length_singleton, Nat.pow_succ]

theorem hexDigit?_lt {c : Char} (h : hexDigit? c = some n) : n < 16 := by
  unfold hexDigit? at h
  simp only [Char.le_def, UInt32.le_iff_toNat_le] at h
  have h0 : '0'.val.toNat = 48 := rfl
  have h9 : '9'.val.toNat = 57 := rfl
  have ha : 'a'.val.toNat = 97 := rfl
  have hf : 'f'.val.toNat = 102 := rfl
  have hA : 'A'.val.toNat = 65 := rfl
  have hF : 'F'.val.toNat = 70 := rfl
  rw [h0, h9, ha, hf, hA, hF] at h
  rw [show c.toNat = c.val.toNat from rfl] at h
  split at h
  next hc =>
    cases h
    omega
  next =>
    split at h
    next hc =>
      cases h
      omega
    next =>
      split at h
      next hc =>
        cases h
        omega
      next => cases h

theorem group?_lt (h : group? t = some n) : n < 65536 := by
  obtain ⟨ds, hds, -, h4, rfl⟩ := group?_eq_some.mp h
  obtain ⟨hlen, -⟩ := exists_of_mapM hds
  have hlt : number 16 ds < 16 ^ ds.length := by
    refine number_lt fun d hd => ?_
    obtain ⟨c, -, hc⟩ := mem_of_mapM hds hd
    exact hexDigit?_lt hc
  calc number 16 ds < 16 ^ ds.length := hlt
    _ ≤ 16 ^ 4 := Nat.pow_le_pow_right (by decide) (by omega)
    _ = 65536 := rfl

theorem quad_octets {a b c d : Nat} (h : (t.splitOn '.').mapM octet? = some [a, b, c, d]) :
    a ≤ 255 ∧ b ≤ 255 ∧ c ≤ 255 ∧ d ≤ 255 := by
  have hle : ∀ n ∈ [a, b, c, d], n ≤ 255 := by
    intro n hn
    obtain ⟨u, -, hu⟩ := mem_of_mapM h hn
    obtain ⟨ds, -, -, -, hle⟩ := octet?_eq_some hu
    exact hle
  simpa using hle

theorem parse4_lt (h : parse4 t = some q) : q < 2 ^ 32 := by
  obtain ⟨a, b, c, d, hquad, rfl⟩ := parse4_eq_some h
  obtain ⟨ha, hb, hc, hd⟩ := quad_octets hquad
  omega

theorem groups_lt (h : ts.mapM group? = some ws) : ∀ w ∈ ws, w < 65536 := by
  intro w hw
  obtain ⟨t, -, ht⟩ := mem_of_mapM h hw
  exact group?_lt ht

theorem Words.lt (h : Words ts ws) : ∀ w ∈ ws, w < 65536 := by
  cases h with
  | groups h => exact groups_lt h
  | quad h hq =>
      intro w hw
      have hlt := parse4_lt hq
      rcases List.mem_append.mp hw with hw | hw
      · exact groups_lt h w hw
      · rcases List.mem_cons.mp hw with rfl | hw
        · omega
        · rw [List.mem_singleton.mp hw]
          omega

/-- An IPv6 literal has eight words of sixteen bits. -/
theorem Spells6.words (h : Spells6 text ws) : ws.length = 8 ∧ ∀ w ∈ ws, w < 65536 := by
  rcases h with @⟨ts, ws, h, h8⟩ | @⟨ls, rs, lw, gw, hl, hr, h7⟩
  · exact ⟨h8, h.lt⟩
  · refine ⟨?_, fun w hw => ?_⟩
    · simp only [List.length_append, List.length_replicate]
      omega
    · rcases List.mem_append.mp hw with hw | hw
      · rcases List.mem_append.mp hw with hw | hw
        · exact groups_lt hl w hw
        · rw [List.eq_of_mem_replicate hw]
          decide
      · exact hr.lt w hw

theorem mem_join {c : Char} {ts : List (List Char)} (h : c ∈ join ts) :
    c = ':' ∨ ∃ t ∈ ts, c ∈ t := mem_intercalate h

/-- The characters of a group or of a dotted quad. -/
theorem Words.char (h : Words ts ws) {c : Char} (ht : t ∈ ts) (hc : c ∈ t) :
    c = '.' ∨ (hexDigit? c).isSome := by
  have hgroups : ∀ {us : List (List Char)} {vs : List Nat}, us.mapM group? = some vs → t ∈ us →
      (hexDigit? c).isSome := by
    intro us vs h ht
    obtain ⟨n, -, hn⟩ := (exists_of_mapM h).2 t ht
    obtain ⟨ds, hds, -⟩ := group?_eq_some.mp hn
    obtain ⟨d, -, hd⟩ := (exists_of_mapM hds).2 c hc
    rw [hd]
    rfl
  cases h with
  | groups h => exact .inr (hgroups h ht)
  | quad h hq =>
      rcases List.mem_append.mp ht with ht | ht
      · exact .inr (hgroups h ht)
      · rw [List.mem_singleton.mp ht] at hc
        refine (quad_char hq hc).imp_right fun ⟨d, hd⟩ => ?_
        unfold digit? at hd
        split at hd
        next hdigit =>
          rw [hexDigit?, if_pos hdigit]
          rfl
        next => cases hd

/-- The characters of an IPv6 literal. -/
theorem Spells6.char (h : Spells6 text ws) {c : Char} (hc : c ∈ text) :
    c = ':' ∨ c = '.' ∨ (hexDigit? c).isSome := by
  have hside : ∀ {us : List (List Char)} {vs : List Nat}, Words us vs → c ∈ join us →
      c = ':' ∨ c = '.' ∨ (hexDigit? c).isSome := by
    intro us vs h hc
    exact (mem_join hc).imp_right fun ⟨t, ht, hct⟩ => h.char ht hct
  rcases h with @⟨ts, ws, h, h8⟩ | @⟨ls, rs, lw, gw, hl, hr, h7⟩
  · exact hside h hc
  · rcases List.mem_append.mp hc with hc | hc
    · exact hside (.groups hl) hc
    · rcases List.mem_cons.mp hc with hc | hc
      · exact .inl hc
      · rcases List.mem_cons.mp hc with hc | hc
        · exact .inl hc
        · exact hside hr hc

theorem Words.length_le (h : Words ts ws) : ws.length ≤ ts.length + 1 := by
  cases h with
  | groups h =>
      rw [(exists_of_mapM h).1]
      omega
  | quad h hq =>
      rw [List.length_append, List.length_append, (exists_of_mapM h).1]
      exact le_refl _

theorem Spells6.colon_mem (h : Spells6 text ws) : ':' ∈ text := by
  rcases h with @⟨ts, ws, h, h8⟩ | _
  · have hlen := h.length_le
    match ts, hlen with
    | t :: u :: ts, _ =>
        rw [join_cons_cons]
        exact List.mem_append_right _ List.mem_cons_self
    | [t], hlen =>
        rw [h8, List.length_singleton] at hlen
        omega
    | [], hlen =>
        rw [h8, List.length_nil] at hlen
        omega
  · exact List.mem_append_right _ List.mem_cons_self

/-- The addresses that agree with `net` in their first `p` of `bits` bits. -/
def inSubnet (bits net p v : Nat) : Bool := v / 2 ^ (bits - p) = net / 2 ^ (bits - p)

/-- A subnet is an interval. -/
theorem inSubnet_iff {bits net p v : Nat} (h : 2 ^ (bits - p) ∣ net) :
    inSubnet bits net p v = true ↔ net ≤ v ∧ v < net + 2 ^ (bits - p) := by
  obtain ⟨k, rfl⟩ := h
  have hpos : 0 < 2 ^ (bits - p) := Nat.two_pow_pos _
  rw [inSubnet, decide_eq_true_eq, Nat.mul_div_cancel_left k hpos, Nat.div_eq_iff hpos,
    Nat.mul_comm k]
  omega

-- ========================================================= one spelling

theorem number_eq_ofDigits (base : Nat) (ds : List Nat) :
    number base ds = Nat.ofDigits base ds.reverse := by
  induction ds using List.reverseRecOn with
  | nil => rfl
  | append_singleton ds d ih =>
      rw [number_append, ih, List.reverse_append, List.reverse_singleton, List.singleton_append,
        Nat.ofDigits_cons, Nat.mul_comm]
      exact Nat.add_comm _ _

/-- A number has one spelling without leading zeros. -/
theorem number_inj {base : Nat} (hbase : 1 < base) {ds es : List Nat}
    (hds : ∀ d ∈ ds, d < base) (hes : ∀ d ∈ es, d < base) (hd : ds.head? ≠ some 0)
    (he : es.head? ≠ some 0) (h : number base ds = number base es) : ds = es := by
  have hdigits {xs : List Nat} (hxs : ∀ d ∈ xs, d < base) (hx : xs.head? ≠ some 0) :
      Nat.digits base (number base xs) = xs.reverse := by
    rw [number_eq_ofDigits]
    refine Nat.digits_ofDigits base hbase _ (fun d hd => hxs d (List.mem_reverse.mp hd)) ?_
    intro hne hlast
    rw [List.getLast_reverse] at hlast
    exact hx (by rw [← hlast]; exact List.head?_eq_some_head _)
  exact List.reverse_injective ((hdigits hds hd).symm.trans (h ▸ hdigits hes he))

/-- No leading zero, but for the one digit `0`. -/
def Shortest (t : List Char) : Prop := t = ['0'] ∨ t.head? ≠ some '0'

section OneSpelling

/-- A reader of digits, one value a digit. -/
structure Digits (base : Nat) (read : Char → Option Nat) (P : Char → Prop) : Prop where
  one_lt : 1 < base
  lt : ∀ {c d}, read c = some d → d < base
  zero : P '0' ∧ read '0' = some 0
  inj : ∀ {c c' d}, P c → P c' → read c = some d → read c' = some d → c = c'

variable {base : Nat} {read : Char → Option Nat} {P : Char → Prop} {u : List Char}
  {ds es : List Nat}

theorem Digits.mapM_inj (h : Digits base read P) (ht : t.mapM read = some ds)
    (hu : u.mapM read = some ds) (hPt : ∀ c ∈ t, P c) (hPu : ∀ c ∈ u, P c) : t = u := by
  induction t generalizing u ds with
  | nil =>
      cases ht
      have hlen := (exists_of_mapM hu).1
      exact (List.length_eq_zero_iff.mp hlen.symm).symm
  | cons c t ih =>
      rw [List.mapM_cons] at ht
      obtain ⟨d, hd, ht⟩ := Option.bind_eq_some_iff.mp ht
      obtain ⟨xs, hxs, ht⟩ := Option.bind_eq_some_iff.mp ht
      cases ht
      cases u with
      | nil => cases hu
      | cons c' u =>
          rw [List.mapM_cons] at hu
          obtain ⟨d', hd', hu⟩ := Option.bind_eq_some_iff.mp hu
          obtain ⟨ys, hys, hu⟩ := Option.bind_eq_some_iff.mp hu
          cases hu
          have hc := h.inj (hPt c List.mem_cons_self) (hPu c' List.mem_cons_self) hd hd'
          rw [hc, ih hxs hys (fun x hx => hPt x (List.mem_cons_of_mem _ hx))
            fun x hx => hPu x (List.mem_cons_of_mem _ hx)]

theorem Digits.head (h : Digits base read P) (ht : t.mapM read = some ds) (hP : ∀ c ∈ t, P c)
    (hhead : t.head? ≠ some '0') : ds.head? ≠ some 0 := by
  cases t with
  | nil =>
      cases ht
      exact nofun
  | cons c t =>
      rw [List.mapM_cons] at ht
      obtain ⟨d, hd, ht⟩ := Option.bind_eq_some_iff.mp ht
      obtain ⟨xs, -, ht⟩ := Option.bind_eq_some_iff.mp ht
      cases ht
      rw [List.head?_cons] at hhead ⊢
      rintro ⟨⟩
      exact hhead (congrArg some (h.inj (hP c List.mem_cons_self) h.zero.1 hd h.zero.2))

/-- A text of digits is settled by its number. -/
theorem Digits.text_inj (h : Digits base read P) (ht : t.mapM read = some ds)
    (hu : u.mapM read = some es) (hPt : ∀ c ∈ t, P c) (hPu : ∀ c ∈ u, P c) (htne : t ≠ [])
    (hune : u ≠ []) (hst : Shortest t) (hsu : Shortest u)
    (hnumber : number base ds = number base es) : t = u := by
  have hlt {s : List Char} {xs : List Nat} (hs : s.mapM read = some xs) : ∀ d ∈ xs, d < base := by
    intro d hd
    obtain ⟨c, -, hc⟩ := mem_of_mapM hs hd
    exact h.lt hc
  -- a text of the number 0 that does not begin with a zero is empty
  have hempty {s : List Char} {xs : List Nat} (hs : s.mapM read = some xs) (hP : ∀ c ∈ s, P c)
      (hhead : s.head? ≠ some '0') (hzero : number base xs = 0) : s = [] := by
    have hxs : xs = [] := number_inj h.one_lt (hlt hs) (by simp) (h.head hs hP hhead)
      (by simp) hzero
    have hlen := (exists_of_mapM hs).1
    rw [hxs] at hlen
    exact List.length_eq_zero_iff.mp hlen.symm
  have halone {xs : List Nat} (hs : ['0'].mapM read = some xs) : number base xs = 0 := by
    rw [List.mapM_cons, h.zero.2] at hs
    cases hs
    exact Nat.zero_mul base
  rcases hst with rfl | hst
  · rcases hsu with rfl | hsu
    · rfl
    · exact absurd (hempty hu hPu hsu (hnumber.symm.trans (halone ht))) hune
  · rcases hsu with rfl | hsu
    · exact absurd (hempty ht hPt hst (hnumber.trans (halone hu))) htne
    · have hsame := number_inj h.one_lt (hlt ht) (hlt hu) (h.head ht hPt hst) (h.head hu hPu hsu)
        hnumber
      rw [← hsame] at hu
      exact h.mapM_inj ht hu hPt hPu

end OneSpelling

theorem digit?_eq_some {c : Char} {d : Nat} (h : digit? c = some d) :
    d < 10 ∧ c.toNat = d + 48 := by
  unfold digit? at h
  split at h
  next hc =>
    cases h
    simp only [Char.le_def, UInt32.le_iff_toNat_le] at hc
    have h0 : '0'.val.toNat = 48 := rfl
    have h9 : '9'.val.toNat = 57 := rfl
    rw [show c.toNat = c.val.toNat from rfl]
    omega
  next => cases h

theorem decimalDigits : Digits 10 digit? fun _ => True where
  one_lt := by decide
  lt h := (digit?_eq_some h).1
  zero := ⟨trivial, by decide⟩
  inj _ _ hc hc' := Char.toNat_inj.mp
    ((digit?_eq_some hc).2.trans (digit?_eq_some hc').2.symm)

theorem octet?_spec (h : octet? t = some n) :
    ∃ ds, t.mapM digit? = some ds ∧ t ≠ [] ∧ Shortest t ∧ number 10 ds = n ∧ n ≤ 255 := by
  unfold octet? at h
  rw [Option.bind_eq_bind, Option.bind_eq_some_iff] at h
  obtain ⟨ds, hds, h⟩ := h
  split at h
  next hshape =>
    cases h
    obtain ⟨hne, hhead, hle⟩ := hshape
    refine ⟨ds, hds, hne, ?_, rfl, hle⟩
    rcases hhead with hlen | hhead
    · obtain ⟨c, rfl⟩ := List.length_eq_one_iff.mp hlen
      by_cases hc : c = '0'
      · exact .inl (by rw [hc])
      · exact .inr fun hz => hc (Option.some.inj hz)
    · exact .inr hhead
  next => cases h

theorem octet?_inj {u : List Char} (ht : octet? t = some n) (hu : octet? u = some n) : t = u := by
  obtain ⟨ds, hds, htne, hst, hn, -⟩ := octet?_spec ht
  obtain ⟨es, hes, hune, hsu, hn', -⟩ := octet?_spec hu
  exact decimalDigits.text_inj hds hes (fun _ _ => trivial) (fun _ _ => trivial) htne hune hst hsu
    (hn.trans hn'.symm)

theorem octets_inj {ts us : List (List Char)} (ht : ts.mapM octet? = some ws)
    (hu : us.mapM octet? = some ws) : ts = us := by
  induction ts generalizing us ws with
  | nil =>
      cases ht
      exact (List.length_eq_zero_iff.mp (exists_of_mapM hu).1.symm).symm
  | cons t ts ih =>
      rw [List.mapM_cons] at ht
      obtain ⟨n, hn, ht⟩ := Option.bind_eq_some_iff.mp ht
      obtain ⟨ns, hns, ht⟩ := Option.bind_eq_some_iff.mp ht
      cases ht
      cases us with
      | nil => cases hu
      | cons u us =>
          rw [List.mapM_cons] at hu
          obtain ⟨m, hm, hu⟩ := Option.bind_eq_some_iff.mp hu
          obtain ⟨ms, hms, hu⟩ := Option.bind_eq_some_iff.mp hu
          cases hu
          rw [octet?_inj hn hm, ih hns hms]

/-- An IPv4 address has one literal. -/
theorem parse4_inj {u : List Char} (ht : parse4 t = some q) (hu : parse4 u = some q) : t = u := by
  obtain ⟨a, b, c, d, hquad, rfl⟩ := parse4_eq_some ht
  obtain ⟨a', b', c', d', hquad', hsame⟩ := parse4_eq_some hu
  obtain ⟨ha, hb, hc, hd⟩ := quad_octets hquad
  obtain ⟨ha', hb', hc', hd'⟩ := quad_octets hquad'
  obtain ⟨rfl, rfl, rfl, rfl⟩ : a = a' ∧ b = b' ∧ c = c' ∧ d = d' := by omega
  have hjoin (t : List Char) : ['.'].intercalate (t.splitOn '.') = t := List.intercalate_splitOn '.'
  rw [← hjoin t, octets_inj hquad hquad', hjoin u]

-- ============================================================ a quad's text

def octetText (n : Nat) : List Char := Nat.toDigits 10 n

/-- The text of 32 bits. -/
def quadText (q : Nat) : List Char :=
  ['.'].intercalate ([q / 16777216, q / 65536 % 256, q / 256 % 256, q % 256].map octetText)

theorem octetText_spec : ∀ n < 256, octet? (octetText n) = some n ∧ '.' ∉ octetText n
    ∧ (octetText n).length ≤ 3 := by
  decide +kernel

theorem parse4_quadText (h : q < 2 ^ 32) : parse4 (quadText q) = some q := by
  have hoctets : ∀ n ∈ [q / 16777216, q / 65536 % 256, q / 256 % 256, q % 256], n < 256 := by
    intro n hn
    simp only [List.mem_cons, List.not_mem_nil, or_false] at hn
    omega
  have hdot : ∀ t ∈ [q / 16777216, q / 65536 % 256, q / 256 % 256, q % 256].map octetText,
      '.' ∉ t := by
    intro t ht
    obtain ⟨n, hn, rfl⟩ := List.mem_map.mp ht
    exact (octetText_spec n (hoctets n hn)).2.1
  have hread : ([q / 16777216, q / 65536 % 256, q / 256 % 256, q % 256].map octetText).mapM octet?
      = some [q / 16777216, q / 65536 % 256, q / 256 % 256, q % 256] := by
    generalize [q / 16777216, q / 65536 % 256, q / 256 % 256, q % 256] = ns at hoctets
    induction ns with
    | nil => rfl
    | cons n ns ih =>
        rw [List.map_cons, List.mapM_cons, (octetText_spec n (hoctets n List.mem_cons_self)).1,
          ih fun m hm => hoctets m (List.mem_cons_of_mem n hm)]
        rfl
  rw [parse4, quadText, List.splitOn_intercalate '.' hdot (List.cons_ne_nil _ _), hread]
  refine congrArg some ?_
  show ((q / 16777216 * 256 + q / 65536 % 256) * 256 + q / 256 % 256) * 256 + q % 256 = q
  omega

theorem parse4_eq (h : parse4 t = some q) : t = quadText q :=
  parse4_inj h (parse4_quadText (parse4_lt h))

theorem length_quad (h : parse4 t = some q) : t.length ≤ 15 := by
  have hlt := parse4_lt h
  rw [parse4_eq h, quadText]
  have h1 := (octetText_spec (q / 16777216) (by omega)).2.2
  have h2 := (octetText_spec (q / 65536 % 256) (by omega)).2.2
  have h3 := (octetText_spec (q / 256 % 256) (by omega)).2.2
  have h4 := (octetText_spec (q % 256) (by omega)).2.2
  simp only [List.map_cons, List.map_nil, List.intercalate_cons_cons, List.intercalate_singleton,
    List.length_append, List.length_singleton]
  omega

-- ========================================================== values in parts

theorem number_append_list (base : Nat) (ds es : List Nat) :
    number base (ds ++ es) = number base ds * base ^ es.length + number base es := by
  induction es using List.reverseRecOn with
  | nil => simp [number]
  | append_singleton es e ih =>
      rw [← List.append_assoc, number_append, ih, number_append, List.length_append,
        List.length_singleton, Nat.pow_succ]
      ring

/-- Numbers of as many digits are told apart by them. -/
theorem number_digits_inj {base : Nat} {ds es : List Nat} (hds : ∀ d ∈ ds, d < base)
    (hes : ∀ d ∈ es, d < base) (hlen : ds.length = es.length)
    (h : number base ds = number base es) : ds = es := by
  induction ds generalizing es with
  | nil => exact (List.length_eq_zero_iff.mp hlen.symm).symm
  | cons d ds ih =>
      cases es with
      | nil => cases hlen
      | cons e es =>
          have hlen' : ds.length = es.length := Nat.succ_inj.mp hlen
          have htail {x : Nat} {xs : List Nat} (hxs : ∀ d ∈ x :: xs, d < base) :
              number base xs < base ^ xs.length :=
            number_lt fun d hd => hxs d (List.mem_cons_of_mem _ hd)
          have hsplit (x : Nat) (xs : List Nat) :
              number base (x :: xs) = x * base ^ xs.length + number base xs := by
            rw [← List.singleton_append, number_append_list]
            simp [number]
          have hd := htail hds
          have he := htail hes
          rw [hsplit, hsplit, hlen'] at h
          rw [hlen'] at hd
          have hpos : 0 < base ^ es.length := Nat.lt_of_le_of_lt (Nat.zero_le _) hd
          have hsame : d = e := by
            have hdiv := congrArg (· / base ^ es.length) h
            rwa [Nat.mul_comm d, Nat.mul_comm e, Nat.mul_add_div hpos, Nat.mul_add_div hpos,
              Nat.div_eq_of_lt hd, Nat.div_eq_of_lt he, Nat.add_zero, Nat.add_zero] at hdiv
          subst hsame
          rw [ih (fun x hx => hds x (List.mem_cons_of_mem _ hx))
            (fun x hx => hes x (List.mem_cons_of_mem _ hx)) hlen' (Nat.add_left_cancel h)]

end Ip
