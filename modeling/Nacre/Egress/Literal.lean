/-
How an IPv6 literal is taken apart by hand: lower case, a dotted tail
rewritten as two groups, the halves around `::`, the groups between the
colons.

The rewriting is a step of its own (`undot`): whatever literal comes in,
what goes on is the same literal with no dot in it (`undot_words`), and the
grammar below it has one form of word.
-/
import Nacre.Lib.Ip

namespace Egress

open Ip
open Find (mem_intercalate)

variable {text t pre : List Char} {ts ls rs : List (List Char)} {ws lw gw : List Nat} {n q : Nat}

-- ============================================================== the code

/-- `n.toString(16)` -/
def hex (n : Nat) : List Char := Nat.toDigits 16 n

/-- `\d+`, and `Number` of it. -/
def decimal? (t : List Char) : Option Nat := do
  let ds ← t.mapM digit?
  if t = [] then none else some (number 10 ds)

/-- `(\d+)\.(\d+)\.(\d+)\.(\d+)$`, from here on. -/
def quadShape (t : List Char) : Option (Nat × Nat × Nat × Nat) :=
  match (t.splitOn '.').mapM decimal? with
  | some [a, b, c, d] => some (a, b, c, d)
  | _ => none

/-- The first match of the dotted quad at the end: what stands before it,
and its octets. -/
def dotted : List Char → Option (List Char × Nat × Nat × Nat × Nat)
  | [] => none
  | c :: rest =>
      match quadShape (c :: rest) with
      | some octets => some ([], octets)
      | none => (dotted rest).map fun (start, octets) => (c :: start, octets)

/-- A trailing dotted quad is the last two words; rewritten as hex so there
is one grammar below. -/
def undot (text : List Char) : Option (List Char) :=
  match dotted text with
  | some (start, a, b, c, d) =>
      if a > 255 ∨ b > 255 ∨ c > 255 ∨ d > 255 then none
      else some (start ++ hex ((a <<< 8) ||| b) ++ ':' :: hex ((c <<< 8) ||| d))
  | none => some text

/-- `[0-9a-f]` -/
def isLowerHex (c : Char) : Bool := ('0' ≤ c ∧ c ≤ '9') ∨ ('a' ≤ c ∧ c ≤ 'f')

/-- One word, `none` for `NaN`. -/
def word? (w : List Char) : Option Nat :=
  if 1 ≤ w.length ∧ w.length ≤ 4 ∧ w.all isLowerHex then (w.mapM hexDigit?).map (number 16)
  else none

def parse (part : List Char) : List (Option Nat) := (pieces part).map word?

/-- The words of a literal without dots. -/
def hexWords (text : List Char) : Option (List Nat) :=
  let halves := splitElision text
  if halves.length > 2 then none
  else
    let head := parse (halves.headD [])
    let rest := if halves.length = 2 then parse (halves.getD 1 []) else []
    let known := head.length + rest.length
    if if halves.length = 1 then known ≠ 8 else known > 7 then none
    else (head ++ List.replicate (8 - known) (some 0) ++ rest).mapM id

def lower (text : List Char) : List Char := text.map Char.toLower

/-- The eight 16-bit words of an IPv6 literal, or `none` if it is not one. -/
def ipv6Words (address : List Char) : Option (List Nat) := (undot (lower address)).bind hexWords

-- ========================================================== lower case

theorem hexDigit?_ascii {c : Char} (h : hexDigit? c = some n) : c.toNat < 128 := by
  unfold hexDigit? at h
  simp only [Char.le_def, UInt32.le_iff_toNat_le] at h
  rw [show c.toNat = c.val.toNat from rfl] at h ⊢
  have h9 : '9'.val.toNat = 57 := rfl
  have hf : 'f'.val.toNat = 102 := rfl
  have hF : 'F'.val.toNat = 70 := rfl
  split at h
  next hc => omega
  next =>
    split at h
    next hc => omega
    next =>
      split at h
      next hc => omega
      next => cases h

theorem hexDigit?_lower {c : Char} (h : hexDigit? c = some n) :
    hexDigit? c.toLower = some n ∧ isLowerHex c.toLower = true := by
  have hall : ∀ k < 128, (hexDigit? (Char.ofNat k)).isSome = true →
      hexDigit? (Char.ofNat k).toLower = hexDigit? (Char.ofNat k)
        ∧ isLowerHex (Char.ofNat k).toLower = true := by
    decide +kernel
  have hc := hall c.toNat (hexDigit?_ascii h)
  rw [Char.ofNat_toNat, h] at hc
  exact hc rfl

theorem hexDigit?_of_digit? {c : Char} (h : digit? c = some n) : hexDigit? c = some n := by
  unfold digit? at h
  split at h
  next hc => rw [hexDigit?, if_pos hc, h]
  next => cases h

theorem digit?_lower {c : Char} (h : digit? c = some n) : c.toLower = c := by
  have hall : ∀ k < 128, (digit? (Char.ofNat k)).isSome = true →
      (Char.ofNat k).toLower = Char.ofNat k := by
    decide +kernel
  have hc := hall c.toNat (hexDigit?_ascii (hexDigit?_of_digit? h))
  rw [Char.ofNat_toNat, h] at hc
  exact hc rfl

theorem lower_quad (h : parse4 t = some q) : lower t = t := by
  have hall : ∀ c ∈ t, c.toLower = c := by
    intro c hc
    rcases quad_char h hc with rfl | ⟨d, hd⟩
    · rfl
    · exact digit?_lower hd
  rw [lower, List.map_congr_left hall, List.map_id']

theorem lower_join (ts : List (List Char)) : lower (join ts) = join (ts.map lower) := by
  induction ts with
  | nil => rfl
  | cons t ts ih =>
      cases ts with
      | nil => simp [join]
      | cons u ts =>
          calc lower (join (t :: u :: ts))
              = lower t ++ ':' :: lower (join (u :: ts)) := by
                  rw [join_cons_cons, lower, List.map_append, List.map_cons]
                  rfl
            _ = join ((t :: u :: ts).map lower) := by
                  rw [ih]
                  exact (join_cons_cons (lower t) (lower u) (ts.map lower)).symm

/-- A group in either case is a word once it is in lower case. -/
theorem word?_lower (h : group? t = some n) : word? (lower t) = some n := by
  obtain ⟨ds, hds, hpos, hlen, rfl⟩ := group?_eq_some.mp h
  have hall : (lower t).all isLowerHex = true := by
    rw [List.all_eq_true]
    intro c hc
    obtain ⟨x, hx, rfl⟩ := List.mem_map.mp hc
    obtain ⟨d, -, hd⟩ := (exists_of_mapM hds).2 x hx
    exact (hexDigit?_lower hd).2
  have hread : (lower t).mapM hexDigit? = some ds :=
    mapM_map_of Char.toLower hds fun c _ d hd => (hexDigit?_lower hd).1
  have hlower : (lower t).length = t.length := List.length_map _
  rw [word?, if_pos ⟨by omega, by omega, hall⟩, hread]
  rfl

theorem group?_of_word? (h : word? t = some n) : group? t = some n := by
  unfold word? at h
  split at h
  next hshape =>
    obtain ⟨ds, hds, rfl⟩ := Option.map_eq_some_iff.mp h
    exact group?_eq_some.mpr ⟨ds, hds, hshape.1, hshape.2.1, rfl⟩
  next => cases h

/-- The groups of a side, in lower case. -/
theorem words_lower (h : ts.mapM group? = some ws) : (ts.map lower).mapM word? = some ws :=
  mapM_map_of lower h fun _ _ _ ht => word?_lower ht

theorem words_pieces (h : ts.mapM word? = some ws) : ∀ t ∈ ts, Piece t := by
  have hgroups := mapM_map_of id h fun _ _ _ ht => group?_of_word? ht
  rw [List.map_id] at hgroups
  exact groups_pieces hgroups

-- ======================================================== the dotted tail

theorem hex_digits (n : Nat) : ∃ ds, (hex n).mapM hexDigit? = some ds ∧ number 16 ds = n
    ∧ (hex n).all isLowerHex = true := by
  induction n using Nat.strongRecOn with
  | ind n ih =>
      have hdigit : ∀ d < 16, hexDigit? (Nat.digitChar d) = some d
          ∧ isLowerHex (Nat.digitChar d) = true := by
        decide
      by_cases hlt : n < 16
      · obtain ⟨hd, hlow⟩ := hdigit n hlt
        refine ⟨[n], ?_, ?_, ?_⟩
        · rw [hex, Nat.toDigits_of_lt_base hlt, List.mapM_cons, hd]
          rfl
        · exact Nat.zero_add n
        · rw [hex, Nat.toDigits_of_lt_base hlt]
          simpa using hlow
      · obtain ⟨ds, hds, hn, hlow⟩ := ih (n / 16) (by omega)
        obtain ⟨hd, hdlow⟩ := hdigit (n % 16) (Nat.mod_lt _ (by decide))
        have hstep : hex n = hex (n / 16) ++ [Nat.digitChar (n % 16)] :=
          Nat.toDigits_of_base_le (by decide) (by omega)
        refine ⟨ds ++ [n % 16], ?_, ?_, ?_⟩
        · rw [hstep]
          exact mapM_append hds (by rw [List.mapM_cons, hd]; rfl)
        · rw [number_append, hn]
          omega
        · rw [hstep, List.all_append, hlow]
          simpa using hdlow

/-- Sixteen bits printed in hex are a word again. -/
theorem word?_hex (h : n < 65536) : word? (hex n) = some n := by
  obtain ⟨ds, hds, hn, hlow⟩ := hex_digits n
  have hlen : (hex n).length ≤ 4 := (Nat.length_toDigits_le_iff (by decide) (by decide)).mpr h
  have hpos : 1 ≤ (hex n).length := Nat.length_toDigits_pos
  rw [word?, if_pos ⟨hpos, hlen, hlow⟩, hds, Option.map_some, hn]

theorem decimal?_octet (h : octet? t = some n) : decimal? t = some n := by
  obtain ⟨ds, hds, hne, rfl, -⟩ := octet?_eq_some h
  rw [decimal?, hds]
  exact if_neg hne

theorem quadShape_char {octets : Nat × Nat × Nat × Nat} (h : quadShape t = some octets) {c : Char}
    (hc : c ∈ t) : c ≠ ':' := by
  unfold quadShape at h
  split at h
  next a b c' d hquad =>
    rw [← (List.intercalate_splitOn '.' : ['.'].intercalate (t.splitOn '.') = t)] at hc
    rcases mem_intercalate hc with rfl | ⟨p, hp, hcp⟩
    · decide
    · obtain ⟨n, -, hn⟩ := (exists_of_mapM hquad).2 p hp
      obtain ⟨ds, hds, -⟩ := Option.bind_eq_some_iff.mp hn
      obtain ⟨d, -, hd⟩ := (exists_of_mapM hds).2 c hcp
      rintro rfl
      rw [show digit? ':' = none by decide] at hd
      cases hd
  next => cases h

theorem quadShape_dot {octets : Nat × Nat × Nat × Nat} (h : quadShape t = some octets) :
    '.' ∈ t := by
  by_contra hdot
  unfold quadShape at h
  split at h
  next a b c d hquad =>
    have hlen := (exists_of_mapM hquad).1
    rw [List.splitOn_eq_singleton hdot] at hlen
    cases hlen
  next => cases h

/-- No dot, no dotted tail. -/
theorem dotted_none (h : '.' ∉ text) : dotted text = none := by
  induction text with
  | nil => rfl
  | cons c rest ih =>
      have hshape : quadShape (c :: rest) = none := by
        cases hquad : quadShape (c :: rest) with
        | none => rfl
        | some octets => exact absurd (quadShape_dot hquad) h
      rw [dotted, hshape]
      simp only
      rw [ih fun hmem => h (List.mem_cons_of_mem _ hmem)]
      rfl

/-- Where a literal's side may begin: at its start, or after a colon. -/
def Ends (pre : List Char) : Prop := pre = [] ∨ pre.getLast? = some ':'

/-- The first match is the whole quad: every earlier start has a colon in it. -/
theorem dotted_quad {octets : Nat × Nat × Nat × Nat} (hpre : Ends pre)
    (h : quadShape t = some octets) : dotted (pre ++ t) = some (pre, octets) := by
  induction pre with
  | nil =>
      cases t with
      | nil => exact absurd (quadShape_dot h) List.not_mem_nil
      | cons c t => rw [List.nil_append, dotted, h]
  | cons c pre ih =>
      have hlast : (c :: pre).getLast? = some ':' := hpre.resolve_left (List.cons_ne_nil _ _)
      have hcolon : ':' ∈ c :: (pre ++ t) :=
        List.mem_append_left t (List.mem_of_getLast? hlast)
      have hshape : quadShape (c :: (pre ++ t)) = none := by
        cases hquad : quadShape (c :: (pre ++ t)) with
        | none => rfl
        | some octets => exact absurd rfl (quadShape_char hquad hcolon)
      have hends : Ends pre := by
        cases pre with
        | nil => exact .inl rfl
        | cons d pre => exact .inr (by rwa [List.getLast?_cons_cons] at hlast)
      rw [List.cons_append, dotted, hshape]
      simp only
      rw [ih hends]
      rfl

/-- The octets of a dotted quad, and the two words they make. -/
theorem quadShape_quad (h : parse4 t = some q) : ∃ a b c d, quadShape t = some (a, b, c, d)
    ∧ ¬ (a > 255 ∨ b > 255 ∨ c > 255 ∨ d > 255)
    ∧ (a <<< 8) ||| b = q / 65536 ∧ (c <<< 8) ||| d = q % 65536 := by
  obtain ⟨a, b, c, d, hquad, rfl⟩ := parse4_eq_some h
  obtain ⟨ha, hb, hc, hd⟩ := quad_octets hquad
  have hread : (t.splitOn '.').mapM decimal? = some [a, b, c, d] := by
    have := mapM_map_of id hquad fun _ _ _ ht => decimal?_octet ht
    rwa [List.map_id] at this
  refine ⟨a, b, c, d, ?_, by omega, ?_, ?_⟩
  · rw [quadShape, hread]
  · rw [← Nat.shiftLeft_add_eq_or_of_lt (show b < 2 ^ 8 by omega), Nat.shiftLeft_eq]
    omega
  · rw [← Nat.shiftLeft_add_eq_or_of_lt (show d < 2 ^ 8 by omega), Nat.shiftLeft_eq]
    omega

theorem word?_no_dot (h : word? t = some n) : '.' ∉ t := by
  intro hdot
  obtain ⟨ds, hds, -⟩ := group?_eq_some.mp (group?_of_word? h)
  obtain ⟨d, -, hd⟩ := (exists_of_mapM hds).2 _ hdot
  rw [show hexDigit? '.' = none by decide] at hd
  cases hd

theorem words_no_dot (h : ts.mapM word? = some ws) : '.' ∉ join ts := by
  intro hdot
  rcases mem_intercalate hdot with hc | ⟨t, ht, hc⟩
  · cases hc
  · obtain ⟨n, -, hn⟩ := (exists_of_mapM h).2 t ht
    exact word?_no_dot hn hc

theorem join_snoc (h : ts ≠ []) (t : List Char) : join (ts ++ [t]) = join ts ++ ':' :: t := by
  induction ts with
  | nil => exact absurd rfl h
  | cons u ts ih =>
      cases ts with
      | nil => simp [join]
      | cons v ts =>
          rw [List.cons_append, List.cons_append, join_cons_cons, join_cons_cons,
            ← List.cons_append, ih (List.cons_ne_nil _ _), List.append_assoc, List.cons_append]

/-- A last piece stands at the end, after the pieces before it and a colon. -/
theorem join_last (ts : List (List Char)) :
    ∃ start, Ends start ∧ ∀ t, join (ts ++ [t]) = start ++ t := by
  by_cases hnil : ts = []
  · subst hnil
    exact ⟨[], .inl rfl, fun t => by simp [join]⟩
  · refine ⟨join ts ++ [':'], .inr (by simp), fun t => ?_⟩
    rw [join_snoc hnil, List.append_assoc]
    rfl

theorem Ends.append {a b : List Char} (ha : Ends a) (hb : Ends b) : Ends (a ++ b) := by
  rcases hb with rfl | hb
  · rwa [List.append_nil]
  · refine .inr ?_
    rw [List.getLast?_append, hb]
    rfl

/-- What goes on to the grammar without dots: the same words, each a group. -/
theorem undot_words (h : Words rs gw) (hpre : Ends pre) (hdot : '.' ∉ pre) :
    ∃ us, us.mapM word? = some gw ∧ undot (pre ++ lower (join rs)) = some (pre ++ join us) := by
  rcases h with h | @⟨rs, gw, t, q, h, hq⟩
  · have hus := words_lower h
    refine ⟨rs.map lower, hus, ?_⟩
    have hnone : dotted (pre ++ join (rs.map lower)) = none := by
      refine dotted_none fun hmem => ?_
      rcases List.mem_append.mp hmem with hmem | hmem
      · exact hdot hmem
      · exact words_no_dot hus hmem
    rw [lower_join, undot, hnone]
  · have hus := words_lower h
    have hlt := parse4_lt hq
    obtain ⟨start, hstart, hlast⟩ := join_last (rs.map lower)
    obtain ⟨a, b, c, d, hshape, hle, hhi, hlo⟩ := quadShape_quad hq
    refine ⟨rs.map lower ++ [hex (q / 65536), hex (q % 65536)], ?_, ?_⟩
    · refine mapM_append hus ?_
      rw [List.mapM_cons, List.mapM_cons, word?_hex (by omega), word?_hex (by omega)]
      rfl
    · have hpair : join (rs.map lower ++ [hex (q / 65536), hex (q % 65536)])
          = start ++ (hex (q / 65536) ++ ':' :: hex (q % 65536)) := by
        rw [← hlast]
        rw [show [hex (q / 65536), hex (q % 65536)]
          = [hex (q / 65536)] ++ [hex (q % 65536)] from rfl, ← List.append_assoc,
          join_snoc (by simp), hlast, hlast, List.append_assoc]
      have htext : pre ++ lower (join (rs ++ [t])) = (pre ++ start) ++ t := by
        rw [lower_join, List.map_append, List.map_singleton, lower_quad hq, hlast,
          List.append_assoc]
      rw [htext, undot, dotted_quad (hpre.append hstart) hshape]
      simp only
      rw [if_neg hle, hhi, hlo, hpair]
      simp only [List.append_assoc]

-- ========================================================= the eight words

theorem parse_join (h : ts.mapM word? = some ws) : parse (join ts) = ws.map some := by
  rw [parse, pieces_join (words_pieces h)]
  induction ts generalizing ws with
  | nil =>
      cases h
      rfl
  | cons t ts ih =>
      rw [List.mapM_cons] at h
      obtain ⟨w, hw, h⟩ := Option.bind_eq_some_iff.mp h
      obtain ⟨vs, hvs, h⟩ := Option.bind_eq_some_iff.mp h
      cases h
      rw [List.map_cons, hw, ih hvs, List.map_cons]

theorem mapM_some (ws : List Nat) : (ws.map some).mapM id = some ws := by
  induction ws with
  | nil => rfl
  | cons w ws ih =>
      rw [List.map_cons, List.mapM_cons, ih]
      rfl

theorem hexWords_full (h : ts.mapM word? = some ws) (h8 : ws.length = 8) :
    hexWords (join ts) = some ws := by
  rw [hexWords, splitElision_clean (clean_join (words_pieces h))]
  simp only [List.length_singleton, List.headD_cons, parse_join h, List.length_map, h8,
    Nat.reduceEqDiff, if_false, List.length_nil, if_true]
  simpa using mapM_some ws

theorem hexWords_elided (hl : ls.mapM word? = some lw) (hr : rs.mapM word? = some gw)
    (h7 : lw.length + gw.length ≤ 7) : hexWords (join ls ++ ':' :: ':' :: join rs)
      = some (lw ++ List.replicate (8 - (lw.length + gw.length)) 0 ++ gw) := by
  have hmap : lw.map some ++ List.replicate (8 - (lw.length + gw.length)) (some 0) ++ gw.map some
      = (lw ++ List.replicate (8 - (lw.length + gw.length)) 0 ++ gw).map some := by
    rw [List.map_append, List.map_append, List.map_replicate]
  rw [hexWords, splitElision_append (clean_join (words_pieces hl)),
    splitElision_clean (clean_join (words_pieces hr))]
  simp only [List.length_cons, List.length_nil, List.headD_cons, List.getD_cons_succ,
    List.getD_cons_zero, parse_join hl, parse_join hr, List.length_map, if_true]
  rw [if_neg (by decide), if_neg (by simp only [Nat.reduceAdd, Nat.reduceEqDiff, if_false]; omega),
    hmap]
  exact mapM_some _

/-- Every literal is taken apart into the words it spells. -/
theorem ipv6Words_spells (h : Spells6 text ws) : ipv6Words text = some ws := by
  rcases h with @⟨ts, ws, h, h8⟩ | @⟨ls, rs, lw, gw, hl, hr, h7⟩
  · obtain ⟨us, hus, hundot⟩ := undot_words h (.inl rfl : Ends []) List.not_mem_nil
    rw [List.nil_append, List.nil_append] at hundot
    rw [ipv6Words, hundot, Option.bind_some, hexWords_full hus h8]
  · have hls := words_lower hl
    have hdot : '.' ∉ join (ls.map lower) ++ [':', ':'] := by
      intro hmem
      rcases List.mem_append.mp hmem with hmem | hmem
      · exact words_no_dot hls hmem
      · exact absurd hmem (by decide)
    obtain ⟨us, hus, hundot⟩ := undot_words hr (.inr (by simp)) hdot
    have htext : lower (join ls ++ ':' :: ':' :: join rs)
        = join (ls.map lower) ++ [':', ':'] ++ lower (join rs) := by
      rw [← lower_join, lower, lower, lower]
      simp
    rw [ipv6Words, htext, hundot, Option.bind_some, List.append_assoc]
    exact hexWords_elided hls hus h7

end Egress
