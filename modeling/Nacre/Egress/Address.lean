/-
Whether an IP literal is globally routable.

The code takes texts: it reads the literal, spells the IPv4 address an IPv6
one carries, and hands texts to a prefix matcher that reads them again.
Below it there are only values: `global4` and `global6` are the verdicts on
the 32 and the 128 bits, and `isGlobalAddress_v4` and `isGlobalAddress_v6`
say that the text is forgotten, whatever form it is in.

The ranges are stated twice. `NON_GLOBAL_V4` and `NON_GLOBAL_V6` are the
code's rows, texts and prefix lengths; `ranges4` and `ranges6` are the
special-purpose registries' ranges by what they are for, and a range is
refused because some row covers it. What the registry of the IPv6 space
holds back for later use (`ietfReserved6`) is in no row: 4000::1 passes.
-/
import Mathlib.Data.List.TakeDrop
import Mathlib.Data.List.TakeWhile
import Nacre.Egress.Literal

namespace Egress

open Ip

variable {text : List Char} {ws : List Nat} {v q n : Nat}

-- ============================================================== the code

/-- The runtime's prefix matcher: rows of a net and a prefix length, all of
one family. -/
structure BlockList where
  bits : Nat
  read : List Char → Option Nat
  rows : List (String × Nat)

/-- `list.check(address, family)` -/
def BlockList.check (list : BlockList) (address : List Char) : Bool :=
  match list.read address with
  | none => false
  | some v => list.rows.any fun (net, p) =>
      match list.read net.toList with
      | none => false
      | some n => inSubnet list.bits n p v

def NON_GLOBAL_V4 : BlockList where
  bits := 32
  read := parse4
  rows :=
    [("0.0.0.0", 8), -- "this network"
     ("10.0.0.0", 8), -- private
     ("100.64.0.0", 10), -- carrier-grade NAT
     ("127.0.0.0", 8), -- loopback
     ("169.254.0.0", 16), -- link-local
     ("172.16.0.0", 12), -- private
     ("192.0.0.0", 24), -- IETF protocol assignments
     ("192.0.2.0", 24), -- TEST-NET-1
     ("192.88.99.0", 24), -- 6to4 relay anycast
     ("192.168.0.0", 16), -- private
     ("198.18.0.0", 15), -- benchmarking
     ("198.51.100.0", 24), -- TEST-NET-2
     ("203.0.113.0", 24), -- TEST-NET-3
     ("224.0.0.0", 4), -- multicast
     ("240.0.0.0", 4)] -- reserved, and 255.255.255.255

def NON_GLOBAL_V6 : BlockList where
  bits := 128
  read := fun text => (parse6 text).map value6
  rows :=
    [("::", 96), -- unspecified, loopback, and IPv4-compatible (decoded above)
     ("::ffff:0:0", 96), -- IPv4-mapped (decoded above)
     ("64:ff9b:1::", 48), -- local-use NAT64
     ("100::", 64), -- discard-only
     ("2001::", 23), -- IETF protocol assignments, Teredo among them
     ("2001:db8::", 32), -- documentation
     ("3fff::", 20), -- documentation
     ("5f00::", 16), -- segment routing
     ("fc00::", 7), -- unique-local
     ("fe80::", 10), -- link-local
     ("fec0::", 10), -- site-local
     ("ff00::", 8)] -- multicast

/-- The character class of a zone id. -/
def isZone (c : Char) : Bool := c.isAlphanum || c = '-' || c = '.' || c = ':'

/-- `isIP(address)`: 4, 6, or 0 for what is no literal. -/
def isIP (address : List Char) : Nat :=
  if (parse4 address).isSome then 4
  else
    let (literal, zone) := address.span (· != '%')
    if (parse6 literal).isSome ∧ (zone = [] ∨ (zone.tail ≠ [] ∧ zone.tail.all isZone)) then 6 else 0

def quad (hi lo : Nat) : List Char :=
  ['.'].intercalate [Nat.toDigits 10 (hi >>> 8), Nat.toDigits 10 (hi &&& 0xff),
    Nat.toDigits 10 (lo >>> 8), Nat.toDigits 10 (lo &&& 0xff)]

/-- The IPv4 address an IPv6 one carries, where its prefix says it carries one. -/
def embeddedV4 (w : List Nat) : Option (List Char) :=
  let at_ := fun i => w.getD i 0
  let zero := fun start stop => ((w.take stop).drop start).all (· = 0)
  -- ::ffff:a.b.c.d
  if zero 0 5 ∧ at_ 5 = 0xffff then some (quad (at_ 6) (at_ 7))
  -- ::a.b.c.d, except :: and ::1 themselves
  else if zero 0 6 ∧ ¬ (at_ 6 = 0 ∧ (at_ 7 = 0 ∨ at_ 7 = 1)) then some (quad (at_ 6) (at_ 7))
  -- 64:ff9b::a.b.c.d
  else if at_ 0 = 0x64 ∧ at_ 1 = 0xff9b ∧ zero 2 6 then some (quad (at_ 6) (at_ 7))
  -- 2002:aabb:ccdd::/48
  else if at_ 0 = 0x2002 then some (quad (at_ 1) (at_ 2))
  else none

/-- Whether an IP literal is globally routable. -/
def isGlobalAddress (address : List Char) : Bool :=
  let kind := isIP address
  if kind = 4 then !NON_GLOBAL_V4.check address
  else if kind ≠ 6 then false
  -- A zone id only ever qualifies a link-local address.
  else if address.contains '%' then false
  else
    match ipv6Words address with
    | none => false
    | some words =>
        match embeddedV4 words with
        | some embedded => !NON_GLOBAL_V4.check embedded
        | none => !NON_GLOBAL_V6.check address

-- ============================================================== by value

/-- A matcher's rows, as values. -/
def BlockList.nets (list : BlockList) : List (Nat × Nat) :=
  list.rows.filterMap fun (net, p) => (list.read net.toList).map (·, p)

/-- Some row of the table has the value. -/
def listed (bits : Nat) (nets : List (Nat × Nat)) (v : Nat) : Bool :=
  nets.any fun (n, p) => inSubnet bits n p v

theorem BlockList.check_eq {list : BlockList} {address : List Char}
    (h : list.read address = some v) : list.check address = listed list.bits list.nets v := by
  rw [BlockList.check, h, BlockList.nets, listed]
  simp only
  induction list.rows with
  | nil => rfl
  | cons row rows ih =>
      obtain ⟨net, p⟩ := row
      rw [List.any_cons, ih, List.filterMap_cons]
      cases list.read net.toList with
      | none => exact Bool.false_or _
      | some n => rw [Option.map_some, List.any_cons]

/-- The verdict on 32 bits. -/
def global4 (v : Nat) : Bool := !listed 32 NON_GLOBAL_V4.nets v

/-- The IPv4 address that 128 bits carry. -/
def embedded (v : Nat) : Option Nat :=
  if v / 2 ^ 32 = 0xffff then some (v % 2 ^ 32)
  else if v / 2 ^ 32 = 0 ∧ 1 < v then some v
  else if v / 2 ^ 32 = 0x64ff9b * 2 ^ 64 then some (v % 2 ^ 32)
  else if v / 2 ^ 112 = 0x2002 then some (v / 2 ^ 80 % 2 ^ 32)
  else none

/-- The verdict on 128 bits. -/
def global6 (v : Nat) : Bool :=
  match embedded v with
  | some q => global4 q
  | none => !listed 128 NON_GLOBAL_V6.nets v

def verdict : Address → Bool
  | .v4 v => global4 v
  | .v6 v => global6 v

theorem decimal_octet (h : n < 256) : octet? (Nat.toDigits 10 n) = some n
    ∧ '.' ∉ Nat.toDigits 10 n := by
  have hall : ∀ k < 256, octet? (Nat.toDigits 10 k) = some k ∧ '.' ∉ Nat.toDigits 10 k := by
    decide +kernel
  exact hall n h

/-- An address spelled from its two words is read as their 32 bits. -/
theorem parse4_quad {hi lo : Nat} (hhi : hi < 65536) (hlo : lo < 65536) :
    parse4 (quad hi lo) = some (hi * 65536 + lo) := by
  have hshift : ∀ w < 65536, w >>> 8 < 256 ∧ w &&& 0xff < 256
      ∧ w = (w >>> 8) * 256 + (w &&& 0xff) := by
    intro w hw
    rw [Nat.shiftRight_eq_div_pow, show (0xff : Nat) = 2 ^ 8 - 1 from rfl,
      Nat.and_two_pow_sub_one_eq_mod]
    omega
  obtain ⟨ha, hb, hab⟩ := hshift hi hhi
  obtain ⟨hc, hd, hcd⟩ := hshift lo hlo
  have hdots : ∀ p ∈ [Nat.toDigits 10 (hi >>> 8), Nat.toDigits 10 (hi &&& 0xff),
      Nat.toDigits 10 (lo >>> 8), Nat.toDigits 10 (lo &&& 0xff)], '.' ∉ p := by
    simp [decimal_octet ha, decimal_octet hb, decimal_octet hc, decimal_octet hd]
  rw [parse4, quad, List.splitOn_intercalate '.' hdots (List.cons_ne_nil _ _)]
  simp only [List.mapM_cons, List.mapM_nil, decimal_octet ha, decimal_octet hb, decimal_octet hc,
    decimal_octet hd, Option.pure_def, Option.bind_eq_bind, Option.bind_some]
  exact congrArg some (by omega)

/-- Eight words, and their value. -/
theorem eight_words (h : ws.length = 8) : ∃ a b c d e f g i, ws = [a, b, c, d, e, f, g, i] := by
  match ws, h with
  | [a, b, c, d, e, f, g, i], _ => exact ⟨a, b, c, d, e, f, g, i, rfl⟩

/-- What the code reads off the words is what the value carries. -/
theorem embeddedV4_eq (h8 : ws.length = 8) (hlt : ∀ w ∈ ws, w < 65536) :
    (embeddedV4 ws = none ∧ embedded (value6 ws) = none)
      ∨ ∃ text q, embeddedV4 ws = some text ∧ embedded (value6 ws) = some q
          ∧ parse4 text = some q := by
  obtain ⟨a, b, c, d, e, f, g, i, rfl⟩ := eight_words h8
  simp only [List.forall_mem_cons, List.not_mem_nil, false_imp_iff, implies_true, and_true] at hlt
  obtain ⟨ha, hb, hc, hd, he, hf, hg, hi⟩ := hlt
  have hv : value6 [a, b, c, d, e, f, g, i]
      = ((((((a * 65536 + b) * 65536 + c) * 65536 + d) * 65536 + e) * 65536 + f) * 65536 + g) * 65536
        + i := by
    simp only [value6, number, List.foldl_cons, List.foldl_nil, Nat.zero_mul, Nat.zero_add]
  generalize value6 [a, b, c, d, e, f, g, i] = v at hv
  have hmapped : v / 2 ^ 32 = 0xffff ↔
      (a = 0 ∧ b = 0 ∧ c = 0 ∧ d = 0 ∧ e = 0) ∧ f = 0xffff := by omega
  have hcompatible : (v / 2 ^ 32 = 0 ∧ 1 < v) ↔
      (a = 0 ∧ b = 0 ∧ c = 0 ∧ d = 0 ∧ e = 0 ∧ f = 0) ∧ ¬ (g = 0 ∧ (i = 0 ∨ i = 1)) := by omega
  have hnat64 : v / 2 ^ 32 = 0x64ff9b * 2 ^ 64 ↔
      a = 0x64 ∧ b = 0xff9b ∧ c = 0 ∧ d = 0 ∧ e = 0 ∧ f = 0 := by omega
  have h6to4 : v / 2 ^ 112 = 0x2002 ↔ a = 0x2002 := by omega
  have htail : v % 2 ^ 32 = g * 65536 + i := by omega
  have hcode : embeddedV4 [a, b, c, d, e, f, g, i] =
      if (a = 0 ∧ b = 0 ∧ c = 0 ∧ d = 0 ∧ e = 0) ∧ f = 0xffff then some (quad g i)
      else if (a = 0 ∧ b = 0 ∧ c = 0 ∧ d = 0 ∧ e = 0 ∧ f = 0) ∧ ¬ (g = 0 ∧ (i = 0 ∨ i = 1)) then
        some (quad g i)
      else if a = 0x64 ∧ b = 0xff9b ∧ c = 0 ∧ d = 0 ∧ e = 0 ∧ f = 0 then some (quad g i)
      else if a = 0x2002 then some (quad b c)
      else none := by
    simp [embeddedV4]
  rw [hcode, embedded, if_congr hmapped rfl rfl]
  split
  next => exact .inr ⟨_, _, rfl, rfl, (parse4_quad hg hi).trans (congrArg some htail.symm)⟩
  next =>
    rw [if_congr hcompatible rfl rfl]
    split
    next hzero =>
      have hlow : v = g * 65536 + i := by
        obtain ⟨⟨rfl, rfl, rfl, rfl, rfl, rfl⟩, -⟩ := hzero
        simpa using hv
      exact .inr ⟨_, _, rfl, rfl, (parse4_quad hg hi).trans (congrArg some hlow.symm)⟩
    next =>
      rw [if_congr hnat64 rfl rfl]
      split
      next => exact .inr ⟨_, _, rfl, rfl, (parse4_quad hg hi).trans (congrArg some htail.symm)⟩
      next =>
        rw [if_congr h6to4 rfl rfl]
        split
        next =>
          have hnet : v / 2 ^ 80 % 2 ^ 32 = b * 65536 + c := by omega
          exact .inr ⟨_, _, rfl, rfl, (parse4_quad hb hc).trans (congrArg some hnet.symm)⟩
        next => exact .inl ⟨rfl, rfl⟩

-- ============================================================= any form

/-- A four-part literal: the verdict is the value's. -/
theorem isGlobalAddress_v4 (h : parse4 text = some v) : isGlobalAddress text = global4 v := by
  have hkind : isIP text = 4 := by
    rw [isIP, h]
    rfl
  rw [isGlobalAddress, hkind]
  simp only [if_true]
  rw [BlockList.check_eq h]
  rfl

theorem parse4_v6 (h : Spells6 text ws) : parse4 text = none := by
  cases hquad : parse4 text with
  | none => rfl
  | some q => exact absurd h.colon_mem (quad_piece hquad).2

/-- An IPv6 literal: the verdict is the value's. -/
theorem isGlobalAddress_v6 (h : Spells6 text ws) :
    isGlobalAddress text = global6 (value6 ws) := by
  have hpercent : '%' ∉ text := fun hmem => absurd (h.char hmem) (by decide)
  have hread := parse6_eq_some.mpr h
  obtain ⟨h8, hlt⟩ := h.words
  have hkind : isIP text = 6 := by
    have hspan : text.span (· != '%') = (text, []) := by
      have hall : ∀ c ∈ text, (c != '%') = true := by
        intro c hc
        rw [bne_iff_ne]
        rintro rfl
        exact hpercent hc
      rw [List.span_eq_takeWhile_dropWhile, List.takeWhile_eq_self_iff.mpr hall,
        List.dropWhile_eq_nil_iff.mpr hall]
    rw [isIP, parse4_v6 h, hspan]
    simp [hread]
  have hv6 : NON_GLOBAL_V6.read text = some (value6 ws) := by
    show (parse6 text).map value6 = _
    rw [hread]
    rfl
  rw [isGlobalAddress, hkind, if_neg (by decide), if_neg (by decide), if_neg (by simpa using hpercent),
    ipv6Words_spells h]
  simp only
  rcases embeddedV4_eq h8 hlt with ⟨hcode, hvalue⟩ | ⟨inner, q, hcode, hvalue, hq⟩
  · rw [hcode, global6, hvalue]
    simp only
    rw [BlockList.check_eq hv6]
    rfl
  · rw [hcode, global6, hvalue]
    simp only
    rw [BlockList.check_eq hq]
    rfl

/-- The text is forgotten. -/
theorem isGlobalAddress_spells {a : Address} (h : Spells text a) :
    isGlobalAddress text = verdict a := by
  cases h with
  | v4 h => exact isGlobalAddress_v4 h
  | v6 h => exact isGlobalAddress_v6 h

-- ============================================================== the ranges

/-- What a range is set aside for. -/
inductive Purpose
  | loopback
  | privateUse
  | linkLocal
  | multicast
  | unspecified
  | carrierGrade
  | benchmarking
  | documentation
  | reserved
  deriving DecidableEq, Repr

/-- A net's value, from its leading words. -/
def net6 (lead : List Nat) : Nat := value6 (lead ++ List.replicate (8 - lead.length) 0)

def net4 (a b c d : Nat) : Nat := number 256 [a, b, c, d]

/-- The IPv4 ranges, each a net and its prefix length. -/
def ranges4 : Purpose → List (Nat × Nat)
  | .loopback => [(net4 127 0 0 0, 8)]
  | .privateUse => [(net4 10 0 0 0, 8), (net4 172 16 0 0, 12), (net4 192 168 0 0, 16)]
  | .linkLocal => [(net4 169 254 0 0, 16)]
  | .multicast => [(net4 224 0 0 0, 4)]
  | .unspecified => [(net4 0 0 0 0, 32)]
  | .carrierGrade => [(net4 100 64 0 0, 10)]
  | .benchmarking => [(net4 198 18 0 0, 15)]
  | .documentation => [(net4 192 0 2 0, 24), (net4 198 51 100 0, 24), (net4 203 0 113 0, 24)]
  | .reserved =>
      [(net4 0 0 0 0, 8), (net4 192 0 0 0, 24), (net4 192 88 99 0, 24), (net4 240 0 0 0, 4)]

/-- The IPv6 ranges of the special-purpose registry. -/
def ranges6 : Purpose → List (Nat × Nat)
  | .loopback => [(1, 128)]
  | .privateUse => [(net6 [0xfc00], 7), (net6 [0xfec0], 10)]
  | .linkLocal => [(net6 [0xfe80], 10)]
  | .multicast => [(net6 [0xff00], 8)]
  | .unspecified => [(0, 128)]
  | .carrierGrade => []
  | .benchmarking => [(net6 [0x2001, 2], 48)]
  | .documentation => [(net6 [0x2001, 0xdb8], 32), (net6 [0x3fff], 20)]
  | .reserved =>
      [(net6 [0x64, 0xff9b, 1], 48), (net6 [0x100], 64), (net6 [0x2001], 23), (net6 [0x5f00], 16)]

/-- What the registry of the IPv6 space marks as reserved by the IETF,
beside the special-purpose ranges. -/
def ietfReserved6 : List (Nat × Nat) :=
  [(net6 [0], 8), (net6 [0x100], 8), (net6 [0x200], 7), (net6 [0x400], 6), (net6 [0x800], 5),
   (net6 [0x1000], 4), (net6 [0x4000], 3), (net6 [0x6000], 3), (net6 [0x8000], 3),
   (net6 [0xa000], 3), (net6 [0xc000], 3), (net6 [0xe000], 4), (net6 [0xf000], 5),
   (net6 [0xf800], 6), (net6 [0xfe00], 9)]

/-- The address is in a range set aside for the purpose. -/
def InRange (purpose : Purpose) : Address → Prop
  | .v4 v => ∃ range ∈ ranges4 purpose, inSubnet 32 range.1 range.2 v = true
  | .v6 v => ∃ range ∈ ranges6 purpose, inSubnet 128 range.1 range.2 v = true

/-- The 128 bits carry the 32. -/
inductive Embeds : Nat → Nat → Prop
  | mapped {q : Nat} (h : q < 2 ^ 32) : Embeds (0xffff * 2 ^ 32 + q) q
  | compatible {q : Nat} (h : q < 2 ^ 32) : Embeds q q
  | nat64 {q : Nat} (h : q < 2 ^ 32) : Embeds (net6 [0x64, 0xff9b] + q) q
  | sixToFour {q rest : Nat} (h : q < 2 ^ 32) (hrest : rest < 2 ^ 80) :
      Embeds (net6 [0x2002] + q * 2 ^ 80 + rest) q

/-- The row has every value of the range. -/
def covers (bits : Nat) (row range : Nat × Nat) : Bool :=
  row.1 % 2 ^ (bits - row.2) = 0 ∧ range.1 % 2 ^ (bits - range.2) = 0 ∧ row.1 ≤ range.1
    ∧ range.1 + 2 ^ (bits - range.2) ≤ row.1 + 2 ^ (bits - row.2)

theorem listed_of_covers {bits : Nat} {nets : List (Nat × Nat)} {row range : Nat × Nat}
    (hrow : row ∈ nets) (hcovers : covers bits row range = true)
    (h : inSubnet bits range.1 range.2 v = true) : listed bits nets v = true := by
  rw [covers, decide_eq_true_eq] at hcovers
  obtain ⟨hrow0, hrange0, hlow, hhigh⟩ := hcovers
  obtain ⟨hge, hlt⟩ := (inSubnet_iff (Nat.dvd_of_mod_eq_zero hrange0)).mp h
  refine List.any_eq_true.mpr ⟨row, hrow, ?_⟩
  exact (inSubnet_iff (Nat.dvd_of_mod_eq_zero hrow0)).mpr ⟨hlow.trans hge, hlt.trans_le hhigh⟩

theorem global4_inRange {purpose : Purpose} (h : InRange purpose (.v4 v)) : global4 v = false := by
  have hcovered : ∀ range ∈ ranges4 purpose,
      ∃ row ∈ NON_GLOBAL_V4.nets, covers 32 row range = true := by
    cases purpose <;> decide +kernel
  obtain ⟨range, hrange, hin⟩ := h
  obtain ⟨row, hrow, hcovers⟩ := hcovered range hrange
  rw [global4, listed_of_covers hrow hcovers hin]
  rfl

/-- Where the values that carry an IPv4 address lie. -/
def carriers : List (Nat × Nat) :=
  [(2, 2 ^ 32), (0xffff * 2 ^ 32, 0x10000 * 2 ^ 32),
   (0x64ff9b * 2 ^ 96, 0x64ff9b * 2 ^ 96 + 2 ^ 32), (0x2002 * 2 ^ 112, 0x2003 * 2 ^ 112)]

theorem embedded_carrier (h : embedded v = some q) : ∃ c ∈ carriers, c.1 ≤ v ∧ v < c.2 := by
  unfold embedded at h
  simp only [carriers, List.mem_cons, List.not_mem_nil, or_false, exists_eq_or_imp, exists_eq_left]
  split at h
  next => omega
  next =>
    split at h
    next => omega
    next =>
      split at h
      next => omega
      next =>
        split at h
        next => omega
        next => cases h

theorem global6_inRange {purpose : Purpose} (h : InRange purpose (.v6 v)) : global6 v = false := by
  have hcovered : ∀ range ∈ ranges6 purpose,
      (∃ row ∈ NON_GLOBAL_V6.nets, covers 128 row range = true)
        ∧ range.1 % 2 ^ (128 - range.2) = 0
        ∧ ∀ c ∈ carriers, range.1 + 2 ^ (128 - range.2) ≤ c.1 ∨ c.2 ≤ range.1 := by
    cases purpose <;> decide +kernel
  obtain ⟨range, hrange, hin⟩ := h
  obtain ⟨⟨row, hrow, hcovers⟩, hdvd, hapart⟩ := hcovered range hrange
  cases hembedded : embedded v with
  | none =>
      rw [global6, hembedded]
      simp only
      rw [listed_of_covers hrow hcovers hin]
      rfl
  | some q =>
      obtain ⟨c, hc, hge, hlt⟩ := embedded_carrier hembedded
      obtain ⟨hlow, hhigh⟩ := (inSubnet_iff (Nat.dvd_of_mod_eq_zero hdvd)).mp hin
      rcases hapart c hc with h | h
      · omega
      · omega

theorem verdict_inRange {purpose : Purpose} {a : Address} (h : InRange purpose a) :
    verdict a = false := by
  cases a with
  | v4 v => exact global4_inRange h
  | v6 v => exact global6_inRange h

/-- A carried address that is not global makes its carrier not global. -/
theorem global6_embeds (h : Embeds v q) (hq : global4 q = false) : global6 v = false := by
  have hnat64 : net6 [0x64, 0xff9b] = 0x64ff9b * 2 ^ 96 := by decide +kernel
  have h6to4 : net6 [0x2002] = 0x2002 * 2 ^ 112 := by decide +kernel
  have hread : embedded v = some q → global6 v = false := by
    intro hembedded
    rw [global6, hembedded]
    exact hq
  cases h with
  | mapped h =>
      refine hread ?_
      rw [embedded, if_pos (by omega)]
      exact congrArg some (by omega)
  | compatible h =>
      by_cases hlow : 1 < v
      · refine hread ?_
        rw [embedded, if_neg (by omega), if_pos (by omega)]
      · -- :: and ::1 are judged as what they are
        have hcases : v = 0 ∨ v = 1 := by omega
        rcases hcases with rfl | rfl
        · decide +kernel
        · decide +kernel
  | nat64 h =>
      refine hread ?_
      rw [hnat64, embedded, if_neg (by omega), if_neg (by omega), if_pos (by omega)]
      exact congrArg some (by omega)
  | @sixToFour q rest h hrest =>
      refine hread ?_
      rw [h6to4, embedded, if_neg (by omega), if_neg (by omega), if_neg (by omega),
        if_pos (by omega)]
      exact congrArg some (by omega)

-- ============================================================= the guarantee

/-- The verdict depends on the value alone, is false on every special-purpose
range, and is false wherever the carried IPv4 address is refused. -/
theorem isGlobalAddress_of_value :
    (∀ a text text', Spells text a → Spells text' a → isGlobalAddress text = isGlobalAddress text')
    ∧ (∀ a purpose text, Spells text a → InRange purpose a → isGlobalAddress text = false)
    ∧ ∀ v q text carried, Spells text (.v6 v) → Embeds v q → Spells carried (.v4 q) →
        isGlobalAddress carried = false → isGlobalAddress text = false := by
  refine ⟨fun a text text' h h' => ?_, fun a purpose text h hin => ?_,
    fun v q text carried h hembeds hcarried hfalse => ?_⟩
  · rw [isGlobalAddress_spells h, isGlobalAddress_spells h']
  · rw [isGlobalAddress_spells h]
    exact verdict_inRange hin
  · rw [isGlobalAddress_spells hcarried] at hfalse
    rw [isGlobalAddress_spells h]
    exact global6_embeds hembeds hfalse

theorem isGlobalAddress_metadata : isGlobalAddress "169.254.169.254".toList = false
    ∧ isGlobalAddress "::FFFF:A9FE:a9fe".toList = false
    ∧ isGlobalAddress "::ffff:a9fe:a9fe".toList = isGlobalAddress "0::ffff:169.254.169.254".toList := by
  have hv4 : Spells "169.254.169.254".toList (.v4 0xa9fea9fe) := .v4 (by decide +kernel)
  have hv6 : ∀ text, parse6 text = some [0, 0, 0, 0, 0, 0xffff, 0xa9fe, 0xa9fe] →
      Spells text (.v6 (0xffff * 2 ^ 32 + 0xa9fea9fe)) := by
    intro text h
    have hspells := Spells.v6 (parse6_eq_some.mp h)
    rwa [show value6 [0, 0, 0, 0, 0, 0xffff, 0xa9fe, 0xa9fe] = 0xffff * 2 ^ 32 + 0xa9fea9fe by
      decide +kernel] at hspells
  have hfalse : isGlobalAddress "169.254.169.254".toList = false :=
    isGlobalAddress_of_value.2.1 _ .linkLocal _ hv4 ⟨_, List.mem_cons_self, by decide +kernel⟩
  refine ⟨hfalse, ?_, ?_⟩
  · exact isGlobalAddress_of_value.2.2 _ _ _ _ (hv6 _ (by decide +kernel)) (.mapped (by decide))
      hv4 hfalse
  · exact isGlobalAddress_of_value.1 _ _ _ (hv6 _ (by decide +kernel)) (hv6 _ (by decide +kernel))

/-- 4000::1 is reserved by the IETF and passes. -/
theorem isGlobalAddress_ietfReserved : ∃ text v, Spells text (.v6 v)
    ∧ (∃ range ∈ ietfReserved6, inSubnet 128 range.1 range.2 v = true)
    ∧ isGlobalAddress text = true := by
  refine ⟨"4000::1".toList, value6 [0x4000, 0, 0, 0, 0, 0, 0, 1], ?_, ?_, ?_⟩
  · exact .v6 (parse6_eq_some.mp (by decide +kernel))
  · exact ⟨(net6 [0x4000], 3), by decide +kernel, by decide +kernel⟩
  · decide +kernel

end Egress
