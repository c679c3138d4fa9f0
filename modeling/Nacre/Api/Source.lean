/-
Which client a request came from: `clientSource`.

# The header

Each proxy appends, so the entries the trusted ones wrote are the last
ones whatever stood before (`hops_through`), and the address counted from
the right is the one the outermost of them saw (`clientSource_through`).

# The key

A literal's subscriber is its IPv4 address, an IPv4-mapped address
counting as one, or else its /64. `KeyOf` says which text is the key of a
subscriber: one text, and of one subscriber (`KeyOf.eq_iff`). The
code's own reading of a literal is not the platform's: it takes `::ffff:`
off by its letters, and a dotted tail for one group. `Plain` is where
that makes no difference, and `normalize_literal` says that it makes one
everywhere else.
-/
import Mathlib.Data.Bool.AllAny
import Nacre.Egress.Literal
import Nacre.Lib.Sha256
import Nacre.Lib.Js

namespace Nacre.Api.Source

open Ip
open Egress (lower word?)

/-- A header's or a socket's text; Latin-1. -/
abbrev Text := List Char

-- ================================================================ the code

/-- `req.headers['x-forwarded-for']` -/
inductive Header where
  | absent
  | one (raw : Text)
  | many (lines : List Text)

structure Request where
  forwarded : Header
  remoteAddress : Option Text

/-- `Array.isArray(header) ? header.join(',') : header` -/
def Header.raw : Header → Option Text
  | .absent => none
  | .one raw => some raw
  | .many lines => some ([','].intercalate lines)

def trim (t : Text) : Text := (t.dropWhile Js.isTrimmed).rdropWhile Js.isTrimmed

def hops (raw : Text) : List Text := ((raw.splitOn ',').map trim).filter (· ≠ [])

/-- `toLowerCase` of a Latin-1 character. -/
def toLowerCase (c : Char) : Char :=
  if 0xC0 ≤ c.toNat ∧ c.toNat ≤ 0xDE ∧ c.toNat ≠ 0xD7 then Char.ofNat (c.toNat + 32) else c.toLower

def maxAddress : Nat := 45

/-- `[0-9a-f:.]` -/
def isAddressChar (c : Char) : Bool := Egress.isLowerHex c || c = ':' || c = '.'

/-- Anything that is not plausibly an address becomes a digest of itself. -/
def bounded (value : Text) : Text :=
  if value.length ≤ maxAddress ∧ value ≠ [] ∧ value.all isAddressChar then value
  else 'x' :: ':' :: (Sha256.hex (String.ofList value).toUTF8.data.toList).toList.take 24

/-- `group.replace(/^0+(?=.)/, '')` -/
def trimZeros (group : Text) : Text :=
  if group.dropWhile (· = '0') = [] then group.take 1 else group.dropWhile (· = '0')

/-- The eight groups of an address, as the code counts them. -/
def expand (address : Text) : Option (List Text) :=
  match splitElision address with
  | [side] => if (pieces side).length = 8 then some ((pieces side).map trimZeros) else none
  | [left, right] =>
    let zeros : Int := 8 - (pieces left).length - (pieces right).length
    if zeros < 1 then none
    else some ((pieces left ++ List.replicate zeros.toNat ['0'] ++ pieces right).map trimZeros)
  | _ => none

def mappedPrefix : Text := "::ffff:".toList

/-- `normalize`, from the address in lower case and without its zone. -/
def foldBare (bare : Text) : Text :=
  let mapped := if mappedPrefix <+: bare then bare.drop mappedPrefix.length else bare
  if ':' ∉ mapped then bounded mapped
  else
    match expand mapped with
    | none => bounded mapped
    | some groups => join (groups.take 4) ++ "::/64".toList

/-- Fold an address to the unit a limit should count. -/
def normalize (address : Text) : Text :=
  foldBare (((address.splitOn '%').headD address).map toLowerCase)

/-- A stable identifier for the client, `none` where there is nothing to
key on. -/
def clientSource (req : Request) (trustProxy : Nat) : Option Text :=
  let socket := req.remoteAddress.map normalize
  if trustProxy = 0 then socket
  else
    match req.forwarded.raw with
    | none => socket
    | some raw =>
      if trim raw = [] then socket
      else
        match (hops raw)[(hops raw).length - trustProxy]? with
        | some candidate => some (normalize candidate)
        | none => socket

-- ================================================================ the header

/-- What a trusted proxy writes behind what it received: one address, and
the header it begins where there is nothing in the one it was sent. -/
inductive Appends : Option Text → Text → Option Text → Prop
  | fresh {received : Option Text} {address : Text} (h : ∀ raw ∈ received, hops raw = []) :
      Appends received address (some address)
  | behind {raw blank address : Text} (h : ∀ c ∈ blank, Js.isTrimmed c = true) :
      Appends (some raw) address (some (raw ++ ',' :: (blank ++ address)))

/-- The header of a request that passed through proxies, the outermost
first. -/
inductive Through : Option Text → List Text → Option Text → Prop
  | arrived {raw : Option Text} : Through raw [] raw
  | proxy {received raw final : Option Text} {address : Text} {rest : List Text}
      (h : Appends received address raw) (hrest : Through raw rest final) :
      Through received (address :: rest) final

/-- An entry of the header: something, and no comma in it. -/
def Entry (address : Text) : Prop := ',' ∉ address ∧ trim address ≠ []

variable {raw blank address final : Text} {received : Option Text} {addresses : List Text}

theorem trim_blank (h : ∀ c ∈ blank, Js.isTrimmed c = true) (address : Text) :
    trim (blank ++ address) = trim address := by
  rw [trim, List.dropWhile_append_of_pos h, trim]

theorem comma_not_mem_blank (h : ∀ c ∈ blank, Js.isTrimmed c = true) : ',' ∉ blank :=
  fun hmem => absurd (h _ hmem) (by decide)

theorem hops_entry (h : Entry address) : hops address = [trim address] := by
  rw [hops, List.splitOn_eq_singleton h.1]
  simp [h.2]

theorem hops_behind (hblank : ∀ c ∈ blank, Js.isTrimmed c = true) (h : Entry address)
    (raw : Text) : hops (raw ++ ',' :: (blank ++ address)) = hops raw ++ [trim address] := by
  have hcomma : ',' ∉ blank ++ address := by
    rw [List.mem_append, not_or]
    exact ⟨comma_not_mem_blank hblank, h.1⟩
  rw [hops, List.splitOn_append_cons_self, List.splitOn_eq_singleton hcomma, List.map_append,
    List.filter_append, hops, List.map_singleton, trim_blank hblank]
  simp [h.2]

theorem hops_appends {header : Option Text} (h : Appends received address header)
    (haddress : Entry address) : ∃ raw, header = some raw
      ∧ hops raw = (received.map hops).getD [] ++ [trim address] := by
  rcases h with ⟨hempty⟩ | ⟨hblank⟩
  · refine ⟨address, rfl, ?_⟩
    rw [hops_entry haddress]
    obtain _ | raw := received
    · rfl
    · rw [Option.map_some, Option.getD_some, hempty raw rfl, List.nil_append]
  · exact ⟨_, rfl, hops_behind hblank haddress _⟩

/-- Whatever came before, the last entries are the proxies'. -/
theorem hops_through {header : Option Text} (h : Through received addresses header)
    (hentries : ∀ address ∈ addresses, Entry address) :
    (header.map hops).getD [] = (received.map hops).getD [] ++ addresses.map trim := by
  induction h with
  | arrived => simp
  | proxy happends hrest ih =>
    obtain ⟨raw, rfl, hraw⟩ := hops_appends happends (hentries _ List.mem_cons_self)
    rw [ih fun a ha => hentries a (List.mem_cons_of_mem _ ha), Option.map_some, Option.getD_some,
      hraw, List.map_cons, List.append_assoc, List.singleton_append]

theorem hops_nil (h : trim raw = []) : hops raw = [] := by
  have hrest : ∀ c ∈ raw.dropWhile Js.isTrimmed, Js.isTrimmed c = true :=
    List.rdropWhile_eq_nil_iff.1 h
  have hall : ∀ c ∈ raw, Js.isTrimmed c = true := by
    intro c hc
    rw [← List.takeWhile_append_dropWhile (p := Js.isTrimmed) (l := raw), List.mem_append] at hc
    exact hc.elim List.mem_takeWhile_imp (hrest c)
  rw [hops, List.splitOn_eq_singleton (comma_not_mem_blank hall)]
  simp [h]

/-- Of `n` proxies the outermost decides the key. -/
theorem clientSource_through {req : Request}
    (h : Through received (address :: addresses) req.forwarded.raw)
    (hentries : ∀ a ∈ address :: addresses, Entry a) :
    clientSource req (address :: addresses).length = some (normalize (trim address)) := by
  have hhops := hops_through h hentries
  rw [List.map_cons] at hhops
  cases hraw : req.forwarded.raw with
  | none =>
    rw [hraw] at hhops
    simp at hhops
  | some raw =>
    rw [hraw, Option.map_some, Option.getD_some] at hhops
    have hne : trim raw ≠ [] := fun hnil => by
      rw [hops_nil hnil] at hhops
      simp at hhops
    rw [clientSource, if_neg (by simp), hraw]
    dsimp only
    rw [if_neg hne, hhops]
    simp

-- ============================================================== the literals

/-- A literal of an address, a zone behind it or none. -/
inductive Literal : Text → Address → Prop
  | bare {text : Text} {a : Address} (h : Spells text a) : Literal text a
  | zoned {text : Text} {a : Address} (h : Spells text a) (zone : Text) :
      Literal (text ++ '%' :: zone) a

/-- Who is counted: an IPv4 address, or the 64 bits of an IPv6 subnet. -/
inductive Subscriber where
  | v4 (n : Nat)
  | net (n : Nat)
deriving DecidableEq

/-- An IPv4-mapped address: `::ffff:0:0/96`. -/
def isMapped (v : Nat) : Bool := v / 2 ^ 32 = 0xFFFF

def subscriber : Address → Subscriber
  | .v4 n => .v4 n
  | .v6 v => if isMapped v then .v4 (v % 2 ^ 32) else .net (v / 2 ^ 64)

/-- The `i`-th group of an address. -/
def groupAt (v i : Nat) : Nat := v / 65536 ^ (7 - i) % 65536

def withoutZone (t : Text) : Text := t.takeWhile (· ≠ '%')

/-- Where the code's reading of a literal is the platform's. An
IPv4-mapped address is written `::ffff:` and a dotted quad; any other
address does not begin with `::ffff:`, and where it ends in a dotted quad
it has a `::`, and no group of its /64 behind the `::` but zeros. -/
def PlainV6 (t : Text) (v : Nat) : Prop :=
  if isMapped v then mappedPrefix <+: t ∧ '.' ∈ t
  else ¬ mappedPrefix <+: t ∧ ('.' ∈ t → ∃ left right, splitElision t = [left, right]
    ∧ ∀ i < 4, (pieces left).length ≤ i → groupAt v i = 0)

def Plain (t : Text) : Address → Prop
  | .v4 _ => True
  | .v6 v => PlainV6 (lower (withoutZone t)) v

/-- The text is the key of the subscriber. -/
def KeyOf : Subscriber → Text → Prop
  | .v4 n, key => parse4 key = some n
  | .net n, key => ∃ gs ws, key = join gs ++ "::/64".toList ∧ gs.mapM word? = some ws
      ∧ gs.length = 4 ∧ (∀ g ∈ gs, Shortest g) ∧ number 65536 ws = n

variable {t u g : Text} {gs hs ts ls rs : List Text} {ws lw gw : List Nat} {n q v : Nat}

-- ================================================================== groups

theorem isLowerHex_iff {c : Char} : Egress.isLowerHex c = true ↔
    48 ≤ c.toNat ∧ c.toNat ≤ 57 ∨ 97 ≤ c.toNat ∧ c.toNat ≤ 102 := by
  simp only [Egress.isLowerHex, Bool.decide_or, Bool.or_eq_true, decide_eq_true_eq, Char.le_def,
    UInt32.le_iff_toNat_le]
  exact Iff.rfl

theorem hexDigit?_lowerHex {c : Char} {d : Nat} (hc : Egress.isLowerHex c = true)
    (h : hexDigit? c = some d) : c.toNat = if d < 10 then d + 48 else d + 87 := by
  unfold hexDigit? at h
  simp only [Char.le_def, UInt32.le_iff_toNat_le] at h
  have hc := isLowerHex_iff.1 hc
  rw [show c.toNat = c.val.toNat from rfl] at hc h ⊢
  have h0 : '0'.val.toNat = 48 := rfl
  have h9 : '9'.val.toNat = 57 := rfl
  have ha : 'a'.val.toNat = 97 := rfl
  have hf : 'f'.val.toNat = 102 := rfl
  have hA : 'A'.val.toNat = 65 := rfl
  have hF : 'F'.val.toNat = 70 := rfl
  rw [h0, h9, ha, hf, hA, hF] at h
  split at h
  · cases h
    split <;> omega
  · split at h
    · cases h
      split <;> omega
    · split at h
      · omega
      · cases h

theorem lowerHexDigits : Digits 16 hexDigit? fun c => Egress.isLowerHex c = true where
  one_lt := by decide
  lt := hexDigit?_lt
  zero := by decide
  inj hc hc' h h' := Char.toNat_inj.1
    ((hexDigit?_lowerHex hc h).trans (hexDigit?_lowerHex hc' h').symm)

theorem word?_eq_some : word? g = some n ↔ ∃ ds, g.mapM hexDigit? = some ds
    ∧ (1 ≤ g.length ∧ g.length ≤ 4) ∧ (∀ c ∈ g, Egress.isLowerHex c = true)
    ∧ number 16 ds = n := by
  unfold word?
  constructor
  · intro h
    split at h
    · rename_i hshape
      obtain ⟨ds, hds, hn⟩ := Option.map_eq_some_iff.1 h
      exact ⟨ds, hds, ⟨hshape.1, hshape.2.1⟩, List.all_eq_true.1 hshape.2.2, hn⟩
    · cases h
  · rintro ⟨ds, hds, ⟨hpos, hlen⟩, hall, rfl⟩
    rw [if_pos ⟨hpos, hlen, List.all_eq_true.2 hall⟩, hds]
    rfl

theorem word?_inj (hg : word? g = some n) (hu : word? u = some n) (hsg : Shortest g)
    (hsu : Shortest u) : g = u := by
  obtain ⟨ds, hds, ⟨hpos, -⟩, hall, hn⟩ := word?_eq_some.1 hg
  obtain ⟨es, hes, ⟨hpos', -⟩, hall', hn'⟩ := word?_eq_some.1 hu
  exact lowerHexDigits.text_inj hds hes hall hall' (List.length_pos_iff.1 hpos)
    (List.length_pos_iff.1 hpos') hsg hsu (hn.trans hn'.symm)

/-- `0db8` and `db8` are the same group. -/
theorem word?_zero (h : word? ('0' :: g) = some n) (hne : g ≠ []) : word? g = some n := by
  obtain ⟨ds, hds, ⟨-, hlen⟩, hall, hn⟩ := word?_eq_some.1 h
  rw [List.mapM_cons] at hds
  obtain ⟨d, hd, hds⟩ := Option.bind_eq_some_iff.1 hds
  obtain ⟨es, hes, hds⟩ := Option.bind_eq_some_iff.1 hds
  cases hds
  obtain rfl : 0 = d := Option.some.inj hd
  refine word?_eq_some.2 ⟨es, hes, ⟨List.length_pos_iff.2 hne, ?_⟩,
    fun c hc => hall c (List.mem_cons_of_mem _ hc), ?_⟩
  · rw [List.length_cons] at hlen
    omega
  · rw [← hn]
    simp [number]

theorem trimZeros_cons (hne : g ≠ []) : trimZeros ('0' :: g) = trimZeros g := by
  unfold trimZeros
  rw [List.dropWhile_cons_of_pos (by decide)]
  split
  · rename_i hnil
    obtain _ | ⟨c, g⟩ := g
    · exact absurd rfl hne
    · have hc : c = '0' := by simpa using List.dropWhile_eq_nil_iff.1 hnil c List.mem_cons_self
      rw [hc]
      rfl
  · rfl

theorem trimZeros_spec (h : word? g = some n) :
    word? (trimZeros g) = some n ∧ Shortest (trimZeros g) := by
  induction g with
  | nil => cases h
  | cons c g ih =>
    by_cases hc : c = '0'
    · subst hc
      by_cases hne : g = []
      · subst hne
        exact ⟨h, .inl rfl⟩
      · rw [trimZeros_cons hne]
        exact ih (word?_zero h hne)
    · have hdrop : (c :: g).dropWhile (· = '0') = c :: g :=
        List.dropWhile_cons_of_neg (by simpa using hc)
      have htrim : trimZeros (c :: g) = c :: g := by
        rw [trimZeros, hdrop, if_neg (List.cons_ne_nil c g)]
      rw [htrim]
      exact ⟨h, .inr fun hhead => hc (Option.some.inj hhead)⟩

theorem words_lt (h : gs.mapM word? = some ws) : ∀ w ∈ ws, w < 65536 := by
  intro w hw
  obtain ⟨g, -, hg⟩ := mem_of_mapM h hw
  exact group?_lt (Egress.group?_of_word? hg)

theorem words_inj (hg : gs.mapM word? = some ws) (hh : hs.mapM word? = some ws)
    (hsg : ∀ g ∈ gs, Shortest g) (hsh : ∀ g ∈ hs, Shortest g) : gs = hs := by
  induction gs generalizing hs ws with
  | nil =>
    cases hg
    exact (List.length_eq_zero_iff.1 (exists_of_mapM hh).1.symm).symm
  | cons g gs ih =>
    rw [List.mapM_cons] at hg
    obtain ⟨n, hn, hg⟩ := Option.bind_eq_some_iff.1 hg
    obtain ⟨ns, hns, hg⟩ := Option.bind_eq_some_iff.1 hg
    cases hg
    cases hs with
    | nil => cases hh
    | cons h hs =>
      rw [List.mapM_cons] at hh
      obtain ⟨m, hm, hh⟩ := Option.bind_eq_some_iff.1 hh
      obtain ⟨ms, hms, hh⟩ := Option.bind_eq_some_iff.1 hh
      cases hh
      rw [word?_inj hn hm (hsg g List.mem_cons_self) (hsh h List.mem_cons_self),
        ih hns hms (fun x hx => hsg x (List.mem_cons_of_mem _ hx))
          fun x hx => hsh x (List.mem_cons_of_mem _ hx)]

theorem map_trimZeros (h : gs.mapM word? = some ws) :
    (gs.map trimZeros).mapM word? = some ws ∧ ∀ g ∈ gs.map trimZeros, Shortest g := by
  refine ⟨mapM_map_of trimZeros h fun g _ n hn => (trimZeros_spec hn).1, fun g hg => ?_⟩
  obtain ⟨u, hu, rfl⟩ := List.mem_map.1 hg
  obtain ⟨n, -, hn⟩ := (exists_of_mapM h).2 u hu
  exact (trimZeros_spec hn).2

-- ==================================================================== keys

theorem colon_mem_net (t : Text) : ':' ∈ t ++ "::/64".toList :=
  List.mem_append_right t (by decide)

theorem parse4_colon (h : ':' ∈ t) : parse4 t = none := by
  cases hparse : parse4 t with
  | none => rfl
  | some q => exact absurd h (quad_piece hparse).2

/-- A subscriber has one key, and a key is one subscriber's. -/
theorem KeyOf.eq_iff {s s' : Subscriber} {k k' : Text} (h : KeyOf s k) (h' : KeyOf s' k') :
    k = k' ↔ s = s' := by
  match s, s', h, h' with
  | .v4 n, .v4 m, h, h' =>
    have hn : parse4 k = some n := h
    have hm : parse4 k' = some m := h'
    constructor
    · rintro rfl
      exact congrArg Subscriber.v4 (Option.some.inj (hn.symm.trans hm))
    · intro hsame
      obtain rfl : n = m := by injection hsame
      exact parse4_inj hn hm
  | .v4 n, .net m, h, ⟨gs, ws, hk, _⟩ =>
    have hn : parse4 k = some n := h
    refine ⟨fun hsame => ?_, nofun⟩
    rw [hsame, hk, parse4_colon (colon_mem_net _)] at hn
    cases hn
  | .net n, .v4 m, ⟨gs, ws, hk, _⟩, h' =>
    have hm : parse4 k' = some m := h'
    refine ⟨fun hsame => ?_, nofun⟩
    rw [← hsame, hk, parse4_colon (colon_mem_net _)] at hm
    cases hm
  | .net n, .net m, ⟨gs, ws, hk, hgs, h4, hsg, hn⟩, ⟨hs, vs, hk', hhs, h4', hsh, hm⟩ =>
    constructor
    · intro hsame
      rw [hk, hk'] at hsame
      have hjoin := List.append_cancel_right hsame
      have hpieces := congrArg pieces hjoin
      rw [pieces_join (Egress.words_pieces hgs), pieces_join (Egress.words_pieces hhs)] at hpieces
      subst hpieces
      obtain rfl := Option.some.inj (hgs.symm.trans hhs)
      exact congrArg Subscriber.net (hn.symm.trans hm)
    · intro hsame
      obtain rfl : n = m := by injection hsame
      have hlen : ws.length = vs.length := by
        rw [(exists_of_mapM hgs).1, (exists_of_mapM hhs).1, h4, h4']
      obtain rfl := number_digits_inj (words_lt hgs) (words_lt hhs) hlen (hn.trans hm.symm)
      rw [hk, hk', words_inj hgs hhs hsg hsh]

theorem slash_not_mem_bounded (t : Text) : '/' ∉ bounded t := by
  unfold bounded
  split
  · rename_i hshape
    intro hmem
    exact absurd (List.all_eq_true.1 hshape.2.2 _ hmem) (by decide)
  · intro hmem
    simp only [List.mem_cons, show '/' ≠ 'x' by decide, show '/' ≠ ':' by decide, false_or] at hmem
    exact absurd (Sha256.mem_hex (List.mem_of_mem_take hmem)) (by decide)

theorem colon_mem_bounded (h : ':' ∈ t) : ':' ∈ bounded t := by
  unfold bounded
  split
  · exact h
  · simp

theorem not_keyOf_net (h : '/' ∉ t) : ¬ KeyOf (.net n) t := by
  rintro ⟨gs, ws, rfl, -⟩
  exact h (List.mem_append_right _ (by decide))

theorem not_keyOf_v4 (h : ':' ∈ t) : ¬ KeyOf (.v4 n) t := by
  intro hkey
  have hparse : parse4 t = some n := hkey
  rw [parse4_colon h] at hparse
  cases hparse

theorem isAddressChar_quad (h : parse4 t = some q) : t.all isAddressChar = true := by
  rw [List.all_eq_true]
  intro c hc
  rcases quad_char h hc with rfl | ⟨d, hd⟩
  · decide
  · obtain ⟨hlt, hn⟩ := digit?_eq_some hd
    have hlow : Egress.isLowerHex c = true := isLowerHex_iff.2 (.inl (by omega))
    simp [isAddressChar, hlow]

/-- A quad is its own key. -/
theorem bounded_quad (h : parse4 t = some q) : bounded t = t := by
  have hlen := length_quad h
  exact if_pos ⟨by unfold maxAddress; omega, (quad_piece h).1, isAddressChar_quad h⟩

-- ========================================================== in lower case

/-- One side of a literal in lower case. -/
inductive LowWords : List Text → List Nat → Prop
  | groups {ts : List Text} {ws : List Nat} (h : ts.mapM word? = some ws) : LowWords ts ws
  | quad {ts : List Text} {ws : List Nat} {t : Text} {q : Nat} (h : ts.mapM word? = some ws)
      (hq : parse4 t = some q) : LowWords (ts ++ [t]) (ws ++ [q / 65536, q % 65536])

/-- A literal in lower case. -/
inductive Low : Text → List Nat → Prop
  | full {ts : List Text} {ws : List Nat} (h : LowWords ts ws) (h8 : ws.length = 8) :
      Low (join ts) ws
  | elided {ls rs : List Text} {lw gw : List Nat} (hl : ls.mapM word? = some lw)
      (hr : LowWords rs gw) (h7 : lw.length + gw.length ≤ 7) :
      Low (join ls ++ ':' :: ':' :: join rs)
        (lw ++ List.replicate (8 - (lw.length + gw.length)) 0 ++ gw)

theorem LowWords.of_words (h : Words ts ws) : LowWords (ts.map lower) ws := by
  cases h with
  | groups h => exact .groups (Egress.words_lower h)
  | quad h hq =>
    rw [List.map_append, List.map_singleton, Egress.lower_quad hq]
    exact .quad (Egress.words_lower h) hq

theorem Low.of_spells (h : Spells6 t ws) : Low (lower t) ws := by
  rcases h with ⟨h, h8⟩ | ⟨hl, hr, h7⟩
  · rw [Egress.lower_join]
    exact .full (.of_words h) h8
  · rename_i ls rs lw gw
    have htext : lower (join ls ++ ':' :: ':' :: join rs)
        = join (ls.map lower) ++ ':' :: ':' :: join (rs.map lower) := by
      rw [← Egress.lower_join, ← Egress.lower_join, lower, lower, lower, List.map_append]
      rfl
    rw [htext]
    exact .elided (Egress.words_lower hl) (.of_words hr) h7

theorem LowWords.pieces (h : LowWords ts ws) : ∀ t ∈ ts, Piece t := by
  cases h with
  | groups h => exact Egress.words_pieces h
  | quad h hq =>
    intro t ht
    rcases List.mem_append.1 ht with ht | ht
    · exact Egress.words_pieces h t ht
    · rw [List.mem_singleton.1 ht]
      exact quad_piece hq

theorem LowWords.length_le (h : LowWords ts ws) : ts.length ≤ ws.length := by
  cases h with
  | groups h => rw [(exists_of_mapM h).1]
  | quad h hq =>
    rw [List.length_append, List.length_append, (exists_of_mapM h).1]
    exact Nat.add_le_add_left (Nat.le_succ 1) _

/-- No dot stands in a side of groups, and one in a side with a quad. -/
theorem dot_mem_join (hq : parse4 t = some q) (ts : List Text) : '.' ∈ join (ts ++ [t]) := by
  obtain ⟨start, -, hjoin⟩ := Egress.join_last ts
  rw [hjoin t]
  exact List.mem_append_right _ (dot_mem_quad hq)

-- ======================================================== the mapped prefix

theorem not_mapped_head (h : t.head? ≠ some ':') : ¬ mappedPrefix <+: t := by
  intro hprefix
  obtain _ | ⟨c, t⟩ := t
  · exact absurd (List.prefix_nil.1 hprefix) (by decide)
  · exact h (congrArg some (List.cons_prefix_cons.1 hprefix).1.symm)

theorem not_mapped_full (h : LowWords ts ws) : ¬ mappedPrefix <+: join ts :=
  not_mapped_head (head_join h.pieces)

/-- The prefix is the `::` at the start and a first group of `ffff`. -/
theorem mapped_elided (hl : ls.mapM word? = some lw) (hr : LowWords rs gw)
    (h : mappedPrefix <+: join ls ++ ':' :: ':' :: join rs) :
    ls = [] ∧ ∃ rest, rest ≠ [] ∧ rs = "ffff".toList :: rest := by
  have hpieces := Egress.words_pieces hl
  have hls : ls = [] := by
    by_contra hne
    refine not_mapped_head ?_ h
    have hjoin := join_ne_nil hpieces hne
    obtain ⟨c, rest, hc⟩ := List.exists_cons_of_ne_nil hjoin
    have hhead := head_join hpieces
    rw [hc] at hhead ⊢
    exact hhead
  subst hls
  refine ⟨rfl, ?_⟩
  have hrs : "ffff:".toList <+: join rs := by
    have htail : mappedPrefix = ':' :: ':' :: "ffff:".toList := rfl
    rw [htail] at h
    exact (List.cons_prefix_cons.1 (List.cons_prefix_cons.1 h).2).2
  obtain ⟨after, hafter⟩ := hrs
  obtain _ | ⟨g, _ | ⟨u, rest⟩⟩ := rs
  · exact absurd hafter (by simp [join])
  · have hcolon : ':' ∈ join [g] := by
      rw [← hafter]
      exact List.mem_append_left _ (by decide)
    rw [join, List.intercalate_singleton] at hcolon
    exact absurd hcolon (hr.pieces g List.mem_cons_self).2
  · rw [join_cons_cons] at hafter
    have hfirst : "ffff".toList = g ∧ after = join (u :: rest) :=
      Js.joined_inj (by decide) (hr.pieces g List.mem_cons_self).2 (by simpa using hafter)
    exact ⟨u :: rest, List.cons_ne_nil u rest, by rw [hfirst.1]⟩

-- ================================================================== values

section Values

variable (h8 : ws.length = 8) (hlt : ∀ w ∈ ws, w < 65536)
include h8 hlt

theorem value_parts (k : Nat) :
    value6 ws / 65536 ^ (8 - k) = number 65536 (ws.take k)
      ∧ value6 ws % 65536 ^ (8 - k) = number 65536 (ws.drop k) := by
  have hlen : (ws.drop k).length = 8 - k := by rw [List.length_drop, h8]
  have hdrop : number 65536 (ws.drop k) < 65536 ^ (8 - k) := by
    rw [← hlen]
    exact number_lt fun d hd => hlt d (List.mem_of_mem_drop hd)
  have hsplit : value6 ws = 65536 ^ (8 - k) * number 65536 (ws.take k)
      + number 65536 (ws.drop k) := by
    rw [value6, ← List.take_append_drop k ws, number_append_list, List.take_append_drop, hlen,
      Nat.mul_comm]
  rw [hsplit]
  refine ⟨?_, ?_⟩
  · rw [Nat.mul_add_div (Nat.pos_of_ne_zero (by simp)), Nat.div_eq_of_lt hdrop, Nat.add_zero]
  · rw [Nat.mul_add_mod, Nat.mod_eq_of_lt hdrop]

theorem groupAt_value {i : Nat} (hi : i < 8) : ws[i]? = some (groupAt (value6 ws) i) := by
  have hlen : i < ws.length := by omega
  have hparts := (value_parts h8 hlt (i + 1)).1
  rw [show 8 - (i + 1) = 7 - i by omega] at hparts
  have htake : ws.take (i + 1) = ws.take i ++ [ws[i]] := List.take_succ_eq_append_getElem hlen
  have hsmall := hlt ws[i] (List.getElem_mem hlen)
  rw [groupAt, hparts, htake, number_append, List.getElem?_eq_getElem hlen]
  congr 1
  omega

theorem isMapped_iff : isMapped (value6 ws) = true ↔ ws.take 6 = [0, 0, 0, 0, 0, 0xFFFF] := by
  have hparts := (value_parts h8 hlt 6).1
  rw [show (65536 : Nat) ^ (8 - 6) = 2 ^ 32 by decide] at hparts
  rw [isMapped, decide_eq_true_eq, hparts]
  constructor
  · intro h
    refine number_digits_inj (fun d hd => hlt d (List.mem_of_mem_take hd)) (by decide) ?_
      (h.trans (by decide))
    rw [List.length_take, h8]
    rfl
  · intro h
    rw [h]
    rfl

theorem net_value : value6 ws / 2 ^ 64 = number 65536 (ws.take 4) := by
  have hparts := (value_parts h8 hlt 4).1
  rwa [show (65536 : Nat) ^ (8 - 4) = 2 ^ 64 by decide] at hparts

end Values

-- ============================================================ what the code reads

/-- A literal whose eight groups the code has: its key is the /64 it
counts. -/
theorem keyOf_groups {groups : List Text} (h : expand t = some groups) (hcolon : ':' ∈ t)
    (hpre : ¬ mappedPrefix <+: t) (hread : (groups.take 4).mapM word? = some ws)
    (h4 : groups.length = 8) (hshort : ∀ g ∈ groups.take 4, Shortest g) :
    KeyOf (.net (number 65536 ws)) (foldBare t) := by
  refine ⟨groups.take 4, ws, ?_, hread, ?_, hshort, rfl⟩
  · rw [foldBare]
    simp only [if_neg hpre, h]
    exact if_neg (not_not.2 hcolon)
  · rw [List.length_take, h4]
    rfl

theorem foldBare_none (h : expand t = none) (hpre : ¬ mappedPrefix <+: t) :
    foldBare t = bounded t := by
  rw [foldBare]
  simp only [if_neg hpre, h, ite_self]

theorem expand_side (h : ∀ t ∈ ts, Piece t) :
    expand (join ts) = if ts.length = 8 then some (ts.map trimZeros) else none := by
  rw [expand, splitElision_clean (clean_join h)]
  dsimp only
  rw [pieces_join h]

theorem expand_sides (hl : ∀ t ∈ ls, Piece t) (hr : ∀ t ∈ rs, Piece t)
    (h7 : ls.length + rs.length ≤ 7) : expand (join ls ++ ':' :: ':' :: join rs)
      = some ((ls ++ List.replicate (8 - (ls.length + rs.length)) ['0'] ++ rs).map trimZeros) := by
  rw [expand, splitElision_append (clean_join hl), splitElision_clean (clean_join hr)]
  dsimp only
  rw [pieces_join hl, pieces_join hr, if_neg (by omega)]
  congr 5
  omega

/-- The first groups of zeros and what stands behind them, one zero more
or less. -/
theorem take_zero_cons {xs : List Nat} : ∀ {k : Nat}, k ≤ xs.length →
    ((0 :: xs).take k = xs.take k ↔ ∀ i < k, xs[i]? = some 0) := by
  intro k
  induction k generalizing xs with
  | zero => exact fun _ => ⟨fun _ i hi => absurd hi (Nat.not_lt_zero i), fun _ => rfl⟩
  | succ k ih =>
    intro hk
    obtain _ | ⟨x, xs⟩ := xs
    · exact absurd hk (by simp)
    · have hk' : k ≤ xs.length := Nat.le_of_succ_le_succ hk
      rw [List.take_succ_cons, List.take_succ_cons, List.cons.injEq]
      constructor
      · rintro ⟨rfl, hrest⟩ i hi
        obtain _ | i := i
        · rfl
        · exact (ih hk').1 hrest i (Nat.lt_of_succ_lt_succ hi)
      · intro h
        have hx : x = 0 := Option.some.inj (h 0 (Nat.succ_pos k))
        subst hx
        exact ⟨rfl, (ih hk').2 fun i hi => h (i + 1) (Nat.succ_lt_succ hi)⟩

/-- A dotted tail counted for one group moves the groups behind the `::`
one place on: the /64 stays where they are zeros. -/
theorem take_moved {lw xs : List Nat} (h : 4 ≤ lw.length + xs.length) :
    (lw ++ 0 :: xs).take 4 = (lw ++ xs).take 4
      ↔ ∀ i < 4, lw.length ≤ i → (lw ++ xs)[i]? = some 0 := by
  rw [List.take_append, List.take_append, List.append_cancel_left_eq,
    take_zero_cons (k := 4 - lw.length) (by omega)]
  constructor
  · intro hzero i hi hle
    rw [List.getElem?_append_right hle]
    exact hzero _ (by omega)
  · intro hzero i hi
    have hmoved := hzero (i + lw.length) (by omega) (by omega)
    rwa [List.getElem?_append_right (by omega), Nat.add_sub_cancel] at hmoved

theorem take_words {k : Nat} (h : ts.mapM word? = some ws) :
    (ts.take k).mapM word? = some (ws.take k) := by
  induction ts generalizing k ws with
  | nil =>
    cases h
    simp
  | cons t ts ih =>
    rw [List.mapM_cons] at h
    obtain ⟨n, hn, h⟩ := Option.bind_eq_some_iff.1 h
    obtain ⟨ns, hns, h⟩ := Option.bind_eq_some_iff.1 h
    cases h
    obtain _ | k := k
    · rfl
    · rw [List.take_succ_cons, List.mapM_cons, hn, ih hns]
      rfl

theorem word?_zeros (k : Nat) : (List.replicate k ['0']).mapM word? = some (List.replicate k 0) := by
  induction k with
  | zero => rfl
  | succ k ih =>
    rw [List.replicate_succ, List.mapM_cons, ih]
    rfl

theorem dot_not_mem_elided (hl : ls.mapM word? = some lw) (hr : rs.mapM word? = some gw) :
    '.' ∉ join ls ++ ':' :: ':' :: join rs := by
  intro hdot
  rcases List.mem_append.1 hdot with hdot | hdot
  · exact Egress.words_no_dot hl hdot
  · rcases List.mem_cons.1 hdot with hdot | hdot
    · exact absurd hdot (by decide)
    · rcases List.mem_cons.1 hdot with hdot | hdot
      · exact absurd hdot (by decide)
      · exact Egress.words_no_dot hr hdot

/-- The key is of the groups as the code counts them. -/
theorem keyOf_taken (hread : gs.mapM word? = some gw) (hfour : 4 ≤ gs.length)
    {groups : List Text} (hexpand : expand t = some groups) (hgroups : groups.take 4 = (gs.take 4).map trimZeros)
    (h4 : groups.length = 8) (hcolon : ':' ∈ t) (hpre : ¬ mappedPrefix <+: t)
    (h8 : ws.length = 8) (hlt : ∀ w ∈ ws, w < 65536) :
    KeyOf (.net (value6 ws / 2 ^ 64)) (foldBare t) ↔ gw.take 4 = ws.take 4 := by
  have hlen := (exists_of_mapM hread).1
  have hwords : (gs.take 4).mapM word? = some (gw.take 4) := take_words hread
  obtain ⟨htrim, hshort⟩ := map_trimZeros hwords
  rw [← hgroups] at htrim hshort
  have hkey := keyOf_groups hexpand hcolon hpre htrim h4 hshort
  rw [net_value h8 hlt]
  constructor
  · intro hother
    have hsame := (hkey.eq_iff hother).1 rfl
    have hnumber : number 65536 (gw.take 4) = number 65536 (ws.take 4) := by injection hsame
    refine number_digits_inj (fun d hd => words_lt hread d (List.mem_of_mem_take hd))
      (fun d hd => hlt d (List.mem_of_mem_take hd)) ?_ hnumber
    rw [List.length_take, List.length_take, hlen, h8]
    omega
  · intro hsame
    rwa [← hsame]

/-- The key of a literal that is not unwrapped, by its form. -/
theorem keyOf_low (h : Low t ws) (hpre : ¬ mappedPrefix <+: t) (h8 : ws.length = 8)
    (hlt : ∀ w ∈ ws, w < 65536) :
    KeyOf (.net (value6 ws / 2 ^ 64)) (foldBare t) ↔ ('.' ∈ t → ∃ left right,
      splitElision t = [left, right]
        ∧ ∀ i < 4, (pieces left).length ≤ i → groupAt (value6 ws) i = 0) := by
  cases h with
  | @full ts _ h _ =>
    have hpieces := h.pieces
    have hsplit := splitElision_clean (clean_join hpieces)
    have hexpand := expand_side hpieces
    cases h with
    | groups h =>
      have hlen := (exists_of_mapM h).1
      rw [if_pos (by omega)] at hexpand
      have hcolon : ':' ∈ join ts := by
        obtain _ | ⟨a, _ | ⟨b, ts⟩⟩ := ts
        · rw [h8] at hlen
          simp at hlen
        · rw [h8] at hlen
          simp at hlen
        · rw [join_cons_cons]
          exact List.mem_append_right _ List.mem_cons_self
      rw [keyOf_taken h (by omega) hexpand (by rw [List.map_take]) (by rw [List.length_map]; omega)
        hcolon hpre h8 hlt]
      exact ⟨fun _ hdot => absurd hdot (Egress.words_no_dot h), fun _ => rfl⟩
    | @quad ts ws t q h hq =>
      have hlen := (exists_of_mapM h).1
      have hseven : (ts ++ [t]).length = 7 := by
        simp only [List.length_append, List.length_cons, List.length_nil] at h8 ⊢
        omega
      rw [if_neg (by omega)] at hexpand
      rw [foldBare_none hexpand hpre]
      refine ⟨fun hkey => absurd hkey (not_keyOf_net (slash_not_mem_bounded _)), fun hplain => ?_⟩
      obtain ⟨left, right, hboth, -⟩ := hplain (dot_mem_join hq ts)
      rw [hsplit] at hboth
      cases hboth
  | @elided ls rs lw gw hl hr h7 =>
    have hlp := Egress.words_pieces hl
    have hll := (exists_of_mapM hl).1
    have hcolon : ':' ∈ join ls ++ ':' :: ':' :: join rs :=
      List.mem_append_right _ List.mem_cons_self
    have hle := hr.length_le
    have hexpand := expand_sides hlp hr.pieces (by omega)
    have hsplit : splitElision (join ls ++ ':' :: ':' :: join rs) = [join ls, join rs] := by
      rw [splitElision_append (clean_join hlp), splitElision_clean (clean_join hr.pieces)]
    cases hr with
    | groups hr =>
      have hrl := (exists_of_mapM hr).1
      have hread := mapM_append (mapM_append hl (word?_zeros (8 - (ls.length + rs.length)))) hr
      rw [keyOf_taken hread (by simp; omega) hexpand (by rw [List.map_take]) (by simp; omega) hcolon
        hpre h8 hlt, hll, hrl]
      exact ⟨fun _ hdot => absurd hdot (dot_not_mem_elided hl hr), fun _ => rfl⟩
    | @quad gs gw t q hr hq =>
      have hrl := (exists_of_mapM hr).1
      have hdot : '.' ∈ join ls ++ ':' :: ':' :: join (gs ++ [t]) :=
        List.mem_append_right _ (List.mem_cons_of_mem _ (List.mem_cons_of_mem _ (dot_mem_join hq gs)))
      simp only [List.length_append, List.length_cons, List.length_nil] at h7 hexpand
      -- the groups the code has before the tail, and the zeros of the address
      have hzeros : 8 - (ls.length + (gs.length + (0 + 1))) = 6 - (lw.length + gw.length) + 1 := by
        omega
      have htrue : 8 - (lw.length + (gw ++ [q / 65536, q % 65536]).length)
          = 6 - (lw.length + gw.length) := by
        simp only [List.length_append, List.length_cons, List.length_nil]
        omega
      rw [hzeros] at hexpand
      have hread := mapM_append (mapM_append hl (word?_zeros (6 - (lw.length + gw.length) + 1))) hr
      have hgroups : ((ls ++ List.replicate (6 - (lw.length + gw.length) + 1) ['0'] ++ (gs ++ [t])).map
          trimZeros).take 4
          = ((ls ++ List.replicate (6 - (lw.length + gw.length) + 1) ['0'] ++ gs).take 4).map
            trimZeros := by
        rw [← List.map_take, ← List.append_assoc, List.take_append_of_le_length]
        simp only [List.length_append, List.length_replicate]
        omega
      rw [keyOf_taken hread (by simp; omega) hexpand hgroups (by simp; omega) hcolon hpre h8 hlt]
      have hvalue {i : Nat} (hi : i < 8) := groupAt_value h8 hlt hi
      rw [htrue] at hvalue h8 ⊢
      generalize 6 - (lw.length + gw.length) = k at hzeros hvalue h8 ⊢
      generalize value6 _ = v at hvalue ⊢
      have hlength : lw.length + (k + (gw.length + 2)) = 8 := by
        simpa [Nat.add_assoc] using h8
      have hwhole : lw ++ List.replicate k 0 ++ (gw ++ [q / 65536, q % 65536])
          = lw ++ (List.replicate k 0 ++ (gw ++ [q / 65536, q % 65536])) := List.append_assoc ..
      have hshift : (lw ++ List.replicate (k + 1) 0 ++ gw).take 4
          = (lw ++ 0 :: (List.replicate k 0 ++ (gw ++ [q / 65536, q % 65536]))).take 4 := by
        have hmore : lw ++ 0 :: (List.replicate k 0 ++ (gw ++ [q / 65536, q % 65536]))
            = lw ++ List.replicate (k + 1) 0 ++ gw ++ [q / 65536, q % 65536] := by
          simp [List.replicate_succ]
        rw [hmore]
        refine (List.take_append_of_le_length ?_).symm
        simp only [List.length_append, List.length_replicate]
        omega
      rw [hwhole] at hvalue ⊢
      rw [hshift, take_moved (by simp; omega), hsplit]
      constructor
      · intro hzero _
        refine ⟨_, _, rfl, fun i hi hle => ?_⟩
        rw [pieces_join hlp, ← hll] at hle
        have hi8 := hzero i hi hle
        rw [hvalue (by omega)] at hi8
        exact Option.some.inj hi8
      · intro hplain i hi hle
        obtain ⟨left, right, hsides, hzero⟩ := hplain hdot
        obtain ⟨rfl, rfl⟩ : join ls = left ∧ join (gs ++ [t]) = right := by simpa using hsides
        rw [hvalue (by omega), hzero i hi (by rw [pieces_join hlp, ← hll]; exact hle)]

theorem LowWords.tail {rest : List Text} (h : LowWords (g :: rest) gw) (hne : rest ≠ []) :
    ∃ n gw', gw = n :: gw' ∧ word? g = some n ∧ LowWords rest gw' := by
  generalize hall : g :: rest = all at h
  cases h with
  | groups h =>
    subst hall
    rw [List.mapM_cons] at h
    obtain ⟨n, hn, h⟩ := Option.bind_eq_some_iff.1 h
    obtain ⟨ns, hns, h⟩ := Option.bind_eq_some_iff.1 h
    cases h
    exact ⟨n, ns, rfl, hn, .groups hns⟩
  | @quad ts ws t q h hq =>
    obtain _ | ⟨u, ts⟩ := ts
    · cases hall
      exact absurd rfl hne
    · rw [List.cons_append] at hall
      obtain ⟨rfl, rfl⟩ := List.cons.inj hall
      rw [List.mapM_cons] at h
      obtain ⟨n, hn, h⟩ := Option.bind_eq_some_iff.1 h
      obtain ⟨ns, hns, h⟩ := Option.bind_eq_some_iff.1 h
      cases h
      exact ⟨n, ns ++ [q / 65536, q % 65536], rfl, hn, .quad hns hq⟩

/-- A first group of `ffff` behind the `::` makes a mapped address where
two more groups follow, and nowhere else. -/
theorem mapped_iff (hlen : gw.length ≤ 6) :
    (List.replicate (8 - (0xFFFF :: gw).length) 0 ++ 0xFFFF :: gw).take 6 = [0, 0, 0, 0, 0, 0xFFFF]
      ↔ gw.length = 2 := by
  match gw, hlen with
  | [], _ => simp [List.replicate]
  | [a], _ => simp [List.replicate]
  | [a, b], _ => simp [List.replicate]
  | [a, b, c], _ => simp [List.replicate]
  | [a, b, c, d], _ => simp [List.replicate]
  | [a, b, c, d, e], _ => simp [List.replicate]
  | [a, b, c, d, e, f], _ => simp

theorem foldBare_unwrapped {rest : Text} (hcolon : ':' ∈ rest → expand rest = none) :
    foldBare (mappedPrefix ++ rest) = bounded rest := by
  rw [foldBare]
  simp only [if_pos (List.prefix_append mappedPrefix rest), List.drop_left]
  split
  · rfl
  · rename_i hmem
    rw [hcolon (not_not.1 hmem)]

/-- The key of a literal that begins with `::ffff:`. -/
theorem keyOf_unwrapped (h : Low t ws) (hpre : mappedPrefix <+: t) (h8 : ws.length = 8)
    (hlt : ∀ w ∈ ws, w < 65536) :
    KeyOf (subscriber (.v6 (value6 ws))) (foldBare t)
      ↔ isMapped (value6 ws) = true ∧ '.' ∈ t := by
  cases h with
  | full h _ => exact absurd hpre (not_mapped_full h)
  | @elided ls rs lw gw hl hr h7 =>
    obtain ⟨rfl, rest, hne, rfl⟩ := mapped_elided hl hr hpre
    obtain rfl : lw = [] := List.length_eq_zero_iff.1 (exists_of_mapM hl).1
    obtain ⟨n, gw, rfl, hn, hrest⟩ := hr.tail hne
    obtain rfl : 0xFFFF = n := Option.some.inj ((by decide : word? "ffff".toList = some 0xFFFF).symm.trans hn)
    have hlen : gw.length ≤ 6 := by
      simp only [List.length_nil, List.length_cons] at h7
      omega
    have htext : join [] ++ ':' :: ':' :: join ("ffff".toList :: rest) = mappedPrefix ++ join rest := by
      obtain _ | ⟨u, rest⟩ := rest
      · exact absurd rfl hne
      · rw [join_cons_cons]
        rfl
    have hnone : expand (join rest) = none := by
      rw [expand_side hrest.pieces]
      have hle := hrest.length_le
      exact if_neg (by omega)
    have hmapped := isMapped_iff h8 hlt
    rw [htext, foldBare_unwrapped fun _ => hnone]
    simp only [List.nil_append, List.length_nil, Nat.zero_add] at hmapped h8 hlt ⊢
    rw [mapped_iff hlen] at hmapped
    have hlow : value6 (List.replicate (8 - (0xFFFF :: gw).length) 0 ++ 0xFFFF :: gw) % 2 ^ 32
        = number 65536 ((List.replicate (8 - (0xFFFF :: gw).length) 0 ++ 0xFFFF :: gw).drop 6) := by
      have hparts := (value_parts h8 hlt 6).2
      rwa [show (65536 : Nat) ^ (8 - 6) = 2 ^ 32 by decide] at hparts
    generalize hv : value6 _ = v at hmapped hlow ⊢
    cases hmap : isMapped v with
    | false =>
      rw [subscriber, if_neg (by rw [hmap]; decide)]
      exact ⟨fun hkey => absurd hkey (not_keyOf_net (slash_not_mem_bounded _)), nofun⟩
    | true =>
      have htwo := hmapped.1 hmap
      rw [subscriber, if_pos hmap]
      cases hrest with
      | groups hrest =>
        have hlength := (exists_of_mapM hrest).1
        obtain ⟨a, b, rfl⟩ := List.length_eq_two.1 (hlength.symm.trans htwo)
        have hcolon : ':' ∈ join [a, b] := by
          rw [join_cons_cons]
          exact List.mem_append_right _ List.mem_cons_self
        refine ⟨fun hkey => absurd hkey (not_keyOf_v4 (colon_mem_bounded hcolon)), fun hdot => ?_⟩
        rcases List.mem_append.1 hdot.2 with hdot | hdot
        · exact absurd hdot (by decide)
        · exact absurd hdot (Egress.words_no_dot hrest)
      | @quad ts ws t q h hq =>
        have hnil : ws = [] := by
          rw [List.length_append] at htwo
          exact List.length_eq_zero_iff.1 (Nat.add_right_cancel (m := 2) htwo)
        subst hnil
        obtain rfl : ts = [] := List.length_eq_zero_iff.1 (exists_of_mapM h).1.symm
        have hjoin : join ([] ++ [t]) = t := by rw [List.nil_append, join, List.intercalate_singleton]
        have hq32 : v % 2 ^ 32 = q := by
          rw [hlow]
          show (0 * 65536 + q / 65536) * 65536 + q % 65536 = q
          omega
        rw [hjoin, bounded_quad hq, hq32]
        exact ⟨fun _ => ⟨rfl, List.mem_append_right _ (dot_mem_quad hq)⟩, fun _ => hq⟩

-- =============================================================== the literals

theorem Low.colon_mem (h : Low t ws) (h8 : ws.length = 8) : ':' ∈ t := by
  cases h with
  | @full ts _ h _ =>
    have hlen : 2 ≤ ts.length := by
      cases h with
      | groups h =>
        have hlen := (exists_of_mapM h).1
        omega
      | quad h hq =>
        have hlen := (exists_of_mapM h).1
        simp only [List.length_append, List.length_cons, List.length_nil] at h8 ⊢
        omega
    obtain _ | ⟨a, _ | ⟨b, ts⟩⟩ := ts
    · exact absurd hlen (by simp)
    · exact absurd hlen (by simp)
    · rw [join_cons_cons]
      exact List.mem_append_right _ List.mem_cons_self
  | elided => exact List.mem_append_right _ List.mem_cons_self

theorem colon_mem_foldBare (hcolon : ':' ∈ t) (hpre : ¬ mappedPrefix <+: t) : ':' ∈ foldBare t := by
  rw [foldBare]
  simp only [if_neg hpre]
  rw [if_neg (not_not.2 hcolon)]
  split
  · exact colon_mem_bounded hcolon
  · exact colon_mem_net _

/-- The key of an IPv6 literal is its subscriber's where it is plain. -/
theorem keyOf_v6 (h : Low t ws) (h8 : ws.length = 8) (hlt : ∀ w ∈ ws, w < 65536) :
    KeyOf (subscriber (.v6 (value6 ws))) (foldBare t) ↔ PlainV6 t (value6 ws) := by
  unfold PlainV6
  by_cases hpre : mappedPrefix <+: t
  · rw [keyOf_unwrapped h hpre h8 hlt]
    split
    · rename_i hmap
      exact ⟨fun hdot => ⟨hpre, hdot.2⟩, fun hdot => ⟨hmap, hdot.2⟩⟩
    · rename_i hmap
      exact ⟨fun hdot => absurd hdot.1 hmap, fun hnot => absurd hpre hnot.1⟩
  · split
    · rename_i hmap
      rw [subscriber, if_pos hmap]
      have hcolon := colon_mem_foldBare (h.colon_mem h8) hpre
      exact ⟨fun hkey => absurd hkey (not_keyOf_v4 hcolon), fun hdot => absurd hdot.1 hpre⟩
    · rename_i hmap
      rw [subscriber, if_neg hmap, keyOf_low h hpre h8 hlt]
      exact ⟨fun hplain => ⟨hpre, hplain⟩, fun hplain => hplain.2⟩

/-- An ASCII character, in lower case. -/
theorem toLowerCase_ascii {c : Char} (h : c.toNat < 128) : toLowerCase c = c.toLower :=
  if_neg (by omega)

theorem spells_char {a : Address} (h : Spells t a) {c : Char} (hc : c ∈ t) :
    c.toNat < 128 ∧ c ≠ '%' := by
  have hdigit : ∀ {c : Char} {d : Nat}, hexDigit? c = some d → c.toNat < 128 ∧ c ≠ '%' := by
    intro c d hd
    refine ⟨Egress.hexDigit?_ascii hd, ?_⟩
    rintro rfl
    rw [show hexDigit? '%' = none by decide] at hd
    cases hd
  have hother : ∀ c ∈ [':', '.'], c.toNat < 128 ∧ c ≠ '%' :=
    List.all_iff_forall_prop.1 (by decide)
  cases h with
  | v4 h =>
    rcases quad_char h hc with rfl | ⟨d, hd⟩
    · exact hother _ (by decide)
    · exact hdigit (Egress.hexDigit?_of_digit? hd)
  | v6 h =>
    rcases h.char hc with rfl | rfl | hd
    · exact hother _ (by decide)
    · exact hother _ (by decide)
    · obtain ⟨d, hd⟩ := Option.isSome_iff_exists.1 hd
      exact hdigit hd

theorem lower_ascii {a : Address} (h : Spells t a) : t.map toLowerCase = lower t :=
  List.map_congr_left fun _ hc => toLowerCase_ascii (spells_char h hc).1

theorem percent_not_mem {a : Address} (h : Spells t a) : '%' ∉ t :=
  fun hmem => (spells_char h hmem).2 rfl

theorem withoutZone_spells {a : Address} (h : Spells t a) : withoutZone t = t := by
  rw [withoutZone, List.takeWhile_eq_self_iff]
  exact fun c hc => decide_eq_true (spells_char h hc).2

/-- A zone is neither read nor counted. -/
theorem Literal.bare_eq {a : Address} (h : Literal t a) :
    ∃ bare, Spells bare a ∧ normalize t = foldBare (lower bare) ∧ withoutZone t = bare := by
  cases h with
  | bare h =>
    refine ⟨t, h, ?_, withoutZone_spells h⟩
    rw [normalize, List.splitOn_eq_singleton (percent_not_mem h), List.headD_cons, lower_ascii h]
  | @zoned text _ h zone =>
    refine ⟨text, h, ?_, ?_⟩
    · rw [normalize, List.splitOn_append_cons_self_of_not_mem (percent_not_mem h), List.headD_cons,
        lower_ascii h]
    · have hall : ∀ c ∈ text, decide (c ≠ '%') = true :=
        fun c hc => decide_eq_true (spells_char h hc).2
      rw [withoutZone, List.takeWhile_append_of_pos hall]
      simp

/-- A literal has its subscriber's key exactly where it is plain. -/
theorem normalize_literal {a : Address} (h : Literal t a) :
    KeyOf (subscriber a) (normalize t) ↔ Plain t a := by
  obtain ⟨bare, hspells, hkey, hbare⟩ := h.bare_eq
  rw [hkey]
  cases hspells with
  | @v4 n hquad =>
    have hcolon := (quad_piece hquad).2
    have hpre : ¬ mappedPrefix <+: bare := fun hstart => hcolon (hstart.subset (by decide))
    have hfold : foldBare bare = bare := by
      rw [foldBare]
      simp only [if_neg hpre]
      rw [if_pos hcolon, bounded_quad hquad]
    rw [Egress.lower_quad hquad, hfold]
    exact ⟨fun _ => trivial, fun _ => hquad⟩
  | @v6 ws h6 =>
    obtain ⟨h8, hlt⟩ := h6.words
    rw [Plain, hbare]
    exact keyOf_v6 (.of_spells h6) h8 hlt

/-- Every subscriber has a plain literal. -/
theorem exists_plain {a : Address} (h : Literal t a) :
    ∃ s b, Literal s b ∧ Plain s b ∧ subscriber b = subscriber a := by
  have hquad {n : Nat} (hn : n < 2 ^ 32) : ∃ s b, Literal s b ∧ Plain s b ∧ subscriber b = .v4 n :=
    ⟨quadText n, .v4 n, .bare (.v4 (parse4_quadText hn)), trivial, rfl⟩
  obtain ⟨bare, hspells, -, -⟩ := h.bare_eq
  cases hspells with
  | v4 hparse => exact hquad (parse4_lt hparse)
  | @v6 ws h6 =>
    obtain ⟨h8, hlt⟩ := h6.words
    cases hmap : isMapped (value6 ws) with
    | true =>
      rw [subscriber, if_pos hmap]
      exact hquad (Nat.mod_lt _ (by decide))
    | false =>
      have hread : (ws.map Egress.hex).mapM group? = some ws := by
        clear h8 h6 hmap h
        induction ws with
        | nil => rfl
        | cons w ws ih =>
          rw [List.map_cons, List.mapM_cons,
            Egress.group?_of_word? (Egress.word?_hex (hlt w List.mem_cons_self)),
            ih fun x hx => hlt x (List.mem_cons_of_mem w hx)]
          rfl
      have hfull : Spells (join (ws.map Egress.hex)) (.v6 (value6 ws)) :=
        .v6 (.full (.groups hread) h8)
      refine ⟨_, _, .bare hfull, ?_, rfl⟩
      have hlow := Egress.words_lower hread
      rw [Plain, PlainV6, if_neg (by rw [hmap]; decide), withoutZone_spells hfull,
        Egress.lower_join]
      exact ⟨not_mapped_full (.groups hlow), fun hdot => absurd hdot (Egress.words_no_dot hlow)⟩

-- ==================================================================== the keys

/-- The key of a literal, as the address of a socket. -/
def sourceOf (t : Text) : Option Text := clientSource ⟨.absent, some t⟩ 0

theorem sourceOf_eq_iff {s : Text} : sourceOf s = sourceOf t ↔ normalize s = normalize t :=
  Option.some_inj

/-- Two requests of which the outermost of `n` trusted proxies saw one
address have one key. -/
theorem clientSource_forged {n : Nat} {address : Text} {rest rest' : List Text}
    {client client' : Option Text} {req req' : Request} (hn : rest.length + 1 = n)
    (hn' : rest'.length + 1 = n) (hentries : ∀ e ∈ address :: rest, Entry e)
    (hentries' : ∀ e ∈ address :: rest', Entry e)
    (h : Through client (address :: rest) req.forwarded.raw)
    (h' : Through client' (address :: rest') req'.forwarded.raw) :
    clientSource req n = clientSource req' n := by
  have hone := clientSource_through h hentries
  have htwo := clientSource_through h' hentries'
  rw [List.length_cons, hn] at hone
  rw [List.length_cons, hn'] at htwo
  rw [hone, htwo]

/-- What the client put in the header does not move the key, and a
literal shares its key with the plain literals of its subscriber and with
no other's exactly where it is plain itself. -/
theorem clientSource_keys (t : Text) (a : Address) (ht : Literal t a) :
    (∀ (n : Nat) (address : Text) (rest rest' : List Text) (client client' : Option Text)
      (req req' : Request), rest.length + 1 = n → rest'.length + 1 = n →
      (∀ e ∈ address :: rest, Entry e) → (∀ e ∈ address :: rest', Entry e) →
      Through client (address :: rest) req.forwarded.raw →
      Through client' (address :: rest') req'.forwarded.raw →
        clientSource req n = clientSource req' n)
      ∧ ((∀ s b, Literal s b → Plain s b →
          (sourceOf s = sourceOf t ↔ subscriber b = subscriber a)) ↔ Plain t a) := by
  refine ⟨fun n address rest rest' client client' req req' hn hn' he he' h h' =>
    clientSource_forged hn hn' he he' h h', fun hall => ?_, fun hplain s b hs hsplain => ?_⟩
  · obtain ⟨s, b, hs, hplain, hsame⟩ := exists_plain ht
    have hkey := sourceOf_eq_iff.1 ((hall s b hs hplain).2 hsame)
    have hkeyOf := (normalize_literal hs).2 hplain
    rw [hsame, hkey] at hkeyOf
    exact (normalize_literal ht).1 hkeyOf
  · rw [sourceOf_eq_iff]
    exact ((normalize_literal hs).2 hsplain).eq_iff ((normalize_literal ht).2 hplain)

theorem clientSource_keys_link_local :
    (∀ s b, Literal s b → Plain s b → (sourceOf s = sourceOf "fe80::1%eth0".toList
      ↔ subscriber b = subscriber (.v6 (value6 [0xfe80, 0, 0, 0, 0, 0, 0, 1]))))
      ↔ Plain "fe80::1%eth0".toList (.v6 (value6 [0xfe80, 0, 0, 0, 0, 0, 0, 1])) :=
  (clientSource_keys _ _ (.zoned (.v6 (parse6_eq_some.1 (by decide : parse6 "fe80::1".toList
    = some [0xfe80, 0, 0, 0, 0, 0, 0, 1]))) "eth0".toList)).2

/-- A mapped address in hex is not unwrapped: `1.2.3.4` and
`::ffff:102:304` are one address and two keys. -/
theorem mapped_in_hex : ¬ ∀ s t a b, Literal s a → Literal t b →
    (sourceOf s = sourceOf t ↔ subscriber a = subscriber b) := by
  intro hall
  have hquad : Literal "1.2.3.4".toList (.v4 0x01020304) := .bare (.v4 (by decide))
  have hmapped : Literal "::ffff:102:304".toList (.v6 (value6 [0, 0, 0, 0, 0, 0xffff, 0x102, 0x304])) :=
    .bare (.v6 (parse6_eq_some.1 (by decide)))
  have hkeys := (hall _ _ _ _ hquad hmapped).2 (by decide)
  exact absurd hkeys (by decide)

end Nacre.Api.Source
