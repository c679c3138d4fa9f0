/-
Whether the drain loop ends (core/redis.ts: `#drain`, `parse`).

An iteration parses at the start of the buffer and cuts the buffer at the
next position. The position is computed from what `Number` made of a bulk
header. A length that is no number, or that is below -2, takes it back:
`$-7` and its line end come out at 0, where they stand, and the loop goes
round for ever. Nothing else does. Where no such length is read
(`Sound`), a value ends at least two bytes on from where it begins, items
and all, so a value is read in so many calls, and an iteration takes bytes
off the buffer (`drain_advances`).

The induction is on the bytes left: the items of an array begin after its
header, and each item after the one before it.
-/
import Mathlib.Logic.Relation
import Nacre.Redis.Delivered

namespace Nacre.Redis

open Number (ofNat)

variable {buffer : List UInt8} {at_ cursor count : Number} {fuel fuel' i n : Nat}

-- ============================================================== what is read

mutual

/-- The bulk lengths that `parse` comes to, in so many calls. -/
def lengths : Nat → List UInt8 → Number → List Number
  | 0, _, _ => []
  | fuel + 1, buffer, at_ =>
      match header buffer at_ with
      | none => []
      | some h =>
          if h.kind = 0x2A then
            let count := Number.number h.body
            if count = .finite (-1) then [] else itemLengths fuel buffer count 0 h.after
          else if h.kind = 0x24 then [Number.number h.body]
          else []

def itemLengths : Nat → List UInt8 → Number → Nat → Number → List Number
  | 0, _, _, _, _ => []
  | fuel + 1, buffer, count, i, cursor =>
      if (ofNat i).lt count then
        lengths fuel buffer cursor ++
          match parse fuel buffer cursor with
          | some (some item) => itemLengths fuel buffer count (i + 1) item.next
          | _ => []
      else []

end

/-- It does not take a position back to before its header's end. -/
def Advances : Number → Prop
  | .nan => False
  | .infinite negative => negative = false
  | .finite q => -2 ≤ q

/-- No length is read that takes a position back. -/
def Sound (buffer : List UInt8) : Prop :=
  ∀ fuel, ∀ length ∈ lengths fuel buffer (ofNat 0), Advances length

/-- One iteration on this buffer: it waits for more, or takes a byte at least. -/
def Fine (buffer : List UInt8) : Prop :=
  ∃ fuel r, parse fuel buffer (ofNat 0) = some r ∧
    ∀ p, r = some p → (Buffer.subarray buffer p.next).length < buffer.length

/-- The buffer after one iteration. -/
def Next (buffer buffer' : List UInt8) : Prop :=
  ∃ fuel p, parse fuel buffer (ofNat 0) = some (some p) ∧
    buffer' = Buffer.subarray buffer p.next

theorem lengths_add (fuel : Nat) :
    (∀ {buffer at_ l}, l ∈ lengths fuel buffer at_ → l ∈ lengths (fuel + 1) buffer at_) ∧
      ∀ {buffer count i cursor l}, l ∈ itemLengths fuel buffer count i cursor →
        l ∈ itemLengths (fuel + 1) buffer count i cursor := by
  induction fuel with
  | zero => exact ⟨nofun, nofun⟩
  | succ fuel ih =>
      constructor
      · intro buffer at_ l h
        rw [lengths] at h ⊢
        split at h
        next => exact h
        next hd heq =>
          simp only at h ⊢
          split at h
          next hkind =>
            rw [if_pos hkind]
            split at h
            next => cases h
            next hnull => rw [if_neg hnull]; exact ih.2 h
          next hkind => rw [if_neg hkind]; exact h
      · intro buffer count i cursor l h
        rw [itemLengths] at h ⊢
        split at h
        next hlt =>
          rw [if_pos hlt]
          rcases List.mem_append.mp h with h | h
          · exact List.mem_append_left _ (ih.1 h)
          · refine List.mem_append_right _ ?_
            split at h
            next item heq => rw [(parse_add _).1 heq]; exact ih.2 h
            next => cases h
        next => cases h

theorem itemLengths_mono {l : Number} (h : l ∈ itemLengths fuel buffer count i cursor)
    (hle : fuel ≤ fuel') : l ∈ itemLengths fuel' buffer count i cursor := by
  induction hle with
  | refl => exact h
  | step _ ih => exact (lengths_add _).2 ih

-- ================================================================ positions

/-- A position no less than this one. -/
def AtLeast (n : Nat) (at_ : Number) : Prop := ∃ q : ℚ, at_ = .finite q ∧ n ≤ q

theorem atLeast_ofNat {m : Nat} (h : n ≤ m) : AtLeast n (ofNat m) :=
  ⟨m, rfl, by exact_mod_cast h⟩

theorem AtLeast.mono {m : Nat} (h : AtLeast n at_) (hle : m ≤ n) : AtLeast m at_ := by
  obtain ⟨q, rfl, hq⟩ := h
  exact ⟨q, rfl, le_trans (by exact_mod_cast hle) hq⟩

theorem AtLeast.clampFromEnd (h : AtLeast n at_) (len : Nat) :
    min n len ≤ at_.clampFromEnd len := by
  obtain ⟨q, rfl, hq⟩ := h
  have hpos : (0 : ℚ) ≤ q := le_trans (Nat.cast_nonneg n) hq
  have htrunc : (n : ℤ) ≤ Number.trunc q := by
    rw [Number.trunc, if_pos hpos]
    exact Int.le_floor.mpr (by exact_mod_cast hq)
  rw [Number.clampFromEnd, if_neg (by omega)]
  omega

/-- A header that is there ends within the buffer, two bytes on at least. -/
theorem header_after {h : Header} (hlen : buffer.length ≤ Buffer.maxLength)
    (hat : AtLeast n at_) (hhead : header buffer at_ = some h) :
    ∃ m, n + 2 ≤ m ∧ m ≤ buffer.length ∧ h.after = ofNat m := by
  have hclamp := hat.clampFromEnd buffer.length
  obtain ⟨q, rfl, hq⟩ := hat
  unfold header at hhead
  split at hhead
  next => cases hhead
  next hge =>
    split at hhead
    next => cases hhead
    next stop hstop =>
      cases hhead
      have hlt : (n : ℚ) < buffer.length := by
        refine lt_of_le_of_lt hq ?_
        simpa [Number.ge, Number.ofNat, Number.lt] using hge
      have hlt : n < buffer.length := by exact_mod_cast hlt
      obtain ⟨hle, hcrlf, -⟩ := Find.indexFrom_some hstop
      have hend := hcrlf.le (by decide)
      simp only [crlf, List.length_cons, List.length_nil] at hend
      refine ⟨stop + 2, by omega, hend, ?_⟩
      exact Number.add_ofNat (by simp only [Buffer.maxLength] at hlen; omega)

/-- Adding what is no less than an integer's negative leaves it. -/
theorem add_atLeast {m : Nat} {length : Number} (hm : m < 2 ^ 53) (hat : AtLeast m at_)
    {k : Nat} (hlength : length = .infinite false ∨ ∃ q, length = .finite q ∧ -(k : ℚ) ≤ q)
    (hk : k ≤ m) : at_.add length = .infinite false ∨ AtLeast (m - k) (at_.add length) := by
  obtain ⟨p, rfl, hp⟩ := hat
  rcases hlength with rfl | ⟨q, rfl, hq⟩
  · exact .inl rfl
  · have hsum : ((m - k : ℕ) : ℚ) ≤ p + q := by
      rw [Nat.cast_sub hk]
      linarith
    exact Number.le_round (by omega) hsum

/-- A bulk string with a length that takes nothing back ends after its header. -/
theorem bulk_after {h : Header} {m : Nat} {p : Parsed} (hm : m < 2 ^ 53) (h2 : 2 ≤ m)
    (hafter : h.after = ofNat m) (hlength : Advances (Number.number h.body))
    (hbulk : bulk buffer h = some p) : AtLeast m p.next := by
  unfold bulk at hbulk
  simp only at hbulk
  split at hbulk
  next =>
    cases hbulk
    exact hafter ▸ atLeast_ofNat le_rfl
  next =>
    split at hbulk
    next => cases hbulk
    next hwhole =>
      cases hbulk
      have hlength : Number.number h.body = .infinite false ∨
          ∃ q, Number.number h.body = .finite q ∧ -((2 : ℕ) : ℚ) ≤ q := by
        cases hnumber : Number.number h.body with
        | nan => rw [hnumber] at hlength; exact hlength.elim
        | infinite negative =>
            rw [hnumber] at hlength
            exact .inl (congrArg _ hlength)
        | finite q =>
            rw [hnumber] at hlength
            exact .inr ⟨q, rfl, by exact_mod_cast hlength⟩
      have hstop := add_atLeast hm (atLeast_ofNat (le_refl m)) hlength h2
      rw [← hafter] at hstop
      rcases hstop with hstop | hstop
      · rw [hstop] at hwhole
        exact absurd rfl hwhole
      · obtain ⟨q, hq, hle⟩ := hstop
        have hnext := Number.le_round hm (q := q + 2)
          (by rw [Nat.cast_sub h2] at hle; push_cast at hle; linarith)
        have hadd : (h.after.add (Number.number h.body)).add (ofNat 2) = Number.round (q + 2) := by
          rw [hq, Number.ofNat, Number.add]
          norm_num
        rw [hadd] at hwhole ⊢
        rcases hnext with hnext | hnext
        · rw [hnext] at hwhole
          exact absurd rfl hwhole
        · exact hnext

-- ================================================================== progress

/-- Where no such length is read, a value is read in so many calls, and ends
two bytes on at least; so are the items of an array, none of which ends
before it begins. The induction is on the bytes left. -/
theorem parse_advances (hlen : buffer.length ≤ Buffer.maxLength) (left : Nat) :
    (∀ {at_ n}, AtLeast n at_ → buffer.length ≤ n + left →
      (∀ fuel, ∀ length ∈ lengths fuel buffer at_, Advances length) →
      ∃ fuel r, parse fuel buffer at_ = some r ∧
        ∀ p, r = some p → n < buffer.length ∧ AtLeast (n + 2) p.next) ∧
    ∀ {count i cursor n}, AtLeast n cursor → buffer.length ≤ n + left →
      (∀ fuel, ∀ length ∈ itemLengths fuel buffer count i cursor, Advances length) →
      ∀ items, ∃ fuel r, readItems fuel buffer count i cursor items = some r ∧
        ∀ p, r = some p → AtLeast n p.next := by
  induction left using Nat.strong_induction_on with
  | _ left ih =>
      have hvalue : ∀ {at_ n}, AtLeast n at_ → buffer.length ≤ n + left →
          (∀ fuel, ∀ length ∈ lengths fuel buffer at_, Advances length) →
          ∃ fuel r, parse fuel buffer at_ = some r ∧
            ∀ p, r = some p → n < buffer.length ∧ AtLeast (n + 2) p.next := by
        intro at_ n hat hleft hsound
        cases hhead : header buffer at_ with
        | none => exact ⟨1, none, by rw [parse, hhead], nofun⟩
        | some h =>
            obtain ⟨m, hm, hmlen, hafter⟩ := header_after hlen hat hhead
            have hm53 : m < 2 ^ 53 := by simp only [Buffer.maxLength] at hlen; omega
            have hnext : AtLeast (n + 2) h.after := hafter ▸ atLeast_ofNat hm
            by_cases hkind : h.kind = 0x2A
            · by_cases hnull : Number.number h.body = .finite (-1)
              · refine ⟨1, some ⟨.null, h.after, none⟩, ?_, fun p hp => ?_⟩
                · rw [parse, hhead]
                  simp only
                  rw [if_pos hkind, if_pos hnull]
                · cases hp
                  exact ⟨by omega, hnext⟩
              · have hitems : ∀ fuel, ∀ length ∈ itemLengths fuel buffer (Number.number h.body) 0
                    h.after, Advances length := by
                  intro fuel length hmem
                  apply hsound (fuel + 1)
                  rw [lengths, hhead]
                  simp only
                  rw [if_pos hkind, if_neg hnull]
                  exact hmem
                obtain ⟨fuel, r, hread, hr⟩ := (ih (left - 2) (by omega)).2 hnext (by omega)
                  hitems []
                refine ⟨fuel + 1, r, ?_, fun p hp => ⟨by omega, hr p hp⟩⟩
                rw [parse, hhead]
                simp only
                rw [if_pos hkind, if_neg hnull]
                exact hread
            · refine ⟨1, flat buffer h, ?_, fun p hp => ⟨by omega, ?_⟩⟩
              · rw [parse, hhead]
                simp only
                rw [if_neg hkind]
              · unfold flat at hp
                split at hp
                next => cases hp; exact hnext
                next =>
                  split at hp
                  next => cases hp; exact hnext
                  next =>
                    split at hp
                    next => cases hp; exact hnext
                    next =>
                      split at hp
                      next hbulk =>
                        refine (bulk_after hm53 (by omega) hafter ?_ hp).mono hm
                        apply hsound 1
                        rw [lengths, hhead]
                        simp only
                        rw [if_neg hkind, if_pos hbulk]
                        exact List.mem_singleton.mpr rfl
                      next => cases hp; exact hnext
      refine ⟨hvalue, fun {count i cursor n} hat hleft hsound items => ?_⟩
      by_cases hlt : (ofNat i).lt count = true
      · obtain ⟨fuel, r, hparse, hr⟩ := hvalue hat hleft fun fuel length hmem => by
          apply hsound (fuel + 1)
          rw [itemLengths, if_pos hlt]
          exact List.mem_append_left _ hmem
        cases r with
        | none =>
            refine ⟨fuel + 1, none, ?_, nofun⟩
            rw [readItems, if_pos hlt, hparse]
        | some item =>
            obtain ⟨hn, hnext⟩ := hr item rfl
            have hrest : ∀ fuel', ∀ length ∈ itemLengths fuel' buffer count (i + 1) item.next,
                Advances length := by
              intro fuel' length hmem
              apply hsound (max fuel fuel' + 1)
              rw [itemLengths, if_pos hlt, parse_mono hparse (le_max_left _ _)]
              exact List.mem_append_right _ (itemLengths_mono hmem (le_max_right _ _))
            obtain ⟨fuel', r, hread, hr'⟩ := (ih (left - 1) (by omega)).2 hnext
              (by omega) hrest (items ++ [item.item])
            refine ⟨max fuel fuel' + 1, r, ?_, fun p hp => (hr' p hp).mono (by omega)⟩
            rw [readItems, if_pos hlt, parse_mono hparse (le_max_left _ _)]
            exact readItems_mono hread (le_max_right _ _)
      · refine ⟨1, some ⟨.array items, cursor, none⟩, ?_, fun p hp => ?_⟩
        · rw [readItems, if_neg hlt]
        · cases hp
          exact hat

theorem Sound.fine (hlen : buffer.length ≤ Buffer.maxLength) (h : Sound buffer) : Fine buffer := by
  obtain ⟨fuel, r, hparse, hr⟩ := (parse_advances hlen buffer.length).1 (atLeast_ofNat (le_refl 0))
    (by omega) h
  refine ⟨fuel, r, hparse, fun p hp => ?_⟩
  obtain ⟨hpos, hnext⟩ := hr p hp
  have hclamp := hnext.clampFromEnd buffer.length
  rw [Buffer.subarray, List.length_drop]
  omega

-- =================================================================== the loop

theorem Fine.next {buffer' : List UInt8} (h : Fine buffer) (hnext : Next buffer buffer') :
    buffer'.length < buffer.length := by
  obtain ⟨fuel, r, hparse, hr⟩ := h
  obtain ⟨fuel', p, hparse', rfl⟩ := hnext
  exact hr p (parse_unique hparse hparse')

/-- The loop ends if no iteration stands still. -/
theorem drain_ends (c : Client)
    (h : ∀ b, Relation.ReflTransGen Next c.buffer b → Fine b) :
    ∃ fuel c', Client.drain fuel c = some c' := by
  induction hsize : c.buffer.length using Nat.strong_induction_on generalizing c with
  | _ size ih =>
      have hfine := h c.buffer .refl
      obtain ⟨fuel, r, hparse, -⟩ := id hfine
      cases r with
      | none => exact ⟨fuel + 1, c, by rw [Client.drain, hparse]⟩
      | some p =>
          have hnext : Next c.buffer (Buffer.subarray c.buffer p.next) := ⟨fuel, p, hparse, rfl⟩
          have hbuffer := (Client.hand_rest
            { c with buffer := Buffer.subarray c.buffer p.next } p.outcome).2.1
          have hless := hfine.next hnext
          obtain ⟨fuel', c', hdrain⟩ := ih _ (hsize ▸ hless)
            ({ c with buffer := Buffer.subarray c.buffer p.next }.hand p.outcome)
            (fun b hb => h b (.head hnext (by rw [hbuffer] at hb; exact hb)))
            (by rw [hbuffer])
          refine ⟨max fuel fuel' + 1, c', ?_⟩
          rw [Client.drain, parse_mono hparse (le_max_left _ _)]
          exact drain_mono hdrain (le_max_right _ _)

/-- A value that is no array is read in one call. -/
theorem fine_flat {h : Header} (hhead : header buffer (ofNat 0) = some h) (hkind : h.kind ≠ 0x2A) :
    Fine buffer ↔
      ∀ p, flat buffer h = some p → (Buffer.subarray buffer p.next).length < buffer.length := by
  have hparse : parse 1 buffer (ofNat 0) = some (flat buffer h) := by
    rw [parse, hhead]
    simp only
    rw [if_neg hkind]
  constructor
  · rintro ⟨fuel, r, hr, hless⟩ p hp
    exact hless p ((parse_unique hr hparse).trans hp)
  · exact fun hless => ⟨1, _, hparse, hless⟩

end Nacre.Redis
