/-
Whose reply is whose (core/redis.ts: `#drain`).

`Held` is what holds after so many replies were handed over; handing over
the next one keeps it with one more (`Held.hand`), and nothing else a
client does changes the count. A chunk is drained as the replies that are
whole now (`drain_stream`), so what was handed over is read off the bytes
that came (`Delivered.handed`), however they came.
-/
import Nacre.Redis.Connection

namespace Nacre.Redis

open Number (ofNat)

variable {stream : List Wire} {c c' : Client} {k : Nat}

-- ================================================================ settling

namespace Client

theorem mem_settle {i j : Nat} {o o' : Outcome} (h : (j, o') ∈ (c.settle i o).settled) :
    (j, o') ∈ c.settled ∨ (j = i ∧ o' = o ∧ i ∉ c.settled.map (·.1)) := by
  unfold settle at h
  split at h
  next => exact .inl h
  next hnot =>
    rcases List.mem_append.mp h with h | h
    · exact .inl h
    · cases List.mem_singleton.mp h
      exact .inr ⟨rfl, rfl, hnot⟩

theorem settled_settle {e : Nat × Outcome} (i : Nat) (o : Outcome) (h : e ∈ c.settled) :
    e ∈ (c.settle i o).settled := by
  unfold settle
  split
  next => exact h
  next => exact List.mem_append_left _ h

theorem settle_covers (c : Client) (i : Nat) (o : Outcome) :
    i ∈ (c.settle i o).settled.map (·.1) := by
  unfold settle
  split
  next h => exact h
  next => simp

/-- Settling is all it changes. -/
theorem settle_rest (c : Client) (i : Nat) (o : Outcome) :
    (c.settle i o).open_ = c.open_ ∧ (c.settle i o).buffer = c.buffer ∧
      (c.settle i o).pending = c.pending ∧ (c.settle i o).sent = c.sent ∧
      (c.settle i o).written = c.written ∧ (c.settle i o).received = c.received ∧
      (c.settle i o).handed = c.handed := by
  unfold settle
  split <;> exact ⟨rfl, rfl, rfl, rfl, rfl, rfl, rfl⟩

theorem hand_rest (c : Client) (o : Outcome) :
    (c.hand o).open_ = c.open_ ∧ (c.hand o).buffer = c.buffer ∧ (c.hand o).sent = c.sent ∧
      (c.hand o).received = c.received := by
  unfold hand
  split
  next => exact ⟨rfl, rfl, rfl, rfl⟩
  next i rest _ =>
    obtain ⟨hopen, hbuffer, -, hsent, -, hreceived, -⟩ := settle_rest
      { c with pending := rest, handed := c.handed ++ [(i, o)] } i o
    exact ⟨hopen, hbuffer, hsent, hreceived⟩

theorem nodup_settle {i : Nat} {o : Outcome} (h : (c.settled.map (·.1)).Nodup) :
    ((c.settle i o).settled.map (·.1)).Nodup := by
  unfold settle
  split
  next => exact h
  next hnot =>
    rw [List.map_append, List.map_cons, List.map_nil]
    exact List.nodup_append_comm.mp (List.nodup_cons.mpr ⟨hnot, h⟩)

end Client

-- ================================================================== the count

/-- A promise settles to its own reply, or to none. -/
structure Settled (stream : List Wire) (k : Nat) (c : Client) : Prop where
  once : (c.settled.map (·.1)).Nodup
  own : ∀ i o, (i, o) ∈ c.settled → o = .timedOut ∨ (o = .closed ∧ c.open_ = false) ∨
    ∃ w, stream[i]? = some w ∧ i < k ∧ o = w.outcome
  answered : ∀ i < k, ∃ o, (i, o) ∈ c.settled ∧
    (o = .timedOut ∨ ∃ w, stream[i]? = some w ∧ o = w.outcome)

/-- What was handed over by the time so many were. -/
def handedAt (stream : List Wire) (k : Nat) : List (Nat × Outcome) :=
  (List.range k).filterMap fun i => stream[i]?.map fun w => (i, w.outcome)

/-- So many replies were handed over. -/
structure Held (stream : List Wire) (k : Nat) (c : Client) : Prop where
  asked : k ≤ c.sent.length
  pending : c.open_ = true → c.pending = List.range' k (c.sent.length - k)
  handed : c.handed = handedAt stream k
  settled : Settled stream k c
  written : c.written = String.join (c.sent.map encode)

theorem handedAt_succ {w : Wire} (hw : stream[k]? = some w) :
    handedAt stream (k + 1) = handedAt stream k ++ [(k, w.outcome)] := by
  unfold handedAt
  rw [List.range_succ, List.filterMap_append]
  simp [hw]

/-- One more is handed over, to the waiter it is for. -/
theorem Held.hand {w : Wire} (h : Held stream k c) (hopen : c.open_ = true)
    (hw : stream[k]? = some w) (hasked : k < c.sent.length) :
    Held stream (k + 1) (c.hand w.outcome) := by
  have hpending := h.pending hopen
  rw [show c.sent.length - k = c.sent.length - (k + 1) + 1 by omega, List.range'_succ] at hpending
  have hhand : c.hand w.outcome = ({ c with
      pending := List.range' (k + 1) (c.sent.length - (k + 1)),
      handed := c.handed ++ [(k, w.outcome)] } : Client).settle k w.outcome := by
    rw [Client.hand, hpending]
  rw [hhand]
  obtain ⟨hopen', -, hpending', hsent, hwritten, -, hhanded⟩ := Client.settle_rest
    { c with pending := List.range' (k + 1) (c.sent.length - (k + 1)),
             handed := c.handed ++ [(k, w.outcome)] } k w.outcome
  refine ⟨?_, fun _ => ?_, ?_, ⟨Client.nodup_settle h.settled.once, fun i o hmem => ?_, fun i hi => ?_⟩,
    ?_⟩
  · rw [hsent]
    exact hasked
  · rw [hpending', hsent]
  · rw [hhanded, handedAt_succ hw, h.handed]
  · rcases Client.mem_settle hmem with hmem | ⟨rfl, rfl, -⟩
    · rcases h.settled.own i o hmem with ho | ⟨ho, hclosed⟩ | ⟨w', hw', hi, ho⟩
      · exact .inl ho
      · rw [hopen] at hclosed
        cases hclosed
      · exact .inr (.inr ⟨w', hw', by omega, ho⟩)
    · exact .inr (.inr ⟨w, hw, by omega, rfl⟩)
  · rcases Nat.lt_succ_iff_lt_or_eq.mp hi with hi | rfl
    · obtain ⟨o, hmem, ho⟩ := h.settled.answered i hi
      exact ⟨o, Client.settled_settle _ _ hmem, ho⟩
    · obtain ⟨⟨j, o⟩, hmem, hj⟩ := List.mem_map.mp (Client.settle_covers _ i w.outcome)
      simp only at hj
      subst hj
      refine ⟨o, hmem, ?_⟩
      rcases Client.mem_settle hmem with hmem | ⟨-, rfl, -⟩
      · rcases h.settled.own j o hmem with ho | ⟨-, hclosed⟩ | ⟨w', hw', hi, ho⟩
        · exact .inl ho
        · rw [hopen] at hclosed
          cases hclosed
        · omega
      · exact .inr ⟨w, hw, rfl⟩
  · rw [hwritten, hsent]
    exact h.written

/-- A buffer is no part of it. -/
theorem Held.buffer (h : Held stream k c) (buffer : List UInt8) :
    Held stream k { c with buffer := buffer } :=
  ⟨h.asked, h.pending, h.handed, ⟨h.settled.once, h.settled.own, h.settled.answered⟩, h.written⟩

-- ================================================================== draining

theorem drain_succ {fuel : Nat} (h : Client.drain fuel c = some c') :
    Client.drain (fuel + 1) c = some c' := by
  induction fuel generalizing c with
  | zero => cases h
  | succ fuel ih =>
      rw [Client.drain] at h ⊢
      split at h
      next => cases h
      next heq => rw [(parse_add _).1 heq]; exact h
      next p heq => rw [(parse_add _).1 heq]; exact ih h

theorem drain_mono {fuel fuel' : Nat} (h : Client.drain fuel c = some c') (hle : fuel ≤ fuel') :
    Client.drain fuel' c = some c' := by
  induction hle with
  | refl => exact h
  | step _ ih => exact drain_succ ih

theorem drain_unique {fuel fuel' : Nat} {d d' : Client} (h : Client.drain fuel c = some d)
    (h' : Client.drain fuel' c = some d') : d = d' := by
  have hmax := drain_mono h (le_max_left fuel fuel')
  rw [drain_mono h' (le_max_right fuel fuel')] at hmax
  exact (Option.some.inj hmax).symm

/-- What is drained of whole replies and a part of another. -/
theorem drain_stream {ws : List Wire} {rest : List UInt8}
    (hws : ∀ w ∈ ws, w.Whole ∧ w.bytes.length < 2 ^ 53)
    (hrest : ∃ fuel, parse fuel rest (ofNat 0) = some none) (h : Held stream k c)
    (hopen : c.open_ = true) (hbuffer : c.buffer = Wire.bytesAll ws ++ rest)
    (hplace : ∀ i w, ws[i]? = some w → stream[k + i]? = some w)
    (hasked : k + ws.length ≤ c.sent.length) :
    ∃ fuel c', Client.drain fuel c = some c' ∧ c'.buffer = rest ∧ c'.open_ = true ∧
      c'.received = c.received ∧ Held stream (k + ws.length) c' := by
  induction ws generalizing c k with
  | nil =>
      obtain ⟨fuel, hparse⟩ := hrest
      have hall : c.buffer = rest := hbuffer
      refine ⟨fuel + 1, c, ?_, hall, hopen, rfl, h⟩
      rw [Client.drain, hall, hparse]
  | cons w ws ih =>
      obtain ⟨⟨hwhole, hsmall⟩, hws⟩ := List.forall_mem_cons.mp hws
      simp only [List.length_cons] at hasked
      obtain ⟨fuel, hparse⟩ := hwhole [] (Wire.bytesAll ws ++ rest) (by simpa using hsmall)
      simp only [List.nil_append, List.length_nil, Nat.zero_add] at hparse
      have hdrop : Buffer.subarray c.buffer (ofNat w.bytes.length) = Wire.bytesAll ws ++ rest := by
        rw [Buffer.subarray_ofNat, hbuffer, Wire.bytesAll, List.append_assoc, List.drop_left]
      have hstep := (h.buffer (Wire.bytesAll ws ++ rest)).hand hopen (hplace 0 w rfl)
        (by show k < c.sent.length; omega)
      obtain ⟨hopen', hbuffer', hsent', hreceived'⟩ :=
        Client.hand_rest { c with buffer := Wire.bytesAll ws ++ rest } w.outcome
      obtain ⟨fuel', c', hdrain, hdone⟩ := ih hws hstep (hopen'.trans hopen) hbuffer'
        (fun i w' hw' => by
          rw [show k + 1 + i = k + (i + 1) by omega]
          exact hplace (i + 1) w' hw')
        (by rw [hsent']; show k + 1 + ws.length ≤ c.sent.length; omega)
      refine ⟨max fuel fuel' + 1, c', ?_, hdone.1, hdone.2.1, hdone.2.2.1.trans hreceived', ?_⟩
      · have hparse' := parse_mono hparse (le_max_left fuel fuel')
        rw [Client.drain, show c.buffer = w.bytes ++ (Wire.bytesAll ws ++ rest) by
          rw [hbuffer, Wire.bytesAll, List.append_assoc], hparse']
        simp only
        rw [← show c.buffer = w.bytes ++ (Wire.bytesAll ws ++ rest) by
          rw [hbuffer, Wire.bytesAll, List.append_assoc], hdrop]
        exact drain_mono hdrain (le_max_right fuel fuel')
      · rw [List.length_cons, show k + (ws.length + 1) = k + 1 + ws.length by omega]
        exact hdone.2.2.2

-- ==================================================================== a run

/-- What holds of a connection whose server sends this. -/
structure Delivered (stream : List Wire) (c : Client) : Prop where
  received : c.received <+: Wire.bytesAll stream
  held : Held stream (whole stream c.received) c
  buffer : c.open_ = true →
    c.received = Wire.bytesAll (stream.take (whole stream c.received)) ++ c.buffer

theorem delivered_new (stream : List Wire) : Delivered stream .new := by
  have hzero : whole stream [] = 0 := by
    cases stream with
    | nil => rfl
    | cons w rest =>
        have := w.bytes_length_pos
        rw [whole, if_neg (by rw [List.length_nil]; omega)]
  refine ⟨List.nil_prefix, ?_, fun _ => ?_⟩
  · show Held stream (whole stream []) .new
    rw [hzero]
    exact ⟨le_rfl, fun _ => rfl, rfl, ⟨List.nodup_nil, by simp [Client.new], by simp⟩, rfl⟩
  · show [] = Wire.bytesAll (stream.take (whole stream [])) ++ []
    rw [hzero]
    rfl

theorem Held.write (h : Held stream k c) (commands : List (List String)) :
    Held stream k (c.write commands) := by
  unfold Client.write
  split
  next hopen =>
    have hasked := h.asked
    refine ⟨?_, fun _ => ?_, h.handed, ⟨h.settled.once, h.settled.own, h.settled.answered⟩, ?_⟩
    · simp only [List.length_append]
      omega
    · simp only [List.length_append]
      rw [h.pending hopen, show c.sent.length + commands.length - k
        = (c.sent.length - k) + commands.length by omega, ← List.range'_append_1,
        show k + (c.sent.length - k) = c.sent.length by omega]
    · rw [List.map_append, String.join_append, ← h.written]
  next => exact h

/-- A promise that is settled by no reply. -/
theorem Held.settle (h : Held stream k c) {i : Nat} {o : Outcome}
    (ho : o = .timedOut ∨ o = .closed ∧ c.open_ = false) : Held stream k (c.settle i o) := by
  obtain ⟨hopen, -, hpending, hsent, hwritten, -, hhanded⟩ := Client.settle_rest c i o
  refine ⟨by rw [hsent]; exact h.asked, fun hc => ?_, hhanded.trans h.handed,
    ⟨Client.nodup_settle h.settled.once, fun j o' hmem => ?_, fun j hj => ?_⟩,
    by rw [hwritten, hsent]; exact h.written⟩
  · rw [hpending, hsent]
    exact h.pending (hopen ▸ hc)
  · rw [hopen]
    rcases Client.mem_settle hmem with hmem | ⟨rfl, rfl, -⟩
    · exact h.settled.own j o' hmem
    · rcases ho with ho | ho
      · exact .inl ho
      · exact .inr (.inl ho)
  · obtain ⟨o', hmem, ho'⟩ := h.settled.answered j hj
    exact ⟨o', Client.settled_settle i o hmem, ho'⟩

theorem foldl_settle_rest (pending : List Nat) (c : Client) :
    (pending.foldl (fun c i => c.settle i .closed) c).open_ = c.open_ ∧
      (pending.foldl (fun c i => c.settle i .closed) c).received = c.received := by
  induction pending generalizing c with
  | nil => exact ⟨rfl, rfl⟩
  | cons i pending ih =>
      obtain ⟨hopen, -, -, -, -, hreceived, -⟩ := Client.settle_rest c i .closed
      exact ⟨(ih _).1.trans hopen, (ih _).2.trans hreceived⟩

theorem Held.settleAll {pending : List Nat} (h : Held stream k c) (hclosed : c.open_ = false) :
    Held stream k (pending.foldl (fun c i => c.settle i .closed) c) := by
  induction pending generalizing c with
  | nil => exact h
  | cons i pending ih =>
      exact ih (h.settle (.inr ⟨rfl, hclosed⟩)) ((Client.settle_rest c i .closed).1.trans hclosed)

theorem Held.fail (h : Held stream k c) (hopen : c.open_ = true) : Held stream k c.fail := by
  refine Held.settleAll ⟨h.asked, nofun, h.handed, ⟨h.settled.once, fun i o hmem => ?_,
    h.settled.answered⟩, h.written⟩ rfl
  rcases h.settled.own i o hmem with ho | ⟨-, hclosed⟩ | hw
  · exact .inl ho
  · rw [hopen] at hclosed
    cases hclosed
  · exact .inr (.inr hw)

section Data

variable (hwell : ∀ w ∈ stream, w.WellFormed ∧ w.bytes.length ≤ Buffer.maxLength)

include hwell

/-- A part of the next reply is left where it is. -/
theorem parse_rest {rest : List UInt8}
    (h : rest = [] ∨ ∃ w ∈ stream, rest <+: w.bytes ∧ rest ≠ w.bytes) :
    ∃ fuel, parse fuel rest (ofNat 0) = some none := by
  rcases h with rfl | ⟨w, hw, hpart, hne⟩
  · exact ⟨1, rfl⟩
  · have hparse := (w.framed (hwell w hw).1).2 [] rest (by
      have := (hwell w hw).2
      simp only [Buffer.maxLength] at this
      rw [List.length_nil]
      omega) hpart hne
    simpa using hparse

/-- A chunk is drained, and what is whole by then is handed over. -/
theorem Delivered.data (h : Delivered stream c) (hopen : c.open_ = true) {chunk : List UInt8}
    (hanswers : Answers stream c (.data chunk)) :
    ∃ fuel c', Client.drain fuel { c with
        buffer := c.buffer ++ chunk, received := c.received ++ chunk } = some c' ∧
      Delivered stream c' := by
  obtain ⟨hcomes, hasked⟩ := hanswers
  obtain ⟨rest, hsplit, hrest⟩ := whole_spec hcomes
  have hmono := whole_mono stream c.received chunk
  generalize hk' : whole stream (c.received ++ chunk) = k' at *
  generalize hk : whole stream c.received = k at *
  have hreceived := h.buffer hopen
  have hheld := h.held
  rw [hk] at hreceived hheld
  have hbuffer : c.buffer ++ chunk = Wire.bytesAll ((stream.drop k).take (k' - k)) ++ rest := by
    have htake : stream.take k' = stream.take k ++ (stream.drop k).take (k' - k) := by
      rw [← List.take_add, Nat.add_sub_cancel' hmono]
    rw [htake, bytesAll_append] at hsplit
    have hcancel : Wire.bytesAll (stream.take k) ++ (c.buffer ++ chunk)
        = Wire.bytesAll (stream.take k)
          ++ (Wire.bytesAll ((stream.drop k).take (k' - k)) ++ rest) := by
      rw [← List.append_assoc, ← hreceived, hsplit, List.append_assoc]
    exact List.append_cancel_left hcancel
  have hlen : ((stream.drop k).take (k' - k)).length = k' - k := by
    have hle := whole_le stream (c.received ++ chunk)
    rw [List.length_take, List.length_drop]
    omega
  obtain ⟨fuel, c', hdrain, hleft, hopen', hreceived', hheld'⟩ := drain_stream
    (c := { c with buffer := c.buffer ++ chunk, received := c.received ++ chunk })
    (fun w hw => by
      have hmem := List.mem_of_mem_drop (List.mem_of_mem_take hw)
      have hsmall := (hwell w hmem).2
      simp only [Buffer.maxLength] at hsmall
      exact ⟨(w.framed (hwell w hmem).1).1, by omega⟩)
    (parse_rest hwell hrest)
    ⟨hheld.asked, hheld.pending, hheld.handed,
      ⟨hheld.settled.once, hheld.settled.own, hheld.settled.answered⟩, hheld.written⟩
    hopen hbuffer
    (fun i w hw => by
      have hi : i < k' - k := by
        have := (List.getElem?_eq_some_iff.mp hw).1
        omega
      rwa [List.getElem?_take_of_lt hi, List.getElem?_drop] at hw)
    (by rw [hlen]; show k + (k' - k) ≤ c.sent.length; omega)
  rw [hlen, Nat.add_sub_cancel' hmono] at hheld'
  refine ⟨fuel, c', hdrain, ?_, ?_, fun _ => ?_⟩
  · rw [hreceived']
    exact hcomes
  · rw [hreceived', hk']
    exact hheld'
  · rw [hreceived', hk', hleft]
    exact hsplit

/-- It holds all the way. -/
theorem Run.delivered (h : Run stream c) : Delivered stream c := by
  induction h with
  | start => exact delivered_new stream
  | @step c c' e hrun hanswers hstep ih =>
      cases hstep with
      | write commands =>
          have hsame : (c.write commands).received = c.received ∧
              (c.write commands).buffer = c.buffer ∧ (c.write commands).open_ = c.open_ := by
            unfold Client.write
            split <;> exact ⟨rfl, rfl, rfl⟩
          obtain ⟨hreceived, hbuffer, hopen⟩ := hsame
          refine ⟨hreceived ▸ ih.received, hreceived.symm ▸ ih.held.write commands, fun hc => ?_⟩
          rw [hreceived, hbuffer]
          exact ih.buffer (hopen ▸ hc)
      | data connected drained =>
          obtain ⟨fuel', d, hdrain, hdelivered⟩ := ih.data hwell connected hanswers
          exact drain_unique hdrain drained ▸ hdelivered
      | @timeout i issued =>
          obtain ⟨hopen, hbuffer, -, -, -, hreceived, -⟩ := Client.settle_rest c i .timedOut
          refine ⟨hreceived ▸ ih.received, hreceived.symm ▸ ih.held.settle (.inl rfl), fun hc => ?_⟩
          rw [hreceived, hbuffer]
          exact ih.buffer (hopen ▸ hc)
      | close connected =>
          obtain ⟨hclosed, hreceived⟩ := foldl_settle_rest c.pending
            { c with open_ := false, pending := [], buffer := [] }
          have hreceived : c.fail.received = c.received := hreceived
          have hclosed : c.fail.open_ = false := hclosed
          refine ⟨hreceived ▸ ih.received, hreceived.symm ▸ ih.held.fail connected, fun hc => ?_⟩
          rw [hclosed] at hc
          cases hc

/-- **The i-th reply is for the i-th command, whatever the chunks.** What a
client handed over is the whole replies among the bytes that came, each to
the waiter of its own number, so it is what any other run handed over that
got the same bytes; a promise is settled by its own reply or by none, and
by its own if its caller had not timed out; and the next chunk is drained. -/
theorem replies_in_order (hrun : Run stream c) :
    c.written = String.join (c.sent.map encode) ∧
      c.handed = handedAt stream (whole stream c.received) ∧
      (∀ c', Run stream c' → c'.received = c.received → c'.handed = c.handed) ∧
      Settled stream (whole stream c.received) c ∧
      ∀ chunk, c.open_ = true → Answers stream c (.data chunk) →
        ∃ c', Step c (.data chunk) c' := by
  have h := hrun.delivered hwell
  refine ⟨h.held.written, h.held.handed, fun c' hrun' hreceived => ?_, h.held.settled,
    fun chunk hopen hanswers => ?_⟩
  · rw [(hrun'.delivered hwell).held.handed, hreceived, h.held.handed]
  · obtain ⟨fuel, c', hdrain, -⟩ := h.data hwell hopen hanswers
    exact ⟨c', .data hopen hdrain⟩

end Data

/-- A command is sent, and what answers it is drained. -/
theorem replies_in_order_ping :
    ∃ c', Step (Client.new.write [["PING"]]) (.data [0x2B, 0x50, 0x4F, 0x4E, 0x47, 0x0D, 0x0A]) c' := by
  have hline : Line [0x50, 0x4F, 0x4E, 0x47] := by
    unfold Line
    decide +kernel
  have hrun : Run [.status [0x50, 0x4F, 0x4E, 0x47]] (Client.new.write [["PING"]]) :=
    .step (e := .write [["PING"]]) .start trivial (.write _ _)
  refine (replies_in_order ?_ hrun).2.2.2.2 _ rfl ⟨by decide, by decide⟩
  intro w hw
  cases List.mem_singleton.mp hw
  exact ⟨hline, by decide⟩

end Nacre.Redis
