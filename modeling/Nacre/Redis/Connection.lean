/-
One connection of the Redis client (core/redis.ts: the `data` handler,
`#drain`, `#send`, `pipeline`).

A command is numbered by its place on the connection, and so is the waiter
that stands in `#pending` for it. A waiter whose caller timed out stays
where it is: its promise is settled, and what comes for it later settles
nothing. `handed` is history, what was handed to which waiter, and
`received` the bytes that came.

# The order

`#pending` is the numbers from the count of whole replies received up to
the count of commands sent (`Held.pending`), and what is in the buffer is
what came after the last whole reply. One reply handed over moves both by
one (`Held.hand`); a chunk is so many replies and a part of the next one
(`drain_stream`), so nothing depends on where the chunks end.

A server answers what it was asked: it has not sent more replies than it
was sent commands (`Answers`).
-/
import Nacre.Redis.Framed

namespace Nacre.Redis

open Number (ofNat)

-- ================================================================= the client

/-- What a promise settles to. -/
inductive Outcome where
  | reply (value : Reply)
  | refused (message : List UInt16)
  | timedOut
  | closed

def Parsed.outcome (p : Parsed) : Outcome :=
  match p.error with
  | some message => .refused message
  | none => .reply p.value

/-- `encode(parts)`. -/
def encode (parts : List String) : String :=
  parts.foldl (fun out p => out ++ s!"${p.utf8ByteSize}\r\n{p}\r\n") s!"*{parts.length}\r\n"

structure Client where
  /-- The socket is there. -/
  open_ : Bool
  buffer : List UInt8
  pending : List Nat
  /-- The commands, as they were put on the socket. -/
  sent : List (List String)
  written : String
  settled : List (Nat × Outcome)
  received : List UInt8
  handed : List (Nat × Outcome)

/-- A connection that has just been made. -/
def Client.new : Client := ⟨true, [], [], [], "", [], [], []⟩

namespace Client

variable (c : Client)

/-- A promise settles once. -/
def settle (i : Nat) (o : Outcome) : Client :=
  if i ∈ c.settled.map (·.1) then c else { c with settled := c.settled ++ [(i, o)] }

/-- `#send`, or `pipeline`: the waiters, and then the commands in one write. -/
def write (commands : List (List String)) : Client :=
  if c.open_ then
    { c with
      pending := c.pending ++ List.range' c.sent.length commands.length
      sent := c.sent ++ commands
      written := c.written ++ String.join (commands.map encode) }
  -- not connected
  else c

/-- The first waiter, if there is one. -/
def hand (o : Outcome) : Client :=
  match c.pending with
  | [] => c
  | i :: rest => { c with pending := rest, handed := c.handed ++ [(i, o)] }.settle i o

/-- `#drain`, in so many calls. -/
def drain : Nat → Client → Option Client
  | 0, _ => none
  | fuel + 1, c =>
      match parse fuel c.buffer (ofNat 0) with
      | none => none
      | some none => some c
      | some (some p) =>
          drain fuel ({ c with buffer := Buffer.subarray c.buffer p.next }.hand p.outcome)

/-- `fail`: everything in flight is lost. -/
def fail : Client :=
  c.pending.foldl (fun c i => c.settle i .closed)
    { c with open_ := false, pending := [], buffer := [] }

end Client

inductive Event where
  | write (commands : List (List String))
  | data (chunk : List UInt8)
  /-- The timer of a command goes off. -/
  | timeout (i : Nat)
  | close

inductive Step : Client → Event → Client → Prop
  | write (c : Client) (commands : List (List String)) : Step c (.write commands) (c.write commands)
  | data {c c' : Client} {chunk : List UInt8} {fuel : Nat} (connected : c.open_ = true)
      (drained : Client.drain fuel { c with
        buffer := c.buffer ++ chunk, received := c.received ++ chunk } = some c') :
      Step c (.data chunk) c'
  | timeout {c : Client} {i : Nat} (issued : i < c.sent.length) :
      Step c (.timeout i) (c.settle i .timedOut)
  | close {c : Client} (connected : c.open_ = true) : Step c .close c.fail

-- ================================================================ the server

/-- How many replies are there whole. -/
def whole : List Wire → List UInt8 → Nat
  | [], _ => 0
  | w :: rest, bytes =>
      if w.bytes.length ≤ bytes.length then whole rest (bytes.drop w.bytes.length) + 1 else 0

/-- What comes is the stream, and no reply before its command. -/
def Answers (stream : List Wire) (c : Client) : Event → Prop
  | .data chunk =>
      c.received ++ chunk <+: Wire.bytesAll stream ∧
        whole stream (c.received ++ chunk) ≤ c.sent.length
  | _ => True

/-- A run of the connection with a server that sends this. -/
inductive Run (stream : List Wire) : Client → Prop
  | start : Run stream .new
  | step {c c' : Client} {e : Event} (run : Run stream c) (answers : Answers stream c e)
      (step : Step c e c') : Run stream c'

def Wire.outcome (w : Wire) : Outcome :=
  match w.failure with
  | some message => .refused message
  | none => .reply w.value

-- ================================================================ the stream

@[simp] theorem bytesAll_append (ws ws' : List Wire) :
    Wire.bytesAll (ws ++ ws') = Wire.bytesAll ws ++ Wire.bytesAll ws' := by
  induction ws with
  | nil => rfl
  | cons w ws ih => rw [List.cons_append, Wire.bytesAll, Wire.bytesAll, ih, List.append_assoc]

theorem whole_le (stream : List Wire) (bytes : List UInt8) : whole stream bytes ≤ stream.length := by
  induction stream generalizing bytes with
  | nil => exact le_rfl
  | cons w rest ih =>
      rw [whole]
      split
      next => exact Nat.succ_le_succ (ih _)
      next => exact Nat.zero_le _

/-- More bytes are no fewer replies. -/
theorem whole_mono (stream : List Wire) (bytes more : List UInt8) :
    whole stream bytes ≤ whole stream (bytes ++ more) := by
  induction stream generalizing bytes with
  | nil => exact le_rfl
  | cons w rest ih =>
      rw [whole, whole]
      split
      next h =>
        rw [if_pos (by rw [List.length_append]; omega), List.drop_append_of_le_length h]
        exact Nat.succ_le_succ (ih _)
      next => exact Nat.zero_le _

/-- The whole replies, and a part of the next one. -/
theorem whole_spec {stream : List Wire} {bytes : List UInt8}
    (h : bytes <+: Wire.bytesAll stream) :
    ∃ rest, bytes = Wire.bytesAll (stream.take (whole stream bytes)) ++ rest ∧
      (rest = [] ∨ ∃ w ∈ stream, rest <+: w.bytes ∧ rest ≠ w.bytes) := by
  induction stream generalizing bytes with
  | nil => exact ⟨[], by simpa [Wire.bytesAll, whole] using h, .inl rfl⟩
  | cons w stream ih =>
      rw [Wire.bytesAll] at h
      rcases prefix_append_cases h with ⟨hpart, hne⟩ | ⟨more, rfl, hmore⟩
      · have hlt : bytes.length < w.bytes.length :=
          lt_of_le_of_ne hpart.length_le fun heq => hne (hpart.eq_of_length heq)
        refine ⟨bytes, ?_, .inr ⟨w, List.mem_cons_self, hpart, hne⟩⟩
        rw [whole, if_neg (by omega)]
        rfl
      · obtain ⟨rest, hrest, hcases⟩ := ih hmore
        refine ⟨rest, ?_, ?_⟩
        · rw [whole, if_pos (by rw [List.length_append]; omega), List.drop_left,
            List.take_succ_cons, Wire.bytesAll, List.append_assoc, ← hrest]
        · rcases hcases with rfl | ⟨w', hw', hpart⟩
          · exact .inl rfl
          · exact .inr ⟨w', List.mem_cons_of_mem _ hw', hpart⟩

end Nacre.Redis
