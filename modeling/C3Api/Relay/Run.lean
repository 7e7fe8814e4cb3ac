import Mathlib.Data.List.DropRight
import C3Api.Relay.ReadBuf
import C3Api.Relay.Output

/-!
# The relay loop

Lines are cut from the read buffer, gathered into a frame and taken apart into fields; an empty
line ends the frame, which is mapped, observed and written. The end of the stream ends the last
frame as an empty line would.
-/

namespace C3Api.Relay

open List

structure Event where
  raw : List UInt8
  event : List UInt8
  data : List UInt8

/-- What the caller wires in. A mapper keeps state of type `σ` and drops a frame by `none`. -/
structure Config (σ : Type*) where
  mapper : Option (σ → Event → σ × Option (List UInt8)) := none
  terminal : Option (σ → List UInt8) := none
  /-- A failed write cancels the upstream request. -/
  cancel : Bool := true

/-- The surroundings of one relay: the body's reads, the looks at the request's context that
find it ended, and the client. -/
structure Env where
  reads : Nat → Offer
  canceled : Nat → Bool := fun _ => false
  client : Client := {}

inductive Err where
  | read (err : ReadErr)
  | io (err : IOErr)

def carriageReturn : UInt8 := 13

def colon : UInt8 := 58

/-- The name and the value of a field line; a comment has an empty name. -/
def splitField (line : List UInt8) : List UInt8 × List UInt8 :=
  match line.idxOf? colon with
  | none => ([], [])
  | some i =>
    let name := line.take i
    let after := line.drop (i + 1)
    if name.isEmpty || name.head? == some colon then ([], [])
    else
      let val := if after.head? == some 32 then after.tail else after
      (name, val.rdropWhile fun b => b == newline || b == carriageReturn)

-- "event" and "data"
def eventField : List UInt8 := [101, 118, 101, 110, 116]

def dataField : List UInt8 := [100, 97, 116, 97]

/-- The frame under assembly, with the fields found so far. -/
structure Assembly where
  frame : List UInt8 := []
  data : List UInt8 := []
  event : List UInt8 := []

namespace Assembly

def field (a : Assembly) (line : List UInt8) : Assembly :=
  let (name, value) := splitField line
  if name = eventField then { a with event := value }
  else if name = dataField then
    { a with data := if a.data.isEmpty then value else a.data ++ newline :: value }
  else a

def write (a : Assembly) (line : List UInt8) : Assembly := { a with frame := a.frame ++ line }

def last (a : Assembly) (rest : List UInt8) : Assembly :=
  if rest.isEmpty then a else (a.write rest).field rest

def toEvent (a : Assembly) : Event := ⟨a.frame, a.event, a.data⟩

end Assembly

def Blank (line : List UInt8) : Prop := line = [carriageReturn, newline] ∨ line = [newline]

instance (line : List UInt8) : Decidable (Blank line) :=
  inferInstanceAs (Decidable (_ ∨ _))

structure Loop (σ : Type*) where
  assembly : Assembly := {}
  mapper : σ
  out : Output := {}
  /-- Looks at the context so far. -/
  asks : Nat := 0
  /-- The events observed. -/
  seen : List Event := []

variable {σ : Type*} (cfg : Config σ) (env : Env)

namespace Loop

/-- Whether a look at the context finds it ended. -/
def ended (l : Loop σ) : Bool := env.canceled l.asks || (cfg.cancel && l.out.writeFailed)

def flushFrame (l : Loop σ) : Loop σ × Option IOErr :=
  let raw := l.assembly.toEvent
  let (mapper, out) :=
    match cfg.mapper with
    | none => (l.mapper, some raw.raw)
    | some map => map l.mapper raw
  let l' := { l with mapper, seen := l.seen ++ [raw] }
  match out with
  | none => ({ l' with assembly := {} }, none)
  | some bytes =>
    match (l.out.beat env.client (l.ended cfg env)).writeFrame env.client (l.ended cfg env) bytes with
    | (out, some err) => ({ l' with out }, some err)
    | (out, none) => ({ l' with out, assembly := {} }, none)

def takeLine (l : Loop σ) (line : List UInt8) : Loop σ × Option IOErr :=
  let l' := { l with assembly := l.assembly.write line }
  if Blank line then l'.flushFrame cfg env
  else ({ l' with assembly := l'.assembly.field line }, none)

def stop (l : Loop σ) : Loop σ :=
  { l with out := (l.out.beat env.client (l.ended cfg env)).stopTimer }

/-- The end of the stream: what is left of a line and of a frame. -/
def finish (l : Loop σ) (rest : List UInt8) : Loop σ × Option IOErr :=
  let l' := { l with assembly := l.assembly.last rest }
  if l'.assembly.frame.isEmpty then (l', none)
  else (l'.stop cfg env).flushFrame cfg env

def drain (l : Loop σ) : Loop σ × Option IOErr :=
  let (out, err) := (l.out.beat env.client (l.ended cfg env)).drainFlush env.client
    (l.ended cfg env)
  ({ l with out }, err)

def look (l : Loop σ) : Loop σ := { l with asks := l.asks + 1 }

end Loop

def run (rb : ReadBuf) (src : Upstream) (l : Loop σ) : Loop σ × Option Err :=
  match _cut : rb.next with
  | (some line, rb') =>
    match l.takeLine cfg env line with
    | (l', some err) => (l', some (.io err))
    | (l', none) =>
      if l'.ended cfg env then (l'.look, some (.read .canceled))
      else run rb' src l'.look
  | (none, rb') =>
    match _waiting : rb'.err with
    | some .eof =>
      let (l', err) := l.finish cfg env rb'.rest
      (l', err.map .io)
    -- an error on the way: what is left of the frame is dropped
    | some err => (l.look, some (.read (if l.ended cfg env then .canceled else err)))
    | none =>
      match l.drain cfg env with
      | (l', some err) => (l', some (.io err))
      | (l', none) =>
        run (rb'.fill env.reads (l'.ended cfg env) src).1
          (rb'.fill env.reads (l'.ended cfg env) src).2 l'.look
termination_by
  (rb.pending.length + src.rest.length, src.rest.length, if rb.err.isNone then 1 else 0,
    100 - rb.empty)
decreasing_by
  · obtain ⟨⟨body, -, rfl⟩, parts, -, -⟩ := ReadBuf.next_line _cut
    apply Prod.Lex.left
    rw [parts, length_append, length_append, length_singleton]
    omega
  · obtain ⟨-, same, err, empty⟩ := ReadBuf.next_none _cut
    have total := congrArg length (rb'.pending_fill env.reads (l'.ended cfg env) src)
    rw [length_append, length_append, same] at total
    rw [total]
    apply Prod.Lex.right
    have waiting := err.symm.trans _waiting
    rcases rb'.fill_progress env.reads (l'.ended cfg env) src with fewer | ⟨as, ending | fewer⟩
    · exact Prod.Lex.left _ _ fewer
    · rw [as]
      apply Prod.Lex.right
      apply Prod.Lex.left
      simp [waiting, ending]
    · rw [as]
      apply Prod.Lex.right
      rw [waiting]
      cases (rb'.fill env.reads (l'.ended cfg env) src).1.err with
      | some e => exact Prod.Lex.left _ _ (by simp)
      | none =>
        apply Prod.Lex.right
        rwa [← empty]

/-- The frame the caller ends a stream with that came to its end. -/
def terminalFrame (cfg : Config σ) (mapper : σ) : List UInt8 :=
  match cfg.terminal with
  | none => []
  | some terminal => terminal mapper

namespace Loop

/-- Flush the rest of a stream that came to its end, then its terminal frame. -/
def close (l : Loop σ) : Loop σ × Option IOErr :=
  let done := l.ended cfg env
  let (out, err) := if l.out.writeFailed then (l.out, none) else l.out.drainFlush env.client done
  if err.isSome || (terminalFrame cfg l.mapper).isEmpty then ({ l with out }, err)
  else
    match out.writeFrame env.client done (terminalFrame cfg l.mapper) with
    | (out', some err) => ({ l with out := out' }, some err)
    | (out', none) =>
      let (out'', err) := out'.drainFlush env.client done
      ({ l with out := out'' }, err)

end Loop

def relay (mapper : σ) (out : Output) (stream : List UInt8) : Loop σ × Option Err :=
  let (l, err) := run cfg env .new { rest := stream } { mapper, out }
  let stopped := l.stop cfg env
  let (l', err') :=
    match err with
    | some err => (stopped, some err)
    | none =>
      let (l', closing) := stopped.close cfg env
      (l', closing.map Err.io)
  -- a recorded I/O failure goes before a cancellation it caused itself
  match l'.out.lastErr with
  | none => (l', err')
  | some lastErr =>
    (l', if err'.isNone || l'.out.selfCanceled then some (.io lastErr) else err')

end C3Api.Relay
