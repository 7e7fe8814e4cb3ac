import C3Api.Stream.Lines

/-!
# The relay's read buffer

`next` cuts a line out of the buffer and never touches the upstream; `fill` moves what is left
to the front, grows a full buffer and reads once. The buffer carries its own bounds and that
no newline stands before the position where the next search starts.
-/

namespace C3Api.Relay

open C3Api.Stream List

def newline : UInt8 := 10

inductive ReadErr where
  | eof
  | noProgress
  | canceled
  | upstream
deriving DecidableEq

/-- What one call of the upstream body's `Read` is ready to do: give up to `size` bytes, with
the end of the stream announced together with its last bytes or not, or fail. -/
inductive Offer where
  | give (size : Nat) (closing : Bool)
  | fail (size : Nat)

def Offer.size : Offer → Nat
  | give size _ => size
  | fail size => size

/-- The upstream body: the bytes not read yet and the number of reads so far. -/
structure Upstream where
  rest : List UInt8
  reads : Nat := 0

namespace Upstream

variable (plan : Nat → Offer)

def read (src : Upstream) (room : Nat) : (List UInt8 × Option ReadErr) × Upstream :=
  match plan src.reads with
  | .give 0 _ => (([], none), { src with reads := src.reads + 1 })
  | .give (n + 1) closing =>
    if src.rest.isEmpty then (([], some .eof), { src with reads := src.reads + 1 })
    else
      let left := src.rest.drop (min (n + 1) room)
      ((src.rest.take (min (n + 1) room), if closing && left.isEmpty then some .eof else none),
        { rest := left, reads := src.reads + 1 })
  | .fail n =>
    ((src.rest.take (min n room), some .upstream),
      { rest := src.rest.drop (min n room), reads := src.reads + 1 })

def ctxRead (done : Bool) (src : Upstream) (room : Nat) :
    (List UInt8 × Option ReadErr) × Upstream :=
  if done then (([], some .canceled), src) else src.read plan room

theorem ctxRead_rest (done : Bool) (src : Upstream) (room : Nat) :
    (src.ctxRead plan done room).1.1 ++ (src.ctxRead plan done room).2.rest = src.rest := by
  unfold ctxRead read
  split
  · rfl
  split
  · rfl
  · split
    · rfl
    · exact take_append_drop _ _
  · exact take_append_drop _ _

theorem ctxRead_reads (src : Upstream) (room : Nat) :
    (src.ctxRead plan false room).2.reads = src.reads + 1 := by
  simp only [ctxRead, Bool.false_eq_true, if_false, read]
  split
  · rfl
  · split <;> rfl
  · rfl

theorem ctxRead_err (src : Upstream) {room : Nat} (roomy : 0 < room)
    (sound : ∀ i n, plan i ≠ .fail n) :
    ((src.ctxRead plan false room).1.2 = some .eof ∧ (src.ctxRead plan false room).2.rest = []) ∨
      (src.ctxRead plan false room).1.2 = none ∧
        ((src.ctxRead plan false room).1.1 = [] → (plan src.reads).size = 0) := by
  simp only [ctxRead, Bool.false_eq_true, if_false, read]
  cases offer : plan src.reads with
  | fail n => exact absurd offer (sound _ _)
  | give size closing =>
    cases size with
    | zero => exact .inr ⟨rfl, fun _ => rfl⟩
    | succ n =>
      simp only
      by_cases dry : src.rest.isEmpty = true
      · rw [if_pos dry]
        exact .inl ⟨rfl, isEmpty_iff.mp dry⟩
      rw [if_neg dry]
      by_cases last : (closing && (src.rest.drop (min (n + 1) room)).isEmpty) = true
      · rw [if_pos last]
        refine .inl ⟨rfl, ?_⟩
        rw [Bool.and_eq_true] at last
        exact isEmpty_iff.mp last.2
      · rw [if_neg last]
        refine .inr ⟨rfl, fun nothing => ?_⟩
        have taken : 0 < (src.rest.take (min (n + 1) room)).length := by
          have : 0 < src.rest.length := by
            rw [length_pos_iff]
            simpa using dry
          rw [length_take]
          omega
        exact absurd (length_pos_iff.mp taken) (not_not_intro nothing)

end Upstream

def readBufInit : Nat := 4096

/-- `buf[r:w]` has been read and not consumed, `nl` is where the search for a newline goes on. -/
structure ReadBuf where
  buf : List UInt8
  r : Nat
  w : Nat
  nl : Nat
  err : Option ReadErr
  empty : Nat
  consumed_le : r ≤ nl
  scanned_le : nl ≤ w
  read_le : w ≤ buf.length
  scanned : newline ∉ slice buf r nl

namespace ReadBuf

def new : ReadBuf where
  buf := replicate readBufInit 0
  r := 0
  w := 0
  nl := 0
  err := none
  empty := 0
  consumed_le := Nat.le_refl _
  scanned_le := Nat.le_refl _
  read_le := Nat.zero_le _
  scanned := by simp [slice]

def pending (b : ReadBuf) : List UInt8 := slice b.buf b.r b.w

variable (b : ReadBuf)

theorem pending_eq : b.pending = slice b.buf b.r b.nl ++ slice b.buf b.nl b.w :=
  (slice_append_slice b.consumed_le b.scanned_le).symm

def next (b : ReadBuf) : Option (List UInt8) × ReadBuf :=
  -- the source first raises nl to r, which consumed_le makes void
  if b.w ≤ b.nl then (none, b)
  else
    match found : (slice b.buf b.nl b.w).idxOf? newline with
    | some i =>
      (some (slice b.buf b.r (b.nl + i + 1)),
        { b with
          r := b.nl + i + 1
          nl := b.nl + i + 1
          consumed_le := Nat.le_refl _
          scanned_le := by
            have bound := (idxOf?_eq_some_iff.mp found).1
            rw [length_slice b.read_le] at bound
            omega
          scanned := by simp [slice] })
    | none =>
      (none,
        { b with
          nl := b.w
          consumed_le := Nat.le_trans b.consumed_le b.scanned_le
          scanned_le := Nat.le_refl _
          scanned := by
            rw [← slice_append_slice b.consumed_le b.scanned_le, mem_append]
            rintro (before | after)
            · exact b.scanned before
            · exact idxOf?_eq_none_iff.mp found after })

theorem next_line {b b' : ReadBuf} {line : List UInt8} (cut : b.next = (some line, b')) :
    (∃ body, newline ∉ body ∧ line = body ++ [newline]) ∧
      b.pending = line ++ b'.pending ∧ b'.err = b.err ∧ b'.empty = b.empty := by
  unfold next at cut
  split at cut
  · cases cut
  split at cut
  next i found =>
    cases cut
    obtain ⟨before, after, parts, absent, rfl⟩ := eq_append_of_idxOf? found
    have inside : b.nl + before.length + 1 ≤ b.w := by
      have whole := congrArg length parts
      rw [length_slice b.read_le, length_append, length_cons] at whole
      omega
    have head : slice b.buf b.nl (b.nl + before.length + 1) = before ++ [newline] := by
      have both : slice b.buf b.nl (b.nl + before.length + 1) ++
          slice b.buf (b.nl + before.length + 1) b.w = slice b.buf b.nl b.w :=
        slice_append_slice (by omega) inside
      rw [parts, ← singleton_append, ← append_assoc] at both
      refine (append_inj both ?_).1
      rw [length_slice (Nat.le_trans inside b.read_le), length_append, length_singleton]
      omega
    refine ⟨⟨slice b.buf b.r b.nl ++ before, ?_, ?_⟩, ?_, rfl, rfl⟩
    · rw [mem_append]
      rintro (old | new)
      · exact b.scanned old
      · exact absent new
    · rw [append_assoc, ← head]
      exact (slice_append_slice b.consumed_le (by omega)).symm
    · have := b.consumed_le
      exact (slice_append_slice (by omega) inside).symm
  · cases cut

theorem next_none {b b' : ReadBuf} (cut : b.next = (none, b')) :
    newline ∉ b.pending ∧ b'.pending = b.pending ∧ b'.err = b.err ∧ b'.empty = b.empty := by
  unfold next at cut
  split at cut
  next exhausted =>
    cases cut
    refine ⟨?_, rfl, rfl, rfl⟩
    have whole : b.nl = b.w := Nat.le_antisymm b.scanned_le exhausted
    have absent := b.scanned
    rw [whole] at absent
    exact absent
  · split at cut
    · cases cut
    next absent =>
      cases cut
      refine ⟨?_, rfl, rfl, rfl⟩
      rw [pending_eq, mem_append]
      rintro (before | after)
      · exact b.scanned before
      · exact idxOf?_eq_none_iff.mp absent after

def alloc (b : ReadBuf) : ReadBuf :=
  if fresh : b.buf.length = 0 then
    { b with
      buf := replicate readBufInit 0
      read_le := by
        have := b.read_le
        omega
      scanned := by
        have := b.read_le
        have := b.scanned_le
        simp [slice, show b.nl = 0 by omega] }
  else b

def shift (b : ReadBuf) : ReadBuf :=
  if 0 < b.r then
    { b with
      buf := b.pending ++ b.buf.drop (b.w - b.r)
      r := 0
      w := b.w - b.r
      nl := b.nl - b.r
      consumed_le := Nat.zero_le _
      scanned_le := Nat.sub_le_sub_right b.scanned_le _
      read_le := by
        rw [length_append, pending, length_slice b.read_le]
        exact Nat.le_add_right _ _
      scanned := by
        have bound : b.nl - b.r ≤ b.pending.length := by
          rw [pending, length_slice b.read_le]
          exact Nat.sub_le_sub_right b.scanned_le _
        rw [slice_append_left bound, pending, slice_slice _ b.scanned_le]
        exact b.scanned }
  else b

def grow (b : ReadBuf) : ReadBuf :=
  if b.w = b.buf.length then
    { b with
      buf := b.buf ++ replicate b.buf.length 0
      read_le := by
        have := b.read_le
        simp only [length_append]
        omega
      scanned := by
        rw [slice_append_left (Nat.le_trans b.scanned_le b.read_le)]
        exact b.scanned }
  else b

/-- What a read leaves in `buf[w:]`, with the counting of empty reads. -/
def accept (b : ReadBuf) (chunk : List UInt8) (err : Option ReadErr) : ReadBuf :=
  let idle := chunk.isEmpty && err.isNone
  { b with
    buf := b.buf.take b.w ++ chunk ++ b.buf.drop (b.w + chunk.length)
    w := b.w + chunk.length
    err := if idle && decide (100 ≤ b.empty + 1) then some .noProgress else err
    empty := if idle then b.empty + 1 else 0
    scanned_le := Nat.le_trans b.scanned_le (Nat.le_add_right _ _)
    read_le := by
      have := b.read_le
      simp only [length_append, length_take]
      omega
    scanned := by
      have bound : b.nl ≤ (b.buf.take b.w).length := by
        have := b.read_le
        have := b.scanned_le
        rw [length_take]
        omega
      rw [append_assoc, slice_append_left bound, slice_take _ b.scanned_le]
      exact b.scanned }

theorem pending_alloc : b.alloc.pending = b.pending := by
  unfold alloc
  split
  next fresh =>
    have none : b.w = 0 := by
      have := b.read_le
      omega
    simp [pending, slice, none]
  · rfl

theorem pending_shift : b.shift.pending = b.pending := by
  unfold shift
  split
  · have whole : b.w - b.r = b.pending.length := by rw [pending, length_slice b.read_le]
    show slice (b.pending ++ _) 0 (b.w - b.r) = b.pending
    rw [slice_append_left (Nat.le_of_eq whole), whole]
    simp [slice]
  · rfl

theorem pending_grow : b.grow.pending = b.pending := by
  unfold grow
  split
  · exact slice_append_left b.read_le _ _
  · rfl

theorem pending_accept (chunk : List UInt8) (err : Option ReadErr) :
    (b.accept chunk err).pending = b.pending ++ chunk := by
  have kept : (b.buf.take b.w).length = b.w := by
    rw [length_take, Nat.min_eq_left b.read_le]
  have ordered : b.r ≤ b.w := Nat.le_trans b.consumed_le b.scanned_le
  show slice (b.buf.take b.w ++ chunk ++ _) b.r (b.w + chunk.length) = slice b.buf b.r b.w ++ chunk
  have both : (b.buf.take b.w ++ chunk).length = b.w + chunk.length := by
    rw [length_append, kept]
  rw [slice_append_left (Nat.le_of_eq both.symm), slice, take_of_length_le (Nat.le_of_eq both),
    drop_append_of_le_length (by rw [kept]; exact ordered)]
  rfl

/-- The bytes left without a newline when the stream has ended. -/
def rest (b : ReadBuf) : List UInt8 :=
  if b.w ≤ b.r then [] else slice b.buf b.r b.w

theorem rest_eq : b.rest = b.pending := by
  unfold rest pending
  split
  next nothing =>
    refine (eq_nil_of_length_eq_zero ?_).symm
    rw [length_slice b.read_le]
    omega
  · rfl

def prepared (b : ReadBuf) : ReadBuf := b.alloc.shift.grow

def room (b : ReadBuf) : Nat := b.buf.length - b.w

theorem pending_prepared : b.prepared.pending = b.pending := by
  rw [prepared, pending_grow, pending_shift, pending_alloc]

theorem empty_prepared : b.prepared.empty = b.empty := by
  unfold prepared grow shift alloc
  split <;> split <;> split <;> rfl

theorem length_alloc : 0 < b.alloc.buf.length := by
  unfold alloc
  split
  · show 0 < (replicate readBufInit (0 : UInt8)).length
    rw [length_replicate]
    decide
  · omega

theorem length_shift : b.shift.buf.length = b.buf.length := by
  unfold shift
  split
  · have := b.read_le
    simp only [length_append, length_drop, pending, length_slice b.read_le]
    omega
  · rfl

theorem room_grow (some : 0 < b.buf.length) : 0 < b.grow.room := by
  have := b.read_le
  unfold room grow
  split
  · simp only [length_append, length_replicate]
    omega
  · omega

theorem room_prepared : 0 < b.prepared.room := by
  apply room_grow _
  rw [length_shift]
  exact b.length_alloc

variable (plan : Nat → Offer)

def fill (done : Bool) (b : ReadBuf) (src : Upstream) : ReadBuf × Upstream :=
  let (chunk, src') := src.ctxRead plan done b.prepared.room
  (b.prepared.accept chunk.1 chunk.2, src')

/-- A read moves bytes from the upstream into the buffer and loses none. -/
theorem pending_fill (done : Bool) (b : ReadBuf) (src : Upstream) :
    (b.fill plan done src).1.pending ++ (b.fill plan done src).2.rest = b.pending ++ src.rest := by
  show (b.prepared.accept _ _).pending ++ _ = _
  rw [pending_accept, pending_prepared, append_assoc]
  exact congrArg _ (src.ctxRead_rest plan done _)

/-- Every read brings bytes, an error or one more empty read on the way to `ErrNoProgress`. -/
theorem fill_progress (done : Bool) (b : ReadBuf) (src : Upstream) :
    (b.fill plan done src).2.rest.length < src.rest.length ∨
      (b.fill plan done src).2.rest.length = src.rest.length ∧
        ((b.fill plan done src).1.err ≠ none ∨
          100 - (b.fill plan done src).1.empty < 100 - b.empty) := by
  have moved := congrArg length (src.ctxRead_rest plan done b.prepared.room)
  rw [length_append] at moved
  simp only [fill, accept, empty_prepared]
  cases chunk : (src.ctxRead plan done b.prepared.room).1.1 with
  | cons x xs =>
    rw [chunk, length_cons] at moved
    exact .inl (by omega)
  | nil =>
    rw [chunk, length_nil] at moved
    refine .inr ⟨by omega, ?_⟩
    cases err : (src.ctxRead plan done b.prepared.room).1.2 with
    | some e => exact .inl (by simp)
    | none =>
      by_cases stuck : 100 ≤ b.empty + 1
      · exact .inl (by simp [stuck])
      refine .inr ?_
      simp only [isEmpty_nil, Option.isNone_none, Bool.and_self, if_true]
      omega

end ReadBuf

/-- A body that ends in EOF and never makes 100 empty reads in a row. -/
structure Fair (plan : Nat → Offer) : Prop where
  sound : ∀ i n, plan i ≠ .fail n
  progress : ∀ i, ∃ j < 100, (plan (i + j)).size ≠ 0

/-- The buffer and the upstream as the loop holds them over a fair body. -/
structure Waiting (plan : Nat → Offer) (b : ReadBuf) (src : Upstream) : Prop where
  clean : b.err = none ∨ b.err = some .eof ∧ src.rest = []
  counted : b.empty ≤ src.reads
  idle : ∀ i < b.empty, (plan (src.reads - b.empty + i)).size = 0

namespace Waiting

variable {plan : Nat → Offer} {b b' : ReadBuf} {src : Upstream}

theorem start (stream : List UInt8) : Waiting plan .new { rest := stream } where
  clean := .inl rfl
  counted := Nat.le_refl _
  idle := fun _ wrong => absurd wrong (Nat.not_lt_zero _)

theorem congr (waiting : Waiting plan b src) (err : b'.err = b.err) (empty : b'.empty = b.empty) :
    Waiting plan b' src where
  clean := by rw [err]; exact waiting.clean
  counted := by rw [empty]; exact waiting.counted
  idle := by rw [empty]; exact waiting.idle

theorem few (fair : Fair plan) (waiting : Waiting plan b src)
    (again : (plan src.reads).size = 0) : b.empty + 1 < 100 := by
  by_contra many
  obtain ⟨j, bound, given⟩ := fair.progress (src.reads - b.empty)
  have counted := waiting.counted
  rcases Nat.lt_or_ge j b.empty with earlier | later
  · exact given (waiting.idle j earlier)
  have last : j = b.empty := by omega
  rw [last, Nat.sub_add_cancel counted] at given
  exact given again

theorem fill (fair : Fair plan) (waiting : Waiting plan b src) :
    Waiting plan (b.fill plan false src).1 (b.fill plan false src).2 := by
  have reads : (b.fill plan false src).2.reads = src.reads + 1 := src.ctxRead_reads plan _
  have counted := waiting.counted
  rcases src.ctxRead_err plan b.room_prepared fair.sound with ⟨err, dry⟩ | ⟨err, idle⟩
  · have fresh : (b.fill plan false src).1.empty = 0 := by
      simp [ReadBuf.fill, ReadBuf.accept, err]
    refine ⟨.inr ⟨?_, dry⟩, by omega, fun i small => absurd small (by omega)⟩
    simp [ReadBuf.fill, ReadBuf.accept, err]
  · cases chunk : (src.ctxRead plan false b.prepared.room).1.1 with
    | cons x xs =>
      have fresh : (b.fill plan false src).1.empty = 0 := by
        simp [ReadBuf.fill, ReadBuf.accept, chunk]
      refine ⟨.inl ?_, by omega, fun i small => absurd small (by omega)⟩
      simp [ReadBuf.fill, ReadBuf.accept, chunk, err]
    | nil =>
      have again := idle chunk
      have room := waiting.few fair again
      have more : (b.fill plan false src).1.empty = b.empty + 1 := by
        simp [ReadBuf.fill, ReadBuf.accept, chunk, err, ReadBuf.empty_prepared]
      refine ⟨.inl ?_, by omega, fun i small => ?_⟩
      · simp [ReadBuf.fill, ReadBuf.accept, chunk, err, ReadBuf.empty_prepared]
        omega
      · rw [more, reads, show src.reads + 1 - (b.empty + 1) = src.reads - b.empty by omega]
        rcases Nat.lt_or_ge i b.empty with earlier | later
        · exact waiting.idle i earlier
        · rw [show src.reads - b.empty + i = src.reads by omega]
          exact again

end Waiting

end C3Api.Relay
