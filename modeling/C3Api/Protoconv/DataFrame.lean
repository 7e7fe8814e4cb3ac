import C3Api.Relay.Faithful

/-!
# Frames without an event name

`encodeDataFrame` writes one data line for every line of the payload. The relay's parser joins
them again, but a newline at either end of the payload is lost on the way: what is read never
begins with one, and one at the end closes a second event (`trailing_newline_lost`).
-/

namespace C3Api.Protoconv.DataFrame

open Relay C3Api.Stream List Output

-- "data: "
def dataLabel : List UInt8 := dataField ++ [colon, 32]

def encodeDataFrame (data : List UInt8) : List UInt8 :=
  let (lines, rest) := split newline data
  (lines.flatMap fun line => dataLabel ++ line) ++
    (if rest.isEmpty then [] else dataLabel ++ rest) ++ [newline, newline]

section

variable {body rest : List UInt8} {lines : List (List UInt8)} {a : Assembly}

/-- A line of a payload, without its newline. -/
structure Bare (body : List UInt8) : Prop where
  noNewline : newline ∉ body
  noReturn : carriageReturn ∉ body

/-- Lines that end with their newline and hold no other. -/
def Whole (lines : List (List UInt8)) : Prop :=
  ∀ line ∈ lines, ∃ body, line = body ++ [newline] ∧ Bare body

theorem split_bare (data : List UInt8) (noReturn : carriageReturn ∉ data) :
    Whole (split newline data).1 ∧ Bare (split newline data).2 := by
  induction data with
  | nil => exact ⟨by simp [Whole, split], by simp [split], by simp [split]⟩
  | cons c data ih =>
    rw [mem_cons, not_or] at noReturn
    obtain ⟨whole, bare⟩ := ih noReturn.2
    by_cases same : c = newline
    · simp only [split, same, if_true]
      refine ⟨fun line member => ?_, bare⟩
      rcases mem_cons.mp member with rfl | later
      · exact ⟨[], rfl, not_mem_nil, not_mem_nil⟩
      · exact whole line later
    · have extended {body : List UInt8} (bare : Bare body) : Bare (c :: body) :=
        ⟨by simp [bare.noNewline, Ne.symm same], by simp [bare.noReturn, noReturn.1]⟩
      rw [split, if_neg same]
      cases lines : (split newline data).1 with
      | nil => exact ⟨by simp [Whole], extended bare⟩
      | cons first more =>
        rw [lines] at whole
        refine ⟨fun line member => ?_, bare⟩
        rcases mem_cons.mp member with rfl | later
        · obtain ⟨body, rfl, inside⟩ := whole first mem_cons_self
          exact ⟨c :: body, rfl, extended inside⟩
        · exact whole line (mem_cons_of_mem _ later)

theorem splitField_data (bare : Bare body) :
    splitField (dataLabel ++ body ++ [newline]) = (dataField, body) := by
  have kept : body.rdropWhile (fun b => b == newline || b == carriageReturn) = body := by
    refine rdropWhile_eq_self_iff.mpr fun some ended => ?_
    have last := getLast_mem some
    rcases Bool.or_eq_true_iff.mp ended with same | same
    · exact bare.noNewline (eq_of_beq same ▸ last)
    · exact bare.noReturn (eq_of_beq same ▸ last)
  change (dataField, (body ++ [newline]).rdropWhile _) = _
  rw [rdropWhile_concat_pos _ _ _ (by decide), kept]

theorem label_not_blank (body : List UInt8) : ¬ Blank (dataLabel ++ body) := by
  rintro (same | same) <;> cases same

theorem absent (bare : Bare body) : newline ∉ dataLabel ++ body := by
  rw [mem_append, not_or]
  exact ⟨by decide, bare.noNewline⟩

theorem joined_head (bare : Bare body) (first : a.data.head? ≠ some newline) :
    (if a.data.isEmpty then body else a.data ++ newline :: body).head? ≠ some newline := by
  split
  · exact fun same => bare.noNewline (mem_of_head? same)
  next some' =>
    rwa [head?_append_of_ne_nil _ (by simpa using some')]

/-- What a data line adds to the payload read so far. -/
theorem parse_data (bare : Bare body) (lines : List (List UInt8)) (rest : List UInt8) :
    parse a ((dataLabel ++ body ++ [newline]) :: lines) rest =
      parse ⟨a.frame ++ (dataLabel ++ body ++ [newline]),
        if a.data.isEmpty then body else a.data ++ newline :: body, a.event⟩ lines rest := by
  rw [append_assoc] at *
  rw [parse, if_neg (label_not_blank _), Assembly.field, ← append_assoc, splitField_data bare]
  rfl

/-- The lines of an encoded payload stand before those of what follows. -/
theorem split_encoded (whole : Whole lines) (more : List UInt8) :
    split newline ((lines.flatMap fun line => dataLabel ++ line) ++ more) =
      ((lines.map fun line => dataLabel ++ line) ++ (split newline more).1,
        (split newline more).2) := by
  induction lines with
  | nil => rfl
  | cons line lines ih =>
    obtain ⟨body, rfl, inside⟩ := whole line mem_cons_self
    have cut := split_line (absent inside) ((lines.flatMap fun line => dataLabel ++ line) ++ more)
    rw [ih (forall_mem_cons.mp whole).2] at cut
    simpa using cut

theorem split_closed (bare : Bare rest) :
    split newline (dataLabel ++ rest ++ [newline, newline]) =
      ([dataLabel ++ rest ++ [newline], [newline]], []) :=
  split_line (absent bare) [newline]

/-- The data read off data lines never begins with a newline. -/
theorem parse_lines (whole : Whole lines) (first : a.data.head? ≠ some newline) :
    ∃ a' : Assembly, a'.data.head? ≠ some newline ∧ ∀ more rest,
      parse a ((lines.map fun line => dataLabel ++ line) ++ more) rest = parse a' more rest := by
  induction lines generalizing a with
  | nil => exact ⟨a, first, fun _ _ => rfl⟩
  | cons line lines ih =>
    obtain ⟨body, rfl, inside⟩ := whole line mem_cons_self
    obtain ⟨a', first', same⟩ := ih (a := ⟨a.frame ++ (dataLabel ++ body ++ [newline]),
      if a.data.isEmpty then body else a.data ++ newline :: body, a.event⟩)
      (forall_mem_cons.mp whole).2 (joined_head inside first)
    refine ⟨a', first', fun more rest => ?_⟩
    rw [map_cons, cons_append, ← append_assoc, parse_data inside, same]

/-- The lines are joined again behind what was read before them. -/
theorem parse_encoded (whole : Whole lines) (bare : Bare rest)
    (first : a.data = [] → (lines.flatten ++ rest).head? ≠ some newline) :
    ∃ raw, parse a ((lines.map fun line => dataLabel ++ line) ++
        [dataLabel ++ rest ++ [newline], [newline]]) [] =
      [⟨raw, a.event, if a.data.isEmpty then lines.flatten ++ rest
        else a.data ++ newline :: (lines.flatten ++ rest)⟩] := by
  induction lines generalizing a with
  | nil =>
    rw [map_nil, nil_append, parse_data bare, parse, if_pos (.inr rfl)]
    exact ⟨_, rfl⟩
  | cons line lines ih =>
    obtain ⟨body, rfl, inside⟩ := whole line mem_cons_self
    rw [map_cons, cons_append, ← append_assoc, parse_data inside]
    -- after one line that is not empty the payload read so far is not empty
    have grown : (if a.data.isEmpty then body else a.data ++ newline :: body) ≠ [] := by
      split
      next nothing =>
        rintro rfl
        exact first (List.isEmpty_iff.mp nothing) rfl
      · simp
    generalize known : (if a.data.isEmpty then body else a.data ++ newline :: body) = data at *
    obtain ⟨raw, parsed⟩ := ih (a := ⟨_, data, a.event⟩) (forall_mem_cons.mp whole).2
      fun nothing => absurd nothing grown
    refine ⟨raw, parsed.trans ?_⟩
    rw [if_neg (by simpa using grown), ← known]
    split <;> simp

end

section

variable {data : List UInt8} (filled : data ≠ []) (noReturn : carriageReturn ∉ data)

include filled noReturn

/-- A payload ends with a newline if nothing stands behind its last line. -/
theorem rest_eq_nil_iff : (split newline data).2 = [] ↔ data.getLast? = some newline := by
  obtain ⟨whole, bare⟩ := split_bare data noReturn
  have parts : (split newline data).1.flatten ++ (split newline data).2 = data :=
    split_flatten data
  constructor
  · intro none
    rw [none, append_nil] at parts
    rcases eq_nil_or_concat (split newline data).1 with nothing | ⟨lines, line, same⟩
    · rw [nothing] at parts
      exact absurd parts.symm filled
    · obtain ⟨body, rfl, -⟩ := whole line (same ▸ by simp)
      rw [same] at parts
      simp [← parts]
  · intro last
    by_contra some'
    rw [← parts, getLast?_append_of_ne_nil _ some'] at last
    exact bare.noNewline (mem_of_getLast? last)

theorem events_encodeDataFrame :
    (∃ raw, events (encodeDataFrame data) = [⟨raw, [], data⟩]) ↔
      data.head? ≠ some newline ∧ data.getLast? ≠ some newline := by
  obtain ⟨whole, bare⟩ := split_bare data noReturn
  have parts : (split newline data).1.flatten ++ (split newline data).2 = data :=
    split_flatten data
  obtain ⟨a', first, lines⟩ := parse_lines (a := {}) whole (by simp)
  rw [ne_eq, ne_eq, ← rest_eq_nil_iff filled noReturn, events, encodeDataFrame]
  by_cases ends : (split newline data).2 = []
  · -- the newline that ends the last line and the frame's own close two events
    simp only [ends, isEmpty_nil, if_true, append_nil, not_true, and_false, iff_false]
    rw [split_encoded whole, lines]
    simp [split, parse, Blank]
  have open' : (split newline data).2.isEmpty = false := by simpa using ends
  simp only [open', Bool.false_eq_true, if_false, append_assoc, ends, not_false_iff, and_true]
  rw [split_encoded whole, ← append_assoc, split_closed bare]
  constructor
  · rintro ⟨raw, parsed⟩
    rw [lines, parse_data bare, parse, if_pos (.inr rfl)] at parsed
    have same : (if a'.data.isEmpty then _ else _) = data := congrArg Event.data (cons.inj parsed).1
    have head := joined_head bare first
    rwa [same] at head
  · intro begins
    rw [← parts] at begins
    obtain ⟨raw, parsed⟩ := parse_encoded (a := {}) whole bare fun _ => begins
    rw [parts] at parsed
    exact ⟨raw, parsed⟩

end

/-- A relay that is not cut off reads the encoded frame of a payload back if and only if the
payload neither begins nor ends with a newline. -/
theorem data_frame_read_back {σ : Type} (cfg : Config σ) (mapper : σ) {env : Env} {out : Output}
    (steady : Steady env) (healthy : out.Healthy) {data : List UInt8} (filled : data ≠ [])
    (noReturn : carriageReturn ∉ data)
    (kept : (relay cfg env mapper out (encodeDataFrame data)).1.out.selfCanceled = false) :
    (∃ raw, (relay cfg env mapper out (encodeDataFrame data)).1.seen = [⟨raw, [], data⟩]) ↔
      data.head? ≠ some newline ∧ data.getLast? ≠ some newline := by
  rw [relay_seen cfg steady mapper healthy _ kept]
  exact events_encodeDataFrame filled noReturn

theorem data_frame_read_back_lines :
    ∃ raw, (relay {} wholeReads () {} (encodeDataFrame [97, 10, 10, 98])).1.seen =
      [⟨raw, [], [97, 10, 10, 98]⟩] :=
  (data_frame_read_back ({} : Config Unit) () wholeReads_steady healthy_new (by decide)
    (by decide) (relay_uncanceled _ wholeReads_steady () healthy_new _
      Client.sound_new)).mpr (by decide)

/-- The payload "a" with a newline comes back without it, and an empty event follows. -/
theorem trailing_newline_lost :
    (relay {} wholeReads () {} (encodeDataFrame [97, 10])).1.seen.map Event.data = [[97], []] := by
  rw [relay_seen ({} : Config Unit) wholeReads_steady () healthy_new _
    (relay_uncanceled _ wholeReads_steady () healthy_new _ Client.sound_new)]
  decide

end C3Api.Protoconv.DataFrame
