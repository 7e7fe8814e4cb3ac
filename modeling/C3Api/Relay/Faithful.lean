import C3Api.Relay.Run

/-!
# The relay neither depends on the chunks nor changes a byte

`parse` reads the events off the lines of a whole stream. Over a body that ends in EOF and
with no cancellation the loop observes exactly these, wherever the reads cut the stream: a
read moves bytes from the upstream into the buffer, and the lines of what the two hold
together are what the loop has still to see.
-/

namespace C3Api.Relay

open C3Api.Stream List Output Loop Assembly ReadBuf

/-- The events of the lines and the rest of a stream, after the frame begun before them. -/
def parse (a : Assembly) : List (List UInt8) → List UInt8 → List Event
  | [], rest => if (a.last rest).frame.isEmpty then [] else [(a.last rest).toEvent]
  | line :: lines, rest =>
    if Blank line then (a.write line).toEvent :: parse {} lines rest
    else parse ((a.write line).field line) lines rest

def events (stream : List UInt8) : List Event :=
  parse {} (split newline stream).1 (split newline stream).2

def rawBytes (seen : List Event) : List UInt8 := seen.flatMap Event.raw

variable {out : Output} (a : Assembly)

theorem Assembly.frame_field (line : List UInt8) : (a.field line).frame = a.frame := by
  unfold field
  simp only
  split
  · rfl
  · split <;> rfl

theorem Assembly.frame_last (rest : List UInt8) : (a.last rest).frame = a.frame ++ rest := by
  unfold last
  split
  next nothing => rw [List.isEmpty_iff.mp nothing, append_nil]
  · exact (a.write rest).frame_field rest

theorem rawBytes_parse (lines : List (List UInt8)) (rest : List UInt8) :
    rawBytes (parse a lines rest) = a.frame ++ lines.flatten ++ rest := by
  induction lines generalizing a with
  | nil =>
    unfold parse
    split
    next nothing =>
      have frame := List.isEmpty_iff.mp nothing
      rw [a.frame_last] at frame
      simpa [rawBytes] using frame
    · simp [rawBytes, toEvent, a.frame_last]
  | cons line lines ih =>
    unfold parse
    split
    · have later := ih {}
      simp only [rawBytes] at later
      simp [rawBytes, later, toEvent, write]
    · rw [ih, frame_field]
      simp [write]

theorem rawBytes_events (stream : List UInt8) : rawBytes (events stream) = stream := by
  rw [events, rawBytes_parse]
  exact split_flatten stream

variable {σ : Type*} (cfg : Config σ) (env : Env)

namespace Loop

variable {l : Loop σ}

theorem ended_healthy (alive : ∀ k, env.canceled k = false) (healthy : l.out.Healthy) :
    l.ended cfg env = false := by
  simp [ended, alive, healthy.unfailed]

variable (ruined : l.out.Ruined)

include ruined

theorem flushFrame_ruined : (l.flushFrame cfg env).1.out.Ruined := by
  unfold flushFrame
  simp only
  split
  · exact ruined
  · rw [writeFrame_ruined _ _ (beat_ruined _ _ ruined)]
    exact beat_ruined _ _ ruined

theorem takeLine_ruined (line : List UInt8) : (l.takeLine cfg env line).1.out.Ruined := by
  unfold takeLine
  split
  · exact flushFrame_ruined cfg env ruined
  · exact ruined

theorem stop_ruined : (l.stop cfg env).out.Ruined :=
  beat_ruined _ _ ruined

theorem finish_ruined (rest : List UInt8) : (l.finish cfg env rest).1.out.Ruined := by
  unfold finish
  simp only
  split
  · exact ruined
  · exact flushFrame_ruined cfg env (stop_ruined cfg env ruined)

theorem drain_ruined : (l.drain cfg env).1.out.Ruined := by
  unfold drain
  rw [drainFlush_ruined _ _ (beat_ruined _ _ ruined)]
  exact beat_ruined _ _ ruined

theorem close_ruined : (l.close cfg env).1.out.Ruined := by
  unfold close
  simp only [ruined.1, if_true]
  split
  · exact ruined
  rw [writeFrame_ruined _ _ ruined]
  simp only
  rw [drainFlush_ruined _ _ ruined]
  exact ruined

end Loop

/-- A run goes on after a failed heartbeat, but its output stays as it is. -/
theorem run_ruined (rb : ReadBuf) (src : Upstream) (l : Loop σ) (ruined : l.out.Ruined) :
    (run cfg env rb src l).1.out.Ruined := by
  fun_induction run cfg env rb src l with
  | case1 rb src l line rb' cut l' err took | case2 rb src l line rb' cut l' took ended =>
    have kept := takeLine_ruined cfg env ruined line
    rwa [took] at kept
  | case3 rb src l line rb' cut l' took alive ih =>
    have kept := takeLine_ruined cfg env ruined line
    rw [took] at kept
    exact ih kept
  | case4 rb src l rb' cut eof l' err finished =>
    have kept := finish_ruined cfg env ruined rb'.rest
    rwa [finished] at kept
  | case5 rb src l rb' cut err failed _ => exact ruined
  | case6 rb src l rb' cut waiting l' err drained =>
    have kept := drain_ruined cfg env ruined
    rwa [drained] at kept
  | case7 rb src l rb' cut waiting l' drained ih =>
    have kept := drain_ruined cfg env ruined
    rw [drained] at kept
    exact ih kept

variable {cfg env}

/-- From `l` to `l'` exactly the events `new` were observed and nothing failed. -/
structure Goes (cfg : Config σ) (env : Env) (l : Loop σ) (new : List Event) (l' : Loop σ) :
    Prop where
  healthy : l'.out.Healthy
  seen : l'.seen = l.seen ++ new
  quiet : Output.Quiet env.client l.out → Output.Quiet env.client l'.out
  plain : cfg.mapper = none → Output.Quiet env.client l.out →
    l'.out.sent = l.out.sent ++ rawBytes new ∧ l'.mapper = l.mapper

namespace Goes

variable {l l' l'' : Loop σ} {first second : List Event}

theorem trans (before : Goes cfg env l first l') (after : Goes cfg env l' second l'') :
    Goes cfg env l (first ++ second) l'' where
  healthy := after.healthy
  seen := by rw [after.seen, before.seen, append_assoc]
  quiet := fun quiet => after.quiet (before.quiet quiet)
  plain := by
    intro raw quiet
    obtain ⟨sent, same⟩ := before.plain raw quiet
    obtain ⟨sent', same'⟩ := after.plain raw (before.quiet quiet)
    refine ⟨?_, same'.trans same⟩
    rw [sent', sent, append_assoc]
    exact congrArg _ flatMap_append.symm

theorem look (goes : Goes cfg env l first l') : Goes cfg env l first l'.look :=
  ⟨goes.healthy, goes.seen, goes.quiet, goes.plain⟩

end Goes

variable (cfg)

namespace Loop

variable {l : Loop σ} (alive : ∀ k, env.canceled k = false) (healthy : l.out.Healthy)

include alive healthy

theorem flushFrame_goes :
    ((l.flushFrame cfg env).1.out.Ruined ∧ env.client.Breaks) ∨
      (l.flushFrame cfg env).2 = none ∧ (l.flushFrame cfg env).1.assembly = {} ∧
        Goes cfg env l [l.assembly.toEvent] (l.flushFrame cfg env).1 := by
  unfold flushFrame
  simp only [ended_healthy cfg env alive healthy]
  split
  next dropped =>
    refine .inr ⟨rfl, rfl, healthy, rfl, id, fun raw => ?_⟩
    rw [raw] at dropped
    cases dropped
  next bytes mapped =>
    rcases beat_cases env.client healthy with ⟨well, timer, quiet⟩ | ⟨ruined, broke⟩
    · have went := writeFrame_went env.client false well bytes
      generalize (l.out.beat env.client false).writeFrame env.client false bytes = wrote at went
      rcases wrote with ⟨out, _ | e⟩
      · obtain ⟨-, well', sent, timer'⟩ | ⟨err, -⟩ := went
        · refine .inr ⟨rfl, rfl, well', rfl, ?_, ?_⟩
          · intro silent
            rw [Output.Quiet, timer', timer]
            exact silent
          · intro raw silent
            rw [raw] at mapped
            cases mapped
            refine ⟨?_, by rw [raw]⟩
            rw [sent, quiet silent]
            simp [rawBytes, toEvent]
        · exact absurd rfl err
      · obtain ⟨fine, -⟩ | ⟨-, failed, canceled, broke⟩ := went
        · cases fine
        · exact .inl ⟨⟨failed, canceled rfl⟩, broke⟩
    · rw [writeFrame_ruined _ _ ruined]
      exact .inl ⟨ruined, broke⟩

theorem takeLine_goes (line : List UInt8) :
    ((l.takeLine cfg env line).1.out.Ruined ∧ env.client.Breaks) ∨
      (l.takeLine cfg env line).2 = none ∧ ∃ new, Goes cfg env l new (l.takeLine cfg env line).1 ∧
          ∀ lines rest, parse l.assembly (line :: lines) rest =
            new ++ parse (l.takeLine cfg env line).1.assembly lines rest := by
  unfold takeLine
  split
  next blank =>
    rcases flushFrame_goes cfg (l := { l with assembly := l.assembly.write line }) alive healthy with
      failed | ⟨fine, started, goes⟩
    · exact .inl failed
    refine .inr ⟨fine, [(l.assembly.write line).toEvent], ?_, ?_⟩
    · exact ⟨goes.healthy, goes.seen, goes.quiet, goes.plain⟩
    intro lines rest
    rw [started, parse, if_pos blank]
    rfl
  next filled =>
    refine .inr ⟨rfl, [], ⟨healthy, (append_nil _).symm, id, fun _ _ => ⟨?_, rfl⟩⟩, ?_⟩
    · exact (append_nil _).symm
    intro lines rest
    rw [parse, if_neg filled]
    rfl

theorem stop_goes :
    ((l.stop cfg env).out.Ruined ∧ env.client.Breaks) ∨ Goes cfg env l [] (l.stop cfg env) := by
  unfold stop
  rw [ended_healthy cfg env alive healthy]
  rcases beat_cases env.client healthy with ⟨well, timer, quiet⟩ | failed
  · refine .inr ⟨⟨well.unfinished, well.unfailed, well.uncanceled, well.working, well.counted⟩,
      (append_nil _).symm, fun _ => .inl rfl, fun _ silent => ⟨?_, rfl⟩⟩
    exact (quiet silent).trans (append_nil _).symm
  · exact .inl failed

theorem finish_goes (rest : List UInt8) :
    ((l.finish cfg env rest).1.out.Ruined ∧ env.client.Breaks) ∨ (l.finish cfg env rest).2 = none ∧
        Goes cfg env l (parse l.assembly [] rest) (l.finish cfg env rest).1 := by
  unfold finish
  simp only [parse]
  split
  · refine .inr ⟨rfl, healthy, (append_nil _).symm, id, fun _ _ => ⟨?_, rfl⟩⟩
    exact (append_nil _).symm
  rcases stop_goes cfg alive (l := { l with assembly := l.assembly.last rest }) healthy with
    ⟨ruined, broke⟩ | stopped
  · exact .inl ⟨flushFrame_ruined cfg env ruined, broke⟩
  · rcases flushFrame_goes cfg alive stopped.healthy with failed | ⟨fine, -, goes⟩
    · exact .inl failed
    · have both := stopped.trans goes
      exact .inr ⟨fine, both.healthy, both.seen, both.quiet, both.plain⟩

theorem drain_goes :
    ((l.drain cfg env).1.out.Ruined ∧ env.client.Breaks) ∨
      (l.drain cfg env).2 = none ∧ (l.drain cfg env).1.assembly = l.assembly ∧
        Goes cfg env l [] (l.drain cfg env).1 := by
  unfold drain
  simp only [ended_healthy cfg env alive healthy]
  rcases beat_cases env.client healthy with ⟨well, timer, quiet⟩ | ⟨ruined, broke⟩
  · rcases (drainFlush_went env.client false well).1 with
      ⟨fine, well', sent, timer'⟩ | ⟨err, failed, canceled, broke⟩
    · refine .inr ⟨fine, trivial, well', (append_nil _).symm, ?_, ?_⟩
      · intro silent
        rw [Output.Quiet, timer', timer]
        exact silent
      · intro _ silent
        exact ⟨by rw [sent, quiet silent]; rfl, rfl⟩
    · exact .inl ⟨⟨failed, canceled rfl⟩, broke⟩
  · rw [drainFlush_ruined _ _ ruined]
    exact .inl ⟨ruined, broke⟩

end Loop

/-- A body that ends in EOF without stalling, under a context that never ends. -/
structure Steady (env : Env) : Prop where
  fair : Fair env.reads
  alive : ∀ k, env.canceled k = false

/-- What a run observes are the events of the lines it has still to see, whether they are in
the buffer or still upstream. -/
theorem run_goes (steady : Steady env) (rb : ReadBuf) (src : Upstream) (l : Loop σ)
    (waiting : Waiting env.reads rb src) (healthy : l.out.Healthy) :
    ((run cfg env rb src l).1.out.Ruined ∧ env.client.Breaks) ∨ (run cfg env rb src l).2 = none ∧
        Goes cfg env l (parse l.assembly (split newline (rb.pending ++ src.rest)).1
          (split newline (rb.pending ++ src.rest)).2) (run cfg env rb src l).1 := by
  fun_induction run cfg env rb src l with
  | case1 rb src l line rb' cut l' err took =>
    have step := takeLine_goes cfg steady.alive healthy line
    rw [took] at step
    rcases step with failed | ⟨fine, -⟩
    · exact .inl failed
    · cases fine
  | case2 rb src l line rb' cut l' took ended =>
    have step := takeLine_goes cfg steady.alive healthy line
    rw [took] at step
    rcases step with failed | ⟨-, new, goes, -⟩
    · exact .inl failed
    · rw [ended_healthy cfg env steady.alive goes.healthy] at ended
      cases ended
  | case3 rb src l line rb' cut l' took alive ih =>
    have step := takeLine_goes cfg steady.alive healthy line
    rw [took] at step
    obtain ⟨⟨body, absent, ended⟩, parts, err, empty⟩ := next_line cut
    rcases step with ⟨ruined, broke⟩ | ⟨-, new, goes, parsed⟩
    · exact .inl ⟨run_ruined cfg env rb' src l'.look ruined, broke⟩
    rcases ih (waiting.congr err empty) goes.healthy with failed | ⟨fine, later⟩
    · exact .inl failed
    refine .inr ⟨fine, ?_⟩
    have lines : split newline (rb.pending ++ src.rest) =
        (line :: (split newline (rb'.pending ++ src.rest)).1,
          (split newline (rb'.pending ++ src.rest)).2) := by
      rw [parts, ended, append_assoc, append_assoc]
      exact split_line absent _
    rw [lines, parsed]
    exact goes.look.trans later
  | case4 rb src l rb' cut eof l' err finished =>
    obtain ⟨absent, same, sameErr, -⟩ := next_none cut
    have dry : src.rest = [] := by
      rcases waiting.clean with clean | ⟨-, dry⟩
      · rw [sameErr, clean] at eof
        cases eof
      · exact dry
    have step := finish_goes cfg steady.alive healthy rb'.rest
    rw [finished] at step
    rw [dry, append_nil, split_of_notMem absent, ← same, ← rb'.rest_eq]
    rcases step with failed | ⟨fine, goes⟩
    · exact .inl failed
    · exact .inr ⟨by simp [show err = none from fine], goes⟩
  | case5 rb src l rb' cut err notEof failed =>
    obtain ⟨-, -, sameErr, -⟩ := next_none cut
    rcases waiting.clean with clean | ⟨eof, -⟩
    · rw [sameErr, clean] at failed
      cases failed
    · rw [sameErr, eof] at failed
      cases failed
      exact (notEof rfl).elim
  | case6 rb src l rb' cut open' l' err drained =>
    have step := drain_goes cfg steady.alive healthy
    rw [drained] at step
    rcases step with failed | ⟨fine, -⟩
    · exact .inl failed
    · cases fine
  | case7 rb src l rb' cut open' l' drained ih =>
    have step := drain_goes cfg steady.alive healthy
    rw [drained] at step
    obtain ⟨-, same, err, empty⟩ := next_none cut
    rcases step with ⟨ruined, broke⟩ | ⟨-, assembly, goes⟩
    · exact .inl ⟨run_ruined cfg env _ _ _ ruined, broke⟩
    have ended := ended_healthy cfg env steady.alive goes.healthy
    have filled := (waiting.congr err empty).fill steady.fair
    have kept := rb'.pending_fill env.reads false src
    rw [ended] at ih ⊢
    rcases ih filled goes.healthy with failed | ⟨fine, later⟩
    · exact .inl failed
    refine .inr ⟨fine, ?_⟩
    rw [kept, same, show l'.look.assembly = l.assembly from assembly] at later
    exact goes.look.trans later

namespace Loop

variable {l : Loop σ}

theorem close_goes (alive : ∀ k, env.canceled k = false) (healthy : l.out.Healthy) :
    ((l.close cfg env).1.out.Ruined ∧ env.client.Breaks) ∨
      (l.close cfg env).1.out.Healthy ∧ (l.close cfg env).1.seen = l.seen ∧
        (l.close cfg env).1.out.bw.wire = l.out.sent ++ terminalFrame cfg l.mapper := by
  unfold close
  simp only [ended_healthy cfg env alive healthy, healthy.unfailed]
  rw [if_neg Bool.false_ne_true]
  rcases drainFlush_wire env.client healthy with
    ⟨fine, well, wire, sent⟩ | ⟨err, ruined, broke⟩
  · by_cases bare : (terminalFrame cfg l.mapper).isEmpty = true
    · rw [if_pos (by simp [bare]), List.isEmpty_iff.mp bare, append_nil]
      exact .inr ⟨well, rfl, wire⟩
    · rw [if_neg (by simp [bare, fine])]
      rcases writeFrame_went env.client false well (terminalFrame cfg l.mapper) with
        ⟨fine', well', sent', -⟩ | ⟨err, failed, canceled, broke⟩
      · split
        next wrong =>
          rw [wrong] at fine'
          cases fine'
        next out' wrote =>
          rw [wrote] at well' sent'
          rcases drainFlush_wire env.client well' with
            ⟨-, drained, wire', -⟩ | ⟨-, ruined, broke⟩
          · refine .inr ⟨drained, rfl, ?_⟩
            rw [← sent, ← sent']
            exact wire'
          · exact .inl ⟨ruined, broke⟩
      · split
        next out' err' wrote =>
          rw [wrote] at failed canceled
          exact .inl ⟨⟨failed, canceled rfl⟩, broke⟩
        next out' wrote =>
          rw [wrote] at err
          exact absurd rfl err
  · rw [if_pos (by simp [Option.isSome_iff_ne_none, err])]
    exact .inl ⟨ruined, broke⟩

end Loop

/-- The state a relay ends in: a stream that came to its end is closed. -/
theorem relay_fst (mapper : σ) (out : Output) (stream : List UInt8) :
    (relay cfg env mapper out stream).1 =
      if (run cfg env .new { rest := stream } { mapper, out }).2 = none then
        (((run cfg env .new { rest := stream } { mapper, out }).1.stop cfg env).close cfg env).1
      else (run cfg env .new { rest := stream } { mapper, out }).1.stop cfg env := by
  unfold relay
  cases run cfg env .new { rest := stream } { mapper, out } with
  | mk l err =>
    cases err with
    | none =>
      simp only [if_true]
      split <;> rfl
    | some err =>
      simp only [reduceCtorEq, if_false]
      split <;> rfl

section

variable (steady : Steady env) (mapper : σ) (healthy : out.Healthy) (stream : List UInt8)

include steady healthy

theorem relay_goes :
    ((relay cfg env mapper out stream).1.out.Ruined ∧ env.client.Breaks) ∨
      (relay cfg env mapper out stream).1.out.Healthy ∧
        (relay cfg env mapper out stream).1.seen = events stream ∧
        (cfg.mapper = none → out.Quiet env.client →
          (relay cfg env mapper out stream).1.out.bw.wire =
            out.sent ++ stream ++ terminalFrame cfg mapper) := by
  rw [relay_fst]
  rcases run_goes cfg steady .new { rest := stream } { mapper, out } (Waiting.start stream)
      healthy with ⟨ruined, broke⟩ | ⟨fine, goes⟩
  · refine .inl ⟨?_, broke⟩
    split
    · exact close_ruined cfg env (stop_ruined cfg env ruined)
    · exact stop_ruined cfg env ruined
  · rw [if_pos fine]
    rcases stop_goes cfg steady.alive goes.healthy with ⟨ruined, broke⟩ | stopped
    · exact .inl ⟨close_ruined cfg env ruined, broke⟩
    rcases close_goes cfg steady.alive stopped.healthy with failed | ⟨closed, seen, wire⟩
    · exact .inl failed
    have both := goes.trans stopped
    rw [append_nil] at both
    refine .inr ⟨closed, seen.trans both.seen, fun raw quiet => ?_⟩
    obtain ⟨sent, same⟩ := both.plain raw quiet
    rw [wire, sent, same]
    congr 2
    exact rawBytes_events stream

theorem relay_seen (kept : (relay cfg env mapper out stream).1.out.selfCanceled = false) :
    (relay cfg env mapper out stream).1.seen = events stream := by
  rcases relay_goes cfg steady mapper healthy stream with ⟨⟨-, canceled⟩, -⟩ | ⟨-, seen, -⟩
  · rw [kept] at canceled
    cases canceled
  · exact seen

theorem relay_uncanceled (sound : ¬ env.client.Breaks) :
    (relay cfg env mapper out stream).1.out.selfCanceled = false := by
  rcases relay_goes cfg steady mapper healthy stream with ⟨-, broke⟩ | ⟨closed, -, -⟩
  · exact absurd broke sound
  · exact closed.uncanceled

end

/-- The relay does not depend on how the body's reads cut the stream, and what it forwards is the
stream itself: as long as no failed write cancels the request, the events of any two relays
of a stream agree and their raw frames make up the stream; without a mapper and heartbeats,
and with writes that succeed, what reaches the client is the stream, with nothing but the
caller's terminal frame after it. -/
theorem relay_faithful {τ : Type*} (cfg' : Config τ) {env' : Env} (steady : Steady env)
    (steady' : Steady env') (mapper : σ) (mapper' : τ) {out out' : Output}
    (healthy : out.Healthy) (healthy' : out'.Healthy) (stream : List UInt8) :
    ((relay cfg env mapper out stream).1.out.selfCanceled = false →
        (relay cfg' env' mapper' out' stream).1.out.selfCanceled = false →
        (relay cfg env mapper out stream).1.seen = (relay cfg' env' mapper' out' stream).1.seen) ∧
      ((relay cfg env mapper out stream).1.out.selfCanceled = false →
        rawBytes (relay cfg env mapper out stream).1.seen = stream) ∧
      (cfg.mapper = none → out.Quiet env.client → ¬ env.client.Breaks →
        (relay cfg env mapper out stream).1.out.bw.wire =
          out.sent ++ stream ++ terminalFrame cfg mapper) := by
  refine ⟨?_, ?_, ?_⟩
  · intro kept kept'
    rw [relay_seen cfg steady mapper healthy stream kept,
      relay_seen cfg' steady' mapper' healthy' stream kept']
  · intro kept
    rw [relay_seen cfg steady mapper healthy stream kept]
    exact rawBytes_events stream
  · intro raw quiet sound
    rcases relay_goes cfg steady mapper healthy stream with ⟨-, broke⟩ | ⟨-, -, wire⟩
    · exact absurd broke sound
    · exact wire raw quiet

/-- "event: a", a data line of two, and a rest without its newline. -/
def sampleStream : List UInt8 :=
  [101, 118, 101, 110, 116, 58, 32, 97, 13, 10, 100, 97, 116, 97, 58, 49, 10, 100, 97, 116, 97, 58,
    50, 10, 10, 100, 97, 116, 97, 58, 51]

/-- Everything in one read, then the end of the stream. -/
def wholeReads : Env where
  reads := fun _ => .give 4096 false

/-- Every second read is empty, the others give one byte. -/
def byteReads : Env where
  reads := fun k => if k % 2 = 0 then .give 0 false else .give 1 true

theorem wholeReads_steady : Steady wholeReads :=
  ⟨⟨fun _ _ => by simp [wholeReads], fun _ => ⟨0, by decide, by simp [wholeReads, Offer.size]⟩⟩,
    fun _ => rfl⟩

theorem Output.healthy_new : ({} : Output).Healthy :=
  ⟨rfl, rfl, rfl, rfl, fun held => absurd rfl held⟩

theorem Client.sound_new : ¬ ({} : Client).Breaks := by
  rintro (⟨k, wrote⟩ | ⟨k, flushed⟩)
  · exact wrote rfl
  · cases flushed

theorem relay_faithful_sample :
    (relay {} wholeReads () {} sampleStream).1.seen =
        (relay {} byteReads () {} sampleStream).1.seen ∧
      rawBytes (relay {} byteReads () {} sampleStream).1.seen = sampleStream ∧
      (relay {} byteReads () {} sampleStream).1.out.bw.wire = sampleStream := by
  have byBytes : Steady byteReads := by
    refine ⟨⟨fun i n => ?_, fun i => ?_⟩, fun _ => rfl⟩
    · simp only [byteReads]
      split <;> simp
    · refine ⟨(i + 1) % 2, by omega, ?_⟩
      have odd : ¬ (i + (i + 1) % 2) % 2 = 0 := by omega
      have given : byteReads.reads (i + (i + 1) % 2) = .give 1 true := if_neg odd
      rw [given]
      decide
  have fresh := healthy_new
  have sound := Client.sound_new
  obtain ⟨same, -, -⟩ := relay_faithful ({} : Config Unit) ({} : Config Unit) wholeReads_steady byBytes
    () () fresh fresh sampleStream
  obtain ⟨-, raw, wire⟩ := relay_faithful ({} : Config Unit) ({} : Config Unit) byBytes byBytes
    () () fresh fresh sampleStream
  have kept := relay_uncanceled ({} : Config Unit) wholeReads_steady () fresh sampleStream sound
  have kept' := relay_uncanceled ({} : Config Unit) byBytes () fresh sampleStream sound
  exact ⟨same kept kept', raw kept', wire rfl (.inl rfl) sound⟩

end C3Api.Relay
