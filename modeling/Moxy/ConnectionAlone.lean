import Moxy.Conversations

/-!
# Moxy: a connection that is served alone

`handleConn` serves a connection as one sequential program.  The handler of a `Line`
shares the service with others.  The two agree if nobody else comes in between: a
handler that reads, runs the sections of the call, and writes, request by request, ends
with the replies and the bytes of `handleConn`, on the same service; and it leaves the
other connections and their calls alone.
-/

namespace Moxy

open Lib Lib.CrashM

/-- Only the caller of a section can be answered. -/
theorem Process.step_turn_caller
    {β γ : Type} [Backend β] [Journal γ] {p : Process β γ} {caller c : Nat} {env : TurnEnv γ}
    {call : Call} {a : Answer}
    (h : (p.step (.turn caller env)).1.answer = some (c, call, a)) :
    c = caller := by
  cases hstage : p.calls.lookup caller with
  | none =>
      rw [Process.step_turn_none hstage] at h
      cases h
  | some stage =>
      rw [Process.step_turn hstage] at h
      exact Process.advance_caller h

namespace Front

variable {β γ : Type} {f g h : Front β γ} {conn : Nat}

/-- The other connections and their calls are where they were. -/
structure Spares (conn : Nat) (f g : Front β γ) : Prop where
  lines : ∀ other, other ≠ conn → g.lines other = f.lines other
  calls : ∀ other, other ≠ conn →
    g.process.calls.lookup other = f.process.calls.lookup other

theorem Spares.refl (f : Front β γ) : Spares conn f f :=
  ⟨fun _ _ => rfl, fun _ _ => rfl⟩

theorem Spares.trans
    (h₁ : Spares conn f g)
    (h₂ : Spares conn g h) :
    Spares conn f h :=
  ⟨fun other hne => (h₂.lines other hne).trans (h₁.lines other hne),
    fun other hne => (h₂.calls other hne).trans (h₁.calls other hne)⟩

/-- The state with another line for one connection, and another process. -/
def put (conn : Nat) (line : Line) (p : Process β γ) (f : Front β γ) : Front β γ :=
  ⟨p, Function.update f.lines conn (some line)⟩

@[simp] theorem put_lines_self
    (line : Line) (p : Process β γ) :
    (f.put conn line p).lines conn = some line :=
  Function.update_self ..

@[simp] theorem put_put
    (line line' : Line) (p p' : Process β γ) :
    (f.put conn line p).put conn line' p' = f.put conn line' p' := by
  rw [put, put, put, Function.update_idem]

theorem onLine_of_line
    {line : Line}
    (h : f.lines conn = some line) (change : Line → Line) :
    f.onLine conn change = f.put conn (change line) f.process := by
  rw [onLine, put, h]
  rfl

theorem put_spares
    {line : Line} {p : Process β γ}
    (h : Process.OthersSame conn f.process p) :
    Spares conn f (f.put conn line p) :=
  ⟨fun _ hne => Function.update_of_ne hne .., h⟩

variable [Backend β] [Journal γ]

/-- The sections of the call of one connection, in a row. -/
def drive (conn : Nat) (env : TurnEnv γ) : Nat → Front β γ → Front β γ
  | 0, f => f
  | fuel + 1, f => drive conn env fuel (f.step (.turn conn env)).2

/-- The handler goes once through its loop: read, call and write. -/
def exchange (conn : Nat) (env : RequestEnv γ) (f : Front β γ) : Front β γ :=
  if (f.lines conn).any Line.isReading then
    ((((f.step (.read conn)).2.drive conn env.turn
      (f.process.service.engines.entries.length + 2)).step (.write conn true))).2
  else f

/-- Some rounds of the loop, the first for the request with number `i`. -/
def converse (conn : Nat) (envs : Nat → RequestEnv γ) : Nat → Nat → Front β γ → Front β γ
  | 0, _, f => f
  | rounds + 1, i, f => converse conn envs rounds (i + 1) (f.exchange conn (envs i))

section Drive

variable {env : TurnEnv γ}

/-- Without a call, nothing happens. -/
theorem drive_idle
    (h : f.process.calls.lookup conn = none) (fuel : Nat) :
    f.drive conn env fuel = f := by
  induction fuel with
  | zero => rfl
  | succ fuel ih =>
      have hstep : (f.step (.turn conn env)).2 = f := by
        change (⟨(f.process.step (.turn conn env)).2,
          hear (f.process.step (.turn conn env)).1 f.lines⟩ : Front β γ) = f
        rw [Process.step_turn_none h]
        rfl
      rw [drive, hstep, ih]

/-- A section that does not end its call. -/
theorem step_goes_on
    (h : (f.process.step (.turn conn env)).1.answer = none) :
    (f.step (.turn conn env)).2 = { f with process := (f.process.step (.turn conn env)).2 } := by
  change (⟨(f.process.step (.turn conn env)).2,
    hear (f.process.step (.turn conn env)).1 f.lines⟩ : Front β γ) = _
  rw [hear, h]

/-- The sections of a call that answers. -/
theorem drive_answered
    {fuel : Nat} {a : Answer} {p' : Process β γ} {line : Line} :
    ∀ {f : Front β γ},
      f.lines conn = some line →
      f.process.drive conn env fuel = (some a, p') → p'.calls.lookup conn = none →
      f.drive conn env fuel = f.put conn (line.answer a) p' := by
  induction fuel with
  | zero =>
      intro f _ h
      cases h
  | succ fuel ih =>
      intro f hline h hended
      rw [Process.drive] at h
      rw [drive]
      cases hanswer : (f.process.step (.turn conn env)).1.answer with
      | none =>
          rw [hanswer] at h
          rw [step_goes_on hanswer]
          exact ih hline h hended
      | some answer =>
          obtain ⟨caller, call, a'⟩ := answer
          rw [hanswer] at h
          cases h
          obtain rfl : caller = conn := Process.step_turn_caller hanswer
          have hstep : (f.step (.turn caller env)).2 =
              f.put caller (line.answer a) (f.process.step (.turn caller env)).2 := by
            change (⟨(f.process.step (.turn caller env)).2,
              hear (f.process.step (.turn caller env)).1 f.lines⟩ : Front β γ) = _
            rw [hear, hanswer]
            dsimp only
            rw [hline]
            rfl
          rw [hstep]
          exact drive_idle hended fuel

/-- The sections of a call in which the process stops. -/
theorem drive_unanswered
    {fuel : Nat} {p' : Process β γ} :
    ∀ {f : Front β γ},
      f.process.drive conn env fuel = (none, p') →
      f.drive conn env fuel = { f with process := p' } := by
  induction fuel with
  | zero =>
      intro f h
      cases h
      rfl
  | succ fuel ih =>
      intro f h
      rw [Process.drive] at h
      rw [drive]
      cases hanswer : (f.process.step (.turn conn env)).1.answer with
      | none =>
          rw [hanswer] at h
          rw [step_goes_on hanswer]
          exact ih h
      | some answer =>
          rw [hanswer] at h
          cases h

end Drive

section Exchange

variable {line : Line} {env : RequestEnv γ}

/-- The handler in its loop, with the round written out. -/
theorem exchange_of_reading
    (hline : f.lines conn = some line)
    (hreading : line.handler = .reading) :
    f.exchange conn env =
      (((f.step (.read conn)).2.drive conn env.turn
        (f.process.service.engines.entries.length + 2)).onLine conn (Line.write true)) := by
  have hany : (f.lines conn).any Line.isReading = true := by
    rw [hline, Option.any_some, Line.isReading, hreading]
  rw [exchange, if_pos hany]
  rfl

/-- A handler that does not read has left its loop, or waits for ever. -/
theorem exchange_of_not_reading
    (hline : f.lines conn = some line)
    (hreading : line.isReading = false) :
    f.exchange conn env = f := by
  have hany : ¬ (f.lines conn).any Line.isReading = true := by
    rw [hline, Option.any_some, hreading]
    exact Bool.false_ne_true
  rw [exchange, if_neg hany]

theorem converse_of_not_reading
    {envs : Nat → RequestEnv γ}
    (hline : f.lines conn = some line)
    (hreading : line.isReading = false)
    (rounds : Nat) :
    ∀ i, f.converse conn envs rounds i = f := by
  induction rounds with
  | zero => exact fun _ => rfl
  | succ rounds ih =>
      intro i
      rw [converse, exchange_of_not_reading hline hreading]
      exact ih (i + 1)

/-- A round without a call. -/
theorem exchange_direct
    (hline : f.lines conn = some line)
    (hreading : line.handler = .reading)
    (hidle : f.process.calls.lookup conn = none)
    (hread : line.read.2 = none) :
    f.exchange conn env = f.put conn (line.read.1.write true) f.process := by
  have hstep : (f.step (.read conn)).2 = f.put conn line.read.1 f.process := by
    rw [step_read_none (by rw [hline]; exact hread)]
    exact onLine_of_line hline _
  rw [exchange_of_reading hline hreading, hstep,
    drive_idle (show (f.put conn line.read.1 f.process).process.calls.lookup conn = none
      from hidle),
    onLine_of_line (put_lines_self _ _), put_put]
  rfl

/-- The last round: the input has ended, or it breaks the format. -/
theorem exchange_last
    {ending : ReadEnd}
    (hline : f.lines conn = some line)
    (hreading : line.handler = .reading)
    (hfarewell : line.farewell = none)
    (hidle : f.process.calls.lookup conn = none)
    (hread : readNext line.input = .error ending) :
    f.exchange conn env =
      f.put conn { line with handler := .closed, farewell := ending.replies.head? }
        f.process := by
  cases ending with
  | eof =>
      have hclosed : line.read = ({ line with handler := .closed }, none) := by
        rw [Line.read, hread]
      rw [exchange_direct hline hreading hidle (by rw [hclosed]), hclosed]
      exact congrArg (fun farewell => f.put conn
        (⟨line.input, .closed, line.requests, line.replies, farewell⟩ : Line) f.process) hfarewell
  | fails err =>
      have hfails : line.read = ({ line with handler := .failing (errorReply err) }, none) := by
        rw [Line.read, hread]
      rw [exchange_direct hline hreading hidle (by rw [hfails]), hfails]
      rfl

/-- The line after a request was read, with its handler where it is now. -/
def asked (request : Value) (rest : Bytes) (handler : Handler) (replies : List Value)
    (line : Line) : Line :=
  ⟨rest, handler, line.requests ++ [request], line.replies ++ replies, line.farewell⟩

variable {request : Value} {rest : Bytes}

/-- A round with a request that is answered at once. -/
theorem exchange_reply
    {value : Value}
    (hline : f.lines conn = some line)
    (hreading : line.handler = .reading)
    (hidle : f.process.calls.lookup conn = none)
    (hread : readNext line.input = .ok (request, rest))
    (hdispatch : dispatch request = .reply value) :
    f.exchange conn env = f.put conn (asked request rest .reading [value] line) f.process := by
  have hwriting : line.read = (⟨rest, .writing value, line.requests ++ [request], line.replies,
      line.farewell⟩, none) := by
    rw [Line.read, hread]
    simp only [hdispatch]
  rw [exchange_direct hline hreading hidle (by rw [hwriting]), hwriting]
  rfl

variable {name : GoString} {call : Call} {p' : Process β γ}

/-- A round with a request that makes a call, up to the write. -/
theorem exchange_call
    (hline : f.lines conn = some line)
    (hreading : line.handler = .reading)
    (hread : readNext line.input = .ok (request, rest))
    (hdispatch : dispatch request = .call name call) :
    f.exchange conn env =
      (((f.put conn (asked request rest (.calling name) [] line)
        (f.process.step (.call conn call)).2).drive conn env.turn
        (f.process.service.engines.entries.length + 2)).onLine conn (Line.write true)) := by
  have hcalling : line.read = (asked request rest (.calling name) [] line, some call) := by
    rw [Line.read, hread, asked, List.append_nil]
    simp only [hdispatch]
  have hcall : ((f.lines conn).bind fun line => line.read.2) = some call := by
    rw [hline]
    exact congrArg Prod.snd hcalling
  have hstep : (f.step (.read conn)).2 =
      f.put conn (asked request rest (.calling name) [] line)
        (f.process.step (.call conn call)).2 := by
    rw [step_read_some hcall, onLine_of_line hline, hcalling]
    rfl
  rw [exchange_of_reading hline hreading, hstep]

/-- A round whose call is answered. -/
theorem exchange_answered
    {a : Answer}
    (hline : f.lines conn = some line)
    (hreading : line.handler = .reading)
    (hread : readNext line.input = .ok (request, rest))
    (hdispatch : dispatch request = .call name call)
    (hdrive : (f.process.step (.call conn call)).2.drive conn env.turn
      (f.process.service.engines.entries.length + 2) = (some a, p'))
    (hended : p'.calls.lookup conn = none) :
    f.exchange conn env =
      f.put conn (asked request rest .reading [answerReply name a] line) p' := by
  have hdriven := drive_answered
    (f := f.put conn (asked request rest (.calling name) [] line)
      (f.process.step (.call conn call)).2) (put_lines_self _ _) hdrive hended
  rw [exchange_call hline hreading hread hdispatch, hdriven, put_put,
    onLine_of_line (put_lines_self _ _), put_put]
  exact congrArg (fun replies => f.put conn
    (⟨rest, .reading, line.requests ++ [request], replies ++ [answerReply name a],
      line.farewell⟩ : Line) p') (List.append_nil _)

/-- A round in which the process stops. -/
theorem exchange_stopped
    (hline : f.lines conn = some line)
    (hreading : line.handler = .reading)
    (hread : readNext line.input = .ok (request, rest))
    (hdispatch : dispatch request = .call name call)
    (hdrive : (f.process.step (.call conn call)).2.drive conn env.turn
      (f.process.service.engines.entries.length + 2) = (none, p')) :
    f.exchange conn env = f.put conn (asked request rest (.calling name) [] line) p' := by
  have hput : ({ f.put conn (asked request rest (.calling name) [] line)
      (f.process.step (.call conn call)).2 with process := p' } : Front β γ) =
      f.put conn (asked request rest (.calling name) [] line) p' :=
    rfl
  rw [exchange_call hline hreading hread hdispatch, drive_unanswered hdrive, hput,
    onLine_of_line (put_lines_self _ _), put_put]
  rfl

end Exchange

section Serve

/-- The bytes that end a connection after its replies. -/
def sent (replies : List Value) (ending : ReadEnd) : List Value × Bytes :=
  (replies, writeValues (replies ++ ending.replies))

/--
The handler has served its input and closed the connection, with the replies and the
bytes `r`, on the service `s`.
-/
structure Served (conn : Nat) (f : Front β γ) (r : List Value × Bytes) (s : Service β γ)
    (g : Front β γ) : Prop where
  line : ∃ line,
    g.lines conn = some line ∧ line.handler = .closed ∧ (line.replies, line.output) = r
  service : g.process.service = s
  life : g.process.life = f.process.life
  ended : g.process.calls.lookup conn = none
  spares : Spares conn f g

/-- The process has stopped inside a call of the connection, on the service `s`. -/
structure Halted (conn : Nat) (f : Front β γ) (s : Service β γ) (g : Front β γ) : Prop where
  line : ∃ line name, g.lines conn = some line ∧ line.handler = .calling name
  service : g.process.service = s
  life : ∃ queueName locked, g.process.life = f.process.life.stopAt queueName locked
  spares : Spares conn f g

omit [Backend β] [Journal γ] in
theorem Served.after
    {r : List Value × Bytes} {s : Service β γ}
    (h₁ : Spares conn f g)
    (hlife : g.process.life = f.process.life)
    (h₂ : Served conn g r s h) :
    Served conn f r s h :=
  ⟨h₂.line, h₂.service, h₂.life.trans hlife, h₂.ended, h₁.trans h₂.spares⟩

omit [Backend β] [Journal γ] in
theorem Halted.after
    {s : Service β γ}
    (h₁ : Spares conn f g)
    (hlife : g.process.life = f.process.life)
    (h₂ : Halted conn g s h) :
    Halted conn f s h :=
  ⟨h₂.line, h₂.service, by rw [← hlife]; exact h₂.life, h₁.trans h₂.spares⟩

/-- A round has ended: the handler stands at `line`, and the service at `s`. -/
structure Reached (conn : Nat) (f : Front β γ) (line : Line) (s : Service β γ)
    (g : Front β γ) : Prop where
  line : g.lines conn = some line
  service : g.process.service = s
  life : g.process.life = f.process.life
  ended : g.process.calls.lookup conn = none
  spares : Spares conn f g

/-- A process that has stopped serves no further rounds. -/
theorem Halted.converse_eq
    {s : Service β γ}
    (hhalted : Halted conn f s g) (envs : Nat → RequestEnv γ) (rounds i : Nat) :
    g.converse conn envs rounds i = g := by
  obtain ⟨line, name, hline, hcalling⟩ := hhalted.line
  refine converse_of_not_reading hline ?_ rounds i
  rw [Line.isReading, hcalling]

/-- One round of the handler ends like the sequential handler of its request. -/
theorem exchange_serves
    {env : RequestEnv γ} {line : Line} {request : Value} {rest : Bytes}
    (hline : f.lines conn = some line)
    (hreading : line.handler = .reading)
    (hidle : f.process.calls.lookup conn = none)
    (hread : readNext line.input = .ok (request, rest)) :
    wp (handle env request)
      (fun value s => Reached conn f (asked request rest .reading [value] line) s
        (f.exchange conn env))
      (fun _ _ => False)
      (fun s => Halted conn f s (f.exchange conn env)) f.process.service := by
  cases hdispatch : dispatch request with
  | reply value =>
      rw [wp_handle_of_reply hdispatch, exchange_reply hline hreading hidle hread hdispatch]
      exact ⟨put_lines_self _ _, rfl, rfl, hidle, put_spares (fun _ _ => rfl)⟩
  | call name call =>
      rw [wp_handle_of_call hdispatch]
      have hplace : (f.process.step (.call conn call)).2.calls.lookup conn =
          some (.entered call) :=
        AList.lookup_insert _
      have hothers : ∀ {p' : Process β γ},
          Process.OthersSame conn (f.process.step (.call conn call)).2 p' →
          Process.OthersSame conn f.process p' :=
        fun h other hne => (h other hne).trans (call_other hne)
      -- The answer is written, whether the call succeeded or failed.
      have hanswered : ∀ {a : Answer} {s : Service β γ},
          Process.Answered conn (f.process.step (.call conn call)).2 s a
            ((f.process.step (.call conn call)).2.drive conn env.turn
              (f.process.service.engines.entries.length + 2)) →
          Reached conn f (asked request rest .reading [answerReply name a] line) s
            (f.exchange conn env) := by
        rintro a _ ⟨hanswer, rfl, hlife, hended, hsame⟩
        rw [exchange_answered hline hreading hread hdispatch (Prod.ext hanswer rfl) hended]
        exact ⟨put_lines_self _ _, rfl, hlife, hended, put_spares (hothers hsame)⟩
      have hperforms : Process.Performs conn env.turn _ _ (Service.perform env.turn call)
          (fun a => a) :=
        Process.performs_call hplace
      refine wp_mono hperforms (fun _ _ h => hanswered h) (fun _ _ h => hanswered h) ?_
      rintro _ ⟨hanswer, rfl, hlife, _, hsame⟩
      rw [exchange_stopped hline hreading hread hdispatch (Prod.ext hanswer rfl)]
      exact ⟨⟨_, name, put_lines_self _ _, rfl⟩, rfl, hlife, put_spares (hothers hsame)⟩

/-- The last round writes the error that ended the input, if any, and closes. -/
theorem exchange_closes
    {env : RequestEnv γ} {line : Line} {ending : ReadEnd}
    (hline : f.lines conn = some line)
    (hreading : line.handler = .reading)
    (hfarewell : line.farewell = none)
    (hidle : f.process.calls.lookup conn = none)
    (hread : readNext line.input = .error ending) (envs : Nat → RequestEnv γ) (rounds i : Nat) :
    Served conn f (sent line.replies ending) f.process.service
      ((f.exchange conn env).converse conn envs rounds i) := by
  rw [exchange_last hline hreading hfarewell hidle hread,
    converse_of_not_reading (put_lines_self _ _) rfl]
  refine ⟨⟨_, put_lines_self _ _, rfl, ?_⟩, rfl, rfl, hidle, put_spares (fun _ _ => rfl)⟩
  cases ending <;> rfl

/-- The rounds of the handler end like the sequential loop over the requests. -/
theorem converse_serves
    (envs : Nat → RequestEnv γ) (requests : List Value) :
    ∀ {f : Front β γ} {line : Line} {i rounds : Nat},
      f.lines conn = some line → line.handler = .reading → line.farewell = none →
      f.process.calls.lookup conn = none →
      (readAll line.input).1 = requests → requests.length < rounds →
      wp (serve envs i requests)
        (fun replies s => Served conn f (sent (line.replies ++ replies) (readAll line.input).2) s
          (f.converse conn envs rounds i))
        (fun _ _ => False)
        (fun s => Halted conn f s (f.converse conn envs rounds i)) f.process.service := by
  induction requests with
  | nil =>
      intro f line i rounds hline hreading hfarewell hidle hall hrounds
      obtain ⟨rounds, rfl⟩ := Nat.exists_eq_succ_of_ne_zero (Nat.ne_zero_of_lt hrounds)
      cases hread : readNext line.input with
      | ok result =>
          rw [readAll_of_readNext hread] at hall
          cases hall
      | error ending =>
          rw [serve, wp_pure, readAll_of_readNext_error hread, converse, List.append_nil]
          exact exchange_closes hline hreading hfarewell hidle hread envs rounds (i + 1)
  | cons request requests ih =>
      intro f line i rounds hline hreading hfarewell hidle hall hrounds
      obtain ⟨rounds, rfl⟩ := Nat.exists_eq_succ_of_ne_zero (Nat.ne_zero_of_lt hrounds)
      have hrest : requests.length < rounds := Nat.lt_of_succ_lt_succ hrounds
      cases hread : readNext line.input with
      | error ending =>
          rw [readAll_of_readNext_error hread] at hall
          cases hall
      | ok result =>
          obtain ⟨request', rest⟩ := result
          rw [readAll_of_readNext hread] at hall ⊢
          obtain ⟨rfl, hall'⟩ := List.cons.inj hall
          rw [serve, wp_bind, converse]
          refine wp_mono (exchange_serves hline hreading hidle hread) ?_ (fun _ _ h => h) ?_
          · -- One round has written `value`; the others start where it ended.
            rintro value _ ⟨hline', rfl, hlife, hended, hspares⟩
            rw [wp_bind]
            refine wp_mono (ih hline' rfl hfarewell hended hall' hrest) ?_ (fun _ _ h => h)
              (fun _ h => h.after hspares hlife)
            intro replies s hserved
            rw [show (asked request' rest .reading [value] line).replies ++ replies =
              line.replies ++ value :: replies from List.append_assoc _ _ _] at hserved
            exact hserved.after hspares hlife
          · intro s hhalted
            rw [hhalted.converse_eq]
            exact hhalted

end Serve

end Front

/--
A connection that nobody interrupts is served as `handleConn` serves it.  Whatever other
connections and calls are in progress, if the rounds of one handler follow each other
directly, with the sections of its calls in a row, then it closes with the replies and
the bytes of `handleConn`, on the service that `handleConn` leaves, and the other
connections and their calls are where they were.  If the sequential program stops in the
middle, so does the process, inside a call of this connection.
-/
theorem connection_alone_as_handleConn
    {β γ : Type} [Backend β] [Journal γ] (f : Front β γ) (conn : Nat)
    (envs : Nat → RequestEnv γ) (input : Bytes)
    (hline : f.lines conn = some (.accepted input))
    (hidle : f.process.calls.lookup conn = none) :
    let served := f.converse conn envs ((readAll input).1.length + 1) 0
    wp (handleConn envs input)
      (fun r s => Front.Served conn f r s served)
      (fun _ _ => False)
      (fun s => Front.Halted conn f s served) f.process.service := by
  intro served
  unfold handleConn
  rw [wp_bind]
  exact Front.converse_serves envs _ hline rfl rfl hidle rfl (Nat.lt_succ_self _)

/-- A client that asks for a sign of life, enqueues a task and sends half a line. -/
def briefClient : Bytes :=
  commandBytes ["ping"] ++ commandBytes ["moxy.enqueue", "a", "p"] ++ goString "*"

/-- The client has connected, while another one waits for its call. -/
def clientConnected : Front Storage LeaseLog :=
  (front durable).final (.cold reliable)
    [.start ⟨3, 0, [], true, 0⟩, .connect 2 (commandBytes ["moxy.fetch", "a", "5"]), .read 2,
      .connect 1 briefClient]

/-- The surroundings of the requests of the client. -/
def briefEnvs : Nat → RequestEnv LeaseLog :=
  fun _ => ⟨(turnWith []).opening, goString "t", 0, []⟩

/-- The bytes for the client: two replies, and the error that ends the connection. -/
def briefReplies : Bytes :=
  goString "+PONG\r\n*2\r\n$7\r\ntask_id\r\n$1\r\nt\r\n" ++
    goString "-ERR malformed RESP value: missing CRLF\r\n"

theorem connection_alone_as_handleConn_brief :
    ∃ r s,
      handleConn briefEnvs briefClient clientConnected.process.service = .ok r s ∧
      r.2 = briefReplies ∧
      Front.Served 1 clientConnected r s (clientConnected.converse 1 briefEnvs 3 0) := by
  have halone := connection_alone_as_handleConn clientConnected 1 briefEnvs briefClient rfl rfl
  obtain ⟨r, s, hok, hbytes⟩ : ∃ r s,
      handleConn briefEnvs briefClient clientConnected.process.service = .ok r s ∧
      r.2 = briefReplies :=
    ⟨_, _, rfl, by decide +kernel⟩
  exact ⟨r, s, hok, hbytes, (wp_iff_of_ok hok).mp halone⟩

end Moxy
