/-
Reports on a log that was written by calls.

What a report counts of an event is a key of that event for each of its counters, or none.  An
update adds the keys of one event to the counters, so that in the end every counter has counted
each key as often as the calls have it.
-/
import ConsoleShell.Log.Report
import ConsoleShell.Proofs.Log.Reading

namespace ConsoleShell

/-! ### Counters -/

namespace Counter

variable {α : Type} [BEq α] [LawfulBEq α]

/-- The counter has counted each key as often as it occurs. -/
def Counts (c : Counter α) (ks : List α) : Prop := ∀ k, c.count k = ks.count k

omit [LawfulBEq α] in
lemma counts_empty : Counts (α := α) {} [] := fun _ => rfl

lemma count_add (c : Counter α) (k x : α) :
    (c.add k).count x = c.count x + if k == x then 1 else 0 := by
  obtain ⟨counts⟩ := c
  rw [add, count, count]
  induction counts with
  | nil =>
    rw [bump]
    cases hkx : k == x <;> simp [hkx]
  | cons e counts ih =>
    obtain ⟨y, n⟩ := e
    rw [bump]
    cases hyk : y == k with
    | true =>
      obtain rfl := eq_of_beq hyk
      cases hyx : y == x <;> simp [hyx]
    | false =>
      cases hyx : y == x with
      | true =>
        obtain rfl := eq_of_beq hyx
        have hky : (k == y) = false := by rw [BEq.comm, hyk]
        simp [hky]
      | false => simpa [hyx] using ih

variable {c : Counter α} {ks : List α}

lemma Counts.add (h : c.Counts ks) (k : α) : (c.add k).Counts (ks ++ [k]) := by
  intro x
  rw [count_add, h x, List.count_append, List.count_singleton]

/-- Counts a key if there is one. -/
def addSome (c : Counter α) (k : Option α) : Counter α := k.elim c c.add

lemma Counts.addSome (h : c.Counts ks) (k : Option α) : (c.addSome k).Counts (ks ++ k.toList) := by
  cases k with
  | none =>
    rw [Option.toList_none, List.append_nil]
    exact h
  | some k => exact h.add k

end Counter

/-! ### What is counted of an event -/

namespace Event

/-- The source from which a session reads. -/
def source? : Event → Option Bytes
  | .sessionStart source => some source
  | _ => none

/-- How a session ended: with its failure, or well if there is none or an empty one. -/
def ending? : Event → Option Bytes
  | .sessionEnd none => some "ok"
  | .sessionEnd (some failure) => some (if failure.isEmpty then "ok" else failure)
  | _ => none

/-- Who tried to log in. -/
def user? : Event → Option Bytes
  | .loginAttempt user _ _ => some user
  | _ => none

/-- The result of an attempt to log in. -/
def login? : Event → Option Bytes
  | .loginAttempt _ _ accepted => some (if accepted then "accepted" else "rejected")
  | _ => none

/-- The first of some words unless it is empty. -/
def firstWord? (words : List Bytes) : Option Bytes := words.head?.filter fun w => !w.isEmpty

/-- The command that is called. -/
def run? : Event → Option Bytes
  | .runCommand words => firstWord? words
  | _ => none

/-- The name that no command has. -/
def notFound? : Event → Option Bytes
  | .unknownCommand words => firstWord? words
  | _ => none

/-- The command that failed. -/
def invalid? : Event → Option Bytes
  | .invalidInvocation words _ => firstWord? words
  | _ => none

/-- The failure of a command. -/
def error? : Event → Option Bytes
  | .invalidInvocation _ error => some error
  | _ => none

/-- The cause of a crash. -/
def cause? : Event → Option Bytes
  | .crash cause _ => some cause
  | _ => none

/-- A message for the error log. -/
def message? : Event → Option Bytes
  | .errorLog message => some message
  | _ => none

/-- An operation on a file with its path and its result. -/
def access? : Event → Option (List Bytes)
  | .fileAccess operation path allowed =>
    some [operation, path, if allowed then "allowed" else "denied"]
  | _ => none

end Event

namespace Report

/-- The counts of operations on files; there are none before the first one. -/
def accesses (r : Report) : RowCounter := r.files.getD { columns := fileColumns }

/-- The report counts the events: each of its counters has counted each key as often as it
occurs among the events. -/
structure Counts (r : Report) (events : List Event) : Prop where
  entries : r.entries = events.length
  /-- No event is an unknown one. -/
  unknown : r.unknown = {}
  sources : r.sources.Counts (events.filterMap Event.source?)
  results : r.results.Counts (events.filterMap Event.ending?)
  users : r.users.Counts (events.filterMap Event.user?)
  logins : r.logins.Counts (events.filterMap Event.login?)
  run : r.run.Counts (events.filterMap Event.run?)
  notFound : r.notFound.Counts (events.filterMap Event.notFound?)
  invalid : r.invalid.Counts (events.filterMap Event.invalid?)
  errors : r.errors.Counts (events.filterMap Event.error?)
  crashes : r.crashes = events.filterMap Event.cause?
  messages : r.messages.Counts (events.filterMap Event.message?)
  columns : r.accesses.columns = fileColumns
  accesses : r.accesses.rows.Counts (events.filterMap Event.access?)

/-! ### One event -/

lemma countName_headD (c : Counter Bytes) (words : List Bytes) :
    countName c (words.headD []) = c.addSome (Event.firstWord? words) := by
  cases words with
  | nil => rfl
  | cons w words =>
    cases w with
    | nil => rfl
    | cons b w => rfl

/-- An update adds one key of the event to each counter for which it has one. -/
lemma update_entry (r : Report) (c : LogCall) :
    r.update c.entry =
      { r with
        entries := r.entries + 1
        sources := r.sources.addSome c.event.source?
        results := r.results.addSome c.event.ending?
        users := r.users.addSome c.event.user?
        logins := r.logins.addSome c.event.login?
        run := r.run.addSome c.event.run?
        notFound := r.notFound.addSome c.event.notFound?
        invalid := r.invalid.addSome c.event.invalid?
        errors := r.errors.addSome c.event.error?
        crashes := c.event.cause?.elim r.crashes fun cause => r.crashes ++ [cause]
        messages := r.messages.addSome c.event.message?
        files := c.event.access?.elim r.files fun row => some (r.accesses.add row) } := by
  obtain ⟨time, session, e⟩ := c
  cases e with
  | sessionEnd failure => cases failure <;> rfl
  | runCommand words =>
    exact congrArg (fun run => { r with entries := r.entries + 1, run })
      (countName_headD r.run words)
  | unknownCommand words =>
    exact congrArg (fun notFound => { r with entries := r.entries + 1, notFound })
      (countName_headD r.notFound words)
  | invalidInvocation words error =>
    exact congrArg (fun invalid => { r with entries := r.entries + 1, invalid, errors := r.errors.add error })
      (countName_headD r.invalid words)
  | _ => rfl

variable {r : Report} {events : List Event} {c : LogCall}

/-- The paths of a call without stray bytes are counted as they are. -/
lemma sanitize_access (h : c.IsText) :
    ∀ row ∈ c.event.access?, row.length = 3 ∧ row.map Utf8.sanitize = row := by
  have hvalid := h.fields
  rw [LogCall.fields] at hvalid
  rintro row hrow
  cases hevent : c.event with
  | fileAccess operation path allowed =>
    rw [hevent] at hrow hvalid
    obtain rfl := Option.some.inj hrow
    have hfields : ∀ f ∈ (Event.fileAccess operation path allowed).fields, f.2.IsText :=
      fun f hf => hvalid f (List.mem_append_right _ hf)
    simp only [Event.fields, List.forall_mem_cons] at hfields
    obtain ⟨hop, hpath, hresult, -⟩ := hfields
    refine ⟨rfl, ?_⟩
    rw [List.map_cons, List.map_cons, List.map_cons, List.map_nil,
      Utf8.sanitize_of_isValid hop, Utf8.sanitize_of_isValid hpath,
      Utf8.sanitize_of_isValid hresult]
  | _ => rw [hevent] at hrow; cases hrow

lemma counts_empty : Counts {} [] where
  entries := rfl
  unknown := rfl
  sources := Counter.counts_empty
  results := Counter.counts_empty
  users := Counter.counts_empty
  logins := Counter.counts_empty
  run := Counter.counts_empty
  notFound := Counter.counts_empty
  invalid := Counter.counts_empty
  errors := Counter.counts_empty
  crashes := rfl
  messages := Counter.counts_empty
  columns := rfl
  accesses := Counter.counts_empty

lemma filterMap_concat {α : Type} (key? : Event → Option α) (events : List Event) (e : Event) :
    (events ++ [e]).filterMap key? = events.filterMap key? ++ (key? e).toList := by
  rw [List.filterMap_append]
  cases hkey : key? e <;> simp [hkey]

/-- What a counter has counted is still right after one more event. -/
lemma counts_concat {α : Type} [BEq α] [LawfulBEq α] {key? : Event → Option α}
    {counter : Counter α}
    (h : counter.Counts (events.filterMap key?)) (e : Event) :
    (counter.addSome (key? e)).Counts ((events ++ [e]).filterMap key?) := by
  rw [filterMap_concat]
  exact h.addSome (key? e)

lemma accesses_update (r : Report) (c : LogCall) :
    (r.update c.entry).accesses = c.event.access?.elim r.accesses r.accesses.add := by
  rw [update_entry, accesses]
  cases c.event.access? <;> rfl

/-- A row of a call is counted as it is. -/
lemma add_access {counter : RowCounter} (hcolumns : counter.columns = fileColumns)
    (hc : c.IsText) :
    c.event.access?.elim counter counter.add =
      { counter with rows := counter.rows.addSome c.event.access? } := by
  cases hrow : c.event.access? with
  | none => rfl
  | some row =>
    obtain ⟨hlength, htext⟩ := sanitize_access hc row hrow
    have hwidth : row.length = counter.columns.length := by rw [hlength, hcolumns]; rfl
    rw [Option.elim_some, RowCounter.add, RowCounter.add?, if_pos hwidth, htext]
    rfl

lemma Counts.update (h : r.Counts events) (hc : c.IsText) :
    (r.update c.entry).Counts (events ++ [c.event]) := by
  have haccesses := (accesses_update r c).trans (add_access h.columns hc)
  have hcolumns : (r.update c.entry).accesses.columns = fileColumns := by
    rw [haccesses]
    exact h.columns
  have hrows : (r.update c.entry).accesses.rows.Counts
      ((events ++ [c.event]).filterMap Event.access?) := by
    rw [haccesses]
    exact counts_concat h.accesses c.event
  rw [update_entry] at hcolumns hrows ⊢
  exact
    { entries := by rw [h.entries, List.length_append, List.length_singleton]
      unknown := h.unknown
      sources := counts_concat h.sources c.event
      results := counts_concat h.results c.event
      users := counts_concat h.users c.event
      logins := counts_concat h.logins c.event
      run := counts_concat h.run c.event
      notFound := counts_concat h.notFound c.event
      invalid := counts_concat h.invalid c.event
      errors := counts_concat h.errors c.event
      crashes := by
        rw [filterMap_concat, ← h.crashes]
        cases c.event.cause? <;> simp
      messages := counts_concat h.messages c.event
      columns := hcolumns
      accesses := hrows }

/-! ### Whole logs -/

lemma counts_ofEntries {calls : List LogCall} (h : ∀ c ∈ calls, c.IsText) :
    (ofEntries (calls.map LogCall.entry)).Counts (calls.map (·.event)) := by
  -- entries are counted from the first to the last, so that the last call comes off first
  induction calls using List.reverseRecOn with
  | nil => exact counts_empty
  | append_singleton calls c ih =>
    obtain ⟨hcalls, hc⟩ := List.forall_mem_append.1 h
    rw [List.map_append, List.map_append, ofEntries, List.foldl_append]
    exact (ih hcalls).update (hc c List.mem_cons_self)

/-- **Log writer and log reader agree.**  The lines that calls write, from any sessions, are read
without a fault, and there is one entry for each call, in order, with the event's name and level,
the identifier of the session and the fields of the event.  The report on the entries counts
them all, none of them as unknown, and each of its counters has counted each key as often as the
calls have it. -/
theorem counts_lines (calls : List LogCall) (h : ∀ c ∈ calls, c.IsText) :
    let log := LogReading.ofBytes (calls.flatMap LogCall.line)
    log = ⟨calls.map LogCall.entry, true⟩ ∧
      (ofEntries log.entries).Counts (calls.map (·.event)) := by
  intro log
  have hread : log = ⟨calls.map LogCall.entry, true⟩ := LogCall.ofBytes_lines h
  refine ⟨hread, ?_⟩
  rw [hread]
  exact counts_ofEntries h

/-- Two sessions and an attempt to log in between them; one session ends well. -/
theorem counts_lines_two_sessions :
    let time : Bytes := "2024-03-05T14:07:09.5+01:00"
    let calls : List LogCall :=
      [⟨time, some "17", .sessionStart "st.cmd"⟩, ⟨time, none, .loginAttempt "ops" "10.0.0.7" true⟩,
        ⟨time, some "23", .runCommand ["help", "\"größe\""]⟩, ⟨time, some "17", .sessionEnd none⟩]
    let log := LogReading.ofBytes (calls.flatMap LogCall.line)
    (∀ c ∈ calls, c.IsText) ∧ log = ⟨calls.map LogCall.entry, true⟩ ∧
      (ofEntries log.entries).results.count "ok" = 1 ∧
      (ofEntries log.entries).run.count "help" = 1 := by
  intro time calls log
  have htext : ∀ c ∈ calls, c.IsText := by decide +kernel
  obtain ⟨hread, hcounts⟩ := counts_lines calls htext
  exact ⟨htext, hread, hcounts.results "ok", hcounts.run "help"⟩

end Report

end ConsoleShell
