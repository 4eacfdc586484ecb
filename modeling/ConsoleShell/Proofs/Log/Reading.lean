/-
Event logs read back.

An event is written as one line: an object with the fields of the call that logs it and behind
them those of the event.  A line is read back as the entry that has exactly these fields, and
a log as the entries of its lines.  Fields that stand alone and fields with lists of words are
written in styles of their own, so that a line is not the text of one value in one style; each
of its fields is.
-/
import ConsoleShell.Event
import ConsoleShell.Proofs.Json.Reading
import ConsoleShell.Proofs.Log.Coverage
import ConsoleShell.Proofs.Text.Utf8

namespace ConsoleShell

/-! ### Values of fields -/

namespace FieldValue

/-- The texts of the value have no stray bytes. -/
def IsText : FieldValue → Prop
  | .text s => Utf8.isValid s = true
  | .words ws => ∀ w ∈ ws, Utf8.isValid w = true

instance : DecidablePred IsText
  | .text s => inferInstanceAs (Decidable (Utf8.isValid s = true))
  | .words ws => inferInstanceAs (Decidable (∀ w ∈ ws, Utf8.isValid w = true))

/-- The value that stands for a field in JSON. -/
def value : FieldValue → Json
  | .text s => .string s
  | .words ws => .array (ws.map .string)

/-- The style in which the value is written. -/
def style : FieldValue → Json.Style
  | .text _ => Event.plainStyle
  | .words _ => Event.listStyle

lemma renderItems_strings (style : Json.Style) (ws : List Bytes) :
    Json.renderItems style (ws.map .string) = Bytes.join "," (ws.map (Json.quote style)) := by
  induction ws with
  | nil => rfl
  | cons w ws ih =>
    cases ws with
    | nil => rfl
    | cons w' ws =>
      rw [List.map_cons, List.map_cons, Json.renderItems, ← List.map_cons, ih, Json.render]
      rfl

lemma json_eq_render (v : FieldValue) : Event.FieldValue.json v = v.value.render v.style := by
  cases v with
  | text s => rfl
  | words ws =>
    rw [value, Json.render, renderItems_strings]
    rfl

lemma itemsWellFormed_strings (ws : List Bytes) : Json.ItemsWellFormed (ws.map .string) :=
  Json.itemsWellFormed_of (List.forall_mem_map.2 fun _ _ => trivial)

lemma wellFormed_value (v : FieldValue) : v.value.WellFormed := by
  cases v with
  | text s => trivial
  | words ws => exact itemsWellFormed_strings ws

lemma itemsCleaned_strings {ws : List Bytes} (h : ∀ w ∈ ws, Utf8.isValid w = true) :
    Json.itemsCleaned (ws.map .string) = ws.map .string := by
  rw [Json.itemsCleaned_eq, List.map_map]
  refine List.map_congr_left fun w hw => ?_
  rw [Function.comp_apply, Json.cleaned, Utf8.sanitize_sanitize, Utf8.sanitize_of_isValid (h w hw)]

lemma cleaned_value {v : FieldValue} (h : v.IsText) : v.value.cleaned = v.value := by
  cases v with
  | text s => rw [value, Json.cleaned, Utf8.sanitize_of_isValid h, Utf8.sanitize_of_isValid h]
  | words ws => rw [value, Json.cleaned, itemsCleaned_strings h]

/-- What is written for a field is a text of its value. -/
lemma hasText_json {v : FieldValue} (h : v.IsText) :
    v.value.HasText (Event.FieldValue.json v) := by
  have htext := Json.hasText_render v.style v.value v.wellFormed_value
  rwa [cleaned_value h, ← json_eq_render] at htext

lemma itemsDepth_strings (ws : List Bytes) : Json.itemsDepth (ws.map .string) = 0 :=
  Nat.le_zero.1 (Json.itemsDepth_le (List.forall_mem_map.2 fun _ _ => Nat.le_refl 0))

lemma depth_value (v : FieldValue) : v.value.depth ≤ 1 := by
  cases v with
  | text s => exact Nat.zero_le 1
  | words ws => rw [value, Json.depth, itemsDepth_strings]

end FieldValue

namespace Event

/-! ### Fields -/

/-- A field as it stands in a line. -/
def fieldText (f : Bytes × FieldValue) : Bytes :=
  Json.quote plainStyle f.1 ++ ":" ++ FieldValue.json f.2

/-- A field as it is read back. -/
def fieldValue (f : Bytes × FieldValue) : Bytes × Json := (f.1, f.2.value)

/-- The key and the texts of a field have no stray bytes. -/
def FieldIsText (f : Bytes × FieldValue) : Prop := Utf8.isValid f.1 = true ∧ f.2.IsText

lemma fieldText_eq (f : Bytes × FieldValue) :
    fieldText f = Json.quote plainStyle f.1 ++ 58 :: FieldValue.json f.2 := by
  rw [fieldText, List.append_assoc]
  rfl

lemma hasText_field {f : Bytes × FieldValue} (h : FieldIsText f) :
    Json.FieldText f.1 f.2.value.HasText (fieldText f) := by
  have hkey := Json.stringText_quote plainStyle f.1
  rw [Utf8.sanitize_of_isValid h.1, Utf8.sanitize_of_isValid h.1] at hkey
  exact ⟨_, _, fieldText_eq f, Json.spaced_of hkey, Json.spaced_of (FieldValue.hasText_json h.2)⟩

/-- The fields of a line with commas between them. -/
lemma hasText_fields : ∀ {fs : List (Bytes × FieldValue)}, (∀ f ∈ fs, FieldIsText f) →
    Json.FieldsText (fs.map fieldValue) (Bytes.join "," (fs.map fieldText))
  | [], _ => Json.blank_nil
  | [f], h => hasText_field (h f List.mem_cons_self)
  | f :: g :: fs, h =>
    ⟨fieldText f, Bytes.join "," ((g :: fs).map fieldText),
      by rw [List.map_cons, List.map_cons, Bytes.join, List.append_assoc]; rfl,
      hasText_field (h f List.mem_cons_self),
      hasText_fields fun f hf => h f (List.mem_cons_of_mem _ hf)⟩

lemma depth_fields (fs : List (Bytes × FieldValue)) :
    Json.fieldsDepth (fs.map fieldValue) ≤ 1 := by
  induction fs with
  | nil => exact Nat.zero_le 1
  | cons f fs ih =>
    rw [List.map_cons, fieldValue, Json.fieldsDepth]
    exact max_le f.2.depth_value ih

end Event

/-! ### Entries -/

namespace LogEntry

/-- The keys of the fields of an entry. -/
def keys : List Bytes := textFields.map (·.1) ++ [Bytes.ofString "command", Bytes.ofString "time"]

lemma isValid_of_mem_keys : ∀ k ∈ keys, Utf8.isValid k = true := by decide +kernel

/-- No key of a field is another one in different letters. -/
lemma sameKey_of_mem_keys : ∀ a ∈ keys, ∀ b ∈ keys, Json.sameKey a b = (a == b) := by
  decide +kernel

/-- Sets the field with a key that is written as it should be. -/
def setKnown (e : LogEntry) (f : Bytes × Json) : Option LogEntry :=
  match textFields.find? fun t => t.1 == f.1 with
  | some (_, set) => e.setText set f.2
  | none =>
    if ("command" : Bytes) == f.1 then e.setCommand f.2
    else if ("time" : Bytes) == f.1 then e.checkTime f.2
    else some e

lemma setField_eq_setKnown (e : LogEntry) {f : Bytes × Json} (hf : f.1 ∈ keys) :
    e.setField f = e.setKnown f := by
  have hfind : (textFields.find? fun t => Json.sameKey t.1 f.1) =
      textFields.find? fun t => t.1 == f.1 :=
    List.find?_congr fun t ht =>
      sameKey_of_mem_keys t.1 (List.mem_append_left _ (List.mem_map_of_mem ht)) f.1 hf
  have hcommand := sameKey_of_mem_keys "command" (by decide +kernel) f.1 hf
  have htime := sameKey_of_mem_keys "time" (by decide +kernel) f.1 hf
  rw [setField, hfind, hcommand, htime]
  rfl

lemma foldlM_setField_eq (e : LogEntry) {fs : List (Bytes × Json)} (hfs : ∀ f ∈ fs, f.1 ∈ keys) :
    fs.foldlM setField e = fs.foldlM setKnown e := by
  induction fs generalizing e with
  | nil => rfl
  | cons f fs ih =>
    obtain ⟨hf, hfs⟩ := List.forall_mem_cons.1 hfs
    rw [List.foldlM_cons, List.foldlM_cons, setField_eq_setKnown e hf]
    exact bind_congr fun e => ih e hfs

lemma words?_strings (ws : List Bytes) : words? [] (ws.map .string) = some ws := by
  induction ws with
  | nil => rfl
  | cons w ws ih =>
    rw [List.map_cons, words?, List.tail_nil, ih]
    rfl

lemma setKnown_command {e : LogEntry} (he : e.command = []) (ws : List Bytes) :
    e.setKnown ("command", (FieldValue.words ws).value) = some { e with command := ws } := by
  have hwords : (words? e.command (ws.map .string)).map (fun command => { e with command }) =
      some { e with command := ws } := by
    rw [he, words?_strings]
    rfl
  exact hwords

lemma setKnown_time (e : LogEntry) {time : Bytes} (h : Timestamp.isValid time = true) :
    e.setKnown ("time", (FieldValue.text time).value) = some e := by
  have htime : (if Timestamp.isValid time then some e else none) = some e := if_pos h
  exact htime

/-- An entry with the fields of an event. -/
def ofEvent : Event → LogEntry
  | .sessionStart source => { source }
  | .sessionEnd failure => { error := failure.getD [] }
  | .loginAttempt user address accepted =>
    { user, address, result := if accepted then "accepted" else "rejected" }
  | .runCommand words => { command := words }
  | .unknownCommand words => { command := words }
  | .invalidInvocation words error => { command := words, error }
  | .crash cause trace => { context := cause, trace }
  | .openRecording name => { name }
  | .errorLog message => { message }
  | .fileAccess operation path allowed =>
    { operation, path, result := if allowed then "allowed" else "denied" }

/-- Each field of an event is read back into the field of the entry for it. -/
lemma foldlM_fields (e : Event) (level event session : Bytes) :
    (e.fields.map Event.fieldValue).foldlM setKnown { level, event, session } =
      some { ofEvent e with level, event, session } := by
  cases e with
  | sessionStart source => rfl
  | sessionEnd failure => cases failure <;> rfl
  | loginAttempt user address accepted => rfl
  | runCommand words => exact congrArg (· >>= _) (setKnown_command rfl words)
  | unknownCommand words => exact congrArg (· >>= _) (setKnown_command rfl words)
  | invalidInvocation words error => exact congrArg (· >>= _) (setKnown_command rfl words)
  | crash cause trace => rfl
  | openRecording name => rfl
  | errorLog message => rfl
  | fileAccess operation path allowed => rfl

end LogEntry

/-! ### Calls -/

/-- A call that logs an event: when it happens and, unless it is outside of sessions, the
identifier of its session. -/
structure LogCall where
  time : Bytes
  session : Option Bytes
  event : Event
  deriving DecidableEq, Repr

namespace LogCall

/-- The line that the call writes. -/
def line (c : LogCall) : Bytes := c.event.jsonLine c.time c.session

/-- The fields of the line. -/
def fields (c : LogCall) : List (Bytes × FieldValue) :=
  c.event.head c.time c.session ++ c.event.fields

/-- The time is a timestamp, and none of the texts has stray bytes. -/
structure IsText (c : LogCall) : Prop where
  time : Timestamp.isValid c.time = true
  fields : ∀ f ∈ c.fields, f.2.IsText

instance : DecidablePred IsText := fun c =>
  decidable_of_iff (Timestamp.isValid c.time = true ∧ ∀ f ∈ c.fields, f.2.IsText)
    ⟨fun h => ⟨h.1, h.2⟩, fun h => ⟨h.time, h.fields⟩⟩

/-- The entry that has the level and the name of the event, the session, and the fields of the
event. -/
def entry (c : LogCall) : LogEntry :=
  { LogEntry.ofEvent c.event with
    level := c.event.level.name, event := c.event.name, session := c.session.getD [] }

variable {c : LogCall}

/-- The value that stands in the line. -/
def value (c : LogCall) : Json := .object (c.fields.map Event.fieldValue)

/-- The line without its end. -/
def text (c : LogCall) : Bytes := 123 :: Bytes.join "," (c.fields.map Event.fieldText) ++ [125]

lemma line_eq (c : LogCall) : c.line = c.text ++ [10] := by
  rw [line, Event.jsonLine, Bytes.line]
  rfl

lemma keys_eventFields (e : Event) :
    (e.fields.all fun f => LogEntry.keys.contains f.1) = true := by
  cases e with
  | sessionEnd failure => cases failure <;> rfl
  | _ => rfl

lemma keys_fields (c : LogCall) : ∀ f ∈ c.fields, f.1 ∈ LogEntry.keys := by
  have hhead :
      ((c.event.head c.time c.session).all fun f => LogEntry.keys.contains f.1) = true := by
    rw [Event.head]
    cases c.session <;> rfl
  have hall := (List.all_append ..).trans
    (congrArg₂ and hhead (keys_eventFields c.event))
  intro f hf
  exact List.contains_iff_mem.1 (List.all_eq_true.1 hall f hf)

lemma fieldIsText (h : c.IsText) : ∀ f ∈ c.fields, Event.FieldIsText f :=
  fun f hf => ⟨LogEntry.isValid_of_mem_keys f.1 (c.keys_fields f hf), h.fields f hf⟩

lemma hasText_value (h : c.IsText) : c.value.HasText c.text :=
  ⟨_, rfl, Event.hasText_fields (fieldIsText h)⟩

lemma depth_value (c : LogCall) : c.value.depth ≤ Json.maxDepth := by
  have hfields := Event.depth_fields c.fields
  rw [value, Json.depth, Json.maxDepth]
  omega

lemma ofJson?_value (h : c.IsText) : LogEntry.ofJson? c.value = some c.entry := by
  have hkeys : ∀ f ∈ c.fields.map Event.fieldValue, f.1 ∈ LogEntry.keys := by
    intro f hf
    obtain ⟨field, hfield, rfl⟩ := List.mem_map.1 hf
    exact c.keys_fields field hfield
  rw [value, LogEntry.ofJson?, LogEntry.foldlM_setField_eq _ hkeys, fields, Event.head, entry]
  have htime := LogEntry.setKnown_time {} h.time
  cases c.session with
  | none =>
    rw [List.cons_append, List.map_cons, List.foldlM_cons, Event.fieldValue, htime]
    exact LogEntry.foldlM_fields c.event _ _ _
  | some id =>
    rw [List.cons_append, List.map_cons, List.foldlM_cons, Event.fieldValue, htime]
    exact LogEntry.foldlM_fields c.event _ _ id

lemma describes_value (h : c.IsText) : LogReading.Describes c.value c.entry :=
  ⟨c.depth_value, ofJson?_value h⟩

/-- The lines that calls write are their values. -/
lemma sequence_lines {calls : List LogCall} (h : ∀ c ∈ calls, c.IsText) :
    LogReading.Sequence LogReading.Anything (calls.map entry) (calls.flatMap line) := by
  induction calls with
  | nil => exact .nil Json.blank_nil
  | cons c calls ih =>
    obtain ⟨hc, hcalls⟩ := List.forall_mem_cons.1 h
    have hend : Json.Blank [10] := fun c hc => by
      obtain rfl := List.mem_singleton.1 hc
      rfl
    have hlog : (c :: calls).flatMap line = [] ++ c.text ++ ([10] ++ calls.flatMap line) := by
      rw [List.flatMap_cons, line_eq, List.append_assoc]
      rfl
    rw [hlog]
    exact .cons Json.blank_nil (hasText_value hc) (describes_value hc) trivial
      ((ih hcalls).blank_append hend)

/-- **A log is read back as the calls that wrote it.**  The lines that calls write, from any
sessions, are read without a fault, and there is one entry for each call, in order, with the
event's name and level, the identifier of the session and the fields of the event. -/
lemma ofBytes_lines {calls : List LogCall} (h : ∀ c ∈ calls, c.IsText) :
    LogReading.ofBytes (calls.flatMap line) = ⟨calls.map entry, true⟩ :=
  LogReading.ofBytes_eq_iff.2
    ⟨_, [], (List.append_nil _).symm, nofun, sequence_lines h⟩

end LogCall

end ConsoleShell
