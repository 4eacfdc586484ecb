/-
Reading, writing and recording.

Most of what a machine does between two decisions of the interpreter is input and output:
it writes to streams and files, reads from them, asks its guard, and records events.  This
file says once what all of this can change, namely the files, the open handles, the events,
the traffic, the file operations that are noted, the history, the input that is left, and the
contexts that a trigger cancels.
Everything else of a machine stays, and a cancelled context is never taken back.
-/
import ConsoleShell.Proofs.Shell.InputOutput

namespace ConsoleShell

variable {σ : Type}

namespace Machine

/-- `m'` comes from `m` by input and output. -/
def Exchange (m m' : Machine σ) : Prop :=
  ∃ input store handles events traffic requests history cancelled,
    m' = { shell := { m.shell with input },
           host := { m.host with
             store, handles, events, traffic, requests, history, cancelled } } ∧
    m.host.cancelled ⊆ cancelled

namespace Exchange

lemma refl (m : Machine σ) : Exchange m m :=
  ⟨_, _, _, _, _, _, _, _, rfl, List.Subset.refl _⟩

lemma trans {m₁ m₂ m₃ : Machine σ} (h : Exchange m₁ m₂) (h' : Exchange m₂ m₃) : Exchange m₁ m₃ := by
  obtain ⟨_, _, _, _, _, _, _, _, rfl, hsub⟩ := h
  obtain ⟨_, _, _, _, _, _, _, _, rfl, hsub'⟩ := h'
  exact ⟨_, _, _, _, _, _, _, _, rfl, fun _ hc => hsub' (hsub hc)⟩

instance : Std.Refl (@Exchange σ) := ⟨refl⟩

instance : IsTrans (Machine σ) Exchange := ⟨fun _ _ _ => trans⟩

/-- Changes of files, handles, events and traffic alone. -/
lemma of_host {m : Machine σ} (store : σ) (handles : List OpenFile) (events : List Event)
    (traffic : List Transfer) :
    Exchange m { m with host := { m.host with store, handles, events, traffic } } :=
  ⟨_, _, _, _, _, _, _, _, rfl, List.Subset.refl _⟩

end Exchange

/-! ### Files and events -/

section Files

variable (m : Machine σ)

lemma exchange_setFile (h : Nat) (f : OpenFile) (store : σ) : Exchange m (m.setFile h f store) :=
  .of_host _ _ _ _

lemma exchange_transfer (fd : Nat) (data : Bytes) : Exchange m (m.transfer fd data) :=
  .of_host _ _ _ _

lemma exchange_trip (test : Trigger → Bool) : Exchange m (m.trip test) :=
  ⟨_, _, _, _, _, _, _, _, rfl, List.subset_append_right _ _⟩

lemma exchange_showEvent (e : Event) : Exchange m (m.showEvent e) := by
  unfold showEvent
  split
  · exact m.exchange_transfer _ _
  · exact .refl m

variable [FileBase σ]

lemma exchange_readFile (h count : Nat) : Exchange m (m.readFile h count).2 := by
  unfold readFile
  split
  · exact .refl m
  · exact m.exchange_setFile _ _ _

lemma exchange_writeFile (h : Nat) (text : Bytes) : Exchange m (m.writeFile h text).2 := by
  unfold writeFile
  split
  · exact .refl m
  · exact m.exchange_setFile _ _ _

lemma exchange_logEvent (e : Event) : Exchange m (m.logEvent e) := by
  unfold logEvent
  split
  · exact .refl m
  · exact m.exchange_writeFile _ _

lemma exchange_record (e : Event) : Exchange m (m.record e) := by
  unfold record
  split
  · have hevents : Exchange m { m with host := { m.host with events := m.host.events ++ [e] } } :=
      .of_host _ _ _ _
    exact ((hevents.trans (exchange_logEvent _ e)).trans (exchange_showEvent _ e)).trans
      (exchange_trip _ _)
  · exact .refl m

lemma exchange_request (r : FileRequest) : Exchange m (m.request r).2 := by
  have hstore : ∀ store,
      Exchange m { m.noteRequest r with host := { (m.noteRequest r).host with store } } :=
    fun _ => ⟨_, _, _, _, _, _, _, _, rfl, List.Subset.refl _⟩
  unfold request
  dsimp only
  split
  · exact hstore _
  · exact (hstore _).trans (foldl_rel (fun m e => m.exchange_record e) _ _)

lemma exchange_openFile (r : FileRequest) : Exchange m (m.openFile r).2 := by
  have hrequest := m.exchange_request r
  unfold openFile
  split
  · rename_i h
    rwa [h] at hrequest
  · rename_i h
    rw [h] at hrequest
    exact hrequest.trans (.of_host _ _ _ _)
  · rename_i h
    rwa [h] at hrequest

lemma exchange_closeHandle (h : Nat) : Exchange m (m.closeHandle h).2 := by
  unfold closeHandle
  split
  · exact .refl m
  · exact m.exchange_setFile _ _ _

lemma exchange_listDirectory (path : Bytes) : Exchange m (m.listDirectory path).2 :=
  .of_host _ _ _ _

end Files

/-! ### Streams -/

section Streams

variable [FileBase σ] (m : Machine σ)

lemma exchange_read (e : Endpoint) (count : Nat) : Exchange m (read e count m).2 := by
  have hinput : ∀ input, Exchange m { m with shell := { m.shell with input } } :=
    fun _ => ⟨_, _, _, _, _, _, _, _, rfl, List.Subset.refl _⟩
  unfold read
  split
  · exact .refl m
  · simp only
    split
    · exact (hinput _).trans (exchange_transfer _ _ _)
    · exact hinput _
  · exact m.exchange_readFile _ _

lemma exchange_writeTo (fd : Nat) (e : Endpoint) (text : Bytes) :
    Exchange m (m.writeTo fd e text) := by
  unfold writeTo
  split
  · exact .refl m
  · exact (m.exchange_transfer fd text).trans (exchange_trip _ _)
  · exact m.exchange_writeFile _ _

end Streams

/-- Everything that input and output is made of changes no more than that. -/
lemma Exchange.inputOutput [FileBase σ] : InputOutput (@Exchange σ) where
  request m _ := m.exchange_request _
  openFile m _ := m.exchange_openFile _
  closeHandle h m := m.exchange_closeHandle h
  listDirectory path m := m.exchange_listDirectory path
  read e count m := m.exchange_read e count
  writeTo fd e text m := m.exchange_writeTo fd e text
  remember _ _ := ⟨_, _, _, _, _, _, _, _, rfl, List.Subset.refl _⟩

end Machine

end ConsoleShell
