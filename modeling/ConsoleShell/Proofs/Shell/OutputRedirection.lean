/-
Redirecting the output of a line.

A redirection of the output to a file changes where bytes go and nothing else: the command of
the line, and every script and line that it runs, does the same, what it writes to the output of
the session is in the file instead, and everything else is as without the redirection.  This is
shown for a line of any kind, by comparing its two runs.  Inside a line whose output is
redirected already, a further redirection takes the bytes from the file they went to.
-/
import ConsoleShell.Proofs.Shell.DiversionStart

namespace ConsoleShell

/-! ### A line with one redirection more -/

namespace Redirects

variable {resolve : Bytes → Bytes}

lemma openTargets_append (as bs : Redirects) (m : Machine) :
    openTargets resolve (as ++ bs) m =
      match openTargets resolve as m with
      | (some f, as', n) => (some f, as' ++ bs, n)
      | (none, as', n) => ((openTargets resolve bs n).1, as' ++ (openTargets resolve bs n).2.1,
          (openTargets resolve bs n).2.2) := by
  induction as generalizing m with
  | nil => rfl
  | cons a as ih =>
    rw [List.cons_append, openTargets, openTargets]
    rcases openTarget resolve a m with ⟨f | b, n⟩
    · rfl
    · simp only [ih]
      rcases openTargets resolve as n with ⟨_ | f, as', n'⟩ <;> rfl

lemma openAll_eq_ok {rs rs' : Redirects} {m n : Machine} :
    openAll resolve rs m = (none, rs', n) ↔ openTargets resolve rs m = (none, rs', n) := by
  rw [openAll]
  rcases openTargets resolve rs m with ⟨_ | f, rs₁, n₁⟩
  · rfl
  · simp

lemma SparesOutput.of_openTargets {rs : List Redirection} (h : ∀ r ∈ rs, r.fd ≠ 1)
    {m n : Machine} {fault : Option RedirectionFault} {rs' : Redirects}
    (hopen : openTargets resolve (.ofList rs) m = (fault, rs', n)) : SparesOutput rs' := by
  intro a ha
  have hmap := openTargets_map resolve (.ofList rs) m
  rw [hopen] at hmap
  have hmem : (a.redirection, a.saved) ∈
      (Redirects.ofList rs).map fun b => (b.redirection, b.saved) :=
    hmap ▸ List.mem_map.2 ⟨a, ha, rfl⟩
  obtain ⟨b, hb, hba⟩ := List.mem_map.1 hmem
  obtain ⟨r, hr, rfl⟩ := List.mem_map.1 hb
  rw [← (Prod.mk.inj hba).1]
  exact h r hr

end Redirects

namespace Line

/-- The line with its output redirected to a file. -/
def withOutput (l : Line) (name : Bytes) : Line :=
  { l with redirections := insertRedirection ⟨1, .write, name⟩ l.redirections }

/-- The redirection of the output stands between that of the input and those of other
descriptors. -/
lemma redirections_withOutput {l : Line} (h : l.redirections.Pairwise fun a b => a.fd < b.fd)
    (hspare : ∀ r ∈ l.redirections, r.fd ≠ 1) (name : Bytes) :
    ∃ (input? : Option Redirection) (others : List Redirection), (∀ i ∈ input?, i.fd = 0) ∧
      (∀ r ∈ others, 1 < r.fd) ∧ l.redirections = input?.toList ++ others ∧
      (l.withOutput name).redirections = input?.toList ++ ⟨1, .write, name⟩ :: others := by
  obtain ⟨input?, hinput, hrs⟩ := redirections_eq h
  obtain ⟨others, hothers, hrs⟩ : ∃ others : List Redirection, (∀ r ∈ others, 1 < r.fd) ∧
      l.redirections = input?.toList ++ others := by
    refine ⟨_, fun r hr => ?_, hrs⟩
    obtain ⟨hmem, hne⟩ := List.mem_filter.1 hr
    have hspared := hspare r hmem
    have hpositive : r.fd ≠ 0 := by simpa using hne
    omega
  have hinsert : insertRedirection ⟨1, .write, name⟩ others = ⟨1, .write, name⟩ :: others := by
    cases others with
    | nil => rfl
    | cons r rs => rw [insertRedirection, if_pos (hothers r List.mem_cons_self)]
  refine ⟨input?, others, hinput, hothers, hrs, ?_⟩
  simp only [withOutput, hrs]
  cases input? with
  | none => exact hinsert
  | some i =>
    have hfd : ¬ 1 < i.fd := by rw [hinput i rfl]; decide
    show insertRedirection _ (i :: others) = i :: _
    rw [insertRedirection, if_neg hfd, hinsert]
    rfl

end Line

/-! ### What a redirection of the output changes -/

namespace Machine

/-- What has passed between a shell and its session at a descriptor since an earlier state. -/
def passedSince (n m : Machine) (id fd : Nat) : Bytes :=
  ((n.host.traffic.drop m.host.traffic.length).filter fun t =>
    t.shell == id && t.fd == fd).flatMap Transfer.data

/-- What was asked for between two states has nothing to do with the file with a name. -/
def LeavesAlone (m n : Machine) (name : Bytes) : Prop :=
  ∀ new, n.host.requests = new ++ m.host.requests →
    ∀ r ∈ new, r.Ignores m.host.store (m.target name) m.Types

/-- Two runs from one state end alike, but for where the output of the shell has gone: in the
first one it is in the file with a name. -/
structure Redirected (m : Machine) (name : Bytes) (m₁ m₂ : Machine) : Prop where
  shell : m₁.shell = m₂.shell
  environment : m₁.host.environment = m₂.host.environment
  cells : m₁.host.cells = m₂.host.cells
  table : m₁.host.table = m₂.host.table
  files : ∀ p, m.host.store.key p ≠ m.target name →
    m₁.host.store.find? p = m₂.host.store.find? p
  /-- What is read and what goes to other outputs is the same. -/
  passed : ∀ id fd, ¬(id = m.shell.id ∧ fd = 1) →
    m₁.passedSince m id fd = m₂.passedSince m id fd
  silent : m₁.passedSince m m.shell.id 1 = []
  contents : m₁.host.store.contents (m.resolve name) = m₂.passedSince m m.shell.id 1

end Machine

/-! ### Both runs of a line -/

namespace Machine

variable {m n k m₁ m₂ : Machine} {name : Bytes}

/-- What leaves the file alone does so after others have been opened. -/
lemma OpensOthers.quiet (h : m.OpensOthers (m.target name) n)
    (hk : (m.diversion name).Quiet k) : (n.diversion name).Quiet k := by
  obtain ⟨events, files, asked, rfl, -⟩ := h
  intro new hnew r hr
  refine hk (new ++ asked) ?_ r (List.mem_append_left _ hr)
  rw [hnew, List.append_assoc]
  rfl

/-- The targets of a line that open are opened with the file among them. -/
lemma Divertible.openTargets (h : m.Divertible name) {input? : Option Redirection}
    (hread : ∀ i ∈ input?, i.mode = .read) {others : List Redirection} {as bs : Redirects}
    (hfirst : Redirects.openTargets m.resolve (.ofList input?.toList) m = (none, as, n))
    (hsecond : Redirects.openTargets m.resolve (.ofList others) n = (none, bs, k))
    (hquiet : (m.diversion name).Quiet k) :
    m.OpensOthers (m.target name) n ∧ ∃ k₁,
      Redirects.openTargets m.resolve (.ofList (input?.toList ++ ⟨1, .write, name⟩ :: others)) m =
        (none, (n.diversion name).withOwn name none as bs, k₁) ∧
      (n.diversion name).Twin .waiting k₁ k ∧ (n.diversion name).SoundRedirects (as ++ bs) ∧
      k.shell.streams.output = .session := by
  have hlater := Evolves.inputOutput.openTargets m.resolve (.ofList others) n
  rw [hsecond] at hlater
  obtain ⟨hothers, helse⟩ := h.openBefore hread hfirst (hquiet.of_evolves hlater)
  have hn := h.of_opensOthers hothers
  obtain ⟨hresolve, hstreams, htarget⟩ : n.resolve = m.resolve ∧
      n.shell.streams = m.shell.streams ∧ n.target name = m.target name := by
    obtain ⟨events, files, asked, rfl, -⟩ := hothers
    exact ⟨rfl, rfl, rfl⟩
  rw [← htarget] at helse
  -- the file itself, and then the targets after it
  obtain ⟨n₁, hown, hwaiting⟩ := hn.opened
  have hquiet' : (n.diversion name).Quiet
      (Redirects.openTargets m.resolve (.ofList others) n).2.2 := by
    rw [hsecond]
    exact hothers.quiet hquiet
  have hafter := hwaiting.openTargets (Diversion.soundRedirects_ofList others) hquiet'
  rw [Diversion.leadRedirects_ofList, hsecond] at hafter
  rcases hthird : Redirects.openTargets m.resolve (.ofList others) n₁ with ⟨fault, bs₁, k₁⟩
  rw [hthird] at hafter
  obtain ⟨rfl, rfl, htwin, hsound⟩ := hafter
  have hfile : Redirects.openTarget m.resolve ⟨⟨1, .write, name⟩, none, none⟩ n =
      (.ok ((n.diversion name).ownAttachment name none), n₁) := by
    rw [Redirects.openTarget_named h.named, ← hresolve]
    simp only [hown]
    rfl
  have hrest : Redirects.openTargets m.resolve (.ofList (⟨1, .write, name⟩ :: others)) n =
      (none, (n.diversion name).ownAttachment name none ::
        (n.diversion name).leadRedirects .waiting bs, k₁) := by
    show Redirects.openTargets m.resolve (⟨⟨1, .write, name⟩, none, none⟩ ::
      Redirects.ofList others) n = _
    rw [Redirects.openTargets, hfile]
    simp only [hthird]
  refine ⟨hothers, k₁, ?_, htwin, List.forall_mem_append.2 ⟨helse.sound, hsound⟩, ?_⟩
  · rw [Redirects.ofList_append, Redirects.openTargets_append, hfirst]
    simp only [hrest, Diversion.withOwn, helse.lead]
  · have hkeeps := (Exchange.inputOutput.openTargets m.resolve (.ofList others) n).keeps
    rw [hsecond] at hkeeps
    rw [hkeeps.streams, hstreams, h.output]

/-- What the relation between the two machines at the end says about both runs. -/
lemma Redirected.of_twin (h : m.OpensOthers (m.target name) n)
    (htwin : (n.diversion name).Twin .finished m₁ m₂) (h₁ : Keeps m m₁) (h₂ : Keeps m m₂) :
    Redirected m name m₁ m₂ := by
  have hstreams : m₁.shell.streams = m₂.shell.streams := h₁.streams.trans h₂.streams.symm
  have hattachments : m₁.shell.attachments = m₂.shell.attachments :=
    h₁.attachments.trans h₂.attachments.symm
  have hkept : n.shell.id = m.shell.id ∧ n.host.store = m.host.store ∧
      n.host.traffic = m.host.traffic ∧ n.target name = m.target name ∧
      n.resolve = m.resolve := by
    obtain ⟨events, files, asked, rfl, -⟩ := h
    exact ⟨rfl, rfl, rfl, rfl, rfl⟩
  obtain ⟨hid, hstore₀, htraffic₀, htarget, hresolve⟩ := hkept
  obtain ⟨ρ, rfl, hρ⟩ := htwin
  obtain ⟨node, hdata, hstore⟩ := hρ.file
  have hkey : m₂.host.store.key = m.host.store.key := hρ.key.trans (congrArg _ hstore₀)
  have htraffic : m₂.host.traffic = m.host.traffic ++ ρ.passed := by
    rw [← htraffic₀]
    exact hρ.traffic
  have htraffic₁ : (m₂.mirrored (n.diversion name) .finished ρ).host.traffic =
      m.host.traffic ++ ρ.passed.filter fun t => !(n.diversion name).takes t := by
    rw [← htraffic₀]
    rfl
  have htakes : ∀ t : Transfer,
      (n.diversion name).takes t = (t.shell == m.shell.id && t.fd == 1) := by
    intro t
    rw [← hid]
    rfl
  refine ⟨?_, rfl, rfl, rfl, fun p hp => ?_, fun id fd hother => ?_, ?_, ?_⟩
  · show { m₂.shell with
      streams := (m₂.mirrored (n.diversion name) .finished ρ).shell.streams
      attachments := (m₂.mirrored (n.diversion name) .finished ρ).shell.attachments } = _
    rw [hstreams, hattachments]
  · exact hstore.find? (by
      show m₂.host.store.key p ≠ n.target name
      rwa [hkey, htarget])
  · rw [passedSince, passedSince, htraffic, htraffic₁, List.drop_left, List.drop_left,
      List.filter_filter]
    congr 1
    refine List.filter_congr fun t _ => ?_
    by_cases ht : t.shell = id ∧ t.fd = fd
    · obtain ⟨rfl, rfl⟩ := ht
      simpa [htakes, imp_iff_not_or] using hother
    · have hfalse : (t.shell == id && t.fd == fd) = false := by simpa using ht
      rw [hfalse, Bool.false_and]
  · rw [passedSince, htraffic₁, List.drop_left, List.filter_filter]
    have hnone : ∀ t ∈ ρ.passed, (t.shell == m.shell.id && t.fd == 1 &&
        !(n.diversion name).takes t) = false := by
      intro t _
      rw [htakes, Bool.and_not_self]
    rw [List.filter_eq_nil_iff.2 fun t ht => by rw [hnone t ht]; decide]
    rfl
  · have hpath : ρ.store.contents (m.resolve name) = ρ.store.contents (m.target name) := by
      have hkey' : ρ.store.key = m.host.store.key := hstore.key.trans hkey
      have hself : ρ.store.key (m.target name) = m.target name := by
        rw [hstore.key, ← htarget]
        exact hstore.key_self
      have hfind : ρ.store.find? (m.resolve name) = ρ.store.find? (m.target name) := by
        rw [FileStore.find?, FileStore.find?, hself, hkey']
        rfl
      rw [FileStore.contents, FileStore.contents, hfind]
    show ρ.store.contents (m.resolve name) = _
    rw [hpath, ← htarget, show ρ.store.contents (n.target name) = _ from hstore.contents_self,
      hdata, passedSince, htraffic, List.drop_left, Diversion.text]
    congr 1
    exact List.filter_congr fun t _ => htakes t

end Machine

namespace Interpreter

open Machine Redirects

variable {m n m₁ m₂ : Machine} {name : Bytes}

/-- A line that is dispatched is dispatched with its output redirected, too, and the two machines
at the end are related. -/
lemma dispatch_withOutput (h : m.Divertible name) {text : Bytes} {line : Line}
    (hsplit : Line.split text = .ok line) (hwords : line.words ≠ [])
    (hspare : ∀ r ∈ line.redirections, r.fd ≠ 1) {location : Location} {depth : Nat}
    (hopens : Opens m (.ofList line.redirections))
    (hrun : dispatch (invoke depth) line location m = some ((), m₂))
    (hquiet : m.LeavesAlone m₂ name) :
    ∃ n m₁, m.OpensOthers (m.target name) n ∧
      dispatch (invoke depth) (line.withOutput name) location m = some ((), m₁) ∧
      (n.diversion name).Twin .finished m₁ m₂ := by
  obtain ⟨input?, others, hinput, hothers, hrs, hwith⟩ :=
    Line.redirections_withOutput (Line.pairwise_fds_of_split hsplit) hspare name
  have hread : ∀ i ∈ input?, i.mode = .read := by
    intro i hi
    rw [Line.mode_of_split hsplit (by rw [hrs, hi]; exact List.mem_append_left _ (by simp))]
    exact hinput i hi
  -- the targets of the line, those before the file itself and those after it
  obtain ⟨rs, k, hopen⟩ := hopens
  rw [dispatch_apply _ hopen] at hrun
  have hopen := openAll_eq_ok.1 hopen
  rw [hrs, ofList_append, openTargets_append] at hopen
  rcases hfirst : Redirects.openTargets m.resolve (ofList input?.toList) m with ⟨_ | f, as, n⟩
  swap
  · rw [hfirst] at hopen
    cases hopen
  rcases hsecond : Redirects.openTargets m.resolve (ofList others) n with ⟨fault, bs, k'⟩
  rw [hfirst] at hopen
  simp only [hsecond] at hopen
  obtain ⟨rfl, rfl, rfl⟩ : fault = none ∧ as ++ bs = rs ∧ k' = k := by
    simpa using hopen
  obtain ⟨⟨rs₂, k₂⟩, hdispatch, heq⟩ := Option.map_eq_some_iff.1 hrun
  obtain rfl : detach rs₂ location k₂ = m₂ := (Prod.mk.inj heq).2
  -- nothing notices the file on the way
  have hquiet₂ : (m.diversion name).Quiet k₂ :=
    Diversion.Quiet.of_evolves hquiet (evolves_detach _ _ _)
  have hquiet' : (m.diversion name).Quiet k' :=
    hquiet₂.of_evolves
      (conduct_evolves.dispatchOpen (evolving_invoke depth) _ _ _ _ _ _ hdispatch)
  obtain ⟨hothers', k₁, hopened, htwin, hsound, hout⟩ :=
    h.openTargets hread hfirst hsecond hquiet'
  have has : SparesOutput as := .of_openTargets
    (fun r hr => by rw [hinput r (Option.mem_toList.1 hr)]; decide) hfirst
  have hbs : SparesOutput bs := .of_openTargets
    (fun r hr => ((hothers r hr).ne : 1 ≠ r.fd).symm) hsecond
  have hwaiting : (n.diversion name).Stays .waiting none as bs k₁ k' :=
    ⟨.opened, htwin, hsound, has, hbs, hout⟩
  obtain ⟨part, saved, as', bs', n₁, rfl, hrun₁, hstays⟩ :=
    hwaiting.dispatchWithOwn name hwords hdispatch (hothers'.quiet hquiet₂)
  refine ⟨n, _, hothers', ?_, hstays.detachWithOwn name location⟩
  rw [← hwith] at hopened
  rw [dispatch_apply _ (openAll_eq_ok.2 hopened)]
  exact congrArg (Option.map _) hrun₁

/-- **Redirecting the output of a line changes where its bytes go.**  In a state where the output
can be redirected to a file, let a line be dispatched that has words, leaves the output alone and
whose targets open, and let nothing that it runs have to do with the file.  Then the line with its
output redirected to the file is dispatched, too, the shell ends in the same state, the
environment, the variables, the table and the other files are the same, as is what goes to every
other stream of a session; nothing goes to the output of the session, and what would have gone
there is in the file. -/
theorem redirection_changes_where_bytes_go (h : m.Divertible name) {text : Bytes} {line : Line}
    (hsplit : Line.split text = .ok line) (hwords : line.words ≠ [])
    (hspare : ∀ r ∈ line.redirections, r.fd ≠ 1)
    (hopens : Opens m (.ofList line.redirections)) {location : Location} {depth : Nat}
    (hrun : dispatch (invoke depth) line location m = some ((), m₂))
    (hquiet : m.LeavesAlone m₂ name) :
    ∃ m₁, dispatch (invoke depth) (line.withOutput name) location m = some ((), m₁) ∧
      Redirected m name m₁ m₂ := by
  obtain ⟨n, m₁, hothers, hrun₁, htwin⟩ :=
    dispatch_withOutput h hsplit hwords hspare hopens hrun hquiet
  have hfds := Line.nodup_fds_of_split hsplit
  have hfds₁ : ((line.withOutput name).redirections.map Redirection.fd).Nodup := by
    refine ((Line.insertRedirection_perm ⟨1, .write, name⟩ line.redirections).map
      Redirection.fd).nodup_iff.2 (List.nodup_cons.2 ⟨fun hmem => ?_, hfds⟩)
    obtain ⟨r, hr, hfd⟩ := List.mem_map.1 hmem
    exact hspare r hr hfd
  have hkeeps := restoring_invoke depth
  exact ⟨m₁, hrun₁, .of_twin hothers htwin (maintains_dispatch hkeeps hfds₁ location _ _ _ hrun₁)
    (maintains_dispatch hkeeps hfds location _ _ _ hrun)⟩

/-- A line that runs a script, which redirects an output of its own and fails. -/
theorem redirection_changes_where_bytes_go_script :
    let m : Machine :=
      { shell := { scopes := [{}] }
        host := { table := CommandTable.standard
                  store := { entries := [("/s", .file "echo a > b\nno\n"), ("/", .directory)] } } }
    let line : Line := ⟨["iocshLoad", "s"], [⟨2, .write, "e"⟩]⟩
    Line.split "iocshLoad s 2> e" = .ok line ∧
    ∃ m₁ m₂, dispatch (invoke 5) line {} m = some ((), m₂) ∧
      dispatch (invoke 5) (line.withOutput "f") {} m = some ((), m₁) ∧
      Redirected m "f" m₁ m₂ ∧ m₁.host.store.contents "/f" = "echo a > b\nno\n" := by
  intro m line
  have hsplit : Line.split "iocshLoad s 2> e" = .ok line := by decide +kernel
  have hapart : ∀ s : Streams Endpoint, s = ⟨.session, .session, .session⟩ →
      m.host.KeepsApart (m.target "f") s := by
    rintro s rfl fd i hi
    simp only [Streams.get?] at hi
    split at hi <;> cases hi
  have hdivertible : m.Divertible "f" :=
    { output := rfl
      named := by decide
      directory := ⟨.directory, by decide +kernel, rfl⟩
      opens := ⟨{ path := "/f" }, by decide +kernel⟩
      closes := by decide
      streams := hapart _ rfl
      operator := hapart _ rfl
      other := by decide
      anchored := fun hm => by cases hm
      table := CommandTable.plain_standard
      triggers := fun t ht => by cases ht
      eventLog := fun i hi => by cases hi }
  let asked : List FileRequest :=
    [.openFile "/b" Mode.write.flags, .open "/s", .openFile "/e" Mode.write.flags]
  have hruns : (dispatch (invoke 5) line {} m).any (fun q => q.2.host.requests == asked &&
      q.2.passedSince m 0 1 == ("echo a > b\nno\n" : Bytes)) = true := by decide +kernel
  obtain ⟨⟨⟨⟩, m₂⟩, hrun, hq⟩ := (Option.any_eq_true _ _).1 hruns
  obtain ⟨hasked, hpassed⟩ := (Bool.and_eq_true _ _).mp hq
  have hquiet : m.LeavesAlone m₂ "f" := by
    intro new hnew r hr
    obtain rfl : new = asked := by
      rw [eq_of_beq hasked] at hnew
      exact (List.append_nil new).symm.trans hnew.symm
    have hmisses : ∀ q ∈ asked.flatMap FileRequest.inquiries,
        m.target "f" ≠ m.host.store.key q.path ∧
          m.target "f" ∉ FileStore.parents (m.host.store.key q.path) := by decide +kernel
    refine ⟨fun q hq => hmisses q (List.mem_flatMap.2 ⟨r, hr, hq⟩), fun htyped => ?_⟩
    obtain ⟨n, hn | hn⟩ := htyped <;> cases hn
  obtain ⟨m₁, hrun₁, hredirected⟩ := redirection_changes_where_bytes_go hdivertible hsplit
    (by decide) (by decide) ⟨_, _, rfl⟩ hrun hquiet
  exact ⟨hsplit, m₁, m₂, hrun, hrun₁, hredirected, hredirected.contents.trans (eq_of_beq hpassed)⟩

/-- Where the output leads to a file already, the session gets nothing of what a line writes,
but a file that the line redirects its output to does.  And where the diagnostics lead to the
file itself, it holds them. -/
theorem redirection_counts_on_the_output :
    let state (output error : Endpoint) : Machine :=
      { shell := { scopes := [{}], streams := ⟨.session, output, error⟩ }
        host := { table := CommandTable.standard
                  store := { entries := [("/f", .file []), ("/g", .file []), ("/", .directory)] }
                  handles := [{ path := "/f" }, { path := "/g" }] } }
    (∃ m₁ m₂, let m := state (.file 1) .session
      let line : Line := ⟨["echo", "hi"], []⟩
      dispatch (invoke 1) line {} m = some ((), m₂) ∧ m₂.host.requests = [] ∧
        dispatch (invoke 1) (line.withOutput "f") {} m = some ((), m₁) ∧
        m₁.host.store.contents "/f" = "hi\n" ∧ m₂.passedSince m 0 1 = []) ∧
    ∃ m₁ m₂, let m := state .session (.file 0)
      let line : Line := ⟨["no"], []⟩
      dispatch (invoke 1) line {} m = some ((), m₂) ∧ m₂.host.requests = [] ∧
        dispatch (invoke 1) (line.withOutput "f") {} m = some ((), m₁) ∧
        m₁.host.store.contents "/f" = "Command no not found.\n" ∧ m₂.passedSince m 0 1 = [] := by
  -- both runs of a line, once what they come to is known
  have hruns : ∀ (m : Machine) (line : Line) (text : Bytes),
      ((dispatch (invoke 1) line {} m).any fun q₂ =>
        (dispatch (invoke 1) (line.withOutput "f") {} m).any fun q₁ =>
          q₂.2.host.requests == [] && q₁.2.host.store.contents "/f" == text &&
            q₂.2.passedSince m 0 1 == []) = true →
      ∃ m₁ m₂, dispatch (invoke 1) line {} m = some ((), m₂) ∧ m₂.host.requests = [] ∧
        dispatch (invoke 1) (line.withOutput "f") {} m = some ((), m₁) ∧
        m₁.host.store.contents "/f" = text ∧ m₂.passedSince m 0 1 = [] := by
    intro m line text h
    obtain ⟨⟨⟨⟩, m₂⟩, hrun₂, h⟩ := (Option.any_eq_true _ _).1 h
    obtain ⟨⟨⟨⟩, m₁⟩, hrun₁, h⟩ := (Option.any_eq_true _ _).1 h
    simp only [Bool.and_eq_true, beq_iff_eq] at h
    exact ⟨m₁, m₂, hrun₂, h.1.1, hrun₁, h.1.2, h.2⟩
  exact ⟨hruns _ _ _ (by decide +kernel), hruns _ _ _ (by decide +kernel)⟩

end Interpreter

end ConsoleShell
