/-
Accepted candidates.

A candidate takes the place of the word that is completed.  What stands before that word is words
and separators, so the candidate is read by itself.  It is the argument that was offered exactly if
the name in it is a word as it stands: a blank cuts the name, and a quote, a backslash or an
operator changes what is read.  Names that are words as they stand make candidates that can always
be accepted.
-/
import ConsoleShell.Proofs.File.ReadOnly
import ConsoleShell.Proofs.Line.Verbatim
import ConsoleShell.Proofs.Shell.Completion

namespace ConsoleShell

namespace Completion

open Line (IsArrow IsBare IsPlain IsVerbatim NamesTarget lastWord separators special)

variable {text word x : Bytes} {words : List Bytes} {m : Machine}

/-! ### What is offered -/

/-- The entries that are listed for a directory as it is typed. -/
def listed (m : Machine) (dir : Bytes) : List (Bytes × Node) :=
  (m.request (.open (m.resolve dir))).2.host.store.children (m.resolve dir)

/-- The candidate is the name of a command, a variable or an entry of the directory that the word
begins with; directories are continued, other names are finished. -/
inductive Offers (m : Machine) (word : Bytes) : Bytes → Prop where
  | command {c : Command CommandBody} (hc : c ∈ m.host.table.commands) :
      Offers m word (c.signature.name ++ [Ascii.space])
  | variable {v : Variable} (hv : v ∈ m.host.table.vars) : Offers m word (v.name ++ [Ascii.space])
  | file {e : Bytes × Node} (he : e ∈ listed m (Path.split word).1) :
      Offers m word ((Path.split word).1 ++ e.1 ++ [Ascii.space])
  | directory {e : Bytes × Node} (he : e ∈ listed m (Path.split word).1) :
      Offers m word ((Path.split word).1 ++ e.1 ++ [Ascii.slash])

lemma exists_of_mem_finished {names : List Bytes} (hx : x ∈ finished word names) :
    ∃ name ∈ names, x = name ++ [Ascii.space] := by
  obtain ⟨name, hname, rfl⟩ := List.mem_map.1 hx
  exact ⟨name, (List.mem_filter.1 hname).1, rfl⟩

/-- Nothing is listed but what a directory has. -/
lemma mem_children_of_mem_listDirectory {path : Bytes} {e : Bytes × Node}
    (he : e ∈ (m.listDirectory path).1) : e ∈ m.host.store.children path := by
  simp only [Machine.listDirectory, FileBase.list_store] at he
  split at he
  · exact he
  · cases he

lemma offers_of_mem_paths (hx : x ∈ (paths m word).1) : Offers m word x := by
  rw [paths] at hx
  dsimp only at hx
  split at hx
  · cases hx
  · next m' hrequest =>
    rw [Bytes.sort, List.mem_mergeSort, List.mem_map] at hx
    obtain ⟨e, he, rfl⟩ := hx
    have hlisted : e ∈ listed m (Path.split word).1 := by
      rw [listed, hrequest]
      exact mem_children_of_mem_listDirectory (List.mem_filter.1 he).1
    split
    · exact .directory hlisted
    · exact .file hlisted

/-- Every candidate is a name that the shell knows. -/
lemma offers_of_mem (h : words? text = some words)
    (hx : x ∈ (complete m text).1.candidates) : Offers m (complete m text).1.word x := by
  revert hx
  rw [complete, h]
  dsimp only
  -- the place of the word decides what is offered, and any word may stand there
  generalize (if (text.getLast?.map fun c => !Line.isSeparator c).getD false && !words.isEmpty
    then words.getLast?.getD [] else []) = word
  generalize (if (text.getLast?.map fun c => !Line.isSeparator c).getD false && !words.isEmpty
    then words.length - 1 else words.length) = index
  split
  · intro hx
    obtain ⟨name, hname, rfl⟩ := exists_of_mem_finished hx
    obtain ⟨c, hc, rfl⟩ := List.mem_map.1 hname
    exact .command hc
  · split
    · intro hx
      cases hx
    · split
      · intro hx
        obtain ⟨name, hname, rfl⟩ := exists_of_mem_finished hx
        obtain ⟨v, hv, rfl⟩ := List.mem_map.1 hname
        exact .variable hv
      · split
        · exact offers_of_mem_paths
        · intro hx
          cases hx

/-! ### The argument of a candidate -/

/-- The argument that a candidate offers: the candidate without the blank that finishes it. -/
def offered (x : Bytes) : Bytes := Bytes.dropEnd x [Ascii.space]

lemma offered_append_space (name : Bytes) : offered (name ++ [Ascii.space]) = name := by
  have hends : Bytes.endsWith (name ++ [Ascii.space]) [Ascii.space] = true :=
    List.isSuffixOf_iff_suffix.2 (List.suffix_append _ _)
  simp [offered, Bytes.dropEnd, hends]

lemma offered_append_slash (name : Bytes) :
    offered (name ++ [Ascii.slash]) = name ++ [Ascii.slash] := by
  have hends : ¬Bytes.endsWith (name ++ [Ascii.slash]) [Ascii.space] = true := by
    intro hends
    obtain ⟨t, ht⟩ := List.isSuffixOf_iff_suffix.1 hends
    exact absurd (List.append_inj_right' ht rfl) (by decide)
  rw [offered, Bytes.dropEnd, if_neg hends]

lemma exists_offered_append (x : Bytes) :
    ∃ tail, x = offered x ++ tail ∧ ∀ c ∈ tail, c ∈ separators := by
  by_cases hends : Bytes.endsWith x [Ascii.space] = true
  · obtain ⟨name, rfl⟩ := List.isSuffixOf_iff_suffix.1 hends
    rw [offered_append_space]
    exact ⟨[Ascii.space], rfl, List.forall_mem_singleton.2 (by decide)⟩
  · rw [offered, Bytes.dropEnd, if_neg hends]
    exact ⟨[], (List.append_nil x).symm, List.forall_mem_nil _⟩

/-- The names that may be offered are words as they stand. -/
structure VerbatimNames (m : Machine) : Prop where
  commands : ∀ c ∈ m.host.table.commands, IsVerbatim c.signature.name
  vars : ∀ v ∈ m.host.table.vars, IsVerbatim v.name
  entries : ∀ dir, ∀ e ∈ listed m dir, IsVerbatim e.1

lemma exists_of_mem_children {s : FileStore} {p : Bytes} {e : Bytes × Node}
    (h : e ∈ s.children p) : ∃ f ∈ s.entries, e = (Path.base f.1, f.2) := by
  obtain ⟨f, hf, rfl⟩ := List.mem_map.1 (List.mem_mergeSort.1 h)
  exact ⟨f, (List.mem_filter.1 hf).1, rfl⟩

/-- Without a guard the files that are listed are those that are kept. -/
lemma VerbatimNames.of_entries (hguard : m.shell.guard = .none)
    (hcommands : ∀ c ∈ m.host.table.commands, IsVerbatim c.signature.name)
    (hvars : ∀ v ∈ m.host.table.vars, IsVerbatim v.name)
    (hentries : ∀ f ∈ m.host.store.entries, IsVerbatim (Path.base f.1)) : VerbatimNames m := by
  refine ⟨hcommands, hvars, fun dir e he => ?_⟩
  have hlooks : (FileRequest.open (m.resolve dir)).Looks := List.forall_mem_singleton.2 rfl
  have hkept : (m.request (.open (m.resolve dir))).2.host.store = m.host.store := by
    rw [Machine.request, Machine.noteRequest, hguard]
    exact FileStore.perform_of_looks hlooks
  rw [listed, hkept] at he
  obtain ⟨f, hf, rfl⟩ := exists_of_mem_children he
  exact hentries f hf

/-- Such a name makes a candidate that offers a word as it stands, behind a directory of a word that
is typed as it stands. -/
lemma VerbatimNames.offered (hm : VerbatimNames m) (hword : ∀ c ∈ word, c ∉ special)
    (hx : Offers m word x) : IsVerbatim (offered x) := by
  have hdir : ∀ c ∈ (Path.split word).1, c ∉ special := by
    intro c hc
    refine hword c ?_
    rw [← Path.split_append word]
    exact List.mem_append_left _ hc
  have hpath {e : Bytes × Node} (he : e ∈ listed m (Path.split word).1) :
      IsVerbatim ((Path.split word).1 ++ e.1) := by
    obtain ⟨hne, hname⟩ := hm.entries _ e he
    exact ⟨by simp [hne], List.forall_mem_append.2 ⟨hdir, hname⟩⟩
  cases hx with
  | command hc =>
    rw [offered_append_space]
    exact hm.commands _ hc
  | «variable» hv =>
    rw [offered_append_space]
    exact hm.vars _ hv
  | file he =>
    rw [offered_append_space]
    exact hpath he
  | directory he =>
    rw [offered_append_slash]
    refine ⟨by simp, List.forall_mem_append.2 ⟨(hpath he).2, ?_⟩⟩
    exact List.forall_mem_singleton.2 (by decide)

/-! ### Accepting a candidate -/

lemma isBare_of_plain (hplain : IsPlain text) (harrow : ∀ c ∈ text, ¬IsArrow c) : IsBare text := by
  intro c hc
  by_cases hseparator : c ∈ separators
  · exact .inr hseparator
  · have hplain := hplain c hc
    exact .inl ((Line.not_special_iff hplain.1 hplain.2).2 ⟨hseparator, harrow c hc⟩)

/-- A text of words and separators is its last word behind the earlier words, and what takes the
place of the last word is read by itself. -/
lemma exists_front (hbare : IsBare text) :
    ∃ front earlier, text = front ++ lastWord text ∧
      words? text = some (earlier ++ if lastWord text = [] then [] else [lastWord text]) ∧
      ∀ a tail, (∀ c ∈ tail, c ∈ separators) →
        ((∃ l, Line.split (front ++ (a ++ tail)) = .ok l ∧ l.words = earlier ++ [a]) ↔
          IsVerbatim a) ∧
        (IsVerbatim a → Line.split (front ++ (a ++ tail)) = .ok ⟨earlier ++ [a], []⟩) := by
  set front := text.rdropWhile fun c => c ∉ special with hfront
  have hcut : front ++ lastWord text = text := List.rdropWhile_append_rtakeWhile
  have hbareFront : IsBare front := fun c hc => hbare c (hcut ▸ List.mem_append_left _ hc)
  -- a word stops at a special byte, and separators are the only ones in the text
  have hends : ∀ c, front.getLast? = some c → c ∈ separators := by
    intro c hc
    have hspecial : c ∈ special := by simpa using Line.not_of_getLast?_rdropWhile hc
    exact (hbareFront c (List.mem_of_getLast? hc)).resolve_left (not_not.2 hspecial)
  obtain ⟨earlier, hfrontSplit, hread⟩ := Line.split_behind_bare hbareFront hends
  refine ⟨front, earlier, hcut.symm, ?_, hread⟩
  by_cases hnil : lastWord text = []
  · rw [hnil, List.append_nil] at hcut
    rw [if_pos hnil, List.append_nil, words?, ← hcut, hfrontSplit]
    by_cases hearlier : earlier = []
    · rw [if_pos hearlier, hearlier]
    · rw [if_neg hearlier]
  · have hverbatim : IsVerbatim (lastWord text) :=
      ⟨hnil, fun c hc => by simpa using List.mem_rtakeWhile_imp hc⟩
    have hsplit := (hread (lastWord text) [] (List.forall_mem_nil _)).2 hverbatim
    rw [List.append_nil, hcut] at hsplit
    rw [if_neg hnil, words?, hsplit]

/-- **An accepted candidate is the argument that it offers exactly if that is a word as it stands.**
In a text without quotes, backslashes and operators the completed word stands at the end, behind the
earlier arguments.  A candidate in its place gives a line that is split into the earlier arguments
and one more, the candidate without the blank that finishes it, exactly if that is not empty and has
no separators, quotes, backslashes and operators.  Every candidate is like that in a shell whose
names of commands, variables and files are. -/
theorem accepted_candidate_is_argument_iff (m : Machine) (hplain : IsPlain text)
    (harrow : ∀ c ∈ text, ¬IsArrow c) :
    let c := (complete m text).1
    ∃ front earlier, text = front ++ c.word ∧
      words? text = some (earlier ++ if c.word = [] then [] else [c.word]) ∧
      (∀ x ∈ c.candidates,
        ((∃ l, Line.split (front ++ x) = .ok l ∧ l.words = earlier ++ [offered x]) ↔
          IsVerbatim (offered x)) ∧
        (IsVerbatim (offered x) → Line.split (front ++ x) = .ok ⟨earlier ++ [offered x], []⟩)) ∧
      (VerbatimNames m → ∀ x ∈ c.candidates, IsVerbatim (offered x)) := by
  intro c
  obtain ⟨front, earlier, htext, hwords, hread⟩ := exists_front (isBare_of_plain hplain harrow)
  have hword : c.word = lastWord text := by
    -- without operators the last word is no target, so that it is an argument
    have htarget : ¬NamesTarget text := by
      rintro ⟨b, hb, hbarrow⟩
      have hstart : Line.beforeLastWord text <+: text :=
        (List.rdropWhile_prefix _ _).trans (List.rdropWhile_prefix _ _)
      exact harrow b (hstart.subset (List.mem_of_getLast? hb)) hbarrow
    refine (complete_spec m hwords).1.trans ((taken_eq hplain hwords).trans ?_)
    rw [if_neg htarget]
    split
    · next hnil => exact hnil.symm
    · rfl
  refine ⟨front, earlier, hword ▸ htext, hword ▸ hwords, fun x hx => ?_, fun hm x hx => ?_⟩
  · obtain ⟨tail, hx, htail⟩ := exists_offered_append x
    have hboth := hread (offered x) tail htail
    rwa [← hx] at hboth
  · refine hm.offered (fun b hb => ?_) (offers_of_mem hwords hx)
    rw [show (complete m text).1.word = lastWord text from hword] at hb
    simpa using List.mem_rtakeWhile_imp hb

/-- A file whose name has a blank is offered as one argument and read as two. -/
theorem blank_in_name_makes_two_arguments :
    let store : FileStore :=
      { entries := [("/", Node.directory), ("/my file", Node.file [])] }
    let m : Machine := { host := { table := CommandTable.standard, store } }
    let text : Bytes := "cd my"
    IsPlain text ∧ (∀ c ∈ text, ¬IsArrow c) ∧ words? text = some (["cd", "my"] : List Bytes) ∧
      (complete m text).1 = ⟨"my", ["my file "]⟩ ∧ offered "my file " = "my file" ∧
      Line.split ("cd " ++ "my file " : Bytes) = .ok ⟨["cd", "my", "file"], []⟩ := by
  decide +kernel

/-- A file in a directory, behind a command and a comma, in a shell where every name is a word. -/
theorem accepted_candidate_is_argument_iff_path :
    let store : FileStore :=
      { entries := [("/", Node.directory), ("/db", Node.directory), ("/db/pump", Node.file [])] }
    let m : Machine := { host := { table := CommandTable.standard, store } }
    let text : Bytes := "cd,db/p"
    IsPlain text ∧ (∀ c ∈ text, ¬IsArrow c) ∧ VerbatimNames m ∧
      (complete m text).1 = ⟨"db/p", ["db/pump "]⟩ ∧
      ∃ front : Bytes, text = front ++ "db/p" ∧
        Line.split (front ++ "db/pump ") = .ok ⟨["cd", "db/pump"], []⟩ := by
  intro store m text
  have hplain : IsPlain text := by decide +kernel
  have harrow : ∀ c ∈ text, ¬IsArrow c := by decide +kernel
  have hnames : VerbatimNames m :=
    .of_entries rfl (by decide +kernel) (by decide +kernel) (by decide +kernel)
  have hcomplete : (complete m text).1 = ⟨"db/p", ["db/pump "]⟩ := by decide +kernel
  have hwords : words? text = some (["cd", "db/p"] : List Bytes) := by decide +kernel
  refine ⟨hplain, harrow, hnames, hcomplete, ?_⟩
  obtain ⟨front, earlier, htext, hearlier, hread, hverbatim⟩ :=
    accepted_candidate_is_argument_iff m hplain harrow
  have hword := hverbatim hnames
  rw [hcomplete] at htext hearlier hread hword
  have hcd : earlier = ["cd"] := by
    have hnonempty : ("db/p" : Bytes) ≠ [] := by decide +kernel
    dsimp only at hearlier
    rw [hwords, if_neg hnonempty] at hearlier
    exact (List.append_inj_left' (Option.some.inj hearlier) rfl).symm
  have hoffered : offered "db/pump " = "db/pump" := by decide +kernel
  have hsplit := (hread "db/pump " List.mem_cons_self).2 (hword _ List.mem_cons_self)
  rw [hcd, hoffered] at hsplit
  exact ⟨front, htext, hsplit⟩

end Completion

end ConsoleShell
