/-
Environments as lists.

Whatever changes made an environment, its names are names of variables and no two of its entries
have the same name.  So the list of an environment has each variable once, and importing the list
gives back the environment.  The list is in the order of the texts `name=value`, which is the
order of the names unless one name continues another with a byte below the equals sign.
-/
import ConsoleShell.Proofs.Environment.Import
import ConsoleShell.Proofs.Text.Order

namespace ConsoleShell

namespace Environment

variable {e : Environment} {text name value : Bytes}

/-! ### Changes -/

/-- A change of an environment. -/
inductive Change where
  | set (name value : Bytes)
  | unset (name : Bytes)
  | copy (texts : List Bytes)
  deriving DecidableEq, Repr

/-- The bad name on which a change fails, and the environment after it. -/
def change (e : Environment) : Change → Option BadName × Environment
  | .set name value =>
    match e.set name value with
    | .ok e' => (none, e')
    | .error f => (some f, e)
  | .unset name => (none, e.unset name)
  | .copy texts => e.copy texts

/-- Changes lead to the environment from an empty one or from a list. -/
inductive Reachable : Environment → Prop
  | empty : Reachable {}
  | ofList (texts : List Bytes) : Reachable (ofList texts)
  | change {e : Environment} (h : Reachable e) (c : Change) : Reachable (e.change c).2

/-- Variables have names, and each has one entry. -/
structure Sound (e : Environment) : Prop where
  isName : ∀ x ∈ e.entries, Environment.isName x.1 = true
  nodup : (e.entries.map Prod.fst).Nodup

lemma sound_empty : Sound {} := ⟨nofun, List.nodup_nil⟩

lemma Sound.unset (h : e.Sound) (name : Bytes) : (e.unset name).Sound where
  isName x hx := h.isName x (List.mem_filter.1 hx).1
  nodup := (List.filter_sublist.map Prod.fst).nodup h.nodup

lemma Sound.set (h : e.Sound) {e' : Environment} (he : e.set name value = .ok e') : e'.Sound := by
  rw [Environment.set] at he
  split at he
  · rename_i hname
    obtain rfl := Except.ok.inj he
    have hunset := h.unset name
    refine ⟨List.forall_mem_cons.2 ⟨hname, hunset.isName⟩, ?_⟩
    rw [List.map_cons, List.nodup_cons]
    refine ⟨fun hmem => ?_, hunset.nodup⟩
    obtain ⟨x, hx, rfl⟩ := List.mem_map.1 hmem
    simpa using (List.mem_filter.1 hx).2
  · cases he

lemma Sound.copy (h : e.Sound) (texts : List Bytes) : (e.copy texts).2.Sound := by
  induction texts generalizing e with
  | nil => exact h
  | cons x texts ih =>
    rw [Environment.copy]
    cases he : e.set (splitEntry x).1 (splitEntry x).2 with
    | error f => exact h
    | ok e' => exact ih (h.set he)

lemma Sound.change (h : e.Sound) (c : Change) : (e.change c).2.Sound := by
  cases c with
  | set name value =>
    rw [Environment.change]
    cases he : e.set name value with
    | error f => exact h
    | ok e' => exact h.set he
  | unset name => exact h.unset name
  | copy texts => exact h.copy texts

lemma Reachable.sound (h : e.Reachable) : e.Sound := by
  induction h with
  | empty => exact sound_empty
  | ofList texts => exact sound_empty.copy texts
  | change _ c ih => exact ih.change c

lemma Sound.find?_eq_some_iff (h : e.Sound) :
    e.find? name = some value ↔ (name, value) ∈ e.entries := by
  rw [find?, Option.map_eq_some_iff]
  simp only [find?_key_eq_some_iff h.nodup]
  constructor
  · rintro ⟨x, ⟨hmem, rfl⟩, rfl⟩
    exact hmem
  · intro hmem
    exact ⟨(name, value), ⟨hmem, rfl⟩, rfl⟩

lemma Sound.isName_of_find? (h : e.Sound) (hfind : e.find? name = some value) :
    Environment.isName name = true :=
  h.isName _ (h.find?_eq_some_iff.1 hfind)

/-! ### The list of an environment -/

/-- The name that a text begins with, up to the first equals sign. -/
def nameOf (text : Bytes) : Bytes := text.takeWhile (· != Ascii.equals)

lemma nameOf_entryText (h : Ascii.equals ∉ name) (value : Bytes) :
    nameOf (entryText (name, value)) = name := by
  have hname : ∀ c ∈ name, (c != Ascii.equals) = true := by
    rintro c hc
    exact bne_iff_ne.2 fun heq => h (heq ▸ hc)
  rw [nameOf, entryText, List.append_assoc, List.takeWhile_append_of_pos hname]
  simp

/-- The texts are those of the variables with their values, and no name occurs twice. -/
structure Lists (e : Environment) (texts : List Bytes) : Prop where
  mem_iff : ∀ text, text ∈ texts ↔
    ∃ name value, e.find? name = some value ∧ text = entryText (name, value)
  nodup : (texts.map nameOf).Nodup

lemma Sound.map_nameOf (h : e.Sound) :
    (e.entries.map entryText).map nameOf = e.entries.map Prod.fst := by
  rw [List.map_map]
  exact List.map_congr_left fun x hx => nameOf_entryText ((isName_iff x.1).1 (h.isName x hx)).2 x.2

lemma Sound.lists (h : e.Sound) : Lists e e.list where
  mem_iff text := by
    rw [list, Bytes.sort, List.mem_mergeSort, List.mem_map]
    constructor
    · rintro ⟨x, hx, rfl⟩
      exact ⟨x.1, x.2, h.find?_eq_some_iff.2 hx, rfl⟩
    · rintro ⟨name, value, hfind, rfl⟩
      exact ⟨(name, value), h.find?_eq_some_iff.1 hfind, rfl⟩
  nodup := by
    have hperm := (List.mergeSort_perm (e.entries.map entryText) Bytes.le).map nameOf
    exact hperm.nodup_iff.2 (h.map_nameOf ▸ h.nodup)

lemma entryText_eq (name value : Bytes) :
    entryText (name, value) = name ++ Ascii.equals :: value := by
  rw [entryText, List.append_assoc]
  rfl

/-- No text of the list is without a name, so an import takes it to its end. -/
lemma Sound.named_list (h : e.Sound) : named e.list = e.list := by
  rw [named, List.takeWhile_eq_self_iff]
  intro text hmem
  obtain ⟨name, value, hfind, rfl⟩ := (h.lists.mem_iff text).1 hmem
  have hname := h.isName_of_find? hfind
  have hsplit := splitEntry_append ((isName_iff name).1 hname).2 value
  have hnamed := (isName_splitEntry_iff (name ++ Ascii.equals :: value)).1 (by rwa [hsplit])
  rw [entryText_eq]
  simpa using hnamed

lemma Sound.find?_of_lastAssigns (h : e.Sound) (hname : Environment.isName name = true)
    (hlast : LastAssigns e.list name value) : e.find? name = some value := by
  obtain ⟨text, hmem, hassigns⟩ := hlast.exists_mem
  obtain ⟨name', value', hfind, rfl⟩ := (h.lists.mem_iff text).1 hmem
  have hname' := h.isName_of_find? hfind
  rw [assigns_iff ((isName_iff name).1 hname).2, entryText_eq,
    splitEntry_append ((isName_iff name').1 hname').2] at hassigns
  obtain ⟨rfl, rfl⟩ := Prod.mk.inj hassigns
  exact hfind

lemma Sound.lastAssigns_of_find? (h : e.Sound) (hfind : e.find? name = some value) :
    LastAssigns e.list name value := by
  have hmem := (h.lists.mem_iff _).2 ⟨name, value, hfind, rfl⟩
  obtain ⟨w, hw⟩ := exists_lastAssigns hmem (.inl (entryText_eq name value))
  have hsame := hfind.symm.trans (h.find?_of_lastAssigns (h.isName_of_find? hfind) hw)
  rwa [Option.some.inj hsame]

/-- Importing the list gives each variable its value again. -/
lemma Sound.find?_ofList_list (h : e.Sound) (name : Bytes) :
    (ofList e.list).find? name = e.find? name := by
  refine Option.ext fun value => ?_
  by_cases hname : Environment.isName name = true
  · rw [find?_ofList hname, h.named_list]
    exact ⟨h.find?_of_lastAssigns hname, h.lastAssigns_of_find?⟩
  · have hsound := (Reachable.ofList e.list).sound
    exact ⟨fun hfind => absurd (hsound.isName_of_find? hfind) hname,
      fun hfind => absurd (h.isName_of_find? hfind) hname⟩

/-- **Environments survive being listed and imported.**  The list of an environment has each of
its variables once, with its value; a new environment from this list gives every name the value
that it had; and setting a variable leaves all values alone if it fails. -/
theorem list_survives_import (h : e.Reachable) :
    Lists e e.list ∧ (∀ name, (ofList e.list).find? name = e.find? name) ∧
      ∀ name value, (e.change (.set name value)).1 ≠ none →
        ∀ other, (e.change (.set name value)).2.find? other = e.find? other := by
  refine ⟨h.sound.lists, h.sound.find?_ofList_list, fun name value hfault other => ?_⟩
  rw [change] at hfault ⊢
  cases he : e.set name value with
  | ok e' => rw [he] at hfault; exact absurd rfl hfault
  | error f => rfl

/-- A list with a value that has an equals sign, an empty value and a name that is set twice; then
a change by a list that ends at a bad name. -/
theorem list_survives_import_failed_copy :
    let e := ((ofList ["A=B", "E", "F=G=H", "A=x"]).change (.copy ["F=1", "=bad", "E=2"])).2
    e.Reachable ∧ Lists e e.list ∧ (ofList e.list).find? "F" = some "1" ∧
      (e.change (.set "A=B" "v")).1 = some ⟨"A=B"⟩ ∧
      (e.change (.set "A=B" "v")).2.find? "A" = some "x" := by
  intro e
  have hreach : e.Reachable := (Reachable.ofList _).change _
  obtain ⟨hlists, himport, hfault⟩ := list_survives_import hreach
  have hbad : (e.change (.set "A=B" "v")).1 = some ⟨"A=B"⟩ := by decide +kernel
  refine ⟨hreach, hlists, ?_, hbad, ?_⟩
  · rw [himport]
    decide +kernel
  · rw [hfault _ _ (by rw [hbad]; exact Option.some_ne_none _)]
    decide +kernel

/-! ### The order of the list -/

/-- Texts are in the order of their names, or the first name continues the second one with a byte
below the equals sign. -/
lemma name_lt_or_continues {a b v w : Bytes} (ha : Ascii.equals ∉ a) (hne : a ≠ b)
    (h : Bytes.lt (a ++ Ascii.equals :: v) (b ++ Ascii.equals :: w) = true) :
    a.lt b = true ∨ ∃ c rest, a = b ++ c :: rest ∧ c < Ascii.equals := by
  induction a generalizing b with
  | nil =>
    cases b with
    | nil => exact absurd rfl hne
    | cons y b => exact .inl rfl
  | cons x a ih =>
    obtain ⟨hx, ha⟩ := not_or.1 (mt List.mem_cons.2 ha)
    cases b with
    | nil =>
      simp only [List.cons_append, List.nil_append, Bytes.lt, Bool.or_eq_true, decide_eq_true_eq,
        Bool.and_eq_true, beq_iff_eq] at h
      exact .inr ⟨x, a, rfl, h.resolve_right fun heq => hx heq.1.symm⟩
    | cons y b =>
      simp only [List.cons_append, Bytes.lt, Bool.or_eq_true, decide_eq_true_eq,
        Bool.and_eq_true, beq_iff_eq] at h ⊢
      obtain hlt | ⟨rfl, h⟩ := h
      · exact .inl (.inl hlt)
      · rcases ih ha (fun heq => hne (heq ▸ rfl)) h with hlt | ⟨c, rest, rfl, hc⟩
        · exact .inl (.inr ⟨rfl, hlt⟩)
        · exact .inr ⟨c, rest, rfl, hc⟩

lemma entryText_lt_of_continues {c : UInt8} (hc : c < Ascii.equals) (name rest value v : Bytes) :
    Bytes.lt (entryText (name ++ c :: rest, v)) (entryText (name, value)) = true := by
  rw [entryText_eq, entryText_eq, List.append_assoc, Bytes.append_lt_append]
  simp [Bytes.lt, hc]

lemma pairwise_list (e : Environment) : e.list.Pairwise fun s t => s.le t = true :=
  @List.pairwise_mergeSort _ Bytes.le (fun _ _ _ => Bytes.le_trans) Bytes.le_total _

/-- Of two different texts on the list, one is in front of the other. -/
lemma before_or_after {texts : List Bytes} {x y : Bytes}
    (hsorted : texts.Pairwise fun s t => s.le t = true)
    (hnames : texts.Pairwise fun s t => (nameOf s).lt (nameOf t) = true) (hx : x ∈ texts)
    (hy : y ∈ texts) (hne : x ≠ y) :
    x.le y = true ∧ (nameOf x).lt (nameOf y) = true ∨
      y.le x = true ∧ (nameOf y).lt (nameOf x) = true := by
  have hsymm : Std.Symm fun s t : Bytes => s.le t = true ∧ (nameOf s).lt (nameOf t) = true ∨
      t.le s = true ∧ (nameOf t).lt (nameOf s) = true := ⟨fun _ _ => Or.symm⟩
  have heither := (hsorted.and hnames).imp fun {s t} hboth =>
    (Or.inl hboth : _ ∨ t.le s = true ∧ (nameOf t).lt (nameOf s) = true)
  exact heither.forall hx hy hne

/-- In a list in the order of the names, a name is continued above the equals sign. -/
lemma Sound.equals_lt (h : e.Sound) {c : UInt8} {rest v : Bytes}
    (hnames : e.list.Pairwise fun s t => (nameOf s).lt (nameOf t) = true)
    (hset : e.find? name = some value) (hlonger : e.find? (name ++ c :: rest) = some v) :
    Ascii.equals < c := by
  have hname := ((isName_iff name).1 (h.isName_of_find? hset)).2
  have hlong := ((isName_iff _).1 (h.isName_of_find? hlonger)).2
  by_contra hc
  have hbelow : c < Ascii.equals := by
    refine (UInt8.lt_or_lt_of_ne fun heq => hlong ?_).resolve_right hc
    rw [heq]
    exact List.mem_append_right _ List.mem_cons_self
  -- the longer name is the later one, but its text is the earlier one
  have htext := entryText_lt_of_continues hbelow name rest value v
  have hprefix : name.lt (name ++ c :: rest) = true := by
    simpa [Bytes.lt] using Bytes.append_lt_append name [] (c :: rest)
  have hne : entryText (name ++ c :: rest, v) ≠ entryText (name, value) := by
    intro heq
    rw [heq, Bytes.lt_irrefl] at htext
    cases htext
  have horder := before_or_after e.pairwise_list hnames
    ((h.lists.mem_iff _).2 ⟨_, _, hlonger, rfl⟩) ((h.lists.mem_iff _).2 ⟨_, _, hset, rfl⟩) hne
  rw [nameOf_entryText hname, nameOf_entryText hlong, Bytes.lt_asymm hprefix] at horder
  obtain ⟨-, hlt⟩ | ⟨hle, -⟩ := horder
  · cases hlt
  · rcases Bytes.le_iff.1 hle with hlt | heq
    · rw [Bytes.lt_asymm htext] at hlt
      cases hlt
    · exact hne heq.symm

/-- If names are continued above the equals sign only, texts are in the order of their names. -/
lemma Sound.name_lt (h : e.Sound) {s t : Bytes}
    (hbyte : ∀ name c rest, e.find? name ≠ none → e.find? (name ++ c :: rest) ≠ none →
      Ascii.equals < c)
    (hs : s ∈ e.list) (ht : t ∈ e.list) (hle : s.le t = true) (hne : nameOf s ≠ nameOf t) :
    (nameOf s).lt (nameOf t) = true := by
  obtain ⟨a, v, ha, rfl⟩ := (h.lists.mem_iff s).1 hs
  obtain ⟨b, w, hb, rfl⟩ := (h.lists.mem_iff t).1 ht
  have hmem := ((isName_iff a).1 (h.isName_of_find? ha)).2
  have hmem' := ((isName_iff b).1 (h.isName_of_find? hb)).2
  have hlt := (Bytes.le_iff.1 hle).resolve_right fun heq => hne (congrArg nameOf heq)
  rw [nameOf_entryText hmem, nameOf_entryText hmem'] at hne ⊢
  rw [entryText_eq, entryText_eq] at hlt
  rcases name_lt_or_continues hmem hne hlt with hlt | ⟨c, rest, rfl, hc⟩
  · exact hlt
  · exact absurd (hbyte b c rest (by simp [hb]) (by simp [ha])) (UInt8.lt_asymm hc)

/-- **When the list is in the order of the names.**  The names on the list of an environment
increase strictly exactly if no name on it continues another one with a byte below the equals
sign, as `A1` continues `A`. -/
theorem list_by_name_iff (h : e.Reachable) :
    ((e.list.map nameOf).IsChain fun a b => a.lt b = true) ↔
      ∀ name c rest, e.find? name ≠ none → e.find? (name ++ c :: rest) ≠ none →
        Ascii.equals < c := by
  have htrans : IsTrans Bytes fun a b => a.lt b = true := ⟨fun _ _ _ => Bytes.lt_trans⟩
  rw [List.isChain_iff_pairwise, List.pairwise_map]
  constructor
  · intro hnames name c rest hset hlonger
    obtain ⟨value, hset⟩ := Option.ne_none_iff_exists'.1 hset
    obtain ⟨v, hlonger⟩ := Option.ne_none_iff_exists'.1 hlonger
    exact h.sound.equals_lt hnames hset hlonger
  · intro hbyte
    have hdistinct := h.sound.lists.nodup
    rw [List.Nodup, List.pairwise_map] at hdistinct
    refine (e.pairwise_list.and hdistinct).imp_of_mem ?_
    rintro s t hs ht ⟨hle, hne⟩
    exact h.sound.name_lt hbyte hs ht hle hne

/-- Sorting leaves texts alone that are in order already. -/
lemma list_eq_of_pairwise (h : (e.entries.map entryText).Pairwise fun s t => s.le t = true) :
    e.list = e.entries.map entryText :=
  List.mergeSort_of_pairwise h

/-- The list `AB=1` and `A=1`, then without `AB`, but with `A1`, which stands in front of `A`. -/
theorem list_by_name_iff_digit :
    let e : Environment := ⟨[("A1", "x=y"), ("A", "1")]⟩
    e.Reachable ∧ e.list.map nameOf = (["A1", "A"] : List Bytes) ∧
      ¬ (e.list.map nameOf).IsChain fun a b => a.lt b = true := by
  intro e
  have hreach := ((Reachable.ofList ["AB=1", "A=1"]).change (.unset "AB")).change (.set "A1" "x=y")
  have heq :
      (((ofList ["AB=1", "A=1"]).change (.unset "AB")).2.change (.set "A1" "x=y")).2 = e := by
    decide +kernel
  rw [heq] at hreach
  refine ⟨hreach, ?_, fun hchain => ?_⟩
  · rw [list_eq_of_pairwise (by decide +kernel)]
    decide +kernel
  · have hbyte := (list_by_name_iff hreach).1 hchain "A" 49 [] (by decide +kernel)
      (by decide +kernel)
    exact absurd hbyte (by decide)

/-- The list of `A` and `A1` begins with `A1`. -/
theorem longer_name_is_listed_first :
    (ofList ["A=1", "A1=2"]).Reachable ∧
      ¬ ((ofList ["A=1", "A1=2"]).list.map nameOf).IsChain fun a b => a.lt b = true := by
  have hnames : (ofList ["A=1", "A1=2"]).list.map nameOf = (["A1", "A"] : List Bytes) := by
    rw [list_eq_of_pairwise (by decide +kernel)]
    decide +kernel
  refine ⟨.ofList _, ?_⟩
  rw [hnames]
  decide +kernel

end Environment

end ConsoleShell
