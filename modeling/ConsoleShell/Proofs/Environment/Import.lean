/-
Environments from lists.

A list of texts sets variables in order: `name=value`, or a name alone for the empty value.  What
a variable has afterwards is what the last text for it says.  A text that is empty or begins with
an equals sign gives no name, and the import ends there: what only the texts behind it say is lost.
-/
import ConsoleShell.Environment
import ConsoleShell.Proofs.Lookup
import ConsoleShell.Proofs.Text.Splitting

namespace ConsoleShell

namespace Environment

/-! ### Setting and looking up -/

section

variable (e : Environment) (name : Bytes)

lemma isName_iff : isName name = true ↔ name ≠ [] ∧ Ascii.equals ∉ name := by
  simp [isName]

lemma find?_unset (other : Bytes) :
    (e.unset name).find? other = if other = name then none else e.find? other := by
  rw [find?, unset, find?_filter_key Prod.fst (· != name), find?]
  by_cases h : other = name <;> simp [h]

lemma find?_set {value : Bytes} {e' : Environment} (h : e.set name value = .ok e')
    (other : Bytes) : e'.find? other = if other = name then some value else e.find? other := by
  rw [set] at h
  split at h
  · obtain rfl := Except.ok.inj h
    have hunset := e.find?_unset name other
    rw [find?, List.find?_cons]
    by_cases hname : name = other
    · simp [hname]
    · have hbeq : (name == other) = false := beq_eq_false_iff_ne.2 hname
      rw [if_neg (Ne.symm hname)] at hunset ⊢
      simp only [hbeq]
      exact hunset
  · cases h

lemma set_eq_ok_iff (value : Bytes) :
    (∃ e', e.set name value = .ok e') ↔ isName name = true := by
  rw [set]
  split <;> simp [*]

end

/-! ### Texts of variables -/

variable {texts : List Bytes} {text name value : Bytes}

/-- The text gives the variable the value: `name=value`, or the name alone and the empty value. -/
def Assigns (text name value : Bytes) : Prop :=
  text = name ++ Ascii.equals :: value ∨ text = name ∧ value = []

/-- The text gives no name: it is empty or begins with an equals sign. -/
def Nameless (text : Bytes) : Prop := ∀ c ∈ text.head?, c = Ascii.equals

instance : DecidablePred Nameless := fun text =>
  inferInstanceAs (Decidable (∀ c ∈ text.head?, c = Ascii.equals))

/-- A text is split at its first equals sign, or all of it is the name. -/
lemma splitEntry_cases (text : Bytes) :
    (Ascii.equals ∉ text ∧ splitEntry text = (text, [])) ∨
      ∃ name value, text = name ++ Ascii.equals :: value ∧ Ascii.equals ∉ name ∧
        splitEntry text = (name, value) := by
  rw [splitEntry]
  cases hsplit : text.splitAt? Ascii.equals with
  | none => exact .inl ⟨Bytes.splitAt?_eq_none_iff.1 hsplit, rfl⟩
  | some p =>
    obtain ⟨htext, hname⟩ := Bytes.splitAt?_eq_some_iff.1 hsplit
    exact .inr ⟨p.1, p.2, htext, hname, rfl⟩

lemma splitEntry_append (h : Ascii.equals ∉ name) (value : Bytes) :
    splitEntry (name ++ Ascii.equals :: value) = (name, value) := by
  rw [splitEntry, Bytes.splitAt?_eq_some_iff.2 ⟨rfl, h⟩]
  rfl

lemma assigns_iff (h : Ascii.equals ∉ name) :
    Assigns text name value ↔ splitEntry text = (name, value) := by
  constructor
  · rintro (rfl | ⟨rfl, rfl⟩)
    · exact splitEntry_append h value
    · rw [splitEntry, Bytes.splitAt?_eq_none_iff.2 h]
      rfl
  · intro hsplit
    obtain ⟨-, heq⟩ | ⟨name', value', rfl, -, heq⟩ := splitEntry_cases text
    · obtain ⟨rfl, rfl⟩ := Prod.mk.inj (heq.symm.trans hsplit)
      exact .inr ⟨rfl, rfl⟩
    · obtain ⟨rfl, rfl⟩ := Prod.mk.inj (heq.symm.trans hsplit)
      exact .inl rfl

/-- What a text is split into is the name of a variable unless the text is without a name. -/
lemma isName_splitEntry_iff (text : Bytes) :
    isName (splitEntry text).1 = true ↔ ¬ Nameless text := by
  rw [isName_iff]
  obtain ⟨hmem, heq⟩ | ⟨name, value, rfl, hmem, heq⟩ := splitEntry_cases text
  · rw [heq]
    cases text with
    | nil => simp [Nameless]
    | cons c text =>
      obtain ⟨hne, -⟩ := not_or.1 (mt List.mem_cons.2 hmem)
      simpa [Nameless, hmem] using Ne.symm hne
  · rw [heq]
    cases name with
    | nil => simp [Nameless]
    | cons c name =>
      obtain ⟨hne, -⟩ := not_or.1 (mt List.mem_cons.2 hmem)
      simpa [Nameless, hmem] using Ne.symm hne

/-! ### The last text of a variable -/

/-- The last of the texts for the variable gives it the value. -/
def LastAssigns (texts : List Bytes) (name value : Bytes) : Prop :=
  ∃ before text after, texts = before ++ text :: after ∧ Assigns text name value ∧
    ∀ x ∈ after, ∀ v, ¬ Assigns x name v

lemma not_lastAssigns_nil : ¬ LastAssigns [] name value := by
  rintro ⟨before, text, after, heq, -⟩
  simp at heq

lemma lastAssigns_cons :
    LastAssigns (text :: texts) name value ↔
      LastAssigns texts name value ∨
        Assigns text name value ∧ ∀ x ∈ texts, ∀ v, ¬ Assigns x name v := by
  constructor
  · rintro ⟨before, x, after, heq, hx, hafter⟩
    cases before with
    | nil =>
      obtain ⟨rfl, rfl⟩ := List.cons.inj heq
      exact .inr ⟨hx, hafter⟩
    | cons y before =>
      obtain ⟨rfl, rfl⟩ := List.cons.inj heq
      exact .inl ⟨before, x, after, rfl, hx, hafter⟩
  · rintro (⟨before, x, after, rfl, hx, hafter⟩ | ⟨htext, htexts⟩)
    · exact ⟨text :: before, x, after, rfl, hx, hafter⟩
    · exact ⟨[], text, texts, rfl, htext, htexts⟩

lemma LastAssigns.exists_mem (h : LastAssigns texts name value) :
    ∃ x ∈ texts, Assigns x name value := by
  obtain ⟨before, x, after, rfl, hx, -⟩ := h
  exact ⟨x, by simp, hx⟩

/-- Where there is a text for the variable, there is a last one. -/
lemma exists_lastAssigns (hmem : text ∈ texts) (h : Assigns text name value) :
    ∃ v, LastAssigns texts name v := by
  induction texts generalizing text value with
  | nil => cases hmem
  | cons x texts ih =>
    by_cases hlater : ∃ y ∈ texts, ∃ v, Assigns y name v
    · obtain ⟨y, hy, v, hv⟩ := hlater
      obtain ⟨w, hw⟩ := ih hy hv
      exact ⟨w, lastAssigns_cons.2 (.inl hw)⟩
    · have hnone : ∀ y ∈ texts, ∀ v, ¬ Assigns y name v :=
        fun y hy v hv => hlater ⟨y, hy, v, hv⟩
      rcases List.mem_cons.1 hmem with rfl | hmem
      · exact ⟨value, lastAssigns_cons.2 (.inr ⟨h, hnone⟩)⟩
      · exact absurd h (hnone text hmem value)

lemma LastAssigns.eq {v w : Bytes} (hname : Ascii.equals ∉ name)
    (hv : LastAssigns texts name v) (hw : LastAssigns texts name w) : v = w := by
  induction texts with
  | nil => exact absurd hv not_lastAssigns_nil
  | cons x texts ih =>
    rcases lastAssigns_cons.1 hv with hv | ⟨hv, hnone⟩ <;>
      rcases lastAssigns_cons.1 hw with hw | ⟨hw, hnone'⟩
    · exact ih hv hw
    · obtain ⟨y, hy, hv⟩ := hv.exists_mem
      exact absurd hv (hnone' y hy v)
    · obtain ⟨y, hy, hw⟩ := hw.exists_mem
      exact absurd hw (hnone y hy w)
    · rw [assigns_iff hname] at hv hw
      exact (Prod.mk.inj (hv.symm.trans hw)).2

/-! ### Importing -/

/-- The texts in front of the first one without a name. -/
def named (texts : List Bytes) : List Bytes := texts.takeWhile fun text => !decide (Nameless text)

lemma named_cons_of_nameless (h : Nameless text) (texts : List Bytes) :
    named (text :: texts) = [] := by
  simp [named, h]

lemma named_cons (h : ¬ Nameless text) (texts : List Bytes) :
    named (text :: texts) = text :: named texts := by
  simp [named, h]

/-- A copy sets a variable to what the last text for it says, up to the first text without a
name. -/
lemma find?_copy (hname : isName name = true) (texts : List Bytes) (e : Environment) :
    (e.copy texts).2.find? name = some value ↔
      LastAssigns (named texts) name value ∨
        (∀ x ∈ named texts, ∀ v, ¬ Assigns x name v) ∧ e.find? name = some value := by
  induction texts generalizing e with
  | nil => simp [copy, named, not_lastAssigns_nil]
  | cons x texts ih =>
    by_cases hx : Nameless x
    · have hbad : isName (splitEntry x).1 = false :=
        Bool.eq_false_iff.2 fun h => (isName_splitEntry_iff x).1 h hx
      rw [named_cons_of_nameless hx, copy, set, if_neg (Bool.eq_false_iff.1 hbad)]
      simp [not_lastAssigns_nil]
    · obtain ⟨e', he'⟩ := (e.set_eq_ok_iff (splitEntry x).1 (splitEntry x).2).2
        ((isName_splitEntry_iff x).2 hx)
      have hcopy : e.copy (x :: texts) = e'.copy texts := by rw [copy, he']
      have hassigns (v : Bytes) :
          Assigns x name v ↔ name = (splitEntry x).1 ∧ (splitEntry x).2 = v := by
        rw [assigns_iff ((isName_iff name).1 hname).2, Prod.ext_iff, eq_comm (b := name)]
      rw [named_cons hx, hcopy, ih, lastAssigns_cons, e.find?_set _ he', List.forall_mem_cons]
      by_cases hkey : name = (splitEntry x).1
      · simp only [hassigns, if_pos hkey, Option.some.injEq]
        tauto
      · have hnone (v : Bytes) : ¬ Assigns x name v := fun hv => hkey ((hassigns v).1 hv).1
        simp [hnone, if_neg hkey]

lemma find?_ofList (hname : isName name = true) (texts : List Bytes) :
    (ofList texts).find? name = some value ↔ LastAssigns (named texts) name value := by
  rw [ofList, find?_copy hname]
  simp [find?]

/-- **When an import loses nothing.**  A variable has the value that the last text for it gives
among those in front of the first text without a name.  This is the last value that the whole list
gives it, for a variable that the list sets at all, exactly if no text behind that point says
otherwise. -/
theorem import_loses_nothing_iff (texts : List Bytes) (hname : isName name = true) :
    (∀ value, (ofList texts).find? name = some value ↔ LastAssigns (named texts) name value) ∧
      ((∀ value, (ofList texts).find? name = some value ↔ LastAssigns texts name value) ↔
        ∀ value, LastAssigns texts name value → LastAssigns (named texts) name value) := by
  have hfind (value : Bytes) : (ofList texts).find? name = some value ↔
      LastAssigns (named texts) name value := find?_ofList hname texts
  refine ⟨hfind, fun h value hvalue => (hfind value).1 ((h value).2 hvalue), fun h value => ?_⟩
  rw [hfind]
  refine ⟨fun hnamed => ?_, h value⟩
  obtain ⟨x, hx, hassigns⟩ := hnamed.exists_mem
  obtain ⟨w, hw⟩ := exists_lastAssigns ((List.takeWhile_sublist _).mem hx) hassigns
  rwa [hnamed.eq ((isName_iff name).1 hname).2 (h w hw)]

/-- The list `A=1`, `=C:=C:/` and `A=2=3`: the last value of `A` is lost. -/
theorem import_loses_nothing_iff_later_value :
    let texts : List Bytes := ["A=1", "=C:=C:/", "A=2=3"]
    isName "A" = true ∧ (ofList texts).find? "A" = some "1" ∧ LastAssigns texts "A" "2=3" ∧
      ¬ ∀ value, (ofList texts).find? "A" = some value ↔ LastAssigns texts "A" value := by
  intro texts
  have hname : isName "A" = true := by decide +kernel
  have hlast : LastAssigns texts "A" "2=3" :=
    ⟨["A=1", "=C:=C:/"], "A=2=3", [], rfl, .inl (by decide +kernel), nofun⟩
  obtain ⟨hfind, hloses⟩ := import_loses_nothing_iff texts hname
  have hone : (ofList texts).find? "A" = some "1" := by decide +kernel
  refine ⟨hname, hone, hlast, fun h => ?_⟩
  have hvalue := (hfind _).2 (hloses.1 h _ hlast)
  rw [hone] at hvalue
  exact absurd hvalue (by decide +kernel)

/-- An element that begins with an equals sign hides a variable behind it. -/
theorem nameless_element_hides_the_rest :
    LastAssigns ["=x", "A=1"] "A" "1" ∧ (ofList ["=x", "A=1"]).find? "A" = none := by
  constructor
  · exact ⟨["=x"], "A=1", [], rfl, .inl (by decide +kernel), nofun⟩
  · decide +kernel

end Environment

end ConsoleShell
