/-
The arguments of a call.

A declaration that is accepted gives a known kind to each argument, and only the last one may take
the rest of the line.  This file says what the words of a line become under such a declaration:
either one argument for each declared one, of its kind, made of the word at its own place and of
nothing else, or the fault of the first argument whose word cannot be converted.  The contract is
stated by what a command sees through the accessors.
-/
import ConsoleShell.Argument
import Mathlib

namespace ConsoleShell

/-! ### Accepted declarations -/

namespace Signature

/-- The kinds are known, and only the last argument takes the rest of the line. -/
structure Sound (ps : List Parameter) : Prop where
  known : ∀ (i : Nat) (p : Parameter), ps[i]? = some p → ∀ code, p.kind ≠ .unknown code
  wordsLast : ∀ (i : Nat) (p : Parameter), ps[i]? = some p → p.kind = .words → i + 1 = ps.length

variable {p : Parameter} {ps : List Parameter}

lemma sound_nil : Sound [] := ⟨by simp, by simp⟩

lemma sound_cons_iff : Sound (p :: ps) ↔
    (∀ code, p.kind ≠ .unknown code) ∧ (p.kind = .words → ps = []) ∧ Sound ps := by
  constructor
  · intro h
    refine ⟨h.known 0 p rfl, fun hp => ?_, fun i => h.known (i + 1), fun i q hi hq => ?_⟩
    · have hlength := h.wordsLast 0 p rfl hp
      rw [List.length_cons] at hlength
      exact List.eq_nil_of_length_eq_zero (by omega)
    · have hlength := h.wordsLast (i + 1) q hi hq
      rw [List.length_cons] at hlength
      omega
  · rintro ⟨hknown, hwords, hps⟩
    constructor
    · rintro (_ | i) q hq
      · obtain rfl := Option.some.inj hq
        exact hknown
      · exact hps.known i q hq
    · rintro (_ | i) q hq hkind
      · obtain rfl := Option.some.inj hq
        rw [hwords hkind]
        rfl
      · rw [List.length_cons, ← hps.wordsLast i q hq hkind]

lemma checkParameters_eq_ok_iff (command : Bytes) :
    checkParameters command ps = .ok () ↔ Sound ps := by
  induction ps with
  | nil => exact iff_of_true rfl sound_nil
  | cons p ps ih =>
    rw [sound_cons_iff, ← ih, checkParameters]
    cases hkind : p.kind with
    | unknown code => simp
    | words =>
      cases ps with
      | nil => simp [checkParameters]
      | cons q ps => simp
    | _ => simp

lemma check_eq_ok_iff {s : Signature} :
    s.check = .ok () ↔ s.name ≠ [] ∧ Sound s.parameters := by
  rw [check, ← checkParameters_eq_ok_iff s.name]
  by_cases hname : s.name = []
  · simp [hname]
  · simp [hname]

end Signature

/-! ### What a command sees -/

namespace ArgumentKind

/-- The kinds whose values are strings. -/
def IsText : ArgumentKind → Prop
  | .string | .persistent | .record | .path => True
  | _ => False

lemma IsText.ne_words {kind : ArgumentKind} (h : kind.IsText) : kind ≠ .words := by
  rintro rfl
  exact h

end ArgumentKind

namespace Arguments

/-- The argument is of the constructor for a kind, and reading the position as this kind gives its
value. -/
def Gives (as : Arguments) (i : Nat) (a : Argument) : ArgumentKind → Prop
  | .int => a = .int (as.int i)
  | .double => a = .double (as.double i)
  | .string | .persistent | .record | .path => a = .string (as.string i).1 (as.string i).2
  | .words => ∃ ws, as.words? i = some ws ∧ a = .words ws
  | .handle => ∃ h, as.handle? i = some h ∧ a = .handle h
  | .unknown _ => False

variable {as : Arguments} {i : Nat}

lemma int_of_getElem? {n : Int} (h : as[i]? = some (.int n)) : as.int i = n := by
  rw [int, h]

lemma double_of_getElem? {x : Double} (h : as[i]? = some (.double x)) : as.double i = x := by
  rw [double, h]

lemma string_of_getElem? {v : Bytes} {supplied : Bool}
    (h : as[i]? = some (.string v supplied)) : as.string i = (v, supplied) := by
  rw [string, h]

lemma words?_of_getElem? {ws : List Bytes} (h : as[i]? = some (.words ws)) :
    as.words? i = some ws := by
  rw [words?, h]

lemma handle?_of_getElem? {v : Handle} (h : as[i]? = some (.handle v)) :
    as.handle? i = some v := by
  rw [handle?, h]

end Arguments

namespace Argument

variable {handle : Option Handle} {words : List Bytes} {ps : List Parameter} {i : Nat}

/-! ### Conversions -/

/-- What is made of one word, by the kind that is declared for it. -/
def MadeOf (handle : Option Handle) (word : Option Bytes) (a : Argument) : ArgumentKind → Prop
  | .int => ∃ n, a = .int n ∧ (word.getD [] = [] → n = 0)
  | .double => ∃ x, a = .double x ∧ (word.getD [] = [] → x = .zero false)
  | .string | .persistent | .record | .path => a = .string (word.getD []) word.isSome
  | .handle => ∃ h, handle = some h ∧ a = .handle h
  | .words | .unknown _ => False

lemma eq_ok_of_map {α β : Type} {x : Except Fault α} {g : α → β} {b : β}
    (h : x.map g = .ok b) : ∃ a, b = g a := by
  cases x with
  | error f => cases h
  | ok a => exact ⟨a, (Except.ok.inj h).symm⟩

lemma eq_error_of_map {α β : Type} {x : Except Fault α} {g : α → β} {f : Fault}
    (h : x.map g = .error f) : x = .error f := by
  cases x with
  | error f' => rw [Except.error.inj h]
  | ok a => cases h

lemma madeOf_of_convert {kind : ArgumentKind} {word : Option Bytes} {a : Argument}
    (h : convert handle kind word = .ok a) : MadeOf handle word a kind := by
  cases kind with
  | int =>
    simp only [convert] at h
    split at h
    · exact ⟨0, (Except.ok.inj h).symm, fun _ => rfl⟩
    · rename_i hne
      obtain ⟨n, rfl⟩ := eq_ok_of_map h
      exact ⟨n, rfl, fun hnil => absurd (List.isEmpty_iff.2 hnil) hne⟩
  | double =>
    simp only [convert] at h
    split at h
    · exact ⟨.zero false, (Except.ok.inj h).symm, fun _ => rfl⟩
    · rename_i hne
      obtain ⟨x, rfl⟩ := eq_ok_of_map h
      exact ⟨x, rfl, fun hnil => absurd (List.isEmpty_iff.2 hnil) hne⟩
  | handle =>
    simp only [convert] at h
    split at h
    · cases handle with
      | none => cases h
      | some v => exact ⟨v, rfl, (Except.ok.inj h).symm⟩
    · cases h
  | words => cases h
  | unknown code => cases h
  | string => exact (Except.ok.inj h).symm
  | persistent => exact (Except.ok.inj h).symm
  | record => exact (Except.ok.inj h).symm
  | path => exact (Except.ok.inj h).symm

lemma MadeOf.eq_string {kind : ArgumentKind} {word : Option Bytes} {a : Argument}
    (h : MadeOf handle word a kind) (hkind : kind.IsText) :
    a = .string (word.getD []) word.isSome := by
  cases kind with
  | string => exact h
  | persistent => exact h
  | record => exact h
  | path => exact h
  | _ => exact absurd hkind id

lemma MadeOf.gives {kind : ArgumentKind} {word : Option Bytes} {a : Argument} {as : Arguments}
    (h : MadeOf handle word a kind) (ha : as[i]? = some a) : as.Gives i a kind := by
  have htext (hkind : kind.IsText) : a = .string (as.string i).1 (as.string i).2 := by
    obtain rfl := h.eq_string hkind
    rw [Arguments.string_of_getElem? ha]
  cases kind with
  | int =>
    obtain ⟨n, rfl, -⟩ := h
    rw [Arguments.Gives, Arguments.int_of_getElem? ha]
  | double =>
    obtain ⟨x, rfl, -⟩ := h
    rw [Arguments.Gives, Arguments.double_of_getElem? ha]
  | handle =>
    obtain ⟨v, -, rfl⟩ := h
    exact ⟨v, Arguments.handle?_of_getElem? ha, rfl⟩
  | words => exact h.elim
  | unknown code => exact h.elim
  | string => exact htext trivial
  | persistent => exact htext trivial
  | record => exact htext trivial
  | path => exact htext trivial

/-- The faults that the conversion of a word to a kind can have. -/
def Fault.IsOf (w : Bytes) : ArgumentKind → Fault → Prop
  | .int, f => f = .illegalInteger w ∨ f = .integerOutOfRange w
  | .double, f => f = .illegalDouble w
  | .handle, f => f = .noHandle ∨ f = .notHandle w
  | .words, f => f = .illegalKind 6
  | .unknown code, f => f = .illegalKind code
  | _, _ => False

lemma eq_of_parseInteger {w : Bytes} {f : Fault} (h : parseInteger w = .error f) :
    f = .illegalInteger w ∨ f = .integerOutOfRange w := by
  rw [parseInteger] at h
  split at h
  · exact .inl (Except.error.inj h).symm
  split at h
  · cases h
  · exact .inl (Except.error.inj h).symm
  split at h
  · cases h
  · exact .inr (Except.error.inj h).symm
  split at h
  · exact .inr (Except.error.inj h).symm
  · exact .inl (Except.error.inj h).symm

lemma eq_of_parseDouble {w : Bytes} {f : Fault} (h : parseDouble w = .error f) :
    f = .illegalDouble w := by
  rw [parseDouble] at h
  split at h
  · exact (Except.error.inj h).symm
  split at h
  · cases h
  · exact (Except.error.inj h).symm

lemma isOf_of_convert {kind : ArgumentKind} {word : Option Bytes} {f : Fault}
    (h : convert handle kind word = .error f) : f.IsOf (word.getD []) kind := by
  cases kind with
  | int =>
    simp only [convert] at h
    split at h
    · cases h
    · exact eq_of_parseInteger (eq_error_of_map h)
  | double =>
    simp only [convert] at h
    split at h
    · cases h
    · exact eq_of_parseDouble (eq_error_of_map h)
  | handle =>
    simp only [convert] at h
    split at h
    · cases handle with
      | none => exact .inl (Except.error.inj h).symm
      | some v => cases h
    · exact .inr (Except.error.inj h).symm
  | words => exact (Except.error.inj h).symm
  | unknown code => exact (Except.error.inj h).symm
  | string => cases h
  | persistent => cases h
  | record => cases h
  | path => cases h

/-- The message of a fault of a word is not that of an illegal kind, whatever the word. -/
lemma message_ne_illegalKind {f : Fault} (hf : ∀ code, f ≠ .illegalKind code) (code : Int) :
    f.message ≠ (Fault.illegalKind code).message := by
  -- the two messages differ in their first nine bytes already
  have hne (a rest : Bytes) (hlength : 9 ≤ a.length) (htake : a.take 9 ≠ "Illegal a") :
      a ++ rest ≠ (Fault.illegalKind code).message := by
    intro h
    have hcut := congrArg (List.take 9) h
    rw [Fault.message, List.take_append_of_le_length hlength,
      List.take_append_of_le_length (by decide)] at hcut
    exact htake (hcut.trans (by decide))
  cases f with
  | illegalInteger w =>
    rw [Fault.message, List.append_assoc]
    exact hne _ _ (by decide) (by decide)
  | integerOutOfRange w =>
    rw [Fault.message, List.append_assoc]
    exact hne _ _ (by decide) (by decide)
  | illegalDouble w =>
    rw [Fault.message, List.append_assoc]
    exact hne _ _ (by decide) (by decide)
  | noHandle => exact hne (handleName ++ " not") " present" (by decide) (by decide)
  | notHandle w =>
    simp only [Fault.message, List.append_assoc]
    exact hne _ _ (by decide) (by decide)
  | illegalKind code' => exact absurd rfl (hf code')

/-! ### Positions -/

/-- The value of the parameter at a position. -/
def valueAt (handle : Option Handle) (words : List Bytes) (i : Nat) (p : Parameter) :
    Except Fault Argument :=
  if p.kind = .words then .ok (.words (words.drop i)) else convert handle p.kind words[i + 1]?

lemma valueAt_words {p : Parameter} (hp : p.kind = .words) :
    valueAt handle words i p = .ok (.words (words.drop i)) := if_pos hp

lemma valueAt_convert {p : Parameter} (hp : p.kind ≠ .words) :
    valueAt handle words i p = convert handle p.kind words[i + 1]? := if_neg hp

lemma bindFrom_cons (p : Parameter) : bindFrom handle words i (p :: ps) =
    match valueAt handle words i p with
    | .error f => .error f
    | .ok a => (bindFrom handle words (i + 1) ps).map (a :: ·) := rfl

/-- Every parameter gets the value of its position. -/
lemma getElem?_of_bindFrom {as : List Argument} (h : bindFrom handle words i ps = .ok as) :
    as.length = ps.length ∧ ∀ k p, ps[k]? = some p →
      ∃ a, as[k]? = some a ∧ valueAt handle words (i + k) p = .ok a := by
  induction ps generalizing i as with
  | nil =>
    obtain rfl := Except.ok.inj h
    exact ⟨rfl, by simp⟩
  | cons p ps ih =>
    rw [bindFrom_cons] at h
    cases hvalue : valueAt handle words i p with
    | error f =>
      rw [hvalue] at h
      cases h
    | ok a =>
      cases hrest : bindFrom handle words (i + 1) ps with
      | error f =>
        rw [hvalue, hrest] at h
        cases h
      | ok bs =>
        rw [hvalue, hrest] at h
        obtain rfl := Except.ok.inj h
        obtain ⟨hlength, hvalues⟩ := ih hrest
        refine ⟨by rw [List.length_cons, List.length_cons, hlength], ?_⟩
        rintro (_ | k) q hq
        · obtain rfl := Option.some.inj hq
          exact ⟨a, rfl, hvalue⟩
        · obtain ⟨b, hb, hbvalue⟩ := hvalues k q hq
          exact ⟨b, hb, by rwa [Nat.add_comm k 1, ← Nat.add_assoc]⟩

/-- The fault is that of the first parameter that has one. -/
lemma first_of_bindFrom {f : Fault} (h : bindFrom handle words i ps = .error f) :
    ∃ k p, ps[k]? = some p ∧ valueAt handle words (i + k) p = .error f ∧
      ∀ j q, j < k → ps[j]? = some q → ∃ a, valueAt handle words (i + j) q = .ok a := by
  induction ps generalizing i with
  | nil => cases h
  | cons p ps ih =>
    rw [bindFrom_cons] at h
    cases hvalue : valueAt handle words i p with
    | error f' =>
      rw [hvalue] at h
      obtain rfl := Except.error.inj h
      exact ⟨0, p, rfl, hvalue, by simp⟩
    | ok a =>
      rw [hvalue] at h
      obtain ⟨k, q, hq, hfault, hbefore⟩ := ih (eq_error_of_map h)
      refine ⟨k + 1, q, hq, by rwa [Nat.add_comm k 1, ← Nat.add_assoc], ?_⟩
      rintro (_ | j) r hj hr
      · obtain rfl := Option.some.inj hr
        exact ⟨a, hvalue⟩
      · obtain ⟨b, hb⟩ := hbefore j r (by omega) hr
        exact ⟨b, by rwa [Nat.add_comm j 1, ← Nat.add_assoc]⟩

/-- Lines that agree at all positions are bound alike. -/
lemma bindFrom_congr {words' : List Bytes} (h : ∀ k p, ps[k]? = some p →
    valueAt handle words (i + k) p = valueAt handle words' (i + k) p) :
    bindFrom handle words i ps = bindFrom handle words' i ps := by
  induction ps generalizing i with
  | nil => rfl
  | cons p ps ih =>
    have hrest := ih (i := i + 1) fun k q hq => by
      rw [Nat.add_assoc, Nat.add_comm 1 k]
      exact h (k + 1) q hq
    have hvalue : valueAt handle words i p = valueAt handle words' i p := h 0 p rfl
    rw [bindFrom_cons, bindFrom_cons, hrest, hvalue]

/-! ### The contract -/

/-- The arguments are what a declaration makes of the words of a line, of which the first is the
name of the command. -/
structure Binds (handle : Option Handle) (s : Signature) (words : List Bytes) (as : Arguments) :
    Prop where
  length_eq : as.length = s.parameters.length
  /-- Each argument is one of its kind, so that its accessor reads its value. -/
  gives : ∀ (i : Nat) (p : Parameter), s.parameters[i]? = some p →
    ∃ a, as[i]? = some a ∧ as.Gives i a p.kind
  /-- An argument depends on its kind, on the handle and on the word at its own place. -/
  converts : ∀ (i : Nat) (p : Parameter), s.parameters[i]? = some p → p.kind ≠ .words →
    ∃ a, as[i]? = some a ∧ convert handle p.kind words[i + 1]? = .ok a
  int_of_empty : ∀ (i : Nat) (p : Parameter), s.parameters[i]? = some p → p.kind = .int →
    words[i + 1]?.getD [] = [] → as.int i = 0
  double_of_empty : ∀ (i : Nat) (p : Parameter), s.parameters[i]? = some p → p.kind = .double →
    words[i + 1]?.getD [] = [] → as.double i = .zero false
  /-- A string is the word at its place, and it is not supplied exactly if there is none. -/
  text : ∀ (i : Nat) (p : Parameter), s.parameters[i]? = some p → p.kind.IsText →
    as.string i = (words[i + 1]?.getD [], words[i + 1]?.isSome)
  handle_eq : ∀ (i : Nat) (p : Parameter), s.parameters[i]? = some p → p.kind = .handle →
    handle.isSome ∧ as.handle? i = handle
  /-- The rest of the line is for the last argument, and begins with the word before its place. -/
  rest : ∀ (i : Nat) (p : Parameter), s.parameters[i]? = some p → p.kind = .words →
    i + 1 = s.parameters.length ∧ as.words? i = some (words.drop i)

/-- The fault is that of the first argument whose own conversion fails. -/
def IsFirstFault (handle : Option Handle) (s : Signature) (words : List Bytes) (f : Fault) : Prop :=
  ∃ (i : Nat) (p : Parameter), s.parameters[i]? = some p ∧ p.kind ≠ .words ∧
    convert handle p.kind words[i + 1]? = .error f ∧ f.IsOf (words[i + 1]?.getD []) p.kind ∧
    ∀ (j : Nat) (q : Parameter), j < i → s.parameters[j]? = some q →
      q.kind ≠ .words ∧ ∃ a, convert handle q.kind words[j + 1]? = .ok a

variable {s : Signature}

lemma binds_of_bind (hs : Signature.Sound s.parameters) {as : Arguments}
    (h : bind handle s words = .ok as) : Binds handle s words as := by
  obtain ⟨hlength, hvalues⟩ := getElem?_of_bindFrom h
  simp only [Nat.zero_add] at hvalues
  have hconverts {i : Nat} {p : Parameter} (hp : s.parameters[i]? = some p)
      (hkind : p.kind ≠ .words) :
      ∃ a, as[i]? = some a ∧ convert handle p.kind words[i + 1]? = .ok a := by
    obtain ⟨a, ha, hvalue⟩ := hvalues i p hp
    exact ⟨a, ha, valueAt_convert hkind ▸ hvalue⟩
  have hrest {i : Nat} {p : Parameter} (hp : s.parameters[i]? = some p)
      (hkind : p.kind = .words) : as[i]? = some (.words (words.drop i)) := by
    obtain ⟨a, ha, hvalue⟩ := hvalues i p hp
    rw [valueAt_words hkind] at hvalue
    rw [ha, Except.ok.inj hvalue]
  have hmade {i : Nat} {p : Parameter} (hp : s.parameters[i]? = some p)
      (hkind : p.kind ≠ .words) :
      ∃ a, as[i]? = some a ∧ MadeOf handle words[i + 1]? a p.kind := by
    obtain ⟨a, ha, hconvert⟩ := hconverts hp hkind
    exact ⟨a, ha, madeOf_of_convert hconvert⟩
  refine ⟨hlength, fun i p hp => ?_, fun i p => hconverts, fun i p hp hkind hempty => ?_,
    fun i p hp hkind hempty => ?_, fun i p hp htext => ?_, fun i p hp hkind => ?_,
    fun i p hp hkind => ⟨hs.wordsLast i p hp hkind, Arguments.words?_of_getElem? (hrest hp hkind)⟩⟩
  · by_cases hkind : p.kind = .words
    · rw [hkind]
      exact ⟨_, hrest hp hkind, _, Arguments.words?_of_getElem? (hrest hp hkind), rfl⟩
    · obtain ⟨a, ha, hmade⟩ := hmade hp hkind
      exact ⟨a, ha, hmade.gives ha⟩
  · obtain ⟨a, ha, hmade⟩ := hmade hp (by rw [hkind]; decide)
    rw [hkind] at hmade
    obtain ⟨n, rfl, hzero⟩ := hmade
    rw [Arguments.int_of_getElem? ha, hzero hempty]
  · obtain ⟨a, ha, hmade⟩ := hmade hp (by rw [hkind]; decide)
    rw [hkind] at hmade
    obtain ⟨x, rfl, hzero⟩ := hmade
    rw [Arguments.double_of_getElem? ha, hzero hempty]
  · obtain ⟨a, ha, hmade⟩ := hmade hp htext.ne_words
    obtain rfl := hmade.eq_string htext
    exact Arguments.string_of_getElem? ha
  · obtain ⟨a, ha, hmade⟩ := hmade hp (by rw [hkind]; decide)
    rw [hkind] at hmade
    obtain ⟨v, rfl, rfl⟩ := hmade
    exact ⟨rfl, Arguments.handle?_of_getElem? ha⟩

lemma isFirstFault_of_bind (hs : Signature.Sound s.parameters) {f : Fault}
    (h : bind handle s words = .error f) : IsFirstFault handle s words f := by
  obtain ⟨i, p, hp, hfault, hbefore⟩ := first_of_bindFrom h
  simp only [Nat.zero_add] at hfault hbefore
  have hkind : p.kind ≠ .words := by
    intro hwords
    rw [valueAt_words hwords] at hfault
    cases hfault
  rw [valueAt_convert hkind] at hfault
  refine ⟨i, p, hp, hkind, hfault, isOf_of_convert hfault, fun j q hj hq => ?_⟩
  -- only the last argument takes the rest of the line, and this one is before another
  have hqkind : q.kind ≠ .words := by
    intro hwords
    have hlast := hs.wordsLast j q hq hwords
    have hi := (List.getElem?_eq_some_iff.1 hp).1
    omega
  obtain ⟨a, ha⟩ := hbefore j q hj hq
  exact ⟨hqkind, a, valueAt_convert hqkind ▸ ha⟩

lemma IsFirstFault.ne_illegalKind (hs : Signature.Sound s.parameters) {f : Fault}
    (h : IsFirstFault handle s words f) (code : Int) : f ≠ .illegalKind code := by
  rintro rfl
  obtain ⟨i, p, hp, hkind, -, hof, -⟩ := h
  have hknown := hs.known i p hp
  cases hpkind : p.kind with
  | int => simp [hpkind, Fault.IsOf] at hof
  | double => simp [hpkind, Fault.IsOf] at hof
  | handle => simp [hpkind, Fault.IsOf] at hof
  | words => exact hkind hpkind
  | unknown code => exact hknown code hpkind
  | _ => simp [hpkind, Fault.IsOf] at hof

/-- Words behind the places of all arguments have no influence. -/
lemma bind_append (hs : ∀ p ∈ s.parameters, p.kind ≠ .words)
    (hwords : s.parameters.length < words.length) (extra : List Bytes) :
    bind handle s (words ++ extra) = bind handle s words := by
  refine bindFrom_congr fun i p hp => ?_
  have hkind := hs p (List.mem_of_getElem? hp)
  have hi := (List.getElem?_eq_some_iff.1 hp).1
  rw [valueAt_convert hkind, valueAt_convert hkind, List.getElem?_append_left (by omega)]

/-- **Arguments match their declaration.**  For a declaration that is accepted and the words of
any line, binding gives what the declaration says, or the fault of the first argument whose own
conversion fails, which is never that of an illegal kind.  Words beyond the declared arguments
change nothing, unless the last argument takes the rest of the line. -/
theorem bind_matches_declaration (hs : s.check = .ok ()) (handle : Option Handle)
    (words : List Bytes) :
    (match bind handle s words with
      | .ok as => Binds handle s words as
      | .error f => IsFirstFault handle s words f ∧
        ∀ code, f.message ≠ (Fault.illegalKind code).message) ∧
      ((∀ p ∈ s.parameters, p.kind ≠ .words) → s.parameters.length < words.length →
        ∀ extra, bind handle s (words ++ extra) = bind handle s words) := by
  have hsound := (Signature.check_eq_ok_iff.1 hs).2
  refine ⟨?_, fun hnone hlength => bind_append hnone hlength⟩
  cases hbind : bind handle s words with
  | ok as => exact binds_of_bind hsound hbind
  | error f =>
    have hfirst := isFirstFault_of_bind hsound hbind
    exact ⟨hfirst, message_ne_illegalKind (hfirst.ne_illegalKind hsound)⟩

/-- A declaration with a record, a number and the rest: on a short line, and on one whose number
is none. -/
theorem bind_matches_declaration_mixed :
    let s : Signature := ⟨"dbpf", [⟨"record", .record⟩, ⟨"count", .int⟩, ⟨"rest", .words⟩], ""⟩
    s.check = .ok () ∧
      Binds none s ["dbpf", "pump"] [.string "pump" true, .int 0, .words []] ∧
      IsFirstFault none s ["dbpf", "pump", "7x", "1"] (.illegalInteger "7x") := by
  intro s
  have hs : s.check = .ok () := by decide
  have hshort : bind none s ["dbpf", "pump"] =
      .ok [.string "pump" true, .int 0, .words []] := by decide
  have hwrong : bind none s ["dbpf", "pump", "7x", "1"] = .error (.illegalInteger "7x") := by
    decide
  have hbinds := (bind_matches_declaration hs none ["dbpf", "pump"]).1
  have hfault := (bind_matches_declaration hs none ["dbpf", "pump", "7x", "1"]).1
  rw [hshort] at hbinds
  rw [hwrong] at hfault
  exact ⟨hs, hbinds, hfault.1⟩

end Argument

end ConsoleShell
