/-
References as the scanner of lines sees them.

The references of a line are replaced before the line is split.  Both passes read quotes and
backslashes, each with a state of its own.  Here the way in which a byte is read is one of
three, and both passes are shown to follow it byte by byte.  So what the scanner takes as
single-quoted or escaped is copied when references are replaced, and the leftmost reference
that the scanner does not take so is replaced.
-/
import ConsoleShell.Proofs.Line.Grammar
import ConsoleShell.Proofs.Substitution.Balance

namespace ConsoleShell

namespace Line

/-! ### Quotes and backslashes -/

/-- How a byte is read. -/
inductive Quoting where
  /-- Outside quotes. -/
  | bare
  /-- After a backslash outside quotes. -/
  | escaped
  | quoted (q : UInt8)
  deriving DecidableEq, Repr

namespace Quoting

/-- How the next byte is read. -/
def byte (x : Quoting) (c : UInt8) : Quoting :=
  match x with
  | .bare => if c = Ascii.backslash then .escaped else if isQuote c then .quoted c else .bare
  | .escaped => .bare
  | .quoted q => if c = q then .bare else .quoted q

/-- How the byte after a text is read. -/
def read (x : Quoting) (text : Bytes) : Quoting := text.foldl byte x

/-- How the byte after a text that begins a line is read. -/
def after (text : Bytes) : Quoting := read .bare text

/-- A byte that is read so begins no reference. -/
def Shields (x : Quoting) : Prop := x = .escaped ∨ x = .quoted Ascii.singleQuote

/-- A byte that is read so may begin a reference. -/
def Exposes (x : Quoting) : Prop := x = .bare ∨ x = .quoted Ascii.doubleQuote

@[simp] lemma read_nil (x : Quoting) : x.read [] = x := rfl

@[simp] lemma read_cons (x : Quoting) (c : UInt8) (s : Bytes) :
    x.read (c :: s) = (x.byte c).read s := rfl

lemma read_append (x : Quoting) (s t : Bytes) : x.read (s ++ t) = (x.read s).read t :=
  List.foldl_append

lemma shields_iff {x : Quoting} (hx : ∀ q, x = .quoted q → isQuote q = true) :
    x.Shields ↔ ¬ x.Exposes := by
  rcases x with - | - | q
  · simp [Shields, Exposes]
  · simp [Shields, Exposes]
  · have hq := hx q rfl
    simp only [isQuote, Bool.or_eq_true, beq_iff_eq] at hq
    rcases hq with rfl | rfl <;> simp [Shields, Exposes, Ascii.doubleQuote, Ascii.singleQuote]

lemma isQuote_byte {x : Quoting} (hx : ∀ q, x = .quoted q → isQuote q = true) (c : UInt8) :
    ∀ q, x.byte c = .quoted q → isQuote q = true := by
  intro q hq
  rcases x with - | - | q'
  · simp only [byte] at hq
    split_ifs at hq with _ hc
    obtain rfl := Quoting.quoted.inj hq
    exact hc
  · cases hq
  · simp only [byte] at hq
    split_ifs at hq
    exact hx q hq

/-- Every byte of a line is either shielded or exposed. -/
lemma shields_after_iff (text : Bytes) : (after text).Shields ↔ ¬ (after text).Exposes := by
  have hread : ∀ x : Quoting, (∀ q, x = .quoted q → isQuote q = true) →
      ∀ q, x.read text = .quoted q → isQuote q = true := by
    induction text with
    | nil => exact fun x hx => hx
    | cons c text ih => exact fun x hx => ih _ (isQuote_byte hx c)
  exact shields_iff (hread .bare nofun)

end Quoting

/-! ### Operators -/

/-- The bytes of operators. -/
def operatorBytes : List UInt8 := Ascii.less :: Ascii.greater :: descriptors

lemma byte_bare_of_operatorBytes {c : UInt8} (hc : c ∈ operatorBytes) :
    Quoting.byte .bare c = .bare := by
  revert c
  decide +kernel

lemma byte_bare_of_separator {c : UInt8} (hc : isSeparator c = true) :
    Quoting.byte .bare c = .bare := by
  revert c
  decide +kernel

lemma exists_outputOperator (fd : Nat) (s : Bytes) :
    ∃ used, s = used ++ (outputOperator fd s).2 ∧ ∀ c ∈ used, c ∈ operatorBytes := by
  unfold outputOperator
  split
  · exact ⟨[Ascii.greater], rfl, by simp [operatorBytes]⟩
  · exact ⟨[], rfl, by simp⟩

/-- The bytes of an operator are neither quotes nor backslashes. -/
lemma read_operator? {c : UInt8} {s r : Bytes} {op : Operator}
    (h : operator? c s = some (op, r)) :
    Quoting.read .bare (c :: s) = Quoting.read .bare r := by
  obtain ⟨used, hused, hbytes⟩ :
      ∃ used, c :: s = used ++ r ∧ ∀ c ∈ used, c ∈ operatorBytes := by
    unfold operator? at h
    split_ifs at h with hless hgreater hdigit
    · obtain ⟨-, rfl⟩ := Prod.mk.inj (Option.some.inj h)
      exact ⟨[c], rfl, by simp_all [operatorBytes]⟩
    · obtain ⟨used, hs, hbytes⟩ := exists_outputOperator 1 s
      rw [Option.some.inj h] at hs
      exact ⟨c :: used, by rw [hs]; rfl, by simp_all [operatorBytes]⟩
    · split at h
      · rename_i t
        obtain ⟨used, hs, hbytes⟩ := exists_outputOperator (c.toNat - 48) t
        rw [Option.some.inj h] at hs
        have hc := (isDescriptor_iff c).1 hdigit
        refine ⟨c :: Ascii.greater :: used, by rw [hs]; rfl, ?_⟩
        simp_all [operatorBytes]
      · cases h
  rw [hused]
  clear hused h
  induction used with
  | nil => rfl
  | cons b used ih =>
    obtain ⟨hb, hbytes⟩ := List.forall_mem_cons.1 hbytes
    rw [List.cons_append, Quoting.read_cons, byte_bare_of_operatorBytes hb, ih hbytes]

lemma outputOperator_dollar (fd : Nat) (s t : Bytes) :
    outputOperator fd (s ++ Ascii.dollar :: t) =
      ((outputOperator fd s).1, (outputOperator fd s).2 ++ Ascii.dollar :: t) := by
  cases s with
  | nil => rfl
  | cons c s =>
    by_cases hc : c = Ascii.greater
    · subst hc
      rfl
    · rw [outputOperator_write fd (by simpa using hc), outputOperator_write fd (by simpa using hc)]

/-- No operator goes on over a dollar sign. -/
lemma operator?_dollar (c : UInt8) (s t : Bytes) :
    operator? c (s ++ Ascii.dollar :: t) =
      (operator? c s).map fun p => (p.1, p.2 ++ Ascii.dollar :: t) := by
  unfold operator?
  split_ifs with hless hgreater hdigit
  · rfl
  · rw [outputOperator_dollar]
    rfl
  · cases s with
    | nil => rfl
    | cons d s =>
      by_cases hd : d = Ascii.greater
      · subst hd
        simp [outputOperator_dollar]
      · rw [List.cons_append]
        split
        · rename_i heq
          exact absurd (List.cons.inj heq).1 hd
        · split
          · rename_i heq
            exact absurd (List.cons.inj heq).1 hd
          · rfl
  · rfl

/-! ### The scanner -/

namespace Scan

/-- How the scanner reads the next byte. -/
def quoting (st : Scan) : Quoting :=
  match st.quote with
  | some q => .quoted q
  | none => if st.escaped then .escaped else .bare

/-- Inside quotes no backslash counts. -/
def Sound (st : Scan) : Prop := st.escaped = true → st.quote = none

variable {st st' : Scan} {c : UInt8} {s t : Bytes}

lemma Open.sound (h : st.Open) : st.Sound := fun _ => h.1

lemma Open.quoting (h : st.Open) : st.quoting = .bare := by
  simp [Scan.quoting, h.1, h.2]

lemma open_of_active (h : st.active = true) : st.Open := by
  simpa [active, Open] using h

lemma quoting_byte (hst : st.Sound) (h : st.byte c = .ok st') :
    st'.quoting = st.quoting.byte c ∧ st'.Sound := by
  rw [byte] at h
  cases hq : st.quote with
  | some q =>
    have hesc : st.escaped = false := by
      by_contra he
      simpa [hq] using hst (by simpa using he)
    simp only [hq] at h
    split_ifs at h with hc
    · obtain rfl := Except.ok.inj h
      simp_all [Scan.quoting, Quoting.byte, Sound]
    · obtain ⟨w, p, rfl⟩ := extend_eq_ok h
      simp_all [Scan.quoting, Quoting.byte, Sound]
  | none =>
    simp only [hq] at h
    split_ifs at h with hesc hback hsep hquote
    · obtain ⟨w, p, rfl⟩ := extend_eq_ok h
      simp_all [Scan.quoting, Quoting.byte, Sound]
    · obtain rfl := Except.ok.inj h
      simp_all [Scan.quoting, Quoting.byte, Sound]
    · obtain rfl := Except.ok.inj h
      have hc := byte_bare_of_separator hsep
      simp_all [Scan.quoting, Sound, endWord_quote, endWord_escaped]
    · obtain ⟨w, p, rfl⟩ := extend_eq_ok h
      simp_all [Scan.quoting, Quoting.byte, Sound]
    · obtain ⟨w, p, rfl⟩ := extend_eq_ok h
      simp_all [Scan.quoting, Quoting.byte, Sound]

end Scan

/-- Either an operator begins with a byte or the byte is taken by itself. -/
lemma operator_or_byte (st : Scan) (c : UInt8) (s : Bytes) :
    (∃ op r, st.Open ∧ operator? c s = some (op, r) ∧ r.length < (c :: s).length) ∨
      (st.active = true → operator? c s = none) := by
  by_cases hactive : st.active = true
  · cases hop : operator? c s with
    | none => exact .inr fun _ => rfl
    | some p =>
      have hlt := operator?_length hop
      exact .inl ⟨p.1, p.2, Scan.open_of_active hactive, rfl, Nat.lt_succ_of_le hlt⟩
  · exact .inr fun ha => absurd ha hactive

/-- The scanner reads every byte of what it gets over as the bytes before it say. -/
lemma quoting_scan {st st' : Scan} {s : Bytes} (hst : st.Sound) (h : scan st s = .ok st') :
    st'.quoting = st.quoting.read s := by
  -- an operator takes several bytes at once
  induction hn : s.length using Nat.strong_induction_on generalizing st s with
  | _ n ih =>
    subst hn
    cases s with
    | nil =>
      rw [scan_nil] at h
      rw [← Except.ok.inj h, Quoting.read_nil]
    | cons c s =>
      rcases operator_or_byte st c s with ⟨op, r, hopen, hop, hlt⟩ | hnone
      · rw [scan_operator hopen hop] at h
        cases ho : st.operator op with
        | error f => rw [ho] at h; cases h
        | ok m =>
          rw [ho] at h
          have hm := hopen.operator ho
          rw [hopen.quoting, read_operator? hop, ← hm.quoting]
          exact ih r.length hlt hm.sound h rfl
      · rw [scan_byte hnone] at h
        cases hb : st.byte c with
        | error f => rw [hb] at h; cases h
        | ok m =>
          rw [hb] at h
          obtain ⟨hm, hsound⟩ := Scan.quoting_byte hst hb
          rw [Quoting.read_cons, ← hm]
          exact ih s.length (by simp) hsound h rfl

/-- The scanner comes to every dollar sign that it does not fail before. -/
lemma scan_append_dollar (st : Scan) (s t : Bytes) :
    scan st (s ++ Ascii.dollar :: t) =
      (scan st s).bind fun m => scan m (Ascii.dollar :: t) := by
  induction hn : s.length using Nat.strong_induction_on generalizing st s with
  | _ n ih =>
    subst hn
    cases s with
    | nil =>
      rw [scan_nil]
      rfl
    | cons c s =>
      have hdollar := operator?_dollar c s t
      rw [List.cons_append]
      rcases operator_or_byte st c s with ⟨op, r, hopen, hop, hlt⟩ | hnone
      · rw [hop, Option.map_some] at hdollar
        rw [scan_operator hopen hop, scan_operator hopen hdollar]
        cases st.operator op with
        | error f => rfl
        | ok m => exact ih r.length hlt m r rfl
      · have hnone' (ha : st.active = true) : operator? c (s ++ Ascii.dollar :: t) = none := by
          rw [hdollar, hnone ha, Option.map_none]
        rw [scan_byte hnone, scan_byte hnone']
        cases st.byte c with
        | error f => rfl
        | ok m => exact ih s.length (by simp) m s rfl

end Line

/-! ### The expansion -/

namespace Substitution

open Line (Quoting isQuote)

/-- Expands the rest of a line whose first byte is read in a given way. -/
def expandFrom (reference : Bytes → Except Fault Expansion) :
    Quoting → Bytes → Except Fault Expansion
  | .bare, s => expandText reference true none s
  | .quoted q, s => expandText reference true (some q) s
  | .escaped, [] => .ok (.plain [])
  | .escaped, c :: s => (expandText reference true none s).map (Expansion.plain [c]).append

variable {ref : Bytes → Except Fault Expansion}

lemma map_append (a b : Expansion) (x : Except Fault Expansion) :
    (x.map b.append).map a.append = x.map (a.append b).append := by
  cases x <;> simp [Except.map, Expansion.append]

lemma expandFrom_nil (x : Quoting) : expandFrom ref x [] = .ok (.plain []) := by
  cases x <;> simp [expandFrom, expandText]

/-- A reference to a value begins here. -/
def Begins (c : UInt8) (s : Bytes) : Prop :=
  c = Ascii.dollar ∧ ∃ o r, s = o :: r ∧ isOpen o = true

/-- A byte that is special in no way is copied. -/
lemma expandText_copy {quote : Option UInt8} {c : UInt8} {s : Bytes}
    (hback : quote = none → c ≠ Ascii.backslash) (hopen : quote = none → isQuote c = false)
    (hclose : quote ≠ some c) (h : Begins c s → quote = some Ascii.singleQuote) :
    expandText ref true quote (c :: s) =
      (expandText ref true quote s).map (Expansion.plain [c]).append := by
  rw [expandText.eq_def]
  simp only [Bool.true_and]
  rw [if_neg (by simpa using hback), if_neg, if_neg (by simpa using hclose)]
  · split_ifs with hcopy
    · rfl
    · simp only [Bool.or_eq_true, beq_iff_eq, bne_iff_ne, not_or, not_not] at hcopy
      cases s with
      | nil =>
        rw [expandText.eq_def]
        rfl
      | cons o r =>
        have ho : ¬ isOpen o = true := fun ho => hcopy.1 (h ⟨hcopy.2, o, r, rfl, ho⟩)
        simp only [if_neg ho]
  · cases quote with
    | some q => simp
    | none => simpa [isQuote, and_comm] using hopen rfl

/-- A byte that begins no reference is copied. -/
lemma expandFrom_copy (x : Quoting) (c : UInt8) (s : Bytes)
    (h : Begins c s → x.Shields) :
    expandFrom ref x (c :: s) =
      (expandFrom ref (x.byte c) s).map (Expansion.plain [c]).append := by
  cases x with
  | escaped => rfl
  | quoted q =>
    by_cases hc : c = q
    · subst hc
      rw [expandFrom, expandText.eq_def, Quoting.byte, if_pos rfl, expandFrom]
      simp
    · rw [Quoting.byte, if_neg hc]
      refine expandText_copy (by simp) (by simp) (by simpa using Ne.symm hc) fun hb => ?_
      simpa [Quoting.Shields] using h hb
  | bare =>
    rw [expandFrom, Quoting.byte]
    split_ifs with hback hquote
    · subst hback
      rw [expandText.eq_def]
      cases s with
      | nil => rfl
      | cons d r => simp [expandFrom, map_append, Expansion.append, Expansion.plain]
    · rw [expandText.eq_def, expandFrom]
      simp only [isQuote, Bool.or_eq_true, beq_iff_eq] at hquote
      simp [hback, hquote.symm]
    · refine expandText_copy (fun _ => hback) (fun _ => by simpa using hquote) (by simp) fun hb => ?_
      simpa [Quoting.Shields] using h hb

/-- A reference begins after a part of a line. -/
def Occurs (line front : Bytes) : Prop := ∃ c s, line = front ++ c :: s ∧ Begins c s

/-- What comes before the first exposed reference is copied. -/
lemma expandFrom_append (x : Quoting) (front back : Bytes)
    (h : ∀ p, Occurs (front ++ back) p → p.length < front.length → (x.read p).Shields) :
    expandFrom ref x (front ++ back) =
      (expandFrom ref (x.read front) back).map (Expansion.plain front).append := by
  induction front generalizing x with
  | nil =>
    show expandFrom ref x back = (expandFrom ref x back).map _
    cases expandFrom ref x back <;> rfl
  | cons c front ih =>
    have hc : Begins c (front ++ back) → x.Shields := fun hb =>
      h [] ⟨c, front ++ back, rfl, hb⟩ (by simp)
    have hrest : ∀ p, Occurs (front ++ back) p → p.length < front.length →
        ((x.byte c).read p).Shields := by
      rintro p ⟨d, s, hs, hb⟩ hp
      refine h (c :: p) ⟨d, s, ?_, hb⟩ (by simpa using hp)
      rw [List.cons_append, hs, List.cons_append]
    rw [List.cons_append, expandFrom_copy x c _ hc, ih _ hrest, map_append]
    rfl

lemma expand_append {lookup : Bytes → Option Bytes} (front back : Bytes)
    (h : ∀ p, Occurs (front ++ back) p → p.length < front.length →
      (Quoting.after p).Shields) :
    expand lookup (front ++ back) =
      (expandFrom (reference lookup (expandLevel lookup maxDepth)) (.after front) back).map
        (Expansion.plain front).append :=
  expandFrom_append .bare front back h

/-! ### References -/

lemma exists_close {s body rest : Bytes} (h : closeBracket 0 s = some (body, rest)) :
    ∃ c, isClose c = true ∧ s = body ++ c :: rest := by
  obtain ⟨c, hs, -, hc⟩ := closeBracket_eq_some_iff.1 h
  exact ⟨c, hc, hs⟩

/-- What comes of the reference with a given body: its name is expanded and looked up, and the
value of the name, or else the default, is expanded. -/
inductive Resolved (lookup : Bytes → Option Bytes) (body : Bytes) : Expansion → Prop where
  | value {name x : Expansion} {value : Bytes}
      (hname : expandLevel lookup maxDepth (splitDefault 0 body).1 = .ok name)
      (hvalue : lookup name.text = some value)
      (hx : expandLevel lookup maxDepth value = .ok x) :
      Resolved lookup body ⟨x.text, name.undefined ++ x.undefined⟩
  | default {name x : Expansion} {text : Bytes}
      (hname : expandLevel lookup maxDepth (splitDefault 0 body).1 = .ok name)
      (hvalue : lookup name.text = none) (hdefault : (splitDefault 0 body).2 = some text)
      (hx : expandLevel lookup maxDepth text = .ok x) :
      Resolved lookup body ⟨x.text, name.undefined ++ x.undefined⟩
  | undefined {name : Expansion}
      (hname : expandLevel lookup maxDepth (splitDefault 0 body).1 = .ok name)
      (hvalue : lookup name.text = none) (hdefault : (splitDefault 0 body).2 = none) :
      Resolved lookup body ⟨undefinedReference name.text, name.undefined ++ [name.text]⟩

lemma resolved_of_reference {lookup : Bytes → Option Bytes} {body : Bytes} {x : Expansion}
    (h : reference lookup (expandLevel lookup maxDepth) body = .ok x) :
    Resolved lookup body x := by
  rw [reference] at h
  rcases hsplit : splitDefault 0 body with ⟨first, second⟩
  simp only [hsplit] at h
  have hfirst : first = (splitDefault 0 body).1 := by rw [hsplit]
  have hsecond : second = (splitDefault 0 body).2 := by rw [hsplit]
  cases hname : expandLevel lookup maxDepth first with
  | error f => rw [hname] at h; cases h
  | ok name =>
    rw [hname] at h
    rw [hfirst] at hname
    cases hvalue : lookup name.text with
    | some value =>
      simp only [hvalue] at h
      cases hx : expandLevel lookup maxDepth value with
      | error f => rw [hx] at h; cases h
      | ok y =>
        rw [hx] at h
        obtain rfl := Except.ok.inj h
        exact .value hname hvalue hx
    | none =>
      simp only [hvalue] at h
      cases hdefault : second with
      | some text =>
        simp only [hdefault] at h
        cases hx : expandLevel lookup maxDepth text with
        | error f => rw [hx] at h; cases h
        | ok y =>
          rw [hx] at h
          obtain rfl := Except.ok.inj h
          exact .default hname hvalue (hsecond.symm.trans hdefault) hx
      | none =>
        simp only [hdefault] at h
        obtain rfl := Except.ok.inj h
        exact .undefined hname hvalue (hsecond.symm.trans hdefault)

/-- What an exposed reference after the front of a line makes of the line. -/
inductive Treated (lookup : Bytes → Option Bytes) (line front : Bytes) : Prop where
  | unterminated {o : UInt8} {s : Bytes} (hline : line = front ++ Ascii.dollar :: o :: s)
      (hopen : closeBracket 0 s = none)
      (h : expand lookup line = .error (.unterminated (Ascii.dollar :: o :: s)))
  | failed {o b : UInt8} {body rest : Bytes} {f : Fault}
      (hline : line = front ++ Ascii.dollar :: o :: (body ++ b :: rest))
      (hclose : closeBracket 0 (body ++ b :: rest) = some (body, rest))
      (hbody : reference lookup (expandLevel lookup maxDepth) body = .error f)
      (h : expand lookup line = .error f)
  /-- The rest of the line is expanded after it, as it is read. -/
  | resolved {o b : UInt8} {body rest : Bytes} {x : Expansion}
      (hline : line = front ++ Ascii.dollar :: o :: (body ++ b :: rest))
      (hclose : closeBracket 0 (body ++ b :: rest) = some (body, rest))
      (hbody : Resolved lookup body x)
      (h : expand lookup line =
        (expandFrom (reference lookup (expandLevel lookup maxDepth)) (.after front) rest).map
          (Expansion.append ⟨front ++ x.text, x.undefined⟩))

lemma expandText_reference {quoting : Bool} {quote : Option UInt8}
    (hquote : quote ≠ some Ascii.dollar) (hsingle : quote ≠ some Ascii.singleQuote) {o : UInt8}
    (ho : isOpen o = true) (s : Bytes) :
    expandText ref quoting quote (Ascii.dollar :: o :: s) =
      match closeBracket 0 s with
      | none => .error (.unterminated (Ascii.dollar :: o :: s))
      | some (body, rest) =>
        match ref body with
        | .error f => .error f
        | .ok y => (expandText ref quoting quote rest).map y.append := by
  rw [expandText.eq_def]
  simp only
  rw [if_neg (by simp [Ascii.dollar, Ascii.backslash]),
    if_neg (by simp [Ascii.dollar, Ascii.singleQuote, Ascii.doubleQuote]),
    if_neg (by simp [hquote]), if_neg (by simpa using hsingle), if_pos ho]
  split
  · rename_i hnone
    rw [hnone]
  · rename_i body rest hsome
    cases href : ref body <;> simp only [hsome, href]

/-- An exposed reference is resolved. -/
lemma expandFrom_reference {x : Quoting} (hx : x.Exposes) {o : UInt8} (ho : isOpen o = true)
    (s : Bytes) :
    expandFrom ref x (Ascii.dollar :: o :: s) =
      match closeBracket 0 s with
      | none => .error (.unterminated (Ascii.dollar :: o :: s))
      | some (body, rest) =>
        match ref body with
        | .error f => .error f
        | .ok y => (expandFrom ref x rest).map y.append := by
  rcases hx with rfl | rfl
  · exact expandText_reference (by simp) (by simp) ho s
  · exact expandText_reference (by decide) (by decide) ho s

/-- Replacing references and splitting a line read quotes and backslashes in the same way.  As
far as the scanner gets, it reads every dollar sign as the bytes before it say.  If every
reference is escaped or in single quotes, the line is split as it stands, whatever is defined;
else the leftmost exposed reference is resolved unless the line as a whole cannot be expanded. -/
theorem expand_reads_like_scan (d : Definitions) (fallback : Bytes → Option Bytes)
    (line : Bytes) :
    (∀ front s st, line = front ++ Ascii.dollar :: s → Line.scan {} front = .ok st →
      Line.scan {} line = Line.scan st (Ascii.dollar :: s) ∧ st.quoting = .after front) ∧
    (∀ front, (Quoting.after front).Shields ↔ ¬ (Quoting.after front).Exposes) ∧
    ((∀ front, Occurs line front → (Quoting.after front).Shields) →
      expandDefined (d.lookup fallback) line = .ok line) ∧
    ∀ front, Occurs line front → (Quoting.after front).Exposes →
      (∀ p, Occurs line p → p.length < front.length → (Quoting.after p).Shields) →
      Treated (d.lookup fallback) line front := by
  refine ⟨?_, Quoting.shields_after_iff, ?_, ?_⟩
  · rintro front s st rfl hst
    rw [Line.scan_append_dollar, hst]
    exact ⟨rfl, Line.quoting_scan (fun h => by cases h) hst⟩
  · intro h
    have hcopy := @expand_append (d.lookup fallback) line []
      (by simpa using fun p hp _ => h p hp)
    have hexpand : expand (d.lookup fallback) line = .ok (.plain line) := by
      simpa [expandFrom_nil, Except.map, Expansion.append, Expansion.plain] using hcopy
    rw [expandDefined, hexpand]
    rfl
  · rintro front ⟨c, s, rfl, rfl, o, s, rfl, ho⟩ hexposed hfirst
    have hexpand := @expand_append (d.lookup fallback) front _ hfirst
    rw [expandFrom_reference hexposed ho] at hexpand
    cases hclose : closeBracket 0 s with
    | none =>
      rw [hclose] at hexpand
      exact .unterminated rfl hclose hexpand
    | some p =>
      obtain ⟨body, rest⟩ := p
      obtain ⟨b, -, rfl⟩ := exists_close hclose
      rw [hclose] at hexpand
      cases hbody :
          reference (d.lookup fallback) (expandLevel (d.lookup fallback) maxDepth) body with
      | error f =>
        simp only [hbody] at hexpand
        exact .failed rfl hclose hbody hexpand
      | ok x =>
        simp only [hbody] at hexpand
        refine .resolved rfl hclose (resolved_of_reference hbody) ?_
        rw [hexpand, map_append]
        rfl

/-- The reference `$(A)` is resolved where it stands alone. -/
theorem expand_reads_like_scan_reference :
    Treated (({} : Definitions).lookup fun _ => none)
      [Ascii.dollar, Ascii.openParen, 65, Ascii.closeParen] [] :=
  (expand_reads_like_scan {} (fun _ => none) _).2.2.2 [] ⟨_, _, rfl, rfl, _, _, rfl, rfl⟩
    (.inl rfl) fun _ _ h => absurd h (Nat.not_lt_zero _)

end Substitution

end ConsoleShell
