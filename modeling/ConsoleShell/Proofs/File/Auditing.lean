/-
Operations behind an auditor.

An auditor is asked about the paths of an operation before the operation is performed.  If it
refuses, the files stay as they are and the failure names the question and the reason; if it
allows all questions, what happens is what the operation does without an auditor.  This file
states both as a relation, for any file system and any auditor, and shows that a run of
operations is exactly a run of that relation.
-/
import ConsoleShell.File.Base
import Mathlib

namespace ConsoleShell

namespace FileRequest

/-- The kind of an operation. -/
def kind : FileRequest → FileOperation
  | .chtimes _ => .chtimes
  | .chmod _ => .chmod
  | .chown _ => .chown
  | .stat _ => .stat
  | .lstat _ => .lstat
  | .readlink _ => .readlink
  | .rename _ _ => .rename
  | .remove _ | .removeAll _ => .remove
  | .mkdir _ | .mkdirAll _ => .mkdir
  | .open _ => .open
  | .openFile _ flags => if opensForWriting flags then .write else .open
  | .create _ => .create

/-- The paths of an operation; a path is moved from the first to the second. -/
def paths : FileRequest → List Bytes
  | .rename source target => [source, target]
  | .chtimes p | .chmod p | .chown p | .stat p | .lstat p | .readlink p | .remove p
  | .removeAll p | .mkdir p | .mkdirAll p | .open p | .openFile p _ | .create p => [p]

/-- An operation raises one question for each of its paths, in order. -/
lemma inquiries_eq (r : FileRequest) : r.inquiries = r.paths.map (Inquiry.mk r.kind) := by
  cases r <;> rfl

end FileRequest

/-! ### Questions -/

namespace Auditor

variable {a : Auditor} {asked qs allowed : List Inquiry} {q : Inquiry} {reason : FileReason}

/-- The auditor allows each of the questions, put one after the other. -/
def Allows (a : Auditor) (asked qs : List Inquiry) : Prop :=
  ∀ before q after, qs = before ++ q :: after → a (q :: (before.reverse ++ asked)) = none

/-- The auditor refuses one of the questions for a reason, and allows those before it. -/
structure Refuses (a : Auditor) (asked qs allowed : List Inquiry) (q : Inquiry)
    (reason : FileReason) : Prop where
  isPrefix : allowed ++ [q] <+: qs
  allows : a.Allows asked allowed
  refused : a (q :: (allowed.reverse ++ asked)) = some reason

lemma allows_nil : a.Allows asked [] := by
  intro before q after h
  simp at h

lemma allows_cons :
    a.Allows asked (q :: qs) ↔ a (q :: asked) = none ∧ a.Allows (q :: asked) qs := by
  constructor
  · intro h
    refine ⟨h [] q qs rfl, fun before q' after heq => ?_⟩
    simpa using h (q :: before) q' after (by rw [heq, List.cons_append])
  · rintro ⟨hq, hqs⟩ before q' after heq
    cases before with
    | nil =>
      obtain ⟨rfl, rfl⟩ := List.cons.inj heq
      exact hq
    | cons x before =>
      obtain ⟨rfl, hrest⟩ := List.cons.inj heq
      simpa using hqs before q' after hrest

lemma ask_of_allows (h : a.Allows asked qs) : a.ask asked qs = (none, qs.reverse ++ asked) := by
  induction qs generalizing asked with
  | nil => rfl
  | cons q qs ih =>
    obtain ⟨hq, hqs⟩ := allows_cons.1 h
    rw [ask, hq]
    simpa using ih hqs

lemma ask_of_refuses (h : a.Refuses asked qs allowed q reason) :
    a.ask asked qs =
      (some ⟨q.operation.name, q.path, reason⟩, q :: (allowed.reverse ++ asked)) := by
  obtain ⟨⟨rest, rfl⟩, hallows, hrefused⟩ := h
  induction allowed generalizing asked with
  | nil =>
    have hq : a (q :: asked) = some reason := hrefused
    rw [List.nil_append, List.singleton_append, ask, hq]
    rfl
  | cons x allowed ih =>
    obtain ⟨hx, hallows⟩ := allows_cons.1 hallows
    rw [List.cons_append, List.cons_append, ask, hx]
    simpa using ih hallows (by simpa using hrefused)

/-- The questions are put until one is refused. -/
lemma allows_or_refuses (a : Auditor) (asked qs : List Inquiry) :
    a.Allows asked qs ∨ ∃ allowed q reason, a.Refuses asked qs allowed q reason := by
  induction qs generalizing asked with
  | nil => exact .inl allows_nil
  | cons q qs ih =>
    cases hq : a (q :: asked) with
    | some reason =>
      exact .inr ⟨[], q, reason, ⟨⟨qs, rfl⟩, allows_nil, hq⟩⟩
    | none =>
      rcases ih (q :: asked) with hqs | ⟨allowed, q', reason, ⟨rest, heq⟩, hallows, hrefused⟩
      · exact .inl (allows_cons.2 ⟨hq, hqs⟩)
      · refine .inr ⟨q :: allowed, q', reason, ⟨rest, ?_⟩, allows_cons.2 ⟨hq, hallows⟩, ?_⟩
        · rw [List.cons_append, List.cons_append, heq]
        · simpa using hrefused

end Auditor

/-! ### One operation -/

variable {σ δ ν φ ε : Type}

namespace FileSystem

variable {base : FileSystem σ δ ν φ ε} {r : FileRequest} {d : δ} {s t : σ}
  {x : Except ε (FileAnswer ν φ)}

/-- The file system has the operation: those on links are optional. -/
def Offers (base : FileSystem σ δ ν φ ε) : FileRequest → Prop
  | .lstat _ => base.seesLinks = true
  | .readlink _ => base.readsLinks = true
  | _ => True

/-- What an operation does without an auditor.  Where there is no operation for a link itself,
what is found at the path is answered, as something that is not a link; where links cannot be
read, that is the failure. -/
inductive Serves (base : FileSystem σ δ ν φ ε) (d : δ) (s : σ) :
    FileRequest → Except ε (FileAnswer ν φ) → σ → Prop
  | offered {r : FileRequest} (h : base.Offers r) :
      Serves base d s r (base.perform r d s).1 (base.perform r d s).2
  | unseen (h : base.seesLinks = false) (p : Bytes) :
      Serves base d s (.lstat p) ((base.perform (.stat p) d s).1.map FileAnswer.followed)
        (base.perform (.stat p) d s).2
  | unread (h : base.readsLinks = false) (p : Bytes) :
      Serves base d s (.readlink p) (.error (base.fault ⟨"readlink", p, .noReadlink⟩)) s

lemma serve_of_offers (h : base.Offers r) : base.serve r d s = base.perform r d s := by
  cases r with
  | lstat p => exact if_pos h
  | readlink p => exact if_pos h
  | _ => rfl

lemma serve_lstat (h : base.seesLinks = false) (p : Bytes) :
    base.serve (.lstat p) d s =
      ((base.perform (.stat p) d s).1.map FileAnswer.followed, (base.perform (.stat p) d s).2) :=
  if_neg (Bool.eq_false_iff.1 h)

lemma serve_readlink (h : base.readsLinks = false) (p : Bytes) :
    base.serve (.readlink p) d s = (.error (base.fault ⟨"readlink", p, .noReadlink⟩), s) :=
  if_neg (Bool.eq_false_iff.1 h)

lemma serve_eq_of_serves (h : base.Serves d s r x t) : base.serve r d s = (x, t) := by
  cases h with
  | offered h => exact serve_of_offers h
  | unseen h p => exact serve_lstat h p
  | unread h p => exact serve_readlink h p

lemma serves_serve (base : FileSystem σ δ ν φ ε) (r : FileRequest) (d : δ) (s : σ) :
    base.Serves d s r (base.serve r d s).1 (base.serve r d s).2 := by
  by_cases h : base.Offers r
  · rw [serve_of_offers h]
    exact .offered h
  · cases r with
    | lstat p =>
      have hblind : base.seesLinks = false := Bool.eq_false_iff.2 h
      rw [serve_lstat hblind]
      exact .unseen hblind p
    | readlink p =>
      have hblind : base.readsLinks = false := Bool.eq_false_iff.2 h
      rw [serve_readlink hblind]
      exact .unread hblind p
    | _ => exact absurd trivial h

/-- Performs operations one after the other without an auditor. -/
def serveAll (base : FileSystem σ δ ν φ ε) :
    List (FileRequest × δ) → σ → List (Except ε (FileAnswer ν φ)) × σ
  | [], s => ([], s)
  | (r, d) :: ops, s =>
    let (x, t) := base.serve r d s
    let (xs, t) := base.serveAll ops t
    (x :: xs, t)

end FileSystem

/-- The operations that are allowed when they are asked for one after the other, with all
questions after them.  No file system has a part in this. -/
def Auditor.select (a : Auditor) :
    List (FileRequest × δ) → List Inquiry → List (FileRequest × δ) × List Inquiry
  | [], asked => ([], asked)
  | op :: ops, asked =>
    match a.ask asked op.1.inquiries with
    | (some _, asked) => a.select ops asked
    | (none, asked) =>
      let (allowed, asked) := a.select ops asked
      (op :: allowed, asked)

namespace UnderAudit

variable {base : FileSystem σ δ ν φ ε} {a : Auditor} {r : FileRequest} {d : δ}
  {s t : UnderAudit σ} {x : Except ε (FileAnswer ν φ)}

/-- What an operation with its details answers behind an auditor, and what it leaves. -/
inductive Step (base : FileSystem σ δ ν φ ε) (a : Auditor) :
    UnderAudit σ → FileRequest × δ → Except ε (FileAnswer ν φ) → UnderAudit σ → Prop
  | refused {s : σ} {asked allowed : List Inquiry} {r : FileRequest} {d : δ} {q : Inquiry}
      {reason : FileReason}
      (h : a.Refuses asked (r.paths.map (Inquiry.mk r.kind)) allowed q reason) :
      Step base a ⟨s, asked⟩ (r, d) (.error (base.fault ⟨q.operation.name, q.path, reason⟩))
        ⟨s, q :: (allowed.reverse ++ asked)⟩
  | allowed {s t : σ} {asked : List Inquiry} {r : FileRequest} {d : δ}
      {x : Except ε (FileAnswer ν φ)}
      (h : a.Allows asked (r.paths.map (Inquiry.mk r.kind))) (hserves : base.Serves d s r x t) :
      Step base a ⟨s, asked⟩ (r, d) x
        ⟨t, (r.paths.map (Inquiry.mk r.kind)).reverse ++ asked⟩

lemma perform_of_refuses {allowed : List Inquiry} {q : Inquiry} {reason : FileReason}
    (h : a.Refuses s.asked r.inquiries allowed q reason) :
    perform base a r d s = (.error (base.fault ⟨q.operation.name, q.path, reason⟩),
      ⟨s.store, q :: (allowed.reverse ++ s.asked)⟩) := by
  rw [perform, Auditor.ask_of_refuses h]

lemma perform_of_allows (h : a.Allows s.asked r.inquiries) :
    perform base a r d s = ((base.serve r d s.store).1,
      ⟨(base.serve r d s.store).2, r.inquiries.reverse ++ s.asked⟩) := by
  rw [perform, Auditor.ask_of_allows h]

/-- An operation is performed behind an auditor in exactly one way. -/
lemma step_iff : Step base a s (r, d) x t ↔ perform base a r d s = (x, t) := by
  constructor
  · intro h
    cases h with
    | refused h => exact perform_of_refuses (r.inquiries_eq ▸ h)
    | allowed h hserves =>
      rw [← r.inquiries_eq] at h ⊢
      rw [perform_of_allows h, FileSystem.serve_eq_of_serves hserves]
  · rintro h
    rcases a.allows_or_refuses s.asked r.inquiries with hallows | ⟨allowed, q, reason, hrefuses⟩
    · rw [perform_of_allows hallows] at h
      obtain ⟨rfl, rfl⟩ := Prod.mk.inj h
      rw [r.inquiries_eq] at hallows ⊢
      exact .allowed hallows (base.serves_serve r d s.store)
    · rw [perform_of_refuses hrefuses] at h
      obtain ⟨rfl, rfl⟩ := Prod.mk.inj h
      exact .refused (r.inquiries_eq ▸ hrefuses)

/-! ### Runs -/

/-- Performs operations one after the other. -/
def run (base : FileSystem σ δ ν φ ε) (a : Auditor) :
    List (FileRequest × δ) → UnderAudit σ → List (Except ε (FileAnswer ν φ)) × UnderAudit σ
  | [], s => ([], s)
  | (r, d) :: ops, s =>
    let (x, t) := perform base a r d s
    let (xs, t) := run base a ops t
    (x :: xs, t)

/-- What operations answer behind an auditor, one after the other, and what they leave. -/
inductive Run (base : FileSystem σ δ ν φ ε) (a : Auditor) :
    UnderAudit σ → List (FileRequest × δ) → List (Except ε (FileAnswer ν φ)) → UnderAudit σ → Prop
  | nil (s : UnderAudit σ) : Run base a s [] [] s
  | cons {s t u : UnderAudit σ} {op : FileRequest × δ} {ops : List (FileRequest × δ)}
      {x : Except ε (FileAnswer ν φ)} {xs : List (Except ε (FileAnswer ν φ))}
      (h : Step base a s op x t) (hrest : Run base a t ops xs u) :
      Run base a s (op :: ops) (x :: xs) u

lemma run_eq_of_run {ops : List (FileRequest × δ)} {xs : List (Except ε (FileAnswer ν φ))}
    (h : Run base a s ops xs t) : run base a ops s = (xs, t) := by
  induction h with
  | nil s => rfl
  | @cons s t u op ops x xs h hrest ih =>
    obtain ⟨r, d⟩ := op
    rw [run, step_iff.1 h]
    simp only [ih]

lemma run_run (base : FileSystem σ δ ν φ ε) (a : Auditor) (ops : List (FileRequest × δ))
    (s : UnderAudit σ) : Run base a s ops (run base a ops s).1 (run base a ops s).2 := by
  induction ops generalizing s with
  | nil => exact .nil s
  | cons op ops ih =>
    obtain ⟨r, d⟩ := op
    exact .cons (step_iff.2 rfl) (ih _)

/-- A run leaves the files as the operations that are allowed leave them without an auditor. -/
lemma snd_run (base : FileSystem σ δ ν φ ε) (a : Auditor) (ops : List (FileRequest × δ))
    (s : UnderAudit σ) :
    (run base a ops s).2 =
      ⟨(base.serveAll (a.select ops s.asked).1 s.store).2, (a.select ops s.asked).2⟩ := by
  induction ops generalizing s with
  | nil => rfl
  | cons op ops ih =>
    obtain ⟨r, d⟩ := op
    simp only [run, perform, Auditor.select]
    rcases a.ask s.asked r.inquiries with ⟨refusal, asked⟩
    cases refusal with
    | some f => exact ih _
    | none => exact ih _

/-- **An auditor is transparent where it allows and keeps the files where it refuses.**  Whatever
the file system and the auditor, operations performed one after the other answer and leave what
the relation `Run` says: each is asked about by its paths, in order, up to the first refusal; one
that is refused fails with the operation, the path and the reason of the refusal, and the files
stay; one that is allowed answers and does what it does without an auditor.  In all, the files end
as the operations that were allowed leave them without an auditor, and which were allowed does not
depend on the files. -/
theorem run_behind_auditor_iff (base : FileSystem σ δ ν φ ε) (a : Auditor)
    (ops : List (FileRequest × δ)) (s t : UnderAudit σ) (xs : List (Except ε (FileAnswer ν φ))) :
    (run base a ops s = (xs, t) ↔ Run base a s ops xs t) ∧
      (run base a ops s).2 =
        ⟨(base.serveAll (a.select ops s.asked).1 s.store).2, (a.select ops s.asked).2⟩ := by
  refine ⟨⟨fun h => ?_, run_eq_of_run⟩, snd_run base a ops s⟩
  have hrun := run_run base a ops s
  rwa [h] at hrun

/-- The second path of a move is asked about if the first is allowed; its refusal keeps the
files. -/
example :
    run (FileBase.system ({} : FileStore)) (denyingAuditor ["rename /b"] .permissionDenied)
      [(.rename "/a" "/b", ())] ⟨{}, []⟩ =
        ([.error ⟨"rename", "/b", .permissionDenied⟩],
          ⟨{}, [⟨.rename, "/b"⟩, ⟨.rename, "/a"⟩]⟩) := by
  decide +kernel

end UnderAudit

end ConsoleShell
