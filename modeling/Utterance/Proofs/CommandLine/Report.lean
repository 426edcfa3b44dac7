import Utterance.CommandLine
import Utterance.Proofs.Storage

/-!
# Reporting

A part of a run may come to its value or end early. The judgment `Reports` says of a part that writes
nothing but the log that it ends early with an exit code other than zero, and never with the fault of a
file; other faults are left to requests that are not sound. There is one rule for each step that
commands are made of, and commands are then judged by putting the rules together.
-/

namespace Utterance.CommandLine

open Shell

/-! ## Ways to end -/

/-- The ways to end early that tell of an error: by an exit code, or by a fault that no file is the
cause of, if the request is not sound. -/
inductive Stop.Tells (sound : Prop) : Stop → Prop where
  | exit {code : Nat} (h : code ≠ 0) : Tells sound (.exit code)
  | fault {f : Fault} (hfile : ∀ e, f ≠ .file e) (hsound : ¬ sound) : Tells sound (.fault f)

/-! ## Consoles -/

/-- A console that differs from the first one by what was printed and logged. -/
structure Console.Follows (start c : Console) : Prop where
  log : c.log = start.log
  times : c.times = start.times
  files : ∃ notes, c.files = (viewOf start).after notes

namespace Console

variable {start c : Console}

theorem logText_append (c : Console) (notes more : Journal) :
    logText c (notes ++ more) = logText c notes ++ logText c more := by
  simp [logText, Journal.atLeast]

/-- Without anything to log the files are what they are. -/
theorem after_nil (c : Console) : (viewOf c).after [] = c.files := by
  unfold viewOf
  cases c.log.file with
  | none => rfl
  | some place => exact Files.extend_empty c.files place

theorem Follows.refl (c : Console) : c.Follows c := ⟨rfl, rfl, [], (after_nil c).symm⟩

/-- What follows writes into the same log, after what was written there. -/
theorem Follows.exists_after (h : start.Follows c) :
    ∃ earlier, ∀ notes, (viewOf c).after notes = (viewOf start).after (earlier ++ notes) := by
  obtain ⟨earlier, hfiles⟩ := h.files
  refine ⟨earlier, fun notes => ?_⟩
  have htext : logText c notes = logText start notes := by rw [logText, logText, h.log, h.times]
  unfold viewOf at hfiles ⊢
  rw [h.log]
  cases hfile : start.log.file with
  | none =>
    rw [hfile] at hfiles
    exact hfiles
  | some place =>
    rw [hfile] at hfiles
    simp only [Files.View.logging] at hfiles ⊢
    -- both journals are one text at the end of the log file
    rw [hfiles, Files.extend_extend, htext, logText_append]

/-- A console follows the first one still after something was printed and logged. -/
theorem Follows.write (h : start.Follows c) (notes : Journal) (out : String) :
    start.Follows { c with out, files := (viewOf c).after notes } := by
  obtain ⟨earlier, hafter⟩ := h.exists_after
  exact ⟨h.log, h.times, earlier ++ notes, hafter notes⟩

/-- The log is no help to a file that cannot be read. -/
theorem Follows.read_eq_error (h : start.Follows c) {r : Route} {fault : Fault}
    (hread : start.files.read r = .error fault) : c.files.read r = .error fault := by
  obtain ⟨notes, hfiles⟩ := h.files
  rw [hfiles]
  unfold viewOf
  cases start.log.file with
  | none => exact hread
  | some place => exact Files.read_extend_eq_error hread place _

/-- The log makes no difference to what may be written. -/
theorem Follows.checkWritable_eq (h : start.Follows c) (r : Route) :
    c.files.checkWritable r = start.files.checkWritable r := by
  obtain ⟨notes, hfiles⟩ := h.files
  rw [hfiles]
  unfold viewOf
  cases start.log.file with
  | none => rfl
  | some place => exact Files.checkWritable_extend start.files place _ r

end Console

/-! ## Runs -/

section Runs

variable {c c' : Console}

/-- What follows a part that comes to a value. -/
theorem bind_of_ok {α β : Type} {x : Shell α} {a : α} (h : x c = .ok a c') (f : α → Shell β) :
    (x >>= f) c = f a c' := by
  show EStateM.bind x f c = _
  rw [EStateM.bind, h]

theorem onFiles_eq_ok {α : Type} (op : Files → Outcome Files α) (c : Console) :
    ∃ after, onFiles op c = .ok (op c.files).result after :=
  ⟨_, rfl⟩

theorem viewOf_of_no_log (h : c.log.file = none) : viewOf c = .still c.files := by
  rw [viewOf, h]

/-- Without a log, writing notes only prints. -/
theorem exists_write (h : c.log.file = none) (notes : Journal) :
    ∃ out, write notes c = .ok () { c with out } := by
  refine ⟨c.out ++ logText c notes, ?_⟩
  show EStateM.Result.ok () { c with out := _, files := (viewOf c).after notes } = _
  rw [viewOf_of_no_log h]
  rfl

/-- Without a file for it, opening the log succeeds and leaves the files as they are. -/
theorem exists_openLog_none (level : Level) (detailed : Bool) (c : Console) :
    ∃ start, openLog none level detailed c = .ok () start ∧ start.files = c.files
      ∧ start.log.file = none :=
  ⟨_, rfl, rfl, rfl⟩

end Runs

/-! ## The judgment -/

/-- From every console that follows `start`, a part of a run comes to a value that is `good` and writes
nothing but the log, or it ends early and tells so. -/
structure Reports {α : Type} (sound : Prop) (start : Console) (x : Shell α) (good : α → Prop) :
    Prop where
  run : ∀ c, start.Follows c →
    match x c with
    | .ok a c' => good a ∧ start.Follows c'
    | .error stop _ => stop.Tells sound

namespace Reports

variable {α β σ : Type} {sound : Prop} {start : Console} {good : α → Prop}

theorem pure {a : α} (h : good a) : Reports sound start (pure a) good := ⟨fun _ hc => ⟨h, hc⟩⟩

/-- Parts of a run are judged one after the other. The second is judged from a console that follows
the first one, with a value that is good. -/
theorem bind {x : Shell α} {f : α → Shell β} {best : β → Prop} (hx : Reports sound start x good)
    (hf : ∀ a, good a → Reports sound start (f a) best) : Reports sound start (x >>= f) best := by
  refine ⟨fun c hc => ?_⟩
  have hstep := hx.run c hc
  show match EStateM.bind x f c with
    | .ok b c' => best b ∧ start.Follows c'
    | .error stop _ => stop.Tells sound
  unfold EStateM.bind
  cases hrun : x c with
  | ok a c' =>
    rw [hrun] at hstep
    exact (hf a hstep.1).run c' hstep.2
  | error stop c' =>
    rw [hrun] at hstep
    exact hstep

/-- What is good may be judged more generously. -/
theorem mono {x : Shell α} {better : α → Prop} (hx : Reports sound start x good)
    (h : ∀ a, good a → better a) : Reports sound start x better := by
  have hbind : Reports sound start (x >>= fun a => Pure.pure a) better :=
    hx.bind fun a ha => .pure (h a ha)
  rwa [bind_pure] at hbind

/-- Nothing follows a part that always ends early. -/
theorem bind_never {x : Shell α} {f : α → Shell β} {best : β → Prop}
    (hx : Reports sound start x fun _ => False) : Reports sound start (x >>= f) best :=
  hx.bind fun _ h => h.elim

/-! ### Steps -/

theorem get : Reports sound start get start.Follows :=
  ⟨fun _ hc => ⟨hc, hc⟩⟩

/-- What is looked at is the view of a console that follows the first one. -/
theorem view : Reports sound start Shell.view fun v => ∃ c, start.Follows c ∧ v = viewOf c :=
  get.bind fun c hc => .pure ⟨c, hc, rfl⟩

/-- A failure ends with exit code 1. -/
theorem fail (message : String) : Reports sound start (Shell.fail message) good :=
  ⟨fun _ _ => .exit Nat.one_ne_zero⟩

/-- Writing notes changes only what was printed and logged. -/
theorem write (notes : Journal) : Reports sound start (Shell.write notes) fun _ => True :=
  ⟨fun _ hc => ⟨trivial, hc.write notes _⟩⟩

/-- A fault that is not caught may be let through if it is none of a file and the request is not
sound. -/
theorem demand {x : Except Fault α}
    (h : ∀ f, x = .error f → (∀ e, f ≠ .file e) ∧ ¬ sound) :
    Reports sound start (Shell.demand x) fun a => x = .ok a := by
  refine ⟨fun c hc => ?_⟩
  cases x with
  | ok a => exact ⟨rfl, hc⟩
  | error f => exact .fault (h f rfl).1 (h f rfl).2

theorem demand_ok (a : α) : Reports sound start (Shell.demand (.ok a)) fun b => a = b := .pure rfl

/-- With the faults of files caught, only the others need to be excused. -/
theorem demandFile {x : Except Fault α}
    (h : ∀ f, x = .error f → (∀ e, f ≠ .file e) → ¬ sound) :
    Reports sound start (Shell.demandFile x) fun a => x = .ok a := by
  refine ⟨fun c hc => ?_⟩
  cases x with
  | ok a => exact ⟨rfl, hc⟩
  | error f =>
    cases f with
    | file e => exact .exit Nat.one_ne_zero
    | _ => exact .fault (by simp) (h _ rfl (by simp))

/-- The fault of a file is told. -/
theorem demandFile_refused (e : FileError) :
    Reports sound start (Shell.demandFile (.error (.file e))) good := fail e.message

/-- An operation that is settled hands on its state and its result, once its notes are written. -/
theorem settle (o : Outcome σ α) :
    Reports sound start (Shell.settle o) fun p => p = (o.state, o.result) :=
  (write o.notes).bind fun _ _ => .pure rfl

/-- An operation on the files that leaves them as they are, with the result that it has on all of
them. -/
theorem onFiles {op : Files → Outcome Files α} {x : Except Fault α}
    (h : ∀ c, start.Follows c → (op c.files).state = c.files ∧ (op c.files).result = x) :
    Reports sound start (Shell.onFiles op) fun y => y = x := by
  refine ⟨fun c hc => ?_⟩
  obtain ⟨hstate, hresult⟩ := h c hc
  refine ⟨hresult, ?_⟩
  simp only [hstate]
  exact hc.write _ _

/-! ### Loops -/

/-- A loop reports if each of its rounds does, from every state. -/
theorem foldlM {f : σ → α → Shell σ} {l : List α}
    (h : ∀ a ∈ l, ∀ s, Reports sound start (f s a) fun _ => True) (s : σ) :
    Reports sound start (l.foldlM f s) fun _ => True := by
  induction l generalizing s with
  | nil => exact .pure trivial
  | cons a l ih =>
    rw [List.foldlM_cons]
    apply (h a (List.mem_cons_self ..) s).bind
    intro s' _
    exact ih (fun b hb => h b (List.mem_cons_of_mem _ hb)) s'

/-- A loop ends early if one of its rounds always does and the others report. -/
theorem foldlM_never {f : σ → α → Shell σ} {l : List α} {a : α} (ha : a ∈ l)
    (h : ∀ b ∈ l, ∀ s, Reports sound start (f s b) fun _ => True)
    (hnever : ∀ s, Reports sound start (f s a) fun _ => False) (s : σ) {good : σ → Prop} :
    Reports sound start (l.foldlM f s) good := by
  -- the rounds before may end early, too
  obtain ⟨before, after, rfl⟩ := List.append_of_mem ha
  rw [List.foldlM_append]
  apply (foldlM (fun b hb => h b (List.mem_append_left _ hb)) s).bind
  intro s' _
  rw [List.foldlM_cons]
  exact (hnever s').bind_never

end Reports

end Utterance.CommandLine
