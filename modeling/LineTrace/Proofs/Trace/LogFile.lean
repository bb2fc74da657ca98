/-
LineTrace.Proofs.Trace.LogFile — what a log is for whoever uses it, whatever was done
with it before.

A log remembers a path and whether it can be written, and different actions set and clear
the two. What they come to is told by the history of the log alone: whether an action has
opened it (`LogHistory.openings`), whether one has taken its file away since
(`LogHistory.removed`), and what was written (`LogHistory.written`). `Kept` relates the
log and the files to that history: before the log is opened nothing has changed, and from
then on there is one file beside those that were there, which holds what was written or
is gone. Every action keeps it (`Kept.act`), so every sequence of actions does
(`kept_perform`), misuse and removal by others included.

`act_after` puts this together. The file system opens the log's file in append mode,
so the offset that a writer has moved to is not asked for anywhere.
-/
import LineTrace.Proofs.FileSystem.Beside
import LineTrace.Trace.LogFile
import Mathlib.Data.List.TakeWhile

namespace LineTrace

open FileSystem

namespace TraceLog

/-! ## 1. The log's file -/

/-- The complaint about a log that is gone. -/
def lost (path : Text) : Fault :=
  .failure ⟨.traceLog ⟨none, 0, none⟩,
    "cannot read trace log " ++ path ++ ": " ++ FileError.message ⟨.notFound, [path]⟩, none⟩

section

variable {before files : FileSystem} {log : TraceLog} {path : Text} {l : Location} {made : Made}
  (hpath : log.path = some path) (hnames : before.Names path l)
  (hbeside : Beside before files made)

include hpath hnames hbeside

/-- What a log holds is what was made of it. -/
theorem content_of_there {content : Bytes} (hl : made l = some (some content)) :
    log.content files = .ok content := by
  rw [TraceLog.content, hpath]
  simp only [hbeside.bytesOf hnames hl]

theorem content_of_gone (hl : made l = some none) : log.content files = .error (lost path) := by
  rw [content, hpath]
  simp only [hbeside.bytesOf_gone hnames hl]
  rfl

/-- A log that is there can be deleted. -/
theorem deleted_of_there {content : Bytes} (hl : made l = some (some content)) :
    Beside before (log.deleted files) (Function.update made l (some none)) := by
  obtain ⟨gone, hgone, hwithout⟩ := hbeside.remove hnames hl
  rw [deleted, hpath]
  simpa only [hgone] using hwithout

/-- Deleting a log that is gone does nothing. -/
theorem deleted_of_gone (hl : made l = some none) : log.deleted files = files := by
  rw [deleted, hpath]
  simp only [hbeside.remove_gone hnames hl]

end

/-- A log whose file was made at a place, beside the files of before, and what the file
holds, if it is still there. -/
structure Standing (before : FileSystem) (log : TraceLog) (files : FileSystem) (path : Text)
    (l : Location) (held : Option Bytes) : Prop where
  known : log.path = some path
  names : before.Names path l
  beside : Beside before files (Function.update Made.nothing l (some held))

/-- A log is opened on a new file, or nothing happens. -/
theorem opened_cases (log : TraceLog) (fs : FileSystem) (hpath : log.path = none) :
    (∃ e, log.opened fs = (fs, log, .error (.file e))) ∨
    ∃ files path l n, log.opened fs = (files, ⟨log.directory, some path, true⟩, .ok ()) ∧
      l.head? = some (fileLead ++ serialText n ++ ".log") ∧ fs.Names path l ∧
      Beside fs files (Function.update Made.nothing l (some (some []))) := by
  cases htemporary : fs.makeTemporary (log.directory.getD fs.tmp) fileLead ".log" with
  | error e => exact .inl ⟨e, by simp only [opened, hpath, htemporary]⟩
  | ok result =>
    obtain ⟨files, path⟩ := result
    obtain ⟨n, l, hname, hnew⟩ := makeTemporary_new (by decide) (by decide) ⟨103, by decide⟩
      htemporary
    have hbeside := (beside_nothing fs).make hnew
    have hnames : fs.Names path l :=
      ⟨(hbeside.locate_iff hnew.isFile).mp hnew.locate, hnew.isFile⟩
    exact .inr ⟨files, path, l, n, by simp only [opened, hpath, htemporary], hname, hnames,
      hbeside⟩

/-- The refusal to open a log again. -/
def alreadyOpened : Fault := misuse "trace log already opened; transports are single-use"

namespace Standing

variable {before files : FileSystem} {log : TraceLog} {path : Text} {l : Location}
  {held : Option Bytes} (h : Standing before log files path l held)

include h

theorem opened_eq : log.opened files = (files, log, .error alreadyOpened) := by
  rw [opened, h.known]
  rfl

theorem closed : Standing before log.closed files path l held := ⟨h.known, h.names, h.beside⟩

/-- What is written through an open descriptor is added to the file, if it is there. -/
theorem written_of_writable (hwritable : log.writable = true) (bytes : Bytes) :
    (log.written files bytes).2 = .ok bytes.length ∧
      Standing before log (log.written files bytes).1 path l (held.map (· ++ bytes)) := by
  have hwritten : log.written files bytes = (files.appendFile path bytes, .ok bytes.length) := by
    rw [written, h.known, hwritable]
  rw [hwritten]
  refine ⟨rfl, h.known, h.names, ?_⟩
  cases held with
  | none =>
    rw [h.beside.appendFile_gone h.names (Function.update_self ..)]
    exact h.beside
  | some content =>
    have hmore := h.beside.appendFile h.names (Function.update_self ..) bytes
    rwa [Function.update_idem] at hmore

theorem written_of_closed (hwritable : log.writable = false) (bytes : Bytes) :
    log.written files bytes = (files, .error (.file ⟨.badDescriptor, []⟩)) := by
  rw [written, h.known, hwritable]

/-- Removing the log's file is refused only where it is gone. -/
theorem remove_cases :
    (∃ content gone, held = some content ∧ files.remove path = .ok gone ∧
      Standing before log gone path l none) ∨
    held = none ∧ files.remove path = .error ⟨.notFound, [path]⟩ := by
  cases held with
  | none => exact .inr ⟨rfl, h.beside.remove_gone h.names (Function.update_self ..)⟩
  | some content =>
    obtain ⟨gone, hgone, hbeside⟩ := h.beside.remove h.names (Function.update_self ..)
    rw [Function.update_idem] at hbeside
    exact .inl ⟨content, gone, rfl, hgone, h.known, h.names, hbeside⟩

theorem deleted : Standing before log (log.deleted files) path l none := by
  cases held with
  | none =>
    rw [deleted_of_gone h.known h.names h.beside (Function.update_self ..)]
    exact h
  | some content =>
    have hwithout := deleted_of_there h.known h.names h.beside (Function.update_self ..)
    rw [Function.update_idem] at hwithout
    exact ⟨h.known, h.names, hwithout⟩

theorem content_eq {content : Bytes} (hheld : held = some content) :
    log.content files = .ok content :=
  content_of_there h.known h.names h.beside (by rw [hheld, Function.update_self])

theorem content_gone (hheld : held = none) : log.content files = .error (lost path) :=
  content_of_gone h.known h.names h.beside (by rw [hheld, Function.update_self])

end Standing

/-- A log that was never opened has no file to delete. -/
theorem deleted_of_unopened {log : TraceLog} (hpath : log.path = none) (fs : FileSystem) :
    log.deleted fs = fs := by
  rw [deleted, hpath]

end TraceLog

/-! ## 2. Histories -/

/-- What was done with a log and what it answered, in order. -/
abbrev LogHistory := List (LogAction × Except Fault LogReply)

/-- Whether a fault is one that the body of a block has of its own. -/
def Fault.isOther : Fault → Bool
  | .other _ _ => true
  | _ => false

/-- Whether an action opened the log. A block that opens it and then fails of its own has
opened it before. -/
def LogAction.opens (a : LogAction) (answer : Except Fault LogReply) : Bool :=
  match a with
  | .opening => answer.isOk
  | .block .opening => answer.isOk
  | .block .openingAndFailing =>
    match answer with
    | .ok _ => false
    | .error e => e.isOther
  | _ => false

/-- Whether an action leaves no file of the log, if it was there. -/
def LogAction.takesAway : LogAction → Except Fault LogReply → Bool
  | .deleting, _ => true
  | .removal, .ok _ => true
  | .block _, _ => true
  | _, _ => false

/-- The bytes that an action wrote. -/
def LogAction.wrote : LogAction → Except Fault LogReply → Bytes
  | .writing _ bytes, .ok _ => bytes
  | _, _ => []

namespace LogHistory

/-- How often the log was opened. -/
def openings (h : LogHistory) : Nat := h.countP fun (a, answer) => a.opens answer

/-- Whether the log's file was taken away since the log was opened. -/
def removed (h : LogHistory) : Bool :=
  (h.dropWhile fun (a, answer) => !a.opens answer).any fun (a, answer) => a.takesAway answer

/-- All bytes written, in order. -/
def written (h : LogHistory) : Bytes := h.flatMap fun (a, answer) => a.wrote answer

variable (h : LogHistory) (a : LogAction) (answer : Except Fault LogReply)

theorem openings_concat : openings (h ++ [(a, answer)]) =
    h.openings + if a.opens answer then 1 else 0 := by
  simp [openings, List.countP_append, List.countP_cons]

theorem written_concat : written (h ++ [(a, answer)]) = h.written ++ a.wrote answer := by
  simp [written]

theorem removed_concat : removed (h ++ [(a, answer)]) =
    if h.openings = 0 then a.opens answer && a.takesAway answer
    else h.removed || a.takesAway answer := by
  have hempty : (h.dropWhile fun (a, answer) => !a.opens answer).isEmpty = true ↔
      h.openings = 0 := by
    simp [openings, List.countP_eq_zero, List.dropWhile_eq_nil_iff]
  rw [removed, List.dropWhile_append]
  by_cases hopened : h.openings = 0
  · rw [if_pos (hempty.mpr hopened), if_pos hopened]
    cases hopens : a.opens answer <;> simp [hopens]
  · rw [if_neg (mt hempty.mp hopened), if_neg hopened, List.any_append, removed]
    simp

/-- What takes the file of an opened log away has removed it, also where it opened it. -/
theorem removed_of_takesAway (htakes : a.takesAway answer = true)
    (hopened : openings (h ++ [(a, answer)]) = 1) : removed (h ++ [(a, answer)]) = true := by
  rw [removed_concat, htakes]
  split
  · rename_i hnever
    rw [openings_concat, hnever] at hopened
    cases hopens : a.opens answer with
    | true => rfl
    | false => simp [hopens] at hopened
  · exact Bool.or_true _

end LogHistory

/-! ## 3. One action -/

namespace TraceLog

/-- A log that was never opened and files that stand as they did, or a log whose file
holds what was written, unless it was taken away. -/
inductive Kept (start : FileSystem) : FileSystem → TraceLog → LogHistory → Prop
  | unopened {log : TraceLog} {h : LogHistory} (path : log.path = none)
      (writable : log.writable = false) (openings : h.openings = 0) (written : h.written = []) :
      Kept start start log h
  | opened {files : FileSystem} {log : TraceLog} {h : LogHistory} {path : Text} {l : Location}
      (openings : h.openings = 1)
      (standing : Standing start log files path l (if h.removed then none else some h.written)) :
      Kept start files log h

/-- A block that does not open the log closes and deletes it all the same. -/
theorem within_of_not_opens (log : TraceLog) (fs : FileSystem) {body : BlockBody}
    (h : body.opens = false) :
    ∃ answer, log.within fs body = (log.closed.deleted fs, log.closed, answer) ∧
      (LogAction.block body).opens answer = false := by
  cases body with
  | nothing => exact ⟨.ok .success, rfl, rfl⟩
  | failing => exact ⟨.error bodyFault, rfl, rfl⟩
  | opening | openingAndFailing => cases h

/-- So does a block whose opening is refused. -/
theorem within_of_refused {log log' : TraceLog} {fs files : FileSystem} {body : BlockBody}
    {e : Fault} (hbody : body.opens = true) (h : log.opened fs = (files, log', .error e)) :
    log.within fs body = (log'.closed.deleted files, log'.closed, .error e) := by
  cases body with
  | nothing | failing => cases hbody
  | opening | openingAndFailing => simp only [within, h, released]

/-- What an action does to a log that was never opened: nothing, or it opens it. -/
theorem act_of_unopened (log : TraceLog) (fs : FileSystem) (hpath : log.path = none)
    (hwritable : log.writable = false) (a : LogAction) :
    let r := log.act fs a
    a.wrote r.2.2 = [] ∧
      ((r.1 = fs ∧ r.2.1.path = none ∧ r.2.1.writable = false ∧ a.opens r.2.2 = false) ∨
        (a.opens r.2.2 = true ∧ ∃ path l,
          Standing fs r.2.1 r.1 path l (if a.takesAway r.2.2 then none else some []))) := by
  intro r
  have hclosed : log.closed.deleted fs = fs := deleted_of_unopened hpath fs
  cases a with
  | opening =>
    rcases log.opened_cases fs hpath with
      ⟨e, hopened⟩ | ⟨files, path, l, n, hopened, -, hnames, hbeside⟩
    · have hr : r = (fs, log, .error (.file e)) := by
        simp only [r, act, hopened]
        rfl
      rw [hr]
      exact ⟨rfl, .inl ⟨rfl, hpath, hwritable, rfl⟩⟩
    · have hr : r = (files, ⟨log.directory, some path, true⟩, .ok .success) := by
        simp only [r, act, hopened]
        rfl
      rw [hr]
      exact ⟨rfl, .inr ⟨rfl, path, l, rfl, hnames, hbeside⟩⟩
  | writing offset bytes =>
    have hr : r = (fs, log,
        .error (.badType "'NoneType' object cannot be interpreted as an integer")) := by
      simp only [r, act, written, hpath]
      rfl
    rw [hr]
    exact ⟨rfl, .inl ⟨rfl, hpath, hwritable, rfl⟩⟩
  | closing => exact ⟨rfl, .inl ⟨rfl, hpath, rfl, rfl⟩⟩
  | reading => exact ⟨rfl, .inl ⟨rfl, hpath, hwritable, rfl⟩⟩
  | deleting => exact ⟨rfl, .inl ⟨deleted_of_unopened hpath fs, hpath, hwritable, rfl⟩⟩
  | removal =>
    have hr : r.1 = fs ∧ r.2.1 = log := by
      simp [r, act, removed, hpath]
    rw [hr.1, hr.2]
    refine ⟨by cases r.2.2 <;> rfl, .inl ⟨rfl, hpath, hwritable, by cases r.2.2 <;> rfl⟩⟩
  -- Any block ends in closing and deleting, and without a file that does nothing.
  | block body =>
    by_cases hbody : body.opens = true
    · rcases log.opened_cases fs hpath with
        ⟨e, hopened⟩ | ⟨files, path, l, n, hopened, -, hnames, hbeside⟩
      · have hr : r = (log.closed.deleted fs, log.closed, .error (.file e)) :=
          within_of_refused hbody hopened
        rw [hr, hclosed]
        exact ⟨rfl, .inl ⟨rfl, hpath, rfl, by cases body <;> rfl⟩⟩
      · have hstanding : Standing fs ⟨log.directory, some path, true⟩ files path l (some []) :=
          ⟨rfl, hnames, hbeside⟩
        obtain ⟨answer, hr, hopens⟩ : ∃ answer,
            r = ((closed ⟨log.directory, some path, true⟩).deleted files,
              closed ⟨log.directory, some path, true⟩, answer) ∧
            (LogAction.block body).opens answer = true := by
          cases body with
          | nothing | failing => cases hbody
          | opening => exact ⟨.ok .success, by simp only [r, act, within, hopened, released], rfl⟩
          | openingAndFailing =>
            exact ⟨.error bodyFault, by simp only [r, act, within, hopened, released], rfl⟩
        rw [hr]
        exact ⟨rfl, .inr ⟨hopens, path, l, hstanding.closed.deleted⟩⟩
    · obtain ⟨answer, hr, hopens⟩ := log.within_of_not_opens fs (Bool.eq_false_iff.mpr hbody)
      have hr : r = (fs, log.closed, answer) := hr.trans (by rw [hclosed])
      rw [hr]
      exact ⟨rfl, .inl ⟨rfl, hpath, rfl, hopens⟩⟩

/-- What an action does to a log that was opened: it is not opened again, and its file
holds what it held and what was written, or is gone. -/
theorem Standing.act {before files : FileSystem} {log : TraceLog} {path : Text} {l : Location}
    {held : Option Bytes} (h : Standing before log files path l held) (a : LogAction) :
    let r := log.act files a
    a.opens r.2.2 = false ∧
      Standing before r.2.1 r.1 path l
        (if a.takesAway r.2.2 then none else held.map (· ++ a.wrote r.2.2)) := by
  intro r
  have hsame : held.map (· ++ []) = held := by simp
  cases a with
  | opening =>
    have hr : r = (files, log, .error alreadyOpened) := by
      simp only [r, TraceLog.act, h.opened_eq]
      rfl
    rw [hr]
    exact ⟨rfl, hsame.symm ▸ h⟩
  | writing offset bytes =>
    cases hwritable : log.writable with
    | true =>
      obtain ⟨hanswer, hstanding⟩ := h.written_of_writable hwritable bytes
      have hr : r = ((log.written files bytes).1, log, .ok (.count bytes.length)) := by
        simp only [r, TraceLog.act, hanswer]
        rfl
      rw [hr]
      exact ⟨rfl, hstanding⟩
    | false =>
      have hr : r = (files, log, .error (.file ⟨.badDescriptor, []⟩)) := by
        simp only [r, TraceLog.act, h.written_of_closed hwritable]
        rfl
      rw [hr]
      exact ⟨rfl, hsame.symm ▸ h⟩
  | closing => exact ⟨rfl, hsame.symm ▸ h.closed⟩
  | reading => exact ⟨rfl, hsame.symm ▸ h⟩
  | deleting => exact ⟨rfl, h.deleted⟩
  | removal =>
    rcases h.remove_cases with ⟨content, gone, rfl, hgone, hstanding⟩ | ⟨rfl, hremove⟩
    · have hr : r = (gone, log, .ok .nothing) := by
        simp only [r, TraceLog.act, removed, h.known, hgone]
        rfl
      rw [hr]
      exact ⟨rfl, hstanding⟩
    · have hr : r = (files, log, .error (.file ⟨.notFound, [path]⟩)) := by
        simp only [r, TraceLog.act, removed, h.known, hremove]
        rfl
      rw [hr]
      exact ⟨rfl, h⟩
  | block body =>
    obtain ⟨answer, hr, hopens⟩ : ∃ answer, r = (log.closed.deleted files, log.closed, answer) ∧
        (LogAction.block body).opens answer = false := by
      by_cases hbody : body.opens = true
      · exact ⟨_, within_of_refused hbody h.opened_eq, by cases body <;> rfl⟩
      · exact log.within_of_not_opens files (Bool.eq_false_iff.mpr hbody)
    rw [hr]
    exact ⟨hopens, h.closed.deleted⟩

/-- Every action keeps a log to its history. -/
theorem Kept.act {start files : FileSystem} {log : TraceLog} {history : LogHistory}
    (h : Kept start files log history) (a : LogAction) :
    let r := log.act files a
    Kept start r.1 r.2.1 (history ++ [(a, r.2.2)]) := by
  obtain ⟨files', log', answer, hr⟩ : ∃ files' log' answer,
      log.act files a = (files', log', answer) := ⟨_, _, _, rfl⟩
  rw [hr]
  have hopenings := history.openings_concat a answer
  have hwritten := history.written_concat a answer
  have hremoved := history.removed_concat a answer
  cases h with
  | unopened hpath hwritable hnever hnothing =>
    have hact := log.act_of_unopened start hpath hwritable a
    rw [hr] at hact
    obtain ⟨hwrote, ⟨rfl, hpath', hwritable', hopens⟩ | ⟨hopens, path, l, hstanding⟩⟩ := hact
    · rw [hnever, hopens] at hopenings
      rw [hnothing, hwrote] at hwritten
      exact .unopened hpath' hwritable' hopenings hwritten
    · rw [hnever, hopens] at hopenings
      rw [hnothing, hwrote, List.append_nil] at hwritten
      rw [if_pos hnever, hopens, Bool.true_and] at hremoved
      have hkept : Standing start log' files' path l _ := hstanding
      rw [← hremoved, ← hwritten] at hkept
      exact .opened hopenings hkept
  | @opened _ _ _ path l honce hstanding =>
    have hact := hstanding.act a
    rw [hr] at hact
    obtain ⟨hopens, hafter⟩ := hact
    rw [honce, hopens] at hopenings
    rw [if_neg (by omega)] at hremoved
    -- The file is gone if it was before, or if this action takes it away.
    have hheld : (if a.takesAway answer then none
        else (if history.removed then none else some history.written).map (· ++ a.wrote answer)) =
        if (history.removed || a.takesAway answer) then none
        else some (history.written ++ a.wrote answer) := by
      cases history.removed <;> cases a.takesAway answer <;> rfl
    have hkept : Standing start log' files' path l _ := hafter
    rw [hheld, ← hremoved, ← hwritten] at hkept
    exact .opened hopenings hkept

theorem Kept.openings_le {start files : FileSystem} {log : TraceLog} {history : LogHistory}
    (h : Kept start files log history) : history.openings ≤ 1 := by
  cases h with
  | unopened _ _ hnever => omega
  | opened honce => omega

/-- Once it was opened, a log stands beside the files of before. -/
theorem Kept.exists_standing {start files : FileSystem} {log : TraceLog} {history : LogHistory}
    (h : Kept start files log history) (honce : history.openings = 1) :
    ∃ path l, Standing start log files path l
      (if history.removed then none else some history.written) := by
  cases h with
  | unopened _ _ hnever => omega
  | @opened _ _ _ path l _ hstanding => exact ⟨path, l, hstanding⟩

theorem Kept.openings_of_path {start files : FileSystem} {log : TraceLog} {history : LogHistory}
    (h : Kept start files log history) {path : Text} (hpath : log.path = some path) :
    history.openings = 1 := by
  cases h with
  | unopened hnone =>
    rw [hnone] at hpath
    cases hpath
  | opened honce => exact honce

theorem Kept.openings_of_writable {start files : FileSystem} {log : TraceLog}
    {history : LogHistory} (h : Kept start files log history) (hwritable : log.writable = true) :
    history.openings = 1 := by
  cases h with
  | unopened _ hclosed =>
    rw [hclosed] at hwritable
    cases hwritable
  | opened honce => exact honce

theorem Kept.content_of_unopened {start files : FileSystem} {log : TraceLog}
    {history : LogHistory} (h : Kept start files log history) (hnever : history.openings = 0) :
    log.content files = .error (misuse "trace log was never opened") := by
  cases h with
  | unopened hpath => rw [content, hpath]
  | opened honce => omega

/-- Deleting the log again does nothing. -/
theorem Kept.deleted_deleted {start files : FileSystem} {log : TraceLog} {history : LogHistory}
    (h : Kept start files log history) :
    log.deleted (log.deleted files) = log.deleted files := by
  cases h with
  | unopened hpath => rw [deleted_of_unopened hpath]
  | opened _ hstanding =>
    have hgone := hstanding.deleted
    exact deleted_of_gone hgone.known hgone.names hgone.beside (Function.update_self ..)

/-- The log's file is refused to be removed only where it is gone. -/
theorem Kept.remove_cause {start files : FileSystem} {log : TraceLog} {history : LogHistory}
    (h : Kept start files log history) {path : Text} (hpath : log.path = some path)
    {e : FileError} (he : files.remove path = .error e) : e.cause = .notFound := by
  cases h with
  | unopened hnone =>
    rw [hnone] at hpath
    cases hpath
  | opened _ hstanding =>
    rw [hstanding.known, Option.some.injEq] at hpath
    subst hpath
    rcases hstanding.remove_cases with ⟨content, gone, -, hgone, -⟩ | ⟨-, hremove⟩
    · rw [hgone] at he
      cases he
    · rw [hremove] at he
      cases he
      rfl

/-! ## 4. Any number of actions -/

/-- How everything stands after actions, and what they answered. -/
structure Performed where
  files : FileSystem
  log : TraceLog
  history : LogHistory

/-- Actions performed one after the other. -/
def perform (log : TraceLog) (files : FileSystem) : List LogAction → Performed
  | [] => ⟨files, log, []⟩
  | a :: rest =>
    let (files, log, answer) := log.act files a
    let later := perform log files rest
    { later with history := (a, answer) :: later.history }

theorem Kept.perform {start files : FileSystem} {log : TraceLog} {history : LogHistory}
    (h : Kept start files log history) (actions : List LogAction) :
    let s := log.perform files actions
    Kept start s.files s.log (history ++ s.history) := by
  induction actions generalizing files log history with
  | nil => simpa [TraceLog.perform] using h
  | cons a rest ih =>
    have hrest := ih (h.act a)
    simp only [List.append_assoc] at hrest
    exact hrest

/-- Whatever is done with a log, it keeps to its history. -/
theorem kept_perform (directory : Option Text) (start : FileSystem) (actions : List LogAction) :
    let s := (new directory).perform start actions
    Kept start s.files s.log s.history := by
  have hnew : Kept start start (new directory) [] := .unopened rfl rfl rfl rfl
  exact hnew.perform actions

/-- Whatever was done with a log before: it is opened at most once, and what opens it
again is refused and changes nothing but what the end of a block does; reading gives all
that was written, unless the log was never opened or its file is gone; closing and deleting
are never refused, and doing either again changes nothing; and a block leaves neither a
descriptor nor a file. -/
theorem act_after (directory : Option Text) (start : FileSystem) (earlier : List LogAction)
    (action : LogAction) :
    let s := (new directory).perform start earlier
    let r := s.log.act s.files action
    (s.history ++ [(action, r.2.2)]).openings ≤ 1 ∧
      (s.history.openings = 1 → action = .opening →
        r = (s.files, s.log, .error alreadyOpened)) ∧
      (s.history.openings = 1 → ∀ body, body.opens = true → action = .block body →
        r = (s.log.closed.deleted s.files, s.log.closed, .error alreadyOpened)) ∧
      (∀ offset bytes, action = .writing offset bytes → s.log.writable = true →
        r.2.2 = .ok (.count bytes.length)) ∧
      (action = .reading → r.1 = s.files ∧ r.2.1 = s.log ∧
        (s.history.openings = 0 → r.2.2 = .error (misuse "trace log was never opened")) ∧
        (s.history.openings = 1 → s.history.removed = false →
          r.2.2 = .ok (.bytes s.history.written)) ∧
        (s.history.openings = 1 → s.history.removed = true →
          ∃ message, r.2.2 = .error (.failure ⟨.traceLog ⟨none, 0, none⟩, message, none⟩))) ∧
      (action = .closing ∨ action = .deleting →
        r.2.2 = .ok .nothing ∧ r.2.1.act r.1 action = r) ∧
      (∀ path ∈ s.log.path, ∀ e, s.files.remove path = .error e → e.cause = .notFound) ∧
      ∀ body, action = .block body →
        r.2.1.writable = false ∧ ∀ path ∈ r.2.1.path, r.1.pathExists path = false := by
  intro s r
  have hkept : Kept start s.files s.log s.history := kept_perform directory start earlier
  have hnext : Kept start r.1 r.2.1 (s.history ++ [(action, r.2.2)]) := hkept.act action
  refine ⟨hnext.openings_le, fun honce ha => ?again, fun honce body hbody ha => ?inside,
    fun offset bytes ha hwritable => ?writing, fun ha => ?reading, fun ha => ?repeated,
    fun path hpath e he => hkept.remove_cause hpath he, fun body ha => ?block⟩
  case again =>
    obtain ⟨path, l, hstanding⟩ := hkept.exists_standing honce
    simp only [r, ha, act, hstanding.opened_eq]
    rfl
  case inside =>
    obtain ⟨path, l, hstanding⟩ := hkept.exists_standing honce
    have hrefused := within_of_refused hbody hstanding.opened_eq
    simp only [r, ha]
    exact hrefused
  case writing =>
    obtain ⟨path, l, hstanding⟩ := hkept.exists_standing (hkept.openings_of_writable hwritable)
    simp only [r, ha, act, (hstanding.written_of_writable hwritable bytes).1]
    rfl
  case reading =>
    have hanswer : r.2.2 = (s.log.content s.files).map .bytes := by
      simp only [r, ha, act]
    rw [hanswer]
    refine ⟨by simp only [r, ha, act], by simp only [r, ha, act], fun hnever => ?_,
      fun honce hremoved => ?_, fun honce hremoved => ?_⟩
    · rw [hkept.content_of_unopened hnever]
      rfl
    · obtain ⟨path, l, hstanding⟩ := hkept.exists_standing honce
      rw [hstanding.content_eq (if_neg (by rw [hremoved]; decide))]
      rfl
    · obtain ⟨path, l, hstanding⟩ := hkept.exists_standing honce
      rw [hstanding.content_gone (if_pos hremoved)]
      exact ⟨_, rfl⟩
  case repeated =>
    rcases ha with ha | ha
    · simp [r, ha, act, closed]
    · simp [r, ha, act, hkept.deleted_deleted]
  case block =>
    refine ⟨by rw [show r = s.log.within s.files body by simp only [r, ha, act]]; rfl, ?_⟩
    intro path hpath
    have honce := hnext.openings_of_path hpath
    -- The end of a block takes the file away, also where the block itself has made it.
    have htakes : action.takesAway r.2.2 = true := by rw [ha]; rfl
    obtain ⟨path', l, hstanding⟩ := hnext.exists_standing honce
    rw [LogHistory.removed_of_takesAway _ _ _ htakes honce, if_pos rfl] at hstanding
    rw [hstanding.known, Option.mem_some_iff] at hpath
    rw [← hpath]
    exact hstanding.beside.pathExists_gone hstanding.names (Function.update_self ..)

/-- What is written before the log is opened and after it is closed is refused, an opening
in between too, and all that was written is read, also behind a seek. -/
theorem act_after_misuse :
    let start : FileSystem := ⟨[([[116]], .directory)], [47], [47, 116], 0⟩
    let earlier : List LogAction := [.writing none [120], .opening, .writing none [97, 98],
      .opening, .writing (some 0) [99], .closing, .writing none [100]]
    let s := (new none).perform start earlier
    let r := s.log.act s.files .reading
    s.history.openings = 1 ∧ s.history.removed = false ∧ r.1 = s.files ∧
      r.2.2 = .ok (.bytes [97, 98, 99]) := by
  intro start earlier s r
  have hopenings : ((new none).perform start earlier).history.openings = 1 := by
    decide +kernel
  have hremoved : ((new none).perform start earlier).history.removed = false := by
    decide +kernel
  have hwritten : ((new none).perform start earlier).history.written = [97, 98, 99] := by
    decide +kernel
  obtain ⟨-, -, -, -, hread, -⟩ := act_after none start earlier .reading
  obtain ⟨hfiles, -, -, hanswer, -⟩ := hread rfl
  have hbytes := hanswer hopenings hremoved
  rw [hwritten] at hbytes
  exact ⟨hopenings, hremoved, hfiles, hbytes⟩

end TraceLog

end LineTrace
