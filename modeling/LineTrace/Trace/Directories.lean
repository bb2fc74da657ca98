/-
LineTrace.Trace.Directories — the stack of working directories that a trace
walks through.

A trace names the working directory of every command. Returning to a
directory that is on the stack unwinds to it, so that writers in different
directories keep the stack shallow; any other directory is pushed. The root
frame comes from the first record and is never popped.

`candidates` lists the directories that a relative file name may be meant
from. It is asked far more often than the stack changes, so the list is kept
with the stack; `freshCandidates` is the list worked out from the frames.
-/
import LineTrace.Text.Basic

namespace LineTrace

/-- What a record's directory means for the stack. -/
inductive DirEvent where
  | hit
  | push
  | pop
  deriving DecidableEq, Repr

/-- A directory and the directory before it, as a record gives them. -/
structure DirFrame where
  pwd : Text
  oldpwd : Text
  deriving DecidableEq, Repr

/-- The frames, the top one first, and the list of candidates once it has been
asked for. -/
structure Directories where
  frames : List DirFrame
  known : Option (List Text)
  deriving DecidableEq, Repr

/-- More frames were to be popped than lie above the root. -/
inductive Underflow where
  | mk
  deriving DecidableEq, Repr

namespace Directories

/-- The stack before the first record. -/
def empty : Directories := ⟨[], none⟩

/-- The stack of the given frames, the top one first. -/
def ofFrames (frames : List DirFrame) : Directories := ⟨frames, none⟩

/-- The number of frames. -/
def depth (d : Directories) : Nat := d.frames.length

/-- The top frame. -/
def top? (d : Directories) : Option DirFrame := d.frames.head?

/-! ## 1. Changing the stack -/

/-- The stack of one frame. -/
def reseed (_ : Directories) (pwd oldpwd : Text) : Directories := ⟨[⟨pwd, oldpwd⟩], none⟩

/-- The stack with a frame on top. -/
def push (d : Directories) (pwd oldpwd : Text) : Directories := ⟨⟨pwd, oldpwd⟩ :: d.frames, none⟩

/-- The stack without its top frame, which is not the root. -/
def pop (d : Directories) : Directories × Except Underflow DirFrame :=
  match d.frames with
  | f :: g :: rest => (⟨g :: rest, none⟩, .ok f)
  | _ => (d, .error .mk)

/-- The frames after popping until `pwd` is on top, and the frames popped on
the way, the first one first. Where `pwd` is not stacked the root remains and
the popping fails there. -/
def unwind (pwd : Text) : List DirFrame → List DirFrame × List DirFrame × Bool
  | [] => ([], [], true)
  | [f] => ([f], [], f.pwd = pwd)
  | f :: g :: rest =>
    if f.pwd = pwd then (f :: g :: rest, [], true)
    else
      let (left, popped, found) := unwind pwd (g :: rest)
      (left, f :: popped, found)

/-- The stack after popping until `pwd` is on top. -/
def popTo (d : Directories) (pwd : Text) : Directories × Except Underflow (List DirFrame) :=
  let (left, popped, found) := unwind pwd d.frames
  (⟨left, if popped = [] then d.known else none⟩, if found then .ok popped else .error .mk)

/-! ## 2. Asking the stack -/

/-- What a record in directory `pwd` means; on an empty stack the record makes
the root frame. -/
def classify (d : Directories) (pwd oldpwd : Text) : Directories × DirEvent :=
  match d.frames with
  | [] => (d.reseed pwd oldpwd, .hit)
  | f :: below =>
    if pwd = f.pwd then (d, .hit)
    else if below.any fun g => g.pwd = pwd then (d, .pop)
    else (d, .push)

/-- The directories that a relative name may be meant from: the working
directories from top to bottom, then the directories before them, none empty
and each once. -/
def freshCandidates (frames : List DirFrame) : List Text :=
  Text.dedup ((frames.map DirFrame.pwd ++ frames.map DirFrame.oldpwd).filter (· ≠ []))

/-- The candidates, and the stack that remembers them. -/
def candidates (d : Directories) : Directories × List Text :=
  match d.known with
  | some dirs => (d, dirs)
  | none =>
    let dirs := freshCandidates d.frames
    (⟨d.frames, some dirs⟩, dirs)

end Directories

end LineTrace
