/-
# Programs on a file system

Everything the library does to files is described before it is done.  A call
names one step and the kind of reply it gets; a program is a result, or a call
together with what to do for each reply.  A program is therefore a value: it can
be run on a tree of files in memory or on a real file system, cut short after
some of its calls, or answered with faults, and what is proved of it holds
however it is run.

Calls that can fail reply with a fault, so a program sees every failure and
decides itself what to make of it.
-/

import FlatDB.Disk.Fault
import FlatDB.Disk.Path
import FlatDB.Text.Utf8

namespace FlatDB

/-- What there can be at a path. -/
inductive Kind where
  | file
  | directory
  deriving DecidableEq, Repr

/-- What opening a path for reading yields.  A directory can be opened like a
file, and only reading from it fails. -/
inductive Source where
  | content (bytes : Bytes)
  | directory
  deriving DecidableEq, Repr

/-- A file created for one write. -/
abbrev Handle := Nat

/-- One step on a file system.  Where a step writes, `sync` asks that the bytes
have reached the medium when it replies. -/
inductive Call where
  /-- What there is at a path, if the path leads anywhere. -/
  | kind (path : Path)
  /-- Open for reading. -/
  | read (path : Path)
  /-- The names in a directory, in no particular order. -/
  | list (path : Path)
  /-- Make a directory and those on the way to it, where missing. -/
  | makeDirectories (path : Path)
  /-- Make an empty file, or empty the one that is there. -/
  | create (path : Path)
  /-- Write to a file just created, wherever it is by now, and close it. -/
  | fill (handle : Handle) (content : Bytes) (sync : Bool)
  /-- Write at the end of a file that exists. -/
  | append (path : Path) (content : Bytes) (sync : Bool)
  /-- Empty a file that exists. -/
  | truncate (path : Path) (sync : Bool)
  /-- Move what is at one path to another, replacing what is there. -/
  | rename (source target : Path)
  /-- Remove a file. -/
  | remove (path : Path)
  /-- Remove a directory and all that is in it. -/
  | removeTree (path : Path)

/-- The reply to a call. -/
abbrev Call.Reply : Call → Type
  | .kind _ => Option Kind
  | .read _ => Except Fault Source
  | .list _ => Except Fault (List (String × Kind))
  | .create _ => Except Fault Handle
  | _ => Except Fault Unit

/-- A sequence of calls, each chosen in view of the replies before it. -/
inductive Program (α : Type) where
  /-- Nothing is left to do. -/
  | done (result : α)
  /-- Make a call and go on with its reply. -/
  | call (c : Call) (next : c.Reply → Program α)

namespace Program

variable {α β : Type}

/-- Run one program and then another on its result. -/
protected def bind : Program α → (α → Program β) → Program β
  | .done a, f => f a
  | .call c next, f => .call c fun reply => (next reply).bind f

instance : Monad Program where
  pure := .done
  bind := Program.bind

/-- The program of a single call. -/
def perform (c : Call) : Program c.Reply :=
  .call c .done

@[simp]
theorem pure_eq_done (a : α) : (pure a : Program α) = .done a := rfl

@[simp]
theorem done_bind (a : α) (f : α → Program β) : Program.done a >>= f = f a := rfl

@[simp]
theorem call_bind (c : Call) (next : c.Reply → Program α) (f : α → Program β) :
    Program.call c next >>= f = .call c fun reply => next reply >>= f := rfl

theorem bind_done (p : Program α) : p >>= Program.done = p := by
  induction p with
  | done a => rfl
  | call c next ih => rw [call_bind]; exact congrArg _ (funext ih)

theorem bind_assoc {γ : Type} (p : Program α) (f : α → Program β) (g : β → Program γ) :
    p >>= f >>= g = p >>= fun a => f a >>= g := by
  induction p with
  | done a => rfl
  | call c next ih => simp only [call_bind]; exact congrArg _ (funext ih)

instance : LawfulMonad Program :=
  LawfulMonad.mk' Program (fun p => bind_done p) (fun _ _ => rfl) bind_assoc

end Program

end FlatDB
