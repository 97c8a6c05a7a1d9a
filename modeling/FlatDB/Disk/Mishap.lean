/-
# Mishaps

A file system may fail a call for reasons that are not in its tree: the medium is
full or broken, or somebody else interferes.  A mishap is such a failure.  It has
a fault, which is the reply, and an extent, which says how much of what was asked
for has been done by then: a write may have stopped half way, and one that was to
reach the medium may have failed only at that.

What befalls a program is given as a list of outlooks, one for each call it makes.
An outlook says of every call whether and how it would fail, so that it can be
given without knowing which calls the program makes.  When the list is used up,
everything goes as it should.
-/

import FlatDB.Disk.Perform

namespace FlatDB

/-- How much of what was asked for a failing call has done. -/
inductive Extent where
  | nothing
  /-- A write has stopped after so many bytes. -/
  | partly (bytes : Nat)
  | everything
  deriving DecidableEq, Repr

/-- A failure of a call. -/
structure Mishap where
  /-- The fault that is replied. -/
  fault : Fault
  /-- What has been done. -/
  extent : Extent
  deriving DecidableEq, Repr

/-- Which mishap, if any, befalls which call. -/
abbrev Outlook := Call → Option Mishap

namespace Call

/-- The reply to a call that fails.  Where it is only asked what there is, nothing is found. -/
def failed (fault : Fault) : (c : Call) → c.Reply
  | .kind _ => none
  | .read _ => .error fault
  | .list _ => .error fault
  | .makeDirectories _ => .error fault
  | .create _ => .error fault
  | .fill _ _ _ => .error fault
  | .append _ _ _ => .error fault
  | .truncate _ _ => .error fault
  | .rename _ _ => .error fault
  | .remove _ => .error fault
  | .removeTree _ => .error fault

/-- The call that writes only the first bytes of what another writes. -/
def cut? (bytes : Nat) : Call → Option Call
  | .fill handle content sync => some (.fill handle (content.take bytes) sync)
  | .append path content sync => some (.append path (content.take bytes) sync)
  | _ => none

end Call

namespace Disk

/-- The disk after a call that fails. -/
def failing (d : Disk) (c : Call) : Extent → Disk
  | .nothing => d
  | .partly bytes =>
    match c.cut? bytes with
    | some cut => (d.step cut).2
    | none => d
  | .everything => (d.step c).2

/-- Make one call under an outlook. -/
def stepUnder (d : Disk) (o : Outlook) (c : Call) : c.Reply × Disk :=
  match o c with
  | none => d.step c
  | some m => (c.failed m.fault, d.failing c m.extent)

end Disk

/-- Make all the calls of a program, each under its own outlook. -/
def Program.runUnder {α : Type} : Program α → List Outlook → Disk → α × Disk
  | .done a, _, d => (a, d)
  | .call c next, [], d =>
    let (reply, d') := d.step c
    (next reply).runUnder [] d'
  | .call c next, o :: outlooks, d =>
    let (reply, d') := d.stepUnder o c
    (next reply).runUnder outlooks d'

/-- When everything goes as it should, a program runs as ever. -/
theorem Program.runUnder_nil {α : Type} (p : Program α) (d : Disk) :
    p.runUnder [] d = p.run d := by
  induction p generalizing d with
  | done a => rfl
  | call c next ih => exact ih _ _

namespace Disk

variable {σ α : Type}

/-- Perform an action under outlooks. -/
def performUnder (d : Disk) (outlooks : List Outlook) (a : Action α) : Except Error α × Disk :=
  Program.runUnder (ExceptT.run a) outlooks d

/-- Perform an update of a value under outlooks. -/
def updateUnder (d : Disk) (outlooks : List Outlook) (s : σ) (u : Update σ α) :
    Except Error α × σ × Disk :=
  let ((result, s'), d') := Program.runUnder (StateT.run (ExceptT.run u) s) outlooks d
  (result, s', d')

theorem performUnder_nil (d : Disk) (a : Action α) : d.performUnder [] a = d.perform a :=
  Program.runUnder_nil (ExceptT.run a) d

theorem updateUnder_nil (d : Disk) (s : σ) (u : Update σ α) :
    d.updateUnder [] s u = d.update s u := by
  rw [updateUnder, Program.runUnder_nil]
  rfl

end Disk

end FlatDB
