/-!
Traces: one header line for each construct that is traced, and behind each header a private buffer
for the lines of its construct. Buffers nest; lines go to the innermost one.
-/

namespace Premise

structure Trace where
  headers : List String := []
  /-- finished buffers, in the order they were finished -/
  finished : List (List String) := []
  /-- the buffer that lines go to, while one is active -/
  active : Option (List String) := none
  deriving Repr, DecidableEq

namespace Trace

def isActive (t : Trace) : Bool := t.active.isSome

/-- Appends lines to the active buffer; without one they are lost. -/
def add (t : Trace) (lines : List String) : Trace :=
  match t.active with
  | some buffer => { t with active := some (buffer ++ lines) }
  | none => t

/-- Starts a buffer under a header. The buffer that was active has to be kept for `finish`. -/
def start (t : Trace) (header : String) : Trace :=
  { t with headers := t.headers ++ [header], active := some [] }

/-- Finishes the active buffer, and goes on with the one that was active before. -/
def finish (t : Trace) (previous : Option (List String)) : Trace :=
  match t.active with
  | some buffer => { t with finished := t.finished ++ [buffer], active := previous }
  | none => { t with active := previous }

/-- The headers, and behind them all finished buffers. -/
def lines (t : Trace) : List String := t.headers ++ t.finished.flatten

def taken (t : Trace) : Trace := { t with headers := [], finished := [] }

end Trace

end Premise
