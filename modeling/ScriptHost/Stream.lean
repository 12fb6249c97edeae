import ScriptHost.Identity
import ScriptHost.Text.Utf8

/-!
# Output streams

A stream is a label on a writer, and several streams may share one writer. Text reaches a
writer in UTF-8.
-/

set_option autoImplicit false

namespace ScriptHost

structure Stream where
  label : String
  writer : WriterId
deriving DecidableEq, Repr, Inhabited

/-- Whether what is written to one stream goes where the other one leads. -/
def Stream.same (a b : Stream) : Bool := a.writer == b.writer

inductive Writer where
  /-- It goes to the standard output of the process. -/
  | standard
  | discard
  /-- It is kept. -/
  | buffer (content : ByteArray)
  /-- It cannot be written. -/
  | broken
deriving Inhabited

inductive WriteFault where
  | broken
deriving DecidableEq, Repr

def WriteFault.message : WriteFault → String
  | broken => "sink is broken"

namespace Writer

/-- The text in a buffer, with ill formed bytes replaced. -/
def contents : Writer → String
  | buffer content => Utf8.text content.data.toList
  | _ => ""

def isEmpty : Writer → Bool
  | buffer content => content.isEmpty
  | _ => true

def clear : Writer → Writer
  | buffer _ => buffer .empty
  | writer => writer

end Writer

end ScriptHost
