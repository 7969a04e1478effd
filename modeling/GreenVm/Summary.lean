/-
  One-line summaries of classes and threads, for people who look into a machine.
-/
import GreenVm.Machine
import GreenVm.Text.Quoted

namespace GreenVm

/-- A type name and its named fields: `Name { a: 1, b: 2 }`. -/
def recordText (name : String) (fields : List (String × String)) : String :=
  name ++ " \x7b " ++ String.intercalate ", " (fields.map fun f => f.1 ++ ": " ++ f.2) ++ " \x7d"

def ThreadId.summary (t : ThreadId) : String := s!"ThreadId({t.index})"

def InitState.summary : InitState → String
  | uninitialized => "Uninitialized"
  | inProgress t => s!"InProgress({t.summary})"
  | done => "Done"
  | failed => "Failed"

def ThreadStatus.text : ThreadStatus → String
  | runnable => "Runnable"
  | blocked => "Blocked"
  | waiting => "Waiting"
  | terminated => "Terminated"

/-- What a class is and how far its initialization has come. -/
def Class.summary (c : Class) (init : InitState) : String :=
  let superClass := match c.superClass with
    | some s => s!"Some({quoted s.name})"
    | none => "None"
  recordText "Class" [("class_name", quoted c.name), ("super_class", superClass),
    ("methods", toString c.declared.methods.length), ("init_state", init.summary)]

/-- Which thread it is and how it stands. -/
def Thread.summary (t : Thread) : String :=
  recordText "Thread" [("id", t.id.summary), ("name", quoted t.name), ("status", t.status.text),
    ("depth", toString t.depth)]

end GreenVm
