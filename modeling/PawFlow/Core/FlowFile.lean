import PawFlow.Lib.PyDict

/-!
# FlowFiles

The data unit that moves through a flow (`core/__init__.py`). Whether content lies in
memory or on disk makes no difference to its readers, so it is a byte list here.
-/

namespace PawFlow.Core

open PawFlow.Lib

structure FlowFile where
  processId : String
  content : List UInt8 := []
  attributes : PyDict String String := []
  createdAt : Int := 0
deriving DecidableEq

namespace FlowFile

def getAttribute (f : FlowFile) (key : String) : Option String := f.attributes.get? key

def setAttribute (f : FlowFile) (key value : String) : FlowFile :=
  { f with attributes := f.attributes.set key value }

/-- `get_attribute(key, "")`. -/
def attr (f : FlowFile) (key : String) : String := (f.getAttribute key).getD ""

@[simp] theorem attr_setAttribute_self (f : FlowFile) (key value : String) :
    (f.setAttribute key value).attr key = value := by
  simp [attr, getAttribute, setAttribute, PyDict.get?_set_self]

theorem getAttribute_setAttribute_of_ne (f : FlowFile) {key key' : String} (value : String)
    (h : key' ≠ key) : (f.setAttribute key value).getAttribute key' = f.getAttribute key' :=
  PyDict.get?_set_of_ne f.attributes value h

theorem attr_setAttribute_of_ne (f : FlowFile) {key key' : String} (value : String)
    (h : key' ≠ key) : (f.setAttribute key value).attr key' = f.attr key' := by
  rw [attr, attr, getAttribute_setAttribute_of_ne f value h]

def size (f : FlowFile) : Nat := f.content.length

/-- `clone`: same content and attributes under a fresh process id. -/
def clone (f : FlowFile) (processId : String) (now : Int) : FlowFile :=
  { f with processId, createdAt := now }

end FlowFile

end PawFlow.Core
