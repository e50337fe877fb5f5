import Gerber.Text

/-!
# Folders

A folder in memory: files by name.
-/

namespace Gerber

/-- A folder of files with their contents. -/
structure Folder where
  files : List (Text × List UInt8)

namespace Folder

def get? (f : Folder) (name : Text) : Option (List UInt8) := f.files.lookup name

def put (f : Folder) (name : Text) (content : Text) : Folder :=
  ⟨(name, content.string.toUTF8.toList) :: f.files.filter fun file => file.1 != name⟩

theorem get?_put (f : Folder) (name content : Text) :
    (f.put name content).get? name = some content.string.toUTF8.toList := by
  simp [get?, put]

end Folder

end Gerber
