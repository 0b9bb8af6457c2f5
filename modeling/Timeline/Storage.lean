import Timeline.Failure

/-! What keeps files.

A storage answers when a whole file is read or written. It says nothing about how paths lead
to files. -/
namespace Timeline

class Storage (σ : Type) where
  read : σ → String → Except FileFault ByteArray
  /-- Writes a file, in the stead of any earlier one; one that fails leaves everything as it was. -/
  write : σ → String → ByteArray → Except FileFault σ

/-- Content as text. -/
def decode (content : ByteArray) : Except FileFault String :=
  match String.fromUTF8? content with
  | some text => .ok text
  | none => .error .notText

/-- The text of a file. -/
def Storage.readText {σ : Type} [Storage σ] (files : σ) (path : String) : Except FileFault String :=
  (Storage.read files path).bind decode

end Timeline
