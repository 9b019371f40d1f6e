import Typewright.Document.Graph
import Typewright.Error

/-!
# The outside

What a program can ask of its surroundings: the bytes of a file, what a path resolves to, the text
at an address of the web, and the packages that read texts and replace references. The questions may
have effects in a monad, so the same functions run on the real system and on a world that is given
as data.
-/

namespace Typewright

/-- A loading step: it may ask the outside and may fail. -/
abbrev Loading (m : Type → Type) := ExceptT Error m

/-- The readers of documents, for each of the languages that these are written in. -/
structure Readers where
  json : String → Except Refusal Document
  yaml : String → Except Refusal Document

/-- A replacement of the references in a document, which are relative to an address. Other documents
are loaded by their addresses with the step that is given first. -/
abbrev Linker (m : Type → Type) :=
  (String → Loading m Document) → String → Document → Loading m Document

/-- Access to files and to the web, and the packages in use. Resolving a path gives the path from
the root, without dots and links, of what the path leads to. A request to the web follows
redirections and gives the text of an answer that is a success. -/
structure Outside (m : Type → Type) where
  readFile : String → m (Except FileFault (List UInt8))
  resolve : String → m String
  fetch : String → m (Except Refusal String)
  readers : Readers
  link : Linker m

end Typewright
