import Compression.Config
import Compression.YamlValue

namespace Compression

/-- The parameters that an item of a document names. Each of them shows on its own. -/
def Document.parameters (d : Document) (item : DocumentItem) : Value :=
  match d.entries? item with
  | none => d.value item
  | some entries => .map (entries.map fun e => (e.1, d.value e.2))

/-- What a document says on the configuration. Each setting shows on its own. -/
def Document.settings (d : Document) : Value :=
  match d.entries? d.root with
  | none => d.value d.root
  | some entries => .map (entries.map fun e =>
      (e.1, if e.1.text? = some (textOf "lzss") then d.parameters e.2 else d.value e.2))

/-- The settings in the document that bytes spell. -/
def loadSettings (data : Bytes) : Except LoadError Value :=
  match readDocument data with
  | .error e => .error (.ofDocument e)
  | .ok d => .ok d.settings

end Compression
