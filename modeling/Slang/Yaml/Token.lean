import Slang.Yaml.Source
/-!
# Tokens of a YAML document

The **tokens** of a document are its scalars, its marks, and the starts and ends of its collections.
A block collection has no marks of its own: its start and end come from the indentation.
-/

namespace Slang.Yaml

/-- Why a scalar is a text whatever it looks like: it was written in quotes or as a block. -/
inductive Look where
  | plain
  | quoted
  deriving DecidableEq, Repr

/-- The parts of a document. -/
inductive Token where
  | version (major minor : Nat)
  | tagShort (handle full : Text)
  | documentStart
  | documentEnd
  | finish
  | blockSequence
  | blockMapping
  | blockEnd
  | flowSequence
  | flowSequenceEnd
  | flowMapping
  | flowMappingEnd
  | dash
  | comma
  | key
  | value
  | ref (name : Text)
  | anchor (name : Text)
  | tag (handle rest : Text)
  | scalar (look : Look) (text : List Char)
  /-- What follows cannot be read. -/
  | unreadable
  deriving DecidableEq, Repr

end Slang.Yaml
