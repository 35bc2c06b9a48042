import MathMarkup.Expansion

/-!
# Math segments

Running text may hold one segment of markup between an opener and a closer. The segment ends at
the last closer and begins at the last opener before that. An opener that a letter follows is the
beginning of a longer control word and opens nothing.
-/

namespace MathMarkup

def segmentOpener : Text := "\\math".toList

def segmentCloser : Text := "\\endmath".toList

def splitCloser? : Text → Option (Text × Text)
  | [] => none
  | c :: rest =>
    match splitCloser? rest with
    | some (before, after) => some (c :: before, after)
    | none => (segmentCloser.isPrefixOf? (c :: rest)).map fun after => ([], after)

/-- The text before the last opener, and the one after it without blanks at its start. The text
is one that a closer follows, so an opener at its end opens too. -/
def splitOpener? : Text → Option (Text × Text)
  | [] => none
  | c :: rest =>
    match splitOpener? rest with
    | some (before, math) => some (c :: before, math)
    | none =>
      match segmentOpener.isPrefixOf? (c :: rest) with
      | some body => if body.head?.any isLetter then none else some ([], Text.skipBlanks body)
      | none => none

structure Segment where
  before : Text
  math : Text
  after : Text
  deriving DecidableEq, Repr

def findSegment? (text : Text) : Option Segment :=
  match splitCloser? text with
  | none => none
  | some (opened, after) =>
    match splitOpener? opened with
    | none => none
    | some (before, math) => some ⟨before, math, after⟩

namespace Typesetter

variable (T : Typesetter)

/-- The text with its segment typeset. A text without a segment is left as it is. -/
def transformSegment (text : Text) : Text :=
  match findSegment? text with
  | none => text
  | some segment => segment.before ++ T.transform segment.math ++ segment.after

def segmentHistory (text : Text) : List Event :=
  match findSegment? text with
  | none => [.noticed .noSegment]
  | some segment => T.history segment.math

end Typesetter

end MathMarkup
