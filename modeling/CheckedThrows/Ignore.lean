import CheckedThrows.Diagnostic
import CheckedThrows.Text.Blank
import CheckedThrows.Text.LowerCase
import CheckedThrows.Text.Word
import CheckedThrows.Token.Basic

/-!
# Ignore comments

A comment `// ignore: a, b` suppresses the diagnostics with these codes on its
own line, or on the next one if nothing stands before it; a comment
`// ignore_for_file: a, b` suppresses them in the whole file.  The code
`type=lint` stands for every code of the lint phase.  Codes are compared in
lower case, and whatever follows a code up to the next comma is passed over.
-/

namespace CheckedThrows

/-- What of a comment matters here. -/
structure Remark where
  text : String
  line : Option Int
  ownLine : Bool
  deriving DecidableEq, Repr

def Remark.ofComment (c : Comment) : Remark :=
  ⟨c.text, some c.extent.start.line, c.ownLine⟩

namespace Remark

/-- What follows a word and a colon after the slashes of a comment, on the line
where anything follows; nothing may come after that line. -/
def argument? (word : String) (text : List Char) : Option (List Char) :=
  match text with
  | '/' :: '/' :: rest =>
    let rest := dropBlanks rest
    if word.toList.isPrefixOf rest then
      let rest := dropBlanks (rest.drop word.length)
      let line := rest.takeWhile (· ≠ '\n')
      let after := rest.drop line.length
      if after = [] ∨ after = ['\n'] then some line else none
    else none
  | _ => none

def startsCode (c : Char) : Bool :=
  ('A' ≤ c && c ≤ 'Z') || ('a' ≤ c && c ≤ 'z') || c = '_'

def code? (part : List Char) : Option String :=
  match trimBlanks part with
  | c :: rest =>
    if startsCode c then
      some (lowerCase (String.ofList (c :: rest.takeWhile fun d => isWord d || d = '=')))
    else none
  | [] => none

def codes (argument : List Char) : List String :=
  (argument.splitOn ',').filterMap code?

def fileCodes? (r : Remark) : Option (List String) :=
  (argument? "ignore_for_file:" r.text.toList).map codes

/-- The line on which a comment suppresses codes, with the codes. -/
def lineCodes? (r : Remark) : Option (Int × List String) := do
  let argument ← argument? "ignore:" r.text.toList
  let line ← r.line
  return (if r.ownLine then line + 1 else line, codes argument)

end Remark

/-- The codes suppressed in a file and on its lines, each once. -/
structure IgnoreInfo where
  fileCodes : List String := []
  lineCodes : List (Int × List String) := []
  deriving DecidableEq, Repr

namespace IgnoreInfo

def allLints : String := "type=lint"

def addCodes (old new : List String) : List String :=
  new.foldl (fun codes c => if c ∈ codes then codes else codes ++ [c]) old

def addLine (line : Int) (codes : List String) :
    List (Int × List String) → List (Int × List String)
  | [] => [(line, addCodes [] codes)]
  | (l, old) :: rest =>
    if l = line then (l, addCodes old codes) :: rest
    else (l, old) :: addLine line codes rest

def add (info : IgnoreInfo) (r : Remark) : IgnoreInfo :=
  match r.fileCodes? with
  | some codes => { info with fileCodes := addCodes info.fileCodes codes }
  | none =>
    match r.lineCodes? with
    | some (line, codes) => { info with lineCodes := addLine line codes info.lineCodes }
    | none => info

def ofRemarks (remarks : List Remark) : IgnoreInfo :=
  remarks.foldl add {}

def ofComments (comments : List Comment) : IgnoreInfo :=
  ofRemarks (comments.map Remark.ofComment)

def codesOn (info : IgnoreInfo) (line : Option Int) : List String :=
  (line.bind fun l => info.lineCodes.lookup l).getD []

def isIgnored (info : IgnoreInfo) (code : String) (line : Option Int) (isLint : Bool) :
    Bool :=
  let suppresses (codes : List String) : Bool :=
    codes.contains (lowerCase code) || (isLint && codes.contains allLints)
  suppresses info.fileCodes || suppresses (info.codesOn line)

/-- Diagnostics without a code are never suppressed. -/
def keeps (info : IgnoreInfo) (d : Diagnostic) : Bool :=
  match d.code with
  | some code => !info.isIgnored code d.span.line (d.phase = some "lint")
  | none => true

end IgnoreInfo

end CheckedThrows
