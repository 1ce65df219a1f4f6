import TwoWayPeg.Text.Letters
import TwoWayPeg.Text.Plain

/-!
# Settings files

A settings file sets variables beside those of the environment, one to a line: a name, perhaps after
the word `export`, an equals sign and a value. Lines that are blank or begin with a number sign are
comments. A variable that is set already keeps its value, and the first line that is not well formed
ends the file.

In a value single quotes keep everything as it stands. Outside of them a backslash keeps the
character behind it, and a dollar sign with a name, perhaps in braces, stands for the value of a
variable. Outside of all quotes a blank ends the value, and only a comment may follow.
-/

namespace TwoWayPeg.SettingsFile

/-- The values of variables by their names. -/
abbrev Variables := List (String × String)

/-- The value of a variable, empty where it is not set. -/
def valueOf (vars : Variables) (name : String) : String := (vars.lookup name).getD ""

/-- The variables with one more, unless it is set already. -/
def setIn (vars : Variables) (name value : String) : Variables :=
  if (vars.lookup name).isSome then vars else vars ++ [(name, value)]

/-! ### Names -/

/-- Whether a name may begin with a character. -/
def beginsName (c : Char) : Bool := c.isAlpha || c == '_'

/-- Whether a character may be part of a name. -/
def isNamePart (c : Char) : Bool := c.isAlphanum || c == '_' || c == '.'

/-- The name at the front, and what follows it and the blanks behind it. -/
def readName : List Char → Option (String × List Char)
  | [] => none
  | c :: rest =>
    if beginsName c then
      some (String.ofList (c :: rest.takeWhile isNamePart),
        (rest.dropWhile isNamePart).dropWhile Text.isBlank)
    else none

/-- The name that a line sets, and what stands behind the equals sign. The word `export` is a name
itself where the equals sign follows it. -/
def readTarget (line : List Char) : Option (String × List Char) :=
  match readName line with
  | some (name, '=' :: value) => some (name, value)
  | some ("export", rest) =>
    match readName rest with
    | some (name, '=' :: value) => some (name, value)
    | _ => none
  | _ => none

/-! ### Values -/

/-- Where in a value the next character stands. -/
inductive Place
  /-- Outside of quotes, or between double ones. -/
  | text (quoted : Bool)
  /-- Between single quotes. -/
  | verbatim
  /-- Behind a backslash. -/
  | escaped (quoted : Bool)
  /-- Behind a dollar sign and a part of a name, latest character first. -/
  | name (quoted : Bool) (part : List Char)
  /-- The same between braces. -/
  | braces (quoted : Bool) (part : List Char)
  /-- Behind the value. -/
  | after

/-- What has been read of a value. -/
structure Scan where
  /-- The characters of the value, latest first. -/
  done : List Char
  place : Place

namespace Scan

/-- The scan with a character added. -/
def push (s : Scan) (c : Char) (place : Place) : Scan := ⟨c :: s.done, place⟩

/-- The scan with the value of a variable added. -/
def substitute (s : Scan) (vars : Variables) (part : List Char) (place : Place) : Scan :=
  ⟨(valueOf vars (String.ofList part.reverse)).toList.reverse ++ s.done, place⟩

/-- One character between double quotes or outside of quotes. -/
def inText (s : Scan) (quoted : Bool) (c : Char) : Scan :=
  if c = '$' then ⟨s.done, .name quoted []⟩
  else if c = '"' then ⟨s.done, .text !quoted⟩
  else if c = '\\' then ⟨s.done, .escaped quoted⟩
  else if quoted then s.push c (.text quoted)
  else if c = '\'' then ⟨s.done, .verbatim⟩
  else if c = ' ' ∨ c = '\t' then ⟨s.done, .after⟩
  else s.push c (.text quoted)

/-- One character behind a backslash: a line feed for its letter, or a character that would
otherwise have a meaning. -/
def inEscape (s : Scan) (quoted : Bool) (c : Char) : Option Scan :=
  if c = 'n' then some (s.push '\n' (.text quoted))
  else if ['\\', '\'', '"', '$', ' '].contains c then some (s.push c (.text quoted))
  else none

/-- One character behind a dollar sign. What ends a name is itself part of the value. -/
def inName (s : Scan) (vars : Variables) (quoted : Bool) (part : List Char) (c : Char) : Scan :=
  if Text.isLetterOrDigit c then ⟨s.done, .name quoted (c :: part)⟩
  else if c = '{' ∧ part = [] then ⟨s.done, .braces quoted []⟩
  else if c = '$' then s.substitute vars part (.name quoted [])
  else (s.substitute vars part (.text quoted)).push c (.text quoted)

/-- One more character, if it may stand there. -/
def next (s : Scan) (vars : Variables) (c : Char) : Option Scan :=
  match s.place with
  | .text quoted => some (s.inText quoted c)
  | .verbatim => some (if c = '\'' then ⟨s.done, .text false⟩ else s.push c .verbatim)
  | .escaped quoted => s.inEscape quoted c
  | .name quoted part => some (s.inName vars quoted part c)
  | .braces quoted part =>
    some (if c = '}' then s.substitute vars part (.text quoted)
      else ⟨s.done, .braces quoted (c :: part)⟩)
  | .after => if c = ' ' ∨ c = '\t' then some s else none

/-- Whether a comment begins with a character. -/
def isComment (s : Scan) (c : Char) : Bool :=
  match s.place with
  | .after => c == '#'
  | _ => false

/-- The value, if no quotes and no braces are open. -/
def finish (s : Scan) (vars : Variables) : Option String :=
  match s.place with
  | .text false | .escaped false | .after => some (String.ofList s.done.reverse)
  | .name false part => some (String.ofList (s.substitute vars part s.place).done.reverse)
  | _ => none

/-- The value that characters complete. -/
def run (s : Scan) (vars : Variables) : List Char → Option String
  | [] => s.finish vars
  | c :: rest =>
    if s.isComment c then s.finish vars
    else
      match s.next vars c with
      | none => none
      | some s => s.run vars rest

end Scan

/-- The value behind an equals sign. -/
def readValue (vars : Variables) (cs : List Char) : Option String :=
  match cs.dropWhile Text.isBlank with
  | '#' :: _ => some ""
  | cs => (⟨[], .text false⟩ : Scan).run vars cs

/-! ### Lines -/

/-- The variables after the lines of a file. -/
def load (vars : Variables) : List String → Variables
  | [] => vars
  | line :: rest =>
    match (Text.trim line).toList with
    | [] | '#' :: _ => load vars rest
    | cs =>
      match readTarget cs with
      | none => vars
      | some (name, cs) =>
        match readValue vars cs with
        | none => vars
        | some value => load (setIn vars name value) rest

/-- The words of a file that may name variables. -/
def words (file : String) : List String :=
  (file.splitToList fun c => !isNamePart c) ++ file.splitToList fun c => !Text.isLetterOrDigit c

end TwoWayPeg.SettingsFile
